import AdbBridge.Library.Numeral
import AdbBridge.Library.Search
import Mathlib.Logic.Function.Basic

namespace AdbBridge
namespace Executor

open Library.Numeral Library.Search

/-!
# The environment of a child

The handlers hand entries `KEY=VALUE` to the executor.  The child sets them one after
the other, over what it has inherited from the server; then it runs the command.
-/

/-- The value of each variable that is set. -/
abbrev Environment : Type := List UInt8 -> Option (List UInt8)

/-- `setenv(name, value, 1)`, which refuses an empty name. -/
def Environment.setenv (environment : Environment) (name value : List UInt8) : Environment :=
  if name = [] then environment else Function.update environment name (some value)

/-- One entry: the first `=` ends the name.  An entry without one is skipped. -/
def applyEntry (environment : Environment) (entry : List UInt8) : Environment :=
  if 61 ∈ entry then
    let name := entry.takeWhile (fun byte => byte != 61)
    environment.setenv name (entry.drop (name.length + 1))
  else environment

def applyEnv (environment : Environment) (env : List (List UInt8)) : Environment :=
  env.foldl applyEntry environment

variable {environment : Environment} {name value entry : List UInt8} {env : List (List UInt8)}

theorem applyEntry_found (found : applyEntry environment entry name = some value) :
    environment name = some value ∨ entry = name ++ 61 :: value := by
  rw [applyEntry] at found
  by_cases equal : 61 ∈ entry
  · rw [if_pos equal] at found
    unfold Environment.setenv at found
    split at found
    · exact Or.inl found
    · by_cases here : name = entry.takeWhile (fun byte => byte != 61)
      · rw [here, Function.update_self] at found
        rw [here, ← Option.some.inj found]
        exact Or.inr (split_at_first equal)
      · rw [Function.update_of_ne here] at found
        exact Or.inl found
  · rw [if_neg equal] at found
    exact Or.inl found

/-- What the child has under a name it has inherited, or an entry says so. -/
theorem applyEnv_found (found : applyEnv environment env name = some value) :
    environment name = some value ∨ name ++ 61 :: value ∈ env := by
  induction env generalizing environment with
  | nil => exact Or.inl found
  | cons entry env inductionHypothesis =>
      rcases inductionHypothesis found with earlier | later
      · rcases applyEntry_found earlier with inherited | same
        · exact Or.inl inherited
        · exact Or.inr (List.mem_cons.mpr (Or.inl same.symm))
      · exact Or.inr (List.mem_cons_of_mem entry later)

/-! ## The entries in memory -/

/-- `strchr`: the first place of the byte before the terminator. -/
def strchr (memory : List UInt8) (byte : UInt8) : Option Nat :=
  if byte ∈ cString memory then some ((cString memory).takeWhile (fun other => other != byte)).length
  else none

/-- One entry in memory: its `=` is a terminator while `setenv` reads the two parts. -/
def applyInPlace (environment : Environment) (memory : List UInt8) : Environment × List UInt8 :=
  match strchr memory 61 with
  | none => (environment, memory)
  | some eq =>
      let cut := memory.set eq 0
      (environment.setenv (cString cut) (cString (cut.drop (eq + 1))), cut.set eq 61)

/-- `apply_env` on the array of these entries. -/
def applyEnvInPlace : Environment -> List (List UInt8) -> Environment × List (List UInt8)
  | environment, [] => (environment, [])
  | environment, memory :: rest =>
      let applied := applyInPlace environment memory
      let others := applyEnvInPlace applied.1 rest
      (others.1, applied.2 :: others.2)

variable {memory rest : List UInt8}

theorem ne_zero_of_mem_cString {byte : UInt8} (member : byte ∈ cString memory) : byte ≠ 0 := by
  rintro rfl
  exact not_mem_takeWhile 0 memory member

/-- An entry that is split at its first `=`. -/
theorem applyEntry_split (proper : 61 ∉ name) (environment : Environment) (value : List UInt8) :
    applyEntry environment (name ++ 61 :: value) = environment.setenv name value := by
  have member : (61 : UInt8) ∈ name ++ 61 :: value := List.mem_append_right name List.mem_cons_self
  rw [applyEntry, if_pos member, takeWhile_append_cons proper value]
  dsimp only
  rw [drop_length_append]

/-- The same in memory. -/
theorem applyInPlace_split (noZero : forall byte, byte ∈ name -> byte ≠ 0) (proper : 61 ∉ name)
    (environment : Environment) (rest : List UInt8) :
    applyInPlace environment (name ++ 61 :: rest) =
      (environment.setenv name (cString rest), name ++ 61 :: rest) := by
  have behind : cString (61 :: rest) = 61 :: cString rest := List.takeWhile_cons_of_pos (by decide)
  have text : cString (name ++ 61 :: rest) = name ++ 61 :: cString rest := by
    rw [cString_append noZero, behind]
  have found : strchr (name ++ 61 :: rest) 61 = some name.length := by
    rw [strchr, text, if_pos (List.mem_append_right name List.mem_cons_self),
      takeWhile_append_cons proper]
  unfold applyInPlace
  rw [found]
  dsimp only
  rw [set_length_append, set_length_append, cString_append_zero noZero, drop_length_append]

/-- The two parts are the ones in front of and behind the first `=`, which is put back. -/
theorem applyInPlace_eq (environment : Environment) (memory : List UInt8) :
    applyInPlace environment memory = (applyEntry environment (cString memory), memory) := by
  by_cases equal : 61 ∈ cString memory
  · let name := (cString memory).takeWhile (fun byte => byte != 61)
    let value := (cString memory).drop (name.length + 1)
    let behind := memory.dropWhile (fun byte => byte != 0)
    have text : cString memory = name ++ 61 :: value := split_at_first equal
    have proper : 61 ∉ name := not_mem_takeWhile 61 (cString memory)
    have noZero : forall byte, byte ∈ name -> byte ≠ 0 :=
      fun byte member => ne_zero_of_mem_cString ((List.takeWhile_prefix _).subset member)
    have whole : memory = name ++ 61 :: (value ++ behind) := by
      calc
        memory = cString memory ++ behind := (List.takeWhile_append_dropWhile).symm
        _ = (name ++ 61 :: value) ++ behind := congrArg (fun text => text ++ behind) text
        _ = name ++ 61 :: (value ++ behind) := List.append_assoc _ _ _
    have read : cString memory = name ++ 61 :: cString (value ++ behind) := by
      have first : cString (61 :: (value ++ behind)) = 61 :: cString (value ++ behind) :=
        List.takeWhile_cons_of_pos (by decide)
      have split := congrArg cString whole
      rw [cString_append noZero, first] at split
      exact split
    rw [read, applyEntry_split proper, whole]
    exact applyInPlace_split noZero proper environment _
  · have absent : strchr memory 61 = none := if_neg equal
    rw [applyInPlace, absent, applyEntry, if_neg equal]

/-- `apply_env` does what the entries say, and leaves the array as it was. -/
theorem applyEnvInPlace_eq (environment : Environment) (env : List (List UInt8)) :
    applyEnvInPlace environment env = (applyEnv environment (env.map cString), env) := by
  induction env generalizing environment with
  | nil => rfl
  | cons memory env inductionHypothesis =>
      rw [applyEnvInPlace, applyInPlace_eq]
      dsimp only
      rw [inductionHypothesis]
      rfl

/-! ## Variables that are overridden -/

/-- The environment is the inherited one, overridden by the entries in their order. -/
def Overrides (inherited : Environment) (entries : List (List UInt8 × List UInt8))
    (environment : Environment) : Prop :=
  forall name,
    ((forall value, (name, value) ∉ entries) -> environment name = inherited name) ∧
      forall before value after, entries = before ++ (name, value) :: after ->
        (forall other, (name, other) ∉ after) -> environment name = some value

/-- An entry with a proper name is applied by an update. -/
theorem applyEntry_join (some_ : name ≠ []) (proper : 61 ∉ name) (value : List UInt8) :
    applyEntry environment (name ++ 61 :: value) = Function.update environment name (some value) := by
  rw [applyEntry_split proper, Environment.setenv, if_neg some_]

/-- Entries with proper names override what was inherited. -/
theorem applyEnv_overrides (environment : Environment) {entries : List (List UInt8 × List UInt8)}
    (names : forall entry, entry ∈ entries -> entry.1 ≠ [] ∧ 61 ∉ entry.1) :
    Overrides environment entries
      (applyEnv environment (entries.map (fun entry => entry.1 ++ 61 :: entry.2))) := by
  induction entries generalizing environment with
  | nil => exact fun name => ⟨fun _ => rfl, fun before value after split _ => by simp at split⟩
  | cons first entries inductionHypothesis =>
      rcases first with ⟨key, first⟩
      have here := names (key, first) List.mem_cons_self
      have later := inductionHypothesis (Function.update environment key (some first))
        (fun entry member => names entry (List.mem_cons_of_mem _ member))
      rw [List.map_cons, applyEnv, List.foldl_cons, applyEntry_join here.1 here.2]
      intro name
      rcases later name with ⟨absent, lastOf⟩
      constructor
      · intro none
        have other : name ≠ key := by
          rintro rfl
          exact none first List.mem_cons_self
        exact (absent (fun value member => none value (List.mem_cons_of_mem _ member))).trans
          (Function.update_of_ne other _ _)
      · intro before value after split noLater
        cases before with
        | nil =>
            rcases List.cons.inj split with ⟨isFirst, isAfter⟩
            rcases Prod.mk.inj isFirst with ⟨rfl, rfl⟩
            refine (absent (fun other member => noLater other (isAfter ▸ member))).trans ?_
            exact Function.update_self _ _ _
        | cons _ before => exact lastOf before value after (List.cons.inj split).2 noLater

end Executor
end AdbBridge
