import AdbBridge.Client.Shell
import AdbBridge.Library.Search

namespace AdbBridge
namespace Client

open Library.Search

/-!
# The arguments of a command

`parse_exec_args` separates the variables behind `--env` from the words of the
command, joins the words with blanks and turns the variables into a JSON object.
The two results leave the function as one text, with `|||` between them, and are
separated again at the first such mark.
-/

variable {α : Type} (alphabet : Alphabet α)

/-! ## Joining the words -/

/-- The loop of `parse_exec_args` that joins the words. -/
def joinParts (parts : List (List α)) : List α :=
  parts.foldl (fun cmdStr part => if cmdStr = [] then part else cmdStr ++ alphabet.text " " ++ part) []

section Joining

variable {alphabet}

/-- The words joined by single blanks. -/
def joined (alphabet : Alphabet α) (parts : List (List α)) : List α :=
  (alphabet.text " ").intercalate parts

theorem joined_cons_cons (first second : List α) (rest : List (List α)) :
    joined alphabet (first :: second :: rest) =
      first ++ (alphabet.text " " ++ joined alphabet (second :: rest)) := by
  rw [joined, List.intercalate_cons_cons, List.append_assoc]
  rfl

private theorem foldl_join {start : List α} (some : start ≠ []) (parts : List (List α)) :
    parts.foldl (fun cmdStr part => if cmdStr = [] then part else cmdStr ++ alphabet.text " " ++ part)
      start = joined alphabet (start :: parts) := by
  induction parts generalizing start with
  | nil => simp [joined, List.intercalate]
  | cons part parts inductionHypothesis =>
      have longer : start ++ alphabet.text " " ++ part ≠ [] := by simp [some]
      rw [List.foldl_cons, if_neg some, inductionHypothesis longer]
      cases parts with
      | nil => simp [joined, List.intercalate]
      | cons next others =>
          rw [joined_cons_cons, joined_cons_cons, joined_cons_cons]
          simp only [List.append_assoc]

/-- A first word that is not empty is joined with all others. -/
theorem joinParts_of_ne_nil {part : List α} (some : part ≠ []) (parts : List (List α)) :
    joinParts alphabet (part :: parts) = joined alphabet (part :: parts) := by
  rw [joinParts, List.foldl_cons, if_pos rfl]
  exact foldl_join some parts

/-- An empty first word leaves no trace, not even a blank. -/
theorem joinParts_nil_cons (parts : List (List α)) :
    joinParts alphabet ([] :: parts) = joinParts alphabet parts := by
  rw [joinParts, List.foldl_cons, if_pos rfl]
  rfl

/-- No empty word stands before others. -/
def StartsWithWord (parts : List (List α)) : Prop := parts.head? = some [] -> parts.length = 1

instance [DecidableEq α] (parts : List (List α)) : Decidable (StartsWithWord parts) :=
  inferInstanceAs (Decidable (_ -> _))

theorem length_joinParts_le (alphabet : Alphabet α) (parts : List (List α)) :
    (joinParts alphabet parts).length ≤ (joined alphabet parts).length := by
  induction parts with
  | nil => exact Nat.le_refl _
  | cons part parts inductionHypothesis =>
      by_cases empty : part = []
      · rw [empty, joinParts_nil_cons]
        cases parts with
        | nil => exact Nat.zero_le _
        | cons next others =>
            rw [joined_cons_cons, List.length_append, List.length_append]
            omega
      · rw [joinParts_of_ne_nil empty]

/-- If nothing is missing in the length, no empty word stands before others. -/
theorem startsWithWord_of_length (blank : alphabet.text " " ≠ []) {parts : List (List α)}
    (whole : (joined alphabet parts).length ≤ (joinParts alphabet parts).length) :
    StartsWithWord parts := by
  intro isEmpty
  rcases List.head?_eq_some_iff.mp isEmpty with ⟨rest, isParts⟩
  cases rest with
  | nil => rw [isParts]; rfl
  | cons next others =>
      have shorter := length_joinParts_le alphabet (next :: others)
      have positive := List.length_pos_iff.mpr blank
      rw [isParts, joinParts_nil_cons, joined_cons_cons, List.nil_append, List.length_append] at whole
      omega

theorem joinParts_of_startsWithWord {parts : List (List α)} (starts : StartsWithWord parts) :
    joinParts alphabet parts = joined alphabet parts := by
  cases parts with
  | nil => rfl
  | cons part rest =>
      by_cases empty : part = []
      · have single := starts (by rw [empty]; rfl)
        rw [List.length_eq_zero_iff.mp (Nat.succ.inj single), empty]
        rfl
      · exact joinParts_of_ne_nil empty rest

end Joining

/-! ## Taking the arguments apart -/

variable [DecidableEq α]

/-- `${kv%%=*}` -/
def keyOf (kv : List α) : List α := beforeFirst (alphabet.text "=") kv

/-- `${kv#*=}`, which is the whole text if there is no `=` in it. -/
def valueOf (kv : List α) : List α := (afterFirst (alphabet.text "=") kv).getD kv

/-- The member `build_env_json` makes of one variable. -/
def envMember (kv : List α) : List α :=
  alphabet.text "\"" ++ alphabet.captured (alphabet.quoted (keyOf alphabet kv)) ++
    alphabet.text "\":\"" ++ alphabet.captured (alphabet.quoted (valueOf alphabet kv)) ++
    alphabet.text "\""

/-- What `build_env_json` prints. -/
def buildEnvJson (vars : List (List α)) : List α :=
  alphabet.echo (alphabet.text "\x7b" ++
    (alphabet.text ",").intercalate (vars.map (envMember alphabet)) ++ alphabet.text "\x7d")

/-- The arrays of `parse_exec_args` and its flag. -/
structure ExecArgs (α : Type) where
  envVars : List (List α)
  cmdParts : List (List α)
  inEnv : Bool
deriving DecidableEq, Repr

/-- One argument. -/
def ExecArgs.arg (args : ExecArgs α) (arg : List α) : ExecArgs α :=
  if arg = alphabet.text "--env" then { args with inEnv := true }
  else if args.inEnv then { args with envVars := args.envVars ++ [arg], inEnv := false }
  else { args with cmdParts := args.cmdParts ++ [arg] }

/-- What `parse_exec_args` prints. -/
def parseExecArgs (args : List (List α)) : List α :=
  let found := args.foldl (ExecArgs.arg alphabet) ⟨[], [], false⟩
  let envJson :=
    if found.envVars = [] then [] else alphabet.captured (buildEnvJson alphabet found.envVars)
  alphabet.echo (joinParts alphabet found.cmdParts ++ alphabet.text "|||" ++ envJson)

/-- `result`, from which the command and the variables are taken. -/
def execResult (args : List (List α)) : List α := alphabet.captured (parseExecArgs alphabet args)

/-- `cmd="${result%%|||*}"` -/
def commandOf (args : List (List α)) : List α :=
  beforeFirst (alphabet.text "|||") (execResult alphabet args)

/-- `env_json="${result#*|||}"` -/
def envJsonOf (args : List (List α)) : List α :=
  (afterFirst (alphabet.text "|||") (execResult alphabet args)).getD (execResult alphabet args)

variable {alphabet} {args parts : List (List α)}

/-- Without `--env` all arguments are words of the command. -/
theorem execArgs_of_plain (plain : forall arg, arg ∈ args -> arg ≠ alphabet.text "--env")
    (cmdParts : List (List α)) :
    args.foldl (ExecArgs.arg alphabet) ⟨[], cmdParts, false⟩ = ⟨[], cmdParts ++ args, false⟩ := by
  induction args generalizing cmdParts with
  | nil => rw [List.append_nil]; rfl
  | cons arg args inductionHypothesis =>
      have here := plain arg List.mem_cons_self
      rw [List.foldl_cons, ExecArgs.arg, if_neg here, if_neg (by simp),
        inductionHypothesis (fun other member => plain other (List.mem_cons_of_mem arg member)),
        List.append_assoc]
      rfl

end Client
end AdbBridge
