import AdbBridge.Executor.Environment
import AdbBridge.Handler.ExecPipe
import AdbBridge.Library.Json

namespace AdbBridge
namespace Handler

open Library Library.Numeral Library.Json Executor

/-!
# The environment of a JSON request

`parse_env` joins each string member of the object `env` to an entry `KEY=VALUE`, and
`apply_env` takes the entries apart in the child.  cJSON hands over names and values as C
strings, so that what follows a `\u0000` in them is not seen.
-/

namespace JsonEnv

/-! ## `parse_env` -/

/-- `cJSON_GetObjectItem`: the first member with the name, up to the case of letters. -/
def getObjectItem (request : Value) (name : List UInt8) : Option Value :=
  match request with
  | .object members =>
      (members.find? (fun entry => (cString entry.1).map lower == name.map lower)).map
        (fun entry => entry.2)
  | _ => none

/-- The block of an entry: the C strings of a name and a value around `=`, and a terminator. -/
def entryBlock (name value : List UInt8) : List UInt8 := cString name ++ 61 :: cString value ++ [0]

/-- The loop over the members.  `malloc` tells which of its calls succeed; `calls` were made
and `env` was filled so far. -/
def parseEntries (malloc : Nat -> Bool) :
    Nat -> List (List UInt8) -> List (List UInt8 × Value) -> List (List UInt8)
  | _, env, [] => env
  | calls, env, (name, value) :: rest =>
      if maxEnv ≤ env.length then env
      else
        match value with
        | .string text =>
            if malloc calls then parseEntries malloc (calls + 1) (env ++ [entryBlock name text]) rest
            else parseEntries malloc (calls + 1) env rest
        | _ => parseEntries malloc calls env rest

/-- `parse_env`; without an array there are no entries. -/
def parseEnv (malloc : Nat -> Bool) (request : Value) : List (List UInt8) :=
  match getObjectItem request (ascii "env") with
  | some (.object members) => if malloc 0 then parseEntries malloc 1 [] members else []
  | _ => []

/-- The child's environment, and the array behind `apply_env`. -/
def childEnv (malloc : Nat -> Bool) (inherited : Environment) (request : Value) :
    Environment × List (List UInt8) :=
  applyEnvInPlace inherited (parseEnv malloc request)

/-! ## The members that are used -/

/-- The text of a string. -/
def stringText : Value -> Option (List UInt8)
  | .string text => some text
  | _ => none

/-- The members with a string value, in their order. -/
def stringMembers (members : List (List UInt8 × Value)) : List (List UInt8 × List UInt8) :=
  members.filterMap (fun entry => (stringText entry.2).map (fun text => (entry.1, text)))

/-- The first of them, as many as the array has room for. -/
def usedMembers (members : List (List UInt8 × Value)) : List (List UInt8 × List UInt8) :=
  (stringMembers members).take maxEnv

/-- A name and a value as C strings. -/
def cStrings (entry : List UInt8 × List UInt8) : List UInt8 × List UInt8 :=
  (cString entry.1, cString entry.2)

/-- Every name is one that an environment can have. -/
def ProperNames (entries : List (List UInt8 × List UInt8)) : Prop :=
  forall entry, entry ∈ entries -> entry.1 ≠ [] ∧ 61 ∉ entry.1

instance (entries : List (List UInt8 × List UInt8)) : Decidable (ProperNames entries) :=
  inferInstanceAs (Decidable (forall entry, entry ∈ entries -> _))

variable {malloc : Nat -> Bool} {inherited : Environment} {request : Value}
  {members : List (List UInt8 × Value)}

theorem parseEntries_string (calls : Nat) (env : List (List UInt8)) (name text : List UInt8) :
    parseEntries malloc calls env ((name, .string text) :: members) =
      if maxEnv ≤ env.length then env
      else if malloc calls then parseEntries malloc (calls + 1) (env ++ [entryBlock name text]) members
      else parseEntries malloc (calls + 1) env members := rfl

theorem parseEntries_skip {value : Value} (notString : stringText value = none) (calls : Nat)
    (env : List (List UInt8)) (name : List UInt8) :
    parseEntries malloc calls env ((name, value) :: members) =
      if maxEnv ≤ env.length then env else parseEntries malloc calls env members := by
  cases value with
  | string text => cases notString
  | null | bool | number | array | object => rfl

theorem stringMembers_skip {value : Value} (notString : stringText value = none) (name : List UInt8) :
    stringMembers ((name, value) :: members) = stringMembers members := by
  rw [stringMembers, List.filterMap_cons, notString]
  rfl

/-- The array holds the used members, one block for each. -/
theorem parseEntries_eq (allocates : forall call, malloc call = true) (calls : Nat)
    (env : List (List UInt8)) (members : List (List UInt8 × Value)) :
    parseEntries malloc calls env members =
      env ++ ((stringMembers members).take (maxEnv - env.length)).map
        (fun entry => entryBlock entry.1 entry.2) := by
  induction members generalizing calls env with
  | nil =>
      rw [stringMembers, List.filterMap_nil, List.take_nil, List.map_nil, List.append_nil]
      rfl
  | cons first members inductionHypothesis =>
      rcases first with ⟨name, value⟩
      by_cases full : maxEnv ≤ env.length
      · have stops : parseEntries malloc calls env ((name, value) :: members) = env := if_pos full
        rw [stops, Nat.sub_eq_zero_of_le full, List.take_zero, List.map_nil, List.append_nil]
      · cases isString : stringText value with
        | none =>
            rw [parseEntries_skip isString, if_neg full, stringMembers_skip isString]
            exact inductionHypothesis calls env
        | some text =>
            have same : value = .string text := by
              cases value with
              | string other => exact congrArg Value.string (Option.some.inj isString)
              | null | bool | number | array | object => cases isString
            have room : maxEnv - env.length = (maxEnv - (env.length + 1)) + 1 := by omega
            have used : stringMembers ((name, .string text) :: members) =
                (name, text) :: stringMembers members := rfl
            rw [same, parseEntries_string, if_neg full, if_pos (allocates calls), inductionHypothesis,
              used, List.length_append, List.length_singleton, room, List.take_succ_cons, List.map_cons,
              List.append_assoc]
            rfl

/-- As C strings the blocks are the entries. -/
theorem cString_entryBlock (name value : List UInt8) :
    cString (entryBlock name value) = cString name ++ 61 :: cString value := by
  have noZero : forall byte, byte ∈ cString name ++ 61 :: cString value -> byte ≠ 0 := by
    intro byte member
    rcases List.mem_append.mp member with inName | behind
    · exact ne_zero_of_mem_cString inName
    · rcases List.mem_cons.mp behind with isEqual | inValue
      · rw [isEqual]
        decide
      · exact ne_zero_of_mem_cString inValue
  exact cString_append_zero noZero

/-- What the child's environment says of the members that were used, with allocations that
succeed. -/
theorem childEnv_eq (allocates : forall call, malloc call = true)
    (isObject : getObjectItem request (ascii "env") = some (.object members)) :
    (childEnv malloc inherited request).1 = applyEnv inherited
      (((usedMembers members).map cStrings).map (fun entry => entry.1 ++ 61 :: entry.2)) := by
  have array : parseEnv malloc request =
      (usedMembers members).map (fun entry => entryBlock entry.1 entry.2) := by
    rw [parseEnv, isObject]
    dsimp only
    rw [if_pos (allocates 0), parseEntries_eq allocates]
    rfl
  have texts : (parseEnv malloc request).map cString =
      ((usedMembers members).map cStrings).map (fun entry => entry.1 ++ 61 :: entry.2) := by
    rw [array, List.map_map, List.map_map]
    exact List.map_congr_left (fun entry _ => cString_entryBlock entry.1 entry.2)
  rw [childEnv, applyEnvInPlace_eq, texts]

/-- The members of `env` override the inherited environment, each up to the first zero of its
name and its value, if the names are proper; and `apply_env` leaves any array as it found it. -/
theorem json_env_applied (allocates : forall call, malloc call = true)
    (isObject : getObjectItem request (ascii "env") = some (.object members)) :
    (ProperNames ((usedMembers members).map cStrings) ->
      Overrides inherited ((usedMembers members).map cStrings) (childEnv malloc inherited request).1) ∧
      forall env, (applyEnvInPlace inherited env).2 = env := by
  refine ⟨fun names => ?_, fun env => ?_⟩
  · rw [childEnv_eq allocates isObject]
    exact applyEnv_overrides inherited names
  · rw [applyEnvInPlace_eq]

/-- A request with a number between two values of one variable. -/
def sampleRequest : Value :=
  .object [(ascii "command", .string (ascii "env")), (ascii "env", .object [(ascii "A", .string (ascii "1=2")),
    (ascii "B", .number (ascii "7")), (ascii "A", .string (ascii "x"))])]

theorem json_env_applied_sample :
    Overrides (fun _ => none) [(ascii "A", ascii "1=2"), (ascii "A", ascii "x")]
      (childEnv (fun _ => true) (fun _ => none) sampleRequest).1 :=
  (@json_env_applied _ _ sampleRequest _ (fun _ => rfl) rfl).1 (by decide)

/-- A value with a zero in it. -/
def zeroRequest : Value :=
  .object [(ascii "env", .object [(ascii "A", .string [120, 0, 121])])]

/-- The child has the value up to the zero. -/
theorem json_env_cuts_at_zero :
    getObjectItem zeroRequest (ascii "env") = some (.object [(ascii "A", .string [120, 0, 121])]) ∧
      ProperNames [(ascii "A", [120, 0, 121])] ∧
      (childEnv (fun _ => true) (fun _ => none) zeroRequest).1 (ascii "A") = some [120] ∧
      ¬ Overrides (fun _ => none) [(ascii "A", [120, 0, 121])]
        (childEnv (fun _ => true) (fun _ => none) zeroRequest).1 := by
  have cut : (childEnv (fun _ => true) (fun _ => none) zeroRequest).1 (ascii "A") = some [120] := by decide
  refine ⟨rfl, by decide, cut, fun overrides => ?_⟩
  have whole := (overrides (ascii "A")).2 [] [120, 0, 121] [] rfl (fun _ => List.not_mem_nil)
  exact absurd (cut.symm.trans whole) (by decide)

end JsonEnv
end Handler
end AdbBridge
