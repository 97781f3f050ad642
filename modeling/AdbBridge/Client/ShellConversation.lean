import AdbBridge.Client.JsonRequest
import AdbBridge.Handler.JsonBodies

namespace AdbBridge
namespace Client

open Library Library.Search Library.Numeral Library.Json Executor Cjson Handler

/-!
# A command with its environment, from the shell to the child

`adb-termux shell` pastes a command and the variables behind `--env` into a JSON text, cJSON makes
an item of it, and the handler takes the command and the environment out of the item.  What arrives is
what was given, as long as the script's text processing leaves it alone.
-/

/-! ## Arguments with variables -/

/-- An argument of the command, or a variable behind `--env`. -/
inductive Given where
  | word (part : List UInt8)
  | env (kv : List UInt8)
deriving DecidableEq, Repr

/-- The arguments as they are typed. -/
def Given.args : Given -> List (List UInt8)
  | .word part => [part]
  | .env kv => [ascii "--env", kv]

def Given.part? : Given -> Option (List UInt8)
  | .word part => some part
  | .env _ => none

def Given.var? : Given -> Option (List UInt8)
  | .word _ => none
  | .env kv => some kv

/-- The arguments of a call. -/
def typed (given : List Given) : List (List UInt8) := given.flatMap Given.args

/-- The words of the command. -/
def partsOf (given : List Given) : List (List UInt8) := given.filterMap Given.part?

/-- The variables. -/
def varsOf (given : List Given) : List (List UInt8) := given.filterMap Given.var?

variable {given : List Given}

/-- No argument is taken for the option. -/
def NoOption (given : List Given) : Prop :=
  (forall part, part ∈ partsOf given -> part ≠ ascii "--env") ∧ forall kv, kv ∈ varsOf given ->
    kv ≠ ascii "--env"

instance (given : List Given) : Decidable (NoOption given) := inferInstanceAs (Decidable (_ ∧ _))

theorem execArgs_typed (noOption : NoOption given) (envVars cmdParts : List (List UInt8)) :
    (typed given).foldl (ExecArgs.arg bytes) ⟨envVars, cmdParts, false⟩ =
      ⟨envVars ++ varsOf given, cmdParts ++ partsOf given, false⟩ := by
  induction given generalizing envVars cmdParts with
  | nil => simp [typed, varsOf, partsOf]
  | cons first given inductionHypothesis =>
      have option : bytes.text "--env" = ascii "--env" := rfl
      cases first with
      | word part =>
          have parts : partsOf (.word part :: given) = part :: partsOf given := rfl
          have vars : varsOf (.word part :: given) = varsOf given := rfl
          have args : typed (.word part :: given) = part :: typed given := rfl
          rw [NoOption, parts, vars] at noOption
          rw [args, List.foldl_cons, ExecArgs.arg, option, if_neg (noOption.1 part List.mem_cons_self),
            if_neg Bool.false_ne_true, parts, vars]
          refine (inductionHypothesis ⟨fun other member => noOption.1 other (List.mem_cons_of_mem _ member),
            noOption.2⟩ _ _).trans ?_
          rw [List.append_assoc, List.singleton_append]
      | env kv =>
          have parts : partsOf (.env kv :: given) = partsOf given := rfl
          have vars : varsOf (.env kv :: given) = kv :: varsOf given := rfl
          have args : typed (.env kv :: given) = ascii "--env" :: kv :: typed given := rfl
          rw [NoOption, parts, vars] at noOption
          rw [args, List.foldl_cons, ExecArgs.arg, option, if_pos rfl, List.foldl_cons, ExecArgs.arg, option,
            if_neg (noOption.2 kv List.mem_cons_self), if_pos rfl, parts, vars]
          refine (inductionHypothesis ⟨noOption.1, fun other member =>
            noOption.2 other (List.mem_cons_of_mem _ member)⟩
            _ _).trans ?_
          rw [List.append_assoc, List.singleton_append]

/-! ## The text of the variables -/

/-- A text that the script and JSON leave as it is, up to its quotes. -/
def Printable (text : List UInt8) : Prop := forall byte, byte ∈ text -> byte ≠ 92 ∧ 32 ≤ byte

instance (text : List UInt8) : Decidable (Printable text) := List.decidableBAll
    (fun byte => byte ≠ 92 ∧ 32 ≤ byte) text

theorem Printable.part {text part : List UInt8} (printable : Printable text) (isInfix : part <:+: text) :
    Printable part := fun byte member => printable byte (isInfix.subset member)

theorem Printable.noZero {text : List UInt8} (printable : Printable text) : (0 : UInt8) ∉ text :=
  fun zero => absurd (printable 0 zero).2 (by decide)

theorem Printable.captured {text : List UInt8} (printable : Printable text) :
    bytes.captured (bytes.quoted text) = bytes.quoted text := by
  have free : (10 : UInt8) ∉ text := fun newline => absurd (printable 10 newline).2 (by decide)
  rw [captured_quoted]
  exact congrArg bytes.quoted (Alphabet.captured_of_free free)

/-- Between quotes the text is read as it was. -/
theorem Printable.spelled {text : List UInt8}
    (printable : Printable text) : Spelled (bytes.quoted text) text := by
  intro tail
  rw [readString_quoted rfc8259 (fun backslash => (printable 92 backslash).1 rfl),
    if_pos (all_of_allowed (fun byte member => Or.inl (printable byte member).2))]

theorem keyOf_part (kv : List UInt8) : keyOf bytes kv <:+: kv :=
  List.IsPrefix.isInfix <| beforeFirst_prefix (bytes.text "=") kv

/-- A key has no equals sign. -/
theorem noEquals_keyOf (kv : List UInt8) : 61 ∉ keyOf bytes kv := by
  have isEquals : bytes.text "=" = [61] := by decide
  rw [keyOf, isEquals]
  induction kv with
  | nil => exact List.not_mem_nil
  | cons byte kv inductionHypothesis =>
      rw [beforeFirst]
      split
      · exact List.not_mem_nil
      next notHere =>
        intro member
        rcases List.mem_cons.mp member with here | later
        · exact notHere (here ▸ List.cons_prefix_cons.mpr ⟨rfl, List.nil_prefix⟩)
        · exact inductionHypothesis later

theorem valueOf_part (kv : List UInt8) : valueOf bytes kv <:+: kv := by
  rw [valueOf]
  cases found : afterFirst (bytes.text "=") kv with
  | none => exact List.infix_refl kv
  | some value =>
      refine ⟨beforeFirst (bytes.text "=") kv ++ bytes.text "=", [], ?_⟩
      rw [List.append_nil, List.append_assoc]
      exact (split_of_afterFirst found).symm

/-- The member of a variable. -/
def varMember (kv : List UInt8) : List UInt8 × Value := (keyOf bytes kv, .string (valueOf bytes kv))

theorem envMember_eq {kv : List UInt8} (printable : Printable kv) :
    envMember bytes kv = 34 :: (bytes.quoted (keyOf bytes kv) ++ 34 :: 58 ::
      (34 :: (bytes.quoted (valueOf bytes kv) ++ [34]))) := by
  have quote : bytes.text "\"" = [34] := by decide
  have between : bytes.text "\":\"" = [34, 58, 34] := by decide
  rw [envMember, (printable.part (keyOf_part kv)).captured, (printable.part (valueOf_part kv)).captured, quote,
    between]
  simp only [List.append_assoc, List.cons_append, List.nil_append]

theorem denotes_vars {kv : List UInt8} {vars : List (List UInt8)}
    (printable : forall other, other ∈ kv :: vars -> Printable other) :
    DenotesMembers ((bytes.text ",").intercalate ((kv :: vars).map (envMember bytes)))
      ((kv :: vars).map varMember) := by
  have here := printable kv List.mem_cons_self
  have key := (here.part (keyOf_part kv)).spelled
  have value := denotes_string (here.part (valueOf_part kv)).spelled
  induction vars generalizing kv with
  | nil =>
      have last := denotesMembers_last key value blanks_nil blanks_nil blanks_nil
      rw [List.map_cons, List.map_nil, List.intercalate_singleton, envMember_eq here]
      simpa only [List.nil_append, List.append_nil, List.map_singleton, varMember] using last
  | cons next vars inductionHypothesis =>
      have nextHere := printable next (List.mem_cons_of_mem _ List.mem_cons_self)
      have later := inductionHypothesis (fun other member =>
        printable other (List.mem_cons_of_mem _ member)) nextHere
        (nextHere.part (keyOf_part next)).spelled (denotes_string (nextHere.part (valueOf_part next)).spelled)
      have more := denotesMembers_more key value blanks_nil blanks_nil blanks_nil later
      have comma : bytes.text "," = [44] := by decide
      rw [List.map_cons, List.map_cons, List.intercalate_cons_cons, envMember_eq here, ← List.map_cons, comma]
      simp only [List.nil_append, List.append_assoc, List.cons_append] at more ⊢
      rw [comma] at more
      exact more

/-- The text `env_json` for some variables. -/
def envText (vars : List (List UInt8)) : List UInt8 :=
  if vars = [] then [] else 123 :: ((bytes.text ",").intercalate (vars.map (envMember bytes)) ++ [125])

theorem captured_envText {vars : List (List UInt8)} (some_ : vars ≠ []) :
    bytes.captured (buildEnvJson bytes vars) = envText vars := by
  have closing : bytes.text "\x7d" = [125] := by decide
  have opening : bytes.text "\x7b" = [123] := by decide
  rw [buildEnvJson, closing, opening]
  refine (Alphabet.captured_echo_concat (by decide) (isEchoOption_eq_false
    (List.mem_map.mpr ⟨125, List.mem_append_right _ (List.mem_singleton_self _), rfl⟩) (by decide))).trans ?_
  rw [envText, if_neg some_, List.append_assoc, List.singleton_append]

/-! ## What the script sends -/

/-- `parse_exec_args` prints the words, the mark and the variables. -/
theorem execResult_typed (noOption : NoOption given) :
    execResult bytes (typed given) = joinParts bytes (partsOf given) ++ mark ++ envText (varsOf given) := by
  have found := execArgs_typed noOption [] []
  rw [List.nil_append, List.nil_append] at found
  have bar : 124 ∈ joinParts bytes (partsOf given) ++ mark ++ envText (varsOf given) := by
    refine List.mem_append_left _ (List.mem_append_right _ ?_)
    decide
  have plain : isEchoOption ((joinParts bytes (partsOf given) ++ mark ++
    envText (varsOf given)).map UInt8.toNat) =
      false := isEchoOption_eq_false (List.mem_map.mpr ⟨124, bar, rfl⟩) (by decide)
  have printed : parseExecArgs bytes (typed given) =
      bytes.echo (joinParts bytes (partsOf given) ++ mark ++ envText (varsOf given)) := by
    rw [parseExecArgs, found]
    dsimp only
    by_cases none : varsOf given = []
    · rw [if_pos none, envText, if_pos none]
      rfl
    · rw [if_neg none, captured_envText none]
      rfl
  have ending : Exists fun before => Exists fun byte : UInt8 => byte ≠ bytes.symbol '\n' ∧
      joinParts bytes (partsOf given) ++ mark ++ envText (varsOf given) = before ++ [byte] := by
    by_cases none : varsOf given = []
    · refine ⟨joinParts bytes (partsOf given) ++ ascii "||", 124, by decide, ?_⟩
      rw [envText, if_pos none, List.append_nil, List.append_assoc]
      rfl
    · refine ⟨joinParts bytes (partsOf given) ++ mark ++
        123 :: (bytes.text ",").intercalate ((varsOf given).map (envMember bytes)), 125, by decide, ?_⟩
      rw [envText, if_neg none, ← List.cons_append, ← List.append_assoc]
  rcases ending with ⟨before, byte, other, isText⟩
  rw [execResult, printed]
  rw [isText] at plain ⊢
  exact Alphabet.captured_echo_concat other plain

/-- The command and the variables are separated where they were put together. -/
theorem split_typed (noOption : NoOption given) (starts : StartsWithWord (partsOf given))
    (carried : Carried rfc8259 (joined bytes (partsOf given))) :
    commandOf bytes (typed given) = joined bytes (partsOf given) ∧
      envJsonOf bytes (typed given) = envText (varsOf given) := by
  have result := execResult_typed noOption
  rw [joinParts_of_startsWithWord starts] at result
  have isMark : bytes.text "|||" = mark := rfl
  rcases exists_afterFirst (by decide : mark ≠ []) (joined bytes (partsOf given)) with ⟨rest, found⟩
  rcases eq_of_split carried.noMark carried.noBar (split_of_afterFirst found) with ⟨isCommand, noRest⟩
  constructor
  · rw [commandOf, result, isMark, beforeFirst_append found, isCommand]
  · rw [envJsonOf, result, isMark, afterFirst_append found, noRest]
    rfl

/-- The value of the body. -/
def shellValue (command : List UInt8) (vars : List (List UInt8)) : Value :=
  .object ((ascii "command", .string command) ::
    if vars = [] then [] else [(ascii "env", .object (vars.map varMember))])

theorem denotes_body {command : List UInt8} {vars : List (List UInt8)} (printableCommand : Printable command)
    (printable : forall kv, kv ∈ vars -> Printable kv) :
    Denotes (buildJson (bytes.quoted command) (envText vars)) (shellValue command vars) := by
  have names : Json.Plain (ascii "command") ∧ Json.Plain (ascii "env") :=
    ⟨plain_name, forall_mem_of_all (by decide)⟩
  have isCommand := denotes_string printableCommand.spelled
  have opening : openMember (ascii "command") = 123 :: 34 :: (ascii "command" ++ [34, 58, 34]) := by decide
  cases vars with
  | nil =>
      have inside := denotesMembers_last names.1.spelled isCommand blanks_nil blanks_nil blanks_nil
      have whole := denotes_object blanks_nil inside
      rw [buildJson_eq, envText, if_pos rfl, bodyTail, if_pos rfl, opening, shellValue, if_pos rfl]
      simp only [List.nil_append, List.append_nil, List.append_assoc, List.cons_append] at whole ⊢
      exact whole
  | cons kv vars =>
      have notEmpty : envText (kv :: vars) ≠ [] := by
        rw [envText, if_neg (List.cons_ne_nil kv vars)]
        exact List.cons_ne_nil _ _
      have isEnv := denotes_object blanks_nil (denotes_vars printable)
      have last := denotesMembers_last names.2.spelled isEnv blanks_nil blanks_nil blanks_nil
      have inside := denotesMembers_more names.1.spelled isCommand blanks_nil blanks_nil blanks_nil last
      have whole := denotes_object blanks_nil inside
      have isName : ascii "nv\":" = 110 :: 118 :: [34, 58] := by decide
      have name : ascii "env" = [101, 110, 118] := by decide
      rw [buildJson_eq, bodyTail, if_neg notEmpty, envText, if_neg (List.cons_ne_nil kv vars), opening,
        shellValue,
        if_neg (List.cons_ne_nil kv vars), isName]
      rw [name] at whole ⊢
      simp only [List.nil_append, List.append_nil, List.append_assoc, List.cons_append] at whole ⊢
      exact whole

theorem noZero_quoted {text : List UInt8} (printable : Printable text) : (0 : UInt8) ∉ bytes.quoted text :=
  fun zero => printable.noZero (Alphabet.mem_of_mem_quoted zero (by decide))

theorem noZero_members {vars : List (List UInt8)} (printable : forall kv, kv ∈ vars -> Printable kv) :
    (0 : UInt8) ∉ (bytes.text ",").intercalate (vars.map (envMember bytes)) := by
  have member : forall {kv}, Printable kv -> (0 : UInt8) ∉ envMember bytes kv := by
    intro kv here
    have key := noZero_quoted (here.part (keyOf_part kv))
    have value := noZero_quoted (here.part (valueOf_part kv))
    rw [envMember_eq here]
    simp [key, value]
  induction vars with
  | nil => exact List.not_mem_nil
  | cons kv vars inductionHypothesis =>
      have here := member (printable kv List.mem_cons_self)
      have later := inductionHypothesis (fun other isVar => printable other (List.mem_cons_of_mem _ isVar))
      cases vars with
      | nil => rwa [List.map_singleton, List.intercalate_singleton]
      | cons next vars =>
          rw [List.map_cons, List.map_cons, List.intercalate_cons_cons, ← List.map_cons, List.mem_append,
            List.mem_append, not_or, not_or]
          exact ⟨⟨here, by decide⟩, later⟩

theorem cString_body {command : List UInt8} {vars : List (List UInt8)} (printableCommand : Printable command)
    (printable : forall kv, kv ∈ vars -> Printable kv) :
    cString (buildJson (bytes.quoted command) (envText vars)) =
      buildJson (bytes.quoted command) (envText vars) := by
  have noCommand := noZero_quoted printableCommand
  have noVars := noZero_members printable
  have noEnv : (0 : UInt8) ∉ envText vars := by
    rw [envText]
    split_ifs
    · exact List.not_mem_nil
    · simp [noVars]
  refine (eq_cString_iff.mpr ?_).symm
  rw [buildJson]
  split_ifs
  all_goals simp only [List.mem_append, not_or]
  · exact ⟨⟨by decide, noCommand⟩, by decide⟩
  · exact ⟨⟨⟨⟨by decide, noCommand⟩, by decide⟩, noEnv⟩, by decide⟩

variable {Double : Type} {doubles : Doubles Double}

theorem nesting_vars (vars : List (List UInt8)) :
    nestingOfMembers (namedItemsOf doubles (vars.map varMember)) = 0 := by
  induction vars with
  | nil => rw [List.map_nil, namedItemsOf, nestingOfMembers]
  | cons kv vars inductionHypothesis =>
      rw [List.map_cons, varMember, namedItemsOf, nestingOfMembers, inductionHypothesis, itemOf, Item.nesting]
      rfl

theorem nesting_shellValue (doubles : Doubles Double) (command : List UInt8) (vars : List (List UInt8)) :
    (itemOf doubles (shellValue command vars)).nesting ≤ nestingLimit := by
  rw [shellValue, itemOf, Item.nesting, namedItemsOf, nestingOfMembers, itemOf, Item.nesting]
  split_ifs
  · rw [namedItemsOf, nestingOfMembers]
    decide
  · rw [namedItemsOf, nestingOfMembers, itemOf, Item.nesting, nesting_vars, namedItemsOf, nestingOfMembers]
    decide

/-! ## What the child gets -/

/-- A name and a value of a variable. -/
def assignment (kv : List UInt8) : List UInt8 × List UInt8 := (keyOf bytes kv, valueOf bytes kv)

theorem parseEnv_shellValue {malloc : Nat -> Bool} (allocates : forall call, malloc call = true)
    (command : List UInt8) {vars : List (List UInt8)} (printable : forall kv, kv ∈ vars -> Printable kv) :
    (JsonEnv.parseEnv malloc (shellValue command vars)).map cString =
      ((vars.take maxEnv).map assignment).map (fun entry => entry.1 ++ 61 :: entry.2) := by
  by_cases none : vars = []
  · subst none
    have noEnv : JsonEnv.getObjectItem (shellValue command []) (ascii "env") = none := by
      rw [shellValue, if_pos rfl]
      rfl
    rw [JsonEnv.parseEnv, noEnv]
    rfl
  · have isEnv : JsonEnv.getObjectItem (shellValue command vars) (ascii "env") =
        some (.object (vars.map varMember)) := by
      rw [shellValue, if_neg none]
      rfl
    have strings : JsonEnv.stringMembers (vars.map varMember) = vars.map assignment := by
      rw [JsonEnv.stringMembers, List.filterMap_map]
      have same : (fun entry : List UInt8 × Value => (JsonEnv.stringText entry.2).map (fun text =>
        (entry.1, text))) ∘
          varMember = some ∘ assignment := rfl
      rw [same, List.filterMap_eq_map]
    rw [JsonEnv.parseEnv, isEnv]
    dsimp only
    rw [if_pos (allocates 0), JsonEnv.parseEntries_eq allocates, strings, List.nil_append, List.length_nil,
      Nat.sub_zero, ← List.map_take, List.map_map, List.map_map, List.map_map]
    refine List.map_congr_left (fun kv member => ?_)
    have here := printable kv (List.mem_of_mem_take member)
    rw [Function.comp_apply, Function.comp_apply, Function.comp_apply, JsonEnv.cString_entryBlock, assignment,
      ← eq_cString_iff.mpr (here.part (keyOf_part kv)).noZero,
      ← eq_cString_iff.mpr (here.part (valueOf_part kv)).noZero]

/-- `adb-termux shell --env A=1 ls "a b"`. -/
def listingCall : List Given := [.env (ascii "A=1"), .word (ascii "ls"), .word (ascii "\"a b\"")]

end Client
end AdbBridge
