import AdbBridge.Client.PipeQuery
import AdbBridge.Executor.Environment
import AdbBridge.Library.Lines

namespace AdbBridge
namespace Client

open Library Library.Numeral Library.Lines Library.PercentCoding Library.Search
open Server Handler Executor

/-!
# The variables of `pipe`

`pipe` has its variables from the JSON object that `build_env_json` printed for it, and
takes that text apart again: at commas into lines, and each line at its first `=`.  But
the object has colons between names and values.  What is taken for the name of a
variable contains one, and the server, which does not decode it, sets it as it came.
-/

/-! ## The client -/

/-- `${text#symbol}` -/
def dropLeading (symbol : Char) (text : List Char) : List Char :=
  if text.head? = some symbol then text.tail else text

/-- `${text%symbol}` -/
def dropTrailing (symbol : Char) (text : List Char) : List Char :=
  if text.getLast? = some symbol then text.dropLast else text

/-- `s/^"//;s/"$//` -/
def unquoteLine (line : List Char) : List Char := dropTrailing '"' (dropLeading '"' line)

/-- `$(echo "$text" | sed 's/^"//;s/"$//')` -/
def unquoted (text : List Char) : List Char :=
  characters.captured (unlines '\n' ((lines '\n' (characters.echo text)).map unquoteLine))

/-- What `read` leaves for the last of its names: one separator at the end is dropped if
there is no other. -/
def lastField (rest : List Char) : List Char :=
  if rest.getLast? = some '=' ∧ '=' ∉ rest.dropLast then rest.dropLast else rest

/-- `IFS='=' read -r key value` -/
def readFields (line : List Char) : List Char × List Char :=
  let key := line.takeWhile (fun symbol => symbol != '=')
  (key, lastField (line.drop (key.length + 1)))

/-- The variable that is made of one line. -/
def envVariable (line : List Char) : List Char :=
  unquoted (readFields line).1 ++ '=' :: unquoted (readFields line).2

/-- `s/,/\n/g` -/
def commaToNewline (symbol : Char) : Char := if symbol = ',' then '\n' else symbol

/-- The array `env_vars` of `pipe`. -/
def pipeVariables (envJson : List Char) : List (List Char) :=
  let inner := dropTrailing '\x7d' (dropLeading '\x7b' envJson)
  if inner = [] then []
  else (lines '\n' ((characters.echo inner).map commaToNewline)).map envVariable

/-- The flag `raw`. -/
def isRaw (args : List (List Char)) : Bool := args.head? = some (characters.text "--raw")

/-- The arguments `parse_exec_args` is called with. -/
def execArguments (args : List (List Char)) : List (List Char) :=
  if isRaw args then args.tail else args

/-- The query `pipe` sends for its arguments; without any it prints its usage and sends
nothing. -/
def pipeRequest (args : List (List Char)) : Option (List UInt8) :=
  if args = [] then none
  else
    some (pipeQuery (isRaw args) (commandOf characters (execArguments args))
      (pipeVariables (envJsonOf characters (execArguments args))))

/-! ## The server -/

/-- The environment of the command that is run for a query. -/
def childEnvironment (inherited : Environment) (query : List UInt8) : Option Environment :=
  match handleExecPipe query with
  | .runs _ env _ => some (applyEnv inherited env)
  | .refused _ _ => none

/-- Whatever the server was started with, the child has the value under the name. -/
def Reaches (args : List (List Char)) (name value : List Char) : Prop :=
  forall inherited, Exists fun query => Exists fun environment =>
    pipeRequest args = some query ∧ childEnvironment inherited query = some environment ∧
      environment (Utf8.encode name) = some (Utf8.encode value)

/-! ## What is asked for -/

/-- A variable: its name is one for the shell, and its value has no newline. -/
structure Variable where
  name : List Char
  value : List Char
  isName : name ≠ [] ∧ (name.head?.all Char.isDigit = false) ∧
    forall char, char ∈ name -> (char.isAlphanum || char == '_') = true
  oneLine : '\n' ∉ value

/-- `KEY=VALUE` -/
def Variable.argument (v : Variable) : List Char := v.name ++ '=' :: v.value

/-- What `parse_exec_args` finds in the arguments. -/
def found (args : List (List Char)) : ExecArgs Char :=
  (execArguments args).foldl (ExecArgs.arg characters) ⟨[], [], false⟩

/-- What a command has behind its first mark, once a mark is put behind the command. -/
def behindMark (cmd : List Char) : List Char :=
  (afterFirst (characters.text "|||") (cmd ++ characters.text "|||")).getD []

/-- Nothing behind a mark in the command can be taken for a variable. -/
def Separate (cmd : List Char) : Prop :=
  forall char, char ∈ behindMark cmd -> char ≠ '=' ∧ char ≠ ',' ∧ char ≠ '\n'

/-! ## The text between the braces -/

variable {args : List (List Char)} {wanted : List Variable} {text cmd line : List Char} {symbol other : Char}
  {byte : UInt8}

theorem mem_dropLeading (member : other ∈ text) (differs : other ≠ symbol) :
    other ∈ dropLeading symbol text := by
  rw [dropLeading]
  split
  next isFirst =>
    rcases List.head?_eq_some_iff.mp isFirst with ⟨rest, isText⟩
    rw [isText] at member ⊢
    exact (List.mem_cons.mp member).resolve_left differs
  next => exact member

theorem mem_dropTrailing (member : other ∈ text) (differs : other ≠ symbol) :
    other ∈ dropTrailing symbol text := by
  rw [dropTrailing]
  split
  next isLast =>
    have isText := List.dropLast_append_getLast? symbol isLast
    rw [← isText] at member
    rcases List.mem_append.mp member with before | last
    · exact before
    · exact absurd (List.mem_singleton.mp last) differs
  next => exact member

theorem mem_of_mem_dropLeading (member : other ∈ dropLeading symbol text) : other ∈ text := by
  rw [dropLeading] at member
  split at member
  · exact List.mem_of_mem_tail member
  · exact member

theorem mem_of_mem_dropTrailing (member : other ∈ dropTrailing symbol text) : other ∈ text := by
  rw [dropTrailing] at member
  split at member
  · exact List.dropLast_subset text member
  · exact member

theorem dropLeading_cons (symbol : Char) (text : List Char) : dropLeading symbol (symbol :: text) = text :=
  if_pos rfl

theorem dropLeading_cons_of_ne (differs : other ≠ symbol) (text : List Char) :
    dropLeading symbol (other :: text) = other :: text :=
  if_neg (fun same => differs (Option.some.inj same))

theorem dropTrailing_concat (symbol : Char) (text : List Char) :
    dropTrailing symbol (text ++ [symbol]) = text := by
  rw [dropTrailing, if_pos List.getLast?_concat, List.dropLast_concat]

/-- Of the braces only the first can be missing at its place, where something stands before it. -/
theorem strip_braces (before members : List Char) : Exists fun rest =>
    dropTrailing '\x7d' (dropLeading '\x7b' (before ++ ('\x7b' :: (members ++ ['\x7d'])))) = rest ++ members ∧
      forall char, char ∈ rest -> char ∈ before ∨ char = '\x7b' := by
  cases before with
  | nil =>
      refine ⟨[], ?_, nofun⟩
      rw [List.nil_append, dropLeading_cons, dropTrailing_concat]
      rfl
  | cons first before =>
      by_cases brace : first = '\x7b'
      · refine ⟨before ++ ['\x7b'], ?_, ?_⟩
        · rw [brace, List.cons_append, dropLeading_cons, ← List.cons_append, ← List.append_assoc,
            dropTrailing_concat, List.append_assoc]
          rfl
        · intro char member
          rcases List.mem_append.mp member with inBefore | isBrace
          · exact Or.inl (List.mem_cons_of_mem first inBefore)
          · exact Or.inr (List.mem_singleton.mp isBrace)
      · refine ⟨first :: before ++ ['\x7b'], ?_, ?_⟩
        · rw [List.cons_append, dropLeading_cons_of_ne brace, ← List.cons_append, ← List.cons_append,
            ← List.append_assoc, dropTrailing_concat, List.append_assoc]
          rfl
        · intro char member
          rcases List.mem_append.mp member with inBefore | isBrace
          · exact Or.inl inBefore
          · exact Or.inr (List.mem_singleton.mp isBrace)

/-! ## Lines of a list -/

/-- Texts without commas that a comma separates become lines. -/
theorem commas_to_lines (free : forall char, char ∈ line -> char ≠ ',') {others : List (List Char)}
    (othersFree : forall other, other ∈ others -> forall char, char ∈ other -> char ≠ ',') :
    (([','].intercalate (line :: others)) ++ ['\n']).map commaToNewline = unlines '\n' (line :: others) := by
  have same : forall text : List Char, (forall char, char ∈ text -> char ≠ ',') ->
      text.map commaToNewline = text := by
    intro text noComma
    exact (List.map_congr_left (fun char member => if_neg (noComma char member))).trans (List.map_id text)
  induction others generalizing line with
  | nil =>
      rw [List.intercalate_singleton, List.map_append, same line free, unlines_cons]
      rfl
  | cons next others inductionHypothesis =>
      have later := inductionHypothesis (othersFree next List.mem_cons_self)
        (fun other member => othersFree other (List.mem_cons_of_mem next member))
      rw [List.intercalate_cons_cons, List.append_assoc, List.append_assoc, List.map_append, same line free,
        List.map_append, later, unlines_cons line]
      rfl

/-! ## Names with a colon -/

theorem not_option_of_colon (colon : ':' ∈ text) : isEchoOption (text.map Char.toNat) = false :=
  isEchoOption_eq_false (List.mem_map_of_mem colon) (by decide)

/-- Of a line with a colon only quotes are taken away. -/
theorem unquoted_of_colon (colon : ':' ∈ text) (oneLine : '\n' ∉ text) : unquoted text = unquoteLine text := by
  have printed : characters.echo text = text ++ '\n' :: [] := echo_of_not_option (not_option_of_colon colon)
  have free : characters.symbol '\n' ∉ unquoteLine text :=
    fun member => oneLine (mem_of_mem_dropLeading (mem_of_mem_dropTrailing member))
  rw [unquoted, printed, lines_cons oneLine, lines_nil, List.map_singleton, unlines_cons]
  exact Alphabet.captured_line free

theorem keyOf_append {key : List Char} (free : '=' ∉ key) (value : List Char) :
    keyOf characters (key ++ '=' :: value) = key :=
  (split_at_pattern [] free value).1

theorem valueOf_append {key : List Char} (free : '=' ∉ key) (value : List Char) :
    valueOf characters (key ++ '=' :: value) = value := by
  have found := (split_at_pattern [] free value).2
  exact congrArg (fun rest => Option.getD rest _) found

/-- A colon before the first `=` of a line gets into the name. -/
theorem colon_mem_keyOf {before rest : List Char} (free : '=' ∉ before)
    (oneLine : '\n' ∉ before ++ ':' :: rest) :
    ':' ∈ keyOf characters (envVariable (before ++ ':' :: rest)) := by
  have field : (readFields (before ++ ':' :: rest)).1 =
      before ++ ':' :: rest.takeWhile (fun symbol => symbol != '=') := by
    rw [readFields, takeWhile_append_of_absent free, List.takeWhile_cons_of_pos (by decide)]
  have colon : ':' ∈ (readFields (before ++ ':' :: rest)).1 := by
    rw [field]
    exact List.mem_append_right before List.mem_cons_self
  have key : unquoted (readFields (before ++ ':' :: rest)).1 =
      unquoteLine (readFields (before ++ ':' :: rest)).1 :=
    unquoted_of_colon colon (fun member => oneLine ((List.takeWhile_prefix _).subset member))
  have noEqual : '=' ∉ unquoted (readFields (before ++ ':' :: rest)).1 := by
    rw [key]
    exact fun member => not_mem_takeWhile '=' _ (mem_of_mem_dropLeading (mem_of_mem_dropTrailing member))
  rw [envVariable, keyOf_append noEqual, key]
  exact mem_dropTrailing (mem_dropLeading colon (by decide)) (by decide)

/-- The encoding of a name with a colon has a `%`. -/
theorem percent_mem_urlencode (colon : ':' ∈ text) : (37 : UInt8) ∈ urlencode text := by
  rw [urlencode_eq, if_neg (by simp [not_option_of_colon colon])]
  exact List.mem_flatMap.mpr ⟨':', colon, by decide⟩

/-! ## The members of the object -/

theorem Variable.unreserved (v : Variable) {char : Char} (member : char ∈ v.name) :
    isUnreserved char = true := by
  rcases (Bool.or_eq_true _ _).mp (v.isName.2.2 char member) with letter | underscore
  · simp only [isUnreserved, letter, Bool.true_or]
  · rw [beq_iff_eq.mp underscore]
    decide

/-- No other character occurs in a name. -/
theorem Variable.not_mem_name (v : Variable) {char : Char} (special : isUnreserved char = false) :
    char ∉ v.name :=
  fun member => absurd ((v.unreserved member).symm.trans special) nofun

/-- The bytes of a name are written as they are. -/
theorem Variable.mem_encode (v : Variable) (member : byte ∈ Utf8.encode v.name) :
    isUrlByte byte = true ∧ byte ≠ 37 := by
  rw [Utf8.encode_ascii (fun char inName => (unreserved_ascii (v.unreserved inName)).1)] at member
  rcases List.mem_map.mp member with ⟨char, inName, same⟩
  have facts := unreserved_ascii (v.unreserved inName)
  rw [same] at facts
  exact ⟨facts.2.1, facts.2.2.1⟩

/-- What stands in the object for a variable, up to the colon and from the colon on. -/
theorem Variable.envMember_eq (v : Variable) : envMember characters v.argument =
    ('"' :: (v.name ++ ['"'])) ++ ':' :: ('"' :: (characters.quoted v.value ++ ['"'])) := by
  have noEqual := v.not_mem_name (show isUnreserved '=' = false by decide)
  have name : characters.captured (characters.quoted v.name) = v.name := by
    rw [Alphabet.quoted_of_free (v.not_mem_name (by decide))]
    exact Alphabet.captured_of_free (v.not_mem_name (by decide))
  have value : characters.captured (characters.quoted v.value) = characters.quoted v.value :=
    Alphabet.captured_of_free (fun member => v.oneLine (Alphabet.mem_of_mem_quoted member (by decide)))
  rw [envMember, argument, keyOf_append noEqual, valueOf_append noEqual, name, value]
  simp only [List.append_assoc, List.cons_append, List.nil_append]
  rfl

/-- A member holds no other special character than its variable. -/
theorem Variable.not_mem_envMember (v : Variable) {char : Char} (special : isUnreserved char = false)
    (noQuote : char ≠ '"' ∧ char ≠ '\\' ∧ char ≠ ':') (absent : char ∉ v.value) :
    char ∉ envMember characters v.argument := by
  rw [v.envMember_eq]
  simp only [List.mem_append, List.mem_cons, List.not_mem_nil, or_false, not_or]
  exact ⟨⟨noQuote.1, v.not_mem_name special, noQuote.1⟩, noQuote.2.2, noQuote.1,
    fun member => absent (Alphabet.mem_of_mem_quoted member noQuote.2.1), noQuote.1⟩

/-! ## From the arguments to the lines -/

/-- The members of the object, with commas between them. -/
def members (wanted : List Variable) : List Char :=
  [','].intercalate (wanted.map (fun v => envMember characters v.argument))

/-- The object as `build_env_json` prints it. -/
theorem captured_buildEnvJson (wanted : List Variable) :
    characters.captured (buildEnvJson characters (wanted.map Variable.argument)) =
      '\x7b' :: (members wanted ++ ['\x7d']) := by
  have object : buildEnvJson characters (wanted.map Variable.argument) =
      characters.echo (('\x7b' :: members wanted) ++ ['\x7d']) := by
    rw [buildEnvJson, List.map_map]
    rfl
  have plain : isEchoOption ((('\x7b' :: members wanted) ++ ['\x7d']).map characters.code) = false :=
    isEchoOption_eq_false (List.mem_map_of_mem List.mem_cons_self) (by decide)
  rw [object, Alphabet.captured_echo_concat (by decide) plain, List.cons_append]

/-- What `pipe` takes for the object is preceded by what the command has behind its first mark. -/
theorem envJsonOf_eq (given : (found args).envVars = wanted.map Variable.argument) (some : wanted ≠ []) :
    envJsonOf characters (execArguments args) =
      behindMark (joinParts characters (found args).cmdParts) ++ '\x7b' :: (members wanted ++ ['\x7d']) := by
  let command := joinParts characters (found args).cmdParts
  have hasVars : (found args).envVars ≠ [] := by
    rw [given]
    exact fun none => some (List.map_eq_nil_iff.mp none)
  have printed : parseExecArgs characters (execArguments args) = characters.echo
      (command ++ characters.text "|||" ++ '\x7b' :: members wanted ++ ['\x7d']) := by
    have object : (if (found args).envVars = [] then []
        else characters.captured (buildEnvJson characters (found args).envVars)) =
        '\x7b' :: (members wanted ++ ['\x7d']) := by
      rw [if_neg hasVars, given, captured_buildEnvJson]
    rw [List.append_assoc _ _ ['\x7d'], List.cons_append, ← object]
    rfl
  have plain : isEchoOption ((command ++ characters.text "|||" ++ '\x7b' :: members wanted ++ ['\x7d']).map
      characters.code) = false := by
    have brace : '\x7d' ∈ command ++ characters.text "|||" ++ '\x7b' :: members wanted ++ ['\x7d'] :=
      List.mem_append_right _ (List.mem_singleton_self _)
    exact isEchoOption_eq_false (List.mem_map_of_mem brace) (by decide)
  have result : execResult characters (execArguments args) =
      (command ++ characters.text "|||") ++ '\x7b' :: (members wanted ++ ['\x7d']) := by
    rw [execResult, printed, Alphabet.captured_echo_concat (by decide) plain, List.append_assoc _ _ ['\x7d'],
      List.cons_append]
  rcases exists_afterFirst (show characters.text "|||" ≠ [] by decide) command with ⟨behind, isBehind⟩
  have whole := afterFirst_append isBehind ('\x7b' :: (members wanted ++ ['\x7d']))
  rw [envJsonOf, result, whole, Option.getD_some, behindMark, isBehind, Option.getD_some]

theorem append_intercalate (separator lead first : List Char) (others : List (List Char)) :
    lead ++ separator.intercalate (first :: others) = separator.intercalate ((lead ++ first) :: others) := by
  cases others with
  | nil => rw [List.intercalate_singleton, List.intercalate_singleton]
  | cons next others =>
      rw [List.intercalate_cons_cons, List.intercalate_cons_cons, List.append_assoc, List.append_assoc,
        List.append_assoc]

/-- The members come out as lines, the first of them behind what precedes the object. -/
theorem pipeVariables_eq {behind text : List Char} {others : List (List Char)}
    (separate : forall char, char ∈ behind -> char ≠ '=' ∧ char ≠ ',' ∧ char ≠ '\n') (colon : ':' ∈ text)
    (free : forall line, line ∈ text :: others -> ',' ∉ line ∧ '\n' ∉ line) : Exists fun lead =>
    '=' ∉ lead ∧ '\n' ∉ lead ∧
      pipeVariables (behind ++ '\x7b' :: ([','].intercalate (text :: others) ++ ['\x7d'])) =
        ((lead ++ text) :: others).map envVariable := by
  rcases strip_braces behind ([','].intercalate (text :: others)) with ⟨lead, inner, fromBehind⟩
  have leadFree : forall char, char ∈ lead -> char ≠ '=' ∧ char ≠ ',' ∧ char ≠ '\n' := by
    intro char member
    rcases fromBehind char member with inBehind | brace
    · exact separate char inBehind
    · exact brace ▸ by decide
  have headFree : ',' ∉ lead ++ text ∧ '\n' ∉ lead ++ text := by
    have textFree := free text List.mem_cons_self
    rw [List.mem_append, List.mem_append, not_or, not_or]
    exact ⟨⟨fun member => (leadFree _ member).2.1 rfl, textFree.1⟩,
      ⟨fun member => (leadFree _ member).2.2 rfl, textFree.2⟩⟩
  have othersFree : forall line, line ∈ others -> ',' ∉ line ∧ '\n' ∉ line :=
    fun line member => free line (List.mem_cons_of_mem text member)
  rw [append_intercalate] at inner
  have hasColon : ':' ∈ [','].intercalate ((lead ++ text) :: others) := by
    rw [← append_intercalate]
    refine List.mem_append_right lead ?_
    rw [← List.append_nil text, ← append_intercalate]
    exact List.mem_append_left _ colon
  have printed : characters.echo ([','].intercalate ((lead ++ text) :: others)) =
      [','].intercalate ((lead ++ text) :: others) ++ ['\n'] := echo_of_not_option
      (not_option_of_colon hasColon)
  have cut : lines '\n' (unlines '\n' ((lead ++ text) :: others)) = (lead ++ text) :: others := by
    apply lines_unlines
    intro line member
    rcases List.mem_cons.mp member with isHead | isOther
    · exact isHead ▸ headFree.2
    · exact (othersFree line isOther).2
  refine ⟨lead, fun member => (leadFree _ member).1 rfl, fun member => (leadFree _ member).2.2 rfl, ?_⟩
  unfold pipeVariables
  rw [inner, if_neg (List.ne_nil_of_mem hasColon), printed,
    commas_to_lines (fun char member same => headFree.1 (same ▸ member))
      (fun line isOther char member same => (othersFree line isOther).1 (same ▸ member)), cut]

/-- If no value has a comma, the name of each variable that is sent has a colon. -/
theorem colon_mem_of_pipeVariables {behind : List Char} (some : wanted ≠ [])
    (separate : forall char, char ∈ behind -> char ≠ '=' ∧ char ≠ ',' ∧ char ≠ '\n')
    (noComma : forall v, v ∈ wanted -> ',' ∉ v.value) {kv : List Char}
    (member : kv ∈ pipeVariables (behind ++ '\x7b' :: (members wanted ++ ['\x7d']))) :
    ':' ∈ keyOf characters kv := by
  have memberFree : forall v, v ∈ wanted ->
      ',' ∉ envMember characters v.argument ∧ '\n' ∉ envMember characters v.argument := fun v listed =>
    ⟨v.not_mem_envMember (by decide) (by decide) (noComma v listed),
      v.not_mem_envMember (by decide) (by decide) v.oneLine⟩
  have equalFree : forall v : Variable, '=' ∉ '"' :: (v.name ++ ['"']) := by
    intro v inside
    simp only [List.mem_cons, List.mem_append, List.not_mem_nil, or_false] at inside
    rcases inside with quote | inName | quote
    · exact absurd quote (by decide)
    · exact v.not_mem_name (by decide) inName
    · exact absurd quote (by decide)
  -- each line is cut at the colon of its member
  have fromMember : forall (lead : List Char) (v : Variable), v ∈ wanted -> '=' ∉ lead -> '\n' ∉ lead ->
      ':' ∈ keyOf characters (envVariable (lead ++ envMember characters v.argument)) := by
    intro lead v listed noEqual oneLine
    have lineFree : '\n' ∉ lead ++ envMember characters v.argument :=
      fun inside => (List.mem_append.mp inside).elim oneLine (memberFree v listed).2
    have beforeFree : '=' ∉ lead ++ '"' :: (v.name ++ ['"']) :=
      fun inside => (List.mem_append.mp inside).elim noEqual (equalFree v)
    rw [v.envMember_eq, ← List.append_assoc] at lineFree ⊢
    exact colon_mem_keyOf beforeFree lineFree
  cases wanted with
  | nil => exact absurd rfl some
  | cons first others =>
      have colon : ':' ∈ envMember characters first.argument := by
        rw [first.envMember_eq]
        exact List.mem_append_right _ List.mem_cons_self
      have free : forall line, line ∈ envMember characters first.argument ::
          others.map (fun v => envMember characters v.argument) -> ',' ∉ line ∧ '\n' ∉ line := by
        intro line listed
        rcases List.mem_cons.mp listed with isFirst | isOther
        · exact isFirst ▸ memberFree first List.mem_cons_self
        · rcases List.mem_map.mp isOther with ⟨v, isWanted, rfl⟩
          exact memberFree v (List.mem_cons_of_mem first isWanted)
      rcases pipeVariables_eq separate colon free with ⟨lead, noEqual, oneLine, sent⟩
      rw [members, List.map_cons, sent, List.map_cons, List.map_map] at member
      rcases List.mem_cons.mp member with isFirst | isOther
      · exact isFirst ▸ fromMember lead first List.mem_cons_self noEqual oneLine
      · rcases List.mem_map.mp isOther with ⟨v, listed, rfl⟩
        have plain := fromMember [] v (List.mem_cons_of_mem first listed) List.not_mem_nil List.not_mem_nil
        exact plain

/-! ## What reaches the child -/

/-- What the command has in its environment it has inherited, or it was in the query. -/
theorem childEnvironment_found {inherited environment : Environment} {query name value : List UInt8}
    (run : childEnvironment inherited query = some environment) (isSet : environment name = some value) :
    inherited name = some value ∨ Exists fun entry =>
      entry ∈ (parseQuery query).env ∧ entry.1 ++ 61 :: entry.2 = name ++ 61 :: value := by
  rw [childEnvironment] at run
  split at run
  next env _ answer =>
    simp only [handleExecPipe] at answer
    split at answer
    next => cases answer
    next =>
      rw [← Option.some.inj run, ← (PipeAnswer.runs.inj answer).2.1] at isSet
      rcases applyEnv_found isSet with earlier | listed
      · exact Or.inl earlier
      · exact Or.inr (List.mem_map.mp listed)
  next => cases run

/-- What reaches the child whatever it inherits is one of the variables that are sent. -/
theorem sent_of_reaches {v : Variable} (reaches : Reaches args v.name v.value) : Exists fun kv =>
    kv ∈ pipeVariables (envJsonOf characters (execArguments args)) ∧
      urlencode (keyOf characters kv) = Utf8.encode v.name ∧
      urlencode (valueOf characters kv) = Utf8.encode v.value := by
  rcases reaches (fun _ => none) with ⟨query, environment, request, run, isSet⟩
  rw [pipeRequest] at request
  split at request
  · exact absurd request nofun
  · rcases childEnvironment_found run isSet with none | ⟨entry, listed, same⟩
    · exact absurd none nofun
    · rw [← Option.some.inj request] at listed
      rcases exists_of_mem_env listed with ⟨kv, sent, isEntry⟩
      have keyFree : (61 : UInt8) ∉ urlencode (keyOf characters kv) :=
        fun member => absurd (isUrlByte_of_mem_urlencode member) (by decide)
      have nameFree : (61 : UInt8) ∉ Utf8.encode v.name :=
        fun member => absurd (v.mem_encode member).1 (by decide)
      rw [isEntry] at same
      exact ⟨kv, sent, split_inj same keyFree nameFree⟩

/-- The variables reach the child if and only if there are none. -/
theorem pipe_env_reaches_child_iff (args : List (List Char)) (wanted : List Variable)
    (given : (found args).envVars = wanted.map Variable.argument)
    (separate : Separate (joinParts characters (found args).cmdParts)) :
    (forall v, v ∈ wanted -> Reaches args v.name v.value) ↔ wanted = [] := by
  constructor
  · intro all
    by_contra some
    have noComma : forall v, v ∈ wanted -> ',' ∉ v.value := by
      intro v listed comma
      rcases sent_of_reaches (all v listed) with ⟨kv, _, _, isValue⟩
      have inValue : (44 : UInt8) ∈ Utf8.encode v.value :=
        Utf8.mem_encode_of_ascii (show ','.toNat < 128 by decide) comma
      rw [← isValue] at inValue
      exact absurd (isUrlByte_of_mem_urlencode inValue) (by decide)
    rcases List.exists_mem_of_ne_nil wanted some with ⟨v, listed⟩
    rcases sent_of_reaches (all v listed) with ⟨kv, sent, isName, _⟩
    rw [envJsonOf_eq given some] at sent
    have colon := colon_mem_of_pipeVariables some separate noComma sent
    exact (v.mem_encode (isName ▸ percent_mem_urlencode colon)).2 rfl
  · rintro rfl v listed
    exact absurd listed List.not_mem_nil

/-- `FOO=bar` -/
def fooVariable : Variable where
  name := ['F', 'O', 'O']
  value := ['b', 'a', 'r']
  isName := ⟨by decide, by decide, forall_mem_of_all (by decide)⟩
  oneLine := by decide

theorem pipe_env_reaches_child_iff_foo :
    ¬ Reaches [characters.text "--env", characters.text "FOO=bar", ['l', 's']] ['F', 'O', 'O']
      ['b', 'a', 'r'] := by
  have iff := pipe_env_reaches_child_iff
    [characters.text "--env", characters.text "FOO=bar", ['l', 's']] [fooVariable] (by decide)
    (forall_mem_of_all (by decide))
  intro reaches
  have none := iff.mp (fun v listed => (List.mem_singleton.mp listed) ▸ reaches)
  exact absurd none (List.cons_ne_nil _ _)

/-- The query for `FOO=bar` sets a variable whose name is `FOO%22%3A%22bar`. -/
theorem pipe_env_sets_quoted_name :
    pipeRequest [characters.text "--env", characters.text "FOO=bar", ['l', 's']] =
        some (ascii "command=ls&env_FOO%22%3A%22bar=") ∧
      handleExecPipe (ascii "command=ls&env_FOO%22%3A%22bar=") =
        .runs (ascii "ls") [ascii "FOO%22%3A%22bar="] false ∧
      ¬ Reaches [characters.text "--env", characters.text "FOO=bar", ['l', 's']] ['F', 'O', 'O']
        ['b', 'a', 'r'] := by
  have request : pipeRequest [characters.text "--env", characters.text "FOO=bar", ['l', 's']] =
      some (ascii "command=ls&env_FOO%22%3A%22bar=") := by decide
  have answer : handleExecPipe (ascii "command=ls&env_FOO%22%3A%22bar=") =
      .runs (ascii "ls") [ascii "FOO%22%3A%22bar="] false := by decide
  refine ⟨request, answer, ?_⟩
  intro reaches
  rcases reaches (fun _ => none) with ⟨query, environment, sent, run, isSet⟩
  rw [← Option.some.inj (request.symm.trans sent), childEnvironment, answer] at run
  rw [← Option.some.inj run] at isSet
  rcases applyEnv_found isSet with none | entry
  · exact absurd none nofun
  · exact absurd entry (by decide)

end Client
end AdbBridge
