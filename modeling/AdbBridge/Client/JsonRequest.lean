import AdbBridge.Client.Arguments
import AdbBridge.Library.Json

namespace AdbBridge
namespace Client

open Library Library.Numeral Library.Search Library.Json

/-!
# The JSON request of `shell` and `stream`

The command is put between quotes after a backslash was set before each quote in
it, and nothing else was escaped.  The server takes the string apart again by the
rules of JSON, where a backslash begins an escape: from a command with a
backslash it reads a shorter text, or none.
-/

/-! ## The client -/

/-- What `build_json` prints. -/
def buildJson (cmd envJson : List UInt8) : List UInt8 :=
  if envJson = [] then ascii "\x7b\"command\":\"" ++ cmd ++ ascii "\"\x7d"
  else ascii "\x7b\"command\":\"" ++ cmd ++ ascii "\",\"env\":" ++ envJson ++ ascii "\x7d"

/-- The body `shell` and `stream` send for their arguments; without any they print their
usage and send nothing. -/
def requestBody (args : List (List UInt8)) : Option (List UInt8) :=
  if args = [] then none
  else
    let escaped := bytes.captured (bytes.quoted (commandOf bytes args))
    some (buildJson escaped (envJsonOf bytes args))

/-! ## The server -/

/-- The command of `handle_exec`: the string under `command` in the body. -/
def execCommand (dialect : Dialect) (body : List UInt8) : Option (List UInt8) :=
  match (parse dialect body).bind (fun request => request.member (ascii "command")) with
  | some (.string command) => some command
  | _ => none

/-- The command the server extracts from the request. -/
def received (dialect : Dialect) (args : List (List UInt8)) : Option (List UInt8) :=
  (requestBody args).bind (execCommand dialect)

/-! ## Strings in which only quotes are escaped -/

variable {dialect : Dialect} {text tail string rest : List UInt8}

theorem quoted_cons_quote (text : List UInt8) :
    bytes.quoted (34 :: text) = 92 :: 34 :: bytes.quoted text := by
  rw [Alphabet.quoted, List.flatMap_cons, if_pos (by decide)]
  rfl

theorem quoted_cons {byte : UInt8} (notQuote : byte ≠ 34) (text : List UInt8) :
    bytes.quoted (byte :: text) = byte :: bytes.quoted text := by
  have isQuote : bytes.symbol '"' = 34 := by decide
  rw [Alphabet.quoted, List.flatMap_cons, if_neg (by rw [isQuote]; exact notQuote)]
  rfl

/-- A character that may stand in a string. -/
def Allowed (dialect : Dialect) (byte : UInt8) : Prop := 32 ≤ byte ∨ dialect.rawControls = true

instance (dialect : Dialect) (byte : UInt8) : Decidable (Allowed dialect byte) :=
  inferInstanceAs (Decidable (_ ∨ _))

theorem readChar_backslash (rest : List UInt8) : readChar dialect (92 :: rest) = readEscape rest := by
  rw [readChar, if_pos rfl]

/-- A quote is read back from its escape. -/
theorem readString_quote_step (text tail : List UInt8) :
    readString dialect (bytes.quoted (34 :: text) ++ 34 :: tail) =
      (readString dialect (bytes.quoted text ++ 34 :: tail)).map
        (fun result => (34 :: result.1, result.2)) := by
  have escape : readEscape (34 :: (bytes.quoted text ++ 34 :: tail)) =
      some ([34], bytes.quoted text ++ 34 :: tail) := readEscape_of_not_unicode (by decide) _
  rw [quoted_cons_quote, List.cons_append, List.cons_append, readString_char (by simp),
    readChar_backslash, escape, Option.bind_some]
  rfl

/-- Any other character but a backslash is read back, if it may stand in a string. -/
theorem readString_plain_step {byte : UInt8} (notQuote : byte ≠ 34) (notEscape : byte ≠ 92)
    (text tail : List UInt8) :
    readString dialect (bytes.quoted (byte :: text) ++ 34 :: tail) =
      if Allowed dialect byte then
        (readString dialect (bytes.quoted text ++ 34 :: tail)).map
          (fun result => (byte :: result.1, result.2))
      else none := by
  rw [quoted_cons notQuote, List.cons_append, readString_char (by simpa using notQuote)]
  by_cases allowed : Allowed dialect byte
  · rw [readChar_plain notEscape allowed, if_pos allowed, Option.bind_some]
    rfl
  · have forbidden : byte < 32 ∧ dialect.rawControls = false := by
      rw [Allowed, not_or, UInt8.not_le, Bool.not_eq_true] at allowed
      exact allowed
    rw [readChar, if_neg notEscape, if_pos forbidden, if_neg allowed, Option.bind_none]

/-- A text without backslashes is read back, if its characters may stand in a string. -/
theorem readString_quoted (dialect : Dialect) (noEscape : 92 ∉ text) (tail : List UInt8) :
    readString dialect (bytes.quoted text ++ 34 :: tail) =
      if text.all (fun byte => decide (Allowed dialect byte)) then some (text, tail) else none := by
  induction text with
  | nil => exact readString_quote dialect tail
  | cons byte text inductionHypothesis =>
      have later := inductionHypothesis (fun member => noEscape (List.mem_cons_of_mem byte member))
      rw [List.all_cons]
      by_cases quote : byte = 34
      · have here : Allowed dialect byte := Or.inl (quote ▸ by decide)
        rw [decide_eq_true here, Bool.true_and, quote, readString_quote_step, later]
        split <;> rfl
      · have notEscape : byte ≠ 92 := fun same => noEscape (same ▸ List.mem_cons_self)
        rw [readString_plain_step quote notEscape, later]
        by_cases here : Allowed dialect byte
        · rw [if_pos here, decide_eq_true here, Bool.true_and]
          split <;> rfl
        · rw [if_neg here, decide_eq_false here, Bool.false_and]
          rfl

theorem all_of_allowed (allowed : forall byte, byte ∈ text -> Allowed dialect byte) :
    text.all (fun byte => decide (Allowed dialect byte)) = true :=
  List.all_eq_true.mpr (fun byte member => decide_eq_true (allowed byte member))

/-! ## Strings with a backslash -/

/-- A byte that is neither a quote nor a backslash stands for itself. -/
theorem uncons_quoted {byte : UInt8} (notQuote : byte ≠ 34) (notEscape : byte ≠ 92)
    (shape : bytes.quoted text ++ 34 :: tail = byte :: rest) : Exists fun others =>
    text = byte :: others ∧ rest = bytes.quoted others ++ 34 :: tail := by
  cases text with
  | nil => exact absurd (List.cons.inj shape).1.symm notQuote
  | cons first others =>
      by_cases quote : first = 34
      · rw [quote, quoted_cons_quote] at shape
        exact absurd (List.cons.inj shape).1.symm notEscape
      · rw [quoted_cons quote] at shape
        have parts := List.cons.inj shape
        exact ⟨others, by rw [parts.1], parts.2.symm⟩

/-- The digits of a unit are digits of the text. -/
theorem readUnit_quoted {unit : Nat}
    (read : readUnit (bytes.quoted text ++ 34 :: tail) = some (unit, rest)) : Exists fun others =>
    text.length = others.length + 4 ∧ rest = bytes.quoted others ++ 34 :: tail := by
  have digit : forall byte, isHexDigit byte = true -> byte ≠ 34 ∧ byte ≠ 92 := by
    intro byte isDigit
    constructor <;> rintro rfl <;> exact absurd isDigit (by decide)
  unfold readUnit at read
  split at read
  next first second third fourth others shape =>
    split at read
    next digits =>
      simp only [List.all_cons, List.all_nil, Bool.and_true, Bool.and_eq_true] at digits
      rcases uncons_quoted (digit _ digits.1).1 (digit _ digits.1).2 shape with ⟨_, isText, shape⟩
      rcases uncons_quoted (digit _ digits.2.1).1 (digit _ digits.2.1).2 shape.symm with
        ⟨_, isLater, shape⟩
      rcases uncons_quoted (digit _ digits.2.2.1).1 (digit _ digits.2.2.1).2 shape.symm with
        ⟨_, isLast, shape⟩
      rcases uncons_quoted (digit _ digits.2.2.2).1 (digit _ digits.2.2.2).2 shape.symm with
        ⟨final, isFinal, shape⟩
      refine ⟨final, by rw [isText, isLater, isLast, isFinal]; rfl, ?_⟩
      rw [← (Prod.mk.inj (Option.some.inj read)).2, shape]
    next => exact absurd read nofun
  next => exact absurd read nofun

/-- The digits of a code point are no fewer than the bytes it denotes. -/
theorem readUnicode_quoted
    (read : readUnicode (bytes.quoted text ++ 34 :: tail) = some (string, rest)) :
    Exists fun others => string.length + others.length ≤ text.length ∧
      rest = bytes.quoted others ++ 34 :: tail := by
  unfold readUnicode at read
  split at read
  next unit afterUnit unitRead =>
    rcases readUnit_quoted unitRead with ⟨others, length, isRest⟩
    split at read
    · have same := Prod.mk.inj (Option.some.inj read)
      refine ⟨others, ?_, same.2 ▸ isRest⟩
      rw [← same.1]
      exact length ▸ Nat.add_comm _ _ ▸ Nat.add_le_add_left (utf8_length_le unit) _
    · split at read
      · rw [isRest] at read
        unfold readLowSurrogate at read
        split at read
        next lowText shape =>
          cases others with
          | nil => exact absurd (List.cons.inj shape).1 (by decide)
          | cons first others =>
              by_cases quote : first = 34
              · rw [quote, quoted_cons_quote] at shape
                have second := (List.cons.inj (List.cons.inj shape).2).1
                exact absurd second (by decide)
              · rw [quoted_cons quote] at shape
                have afterEscape := (List.cons.inj shape).2
                rcases uncons_quoted (by decide) (by decide) afterEscape with ⟨inner, isOthers, isLow⟩
                split at read
                next low final lowRead =>
                  rw [isLow] at lowRead
                  rcases readUnit_quoted lowRead with ⟨last, lowLength, isFinal⟩
                  split at read
                  · have same := Prod.mk.inj (Option.some.inj read)
                    refine ⟨last, ?_, same.2 ▸ isFinal⟩
                    have small := utf8_length_le (0x10000 + (unit - 0xD800) * 0x400 + (low - 0xDC00))
                    rw [same.1] at small
                    rw [isOthers, List.length_cons, List.length_cons] at length
                    omega
                  · exact absurd read nofun
                next => exact absurd read nofun
        next => exact absurd read nofun
      · exact absurd read nofun
  next => exact absurd read nofun

/-- What is read from a text is shorter if the text has a backslash, and otherwise not longer;
unless a backslash at the end of the text hides the closing quote. -/
def Shortened (dialect : Dialect) (text tail string rest : List UInt8) : Prop :=
  (string.length ≤ text.length ∧ (92 ∈ text -> string.length < text.length)) ∨
    Exists fun more => readString dialect tail = some (more, rest)

/-- A character in front of the text. -/
theorem Shortened.cons {dialect : Dialect} {text tail string rest : List UInt8} {byte first : UInt8}
    (shortened : Shortened dialect text tail string rest) (notEscape : byte ≠ 92) :
    Shortened dialect (byte :: text) tail (first :: string) rest := by
  rcases shortened with ⟨within, strict⟩ | hidden
  · refine Or.inl ⟨Nat.succ_le_succ within, fun member => Nat.succ_lt_succ (strict ?_)⟩
    exact (List.mem_cons.mp member).resolve_left (fun same => notEscape same.symm)
  · exact Or.inr hidden

/-- An escape in front of the text, which denotes fewer bytes than it has. -/
theorem Shortened.escape {dialect : Dialect} {text others tail decoded string rest : List UInt8}
    (shortened : Shortened dialect others tail string rest)
    (fewer : decoded.length + others.length < text.length) :
    Shortened dialect text tail (decoded ++ string) rest := by
  rcases shortened with ⟨within, _⟩ | hidden
  · refine Or.inl ⟨?_, fun _ => ?_⟩ <;> (rw [List.length_append]; omega)
  · exact Or.inr hidden

/-- What is read behind a first character. -/
theorem exists_later {decoded : List UInt8} {read : Option (List UInt8 × List UInt8)}
    (mapped : read.map (fun result => (decoded ++ result.1, result.2)) = some (string, rest)) :
    Exists fun later => string = decoded ++ later ∧ read = some (later, rest) := by
  rcases Option.map_eq_some_iff.mp mapped with ⟨result, isRead, same⟩
  have parts := Prod.mk.inj same
  exact ⟨result.1, parts.1.symm, by rw [isRead, ← parts.2]⟩

/-- A backslash in front of a text hides the closing quote, or ends the string early at an
escaped quote, or denotes fewer bytes than it takes. -/
theorem readString_backslash
    (read : readString dialect (bytes.quoted (92 :: text) ++ 34 :: tail) = some (string, rest)) :
    (Exists fun more => readString dialect tail = some (more, rest)) ∨
      string.length < text.length + 1 ∨
        Exists fun decoded => Exists fun others => Exists fun later =>
          decoded.length + others.length < text.length + 1 ∧ string = decoded ++ later ∧
            readString dialect (bytes.quoted others ++ 34 :: tail) = some (later, rest) := by
  rw [quoted_cons (by decide), List.cons_append, readString_char (by simp), readChar_backslash] at read
  rcases Option.bind_eq_some_iff.mp read with ⟨⟨decoded, others⟩, first, mapped⟩
  dsimp only at mapped
  cases text with
  | nil =>
      -- the backslash escapes the quote that was to end the string
      have isFirst : readEscape (34 :: tail) = some ([34], tail) :=
        readEscape_of_not_unicode (by decide) _
      have parts := Prod.mk.inj (Option.some.inj (isFirst.symm.trans first))
      rcases exists_later mapped with ⟨later, _, isRead⟩
      rw [← parts.2] at isRead
      exact Or.inl ⟨later, isRead⟩
  | cons kind text =>
      by_cases isQuote : kind = 34
      · -- a backslash that was added for the quote is escaped by the one before it
        have isFirst : readEscape (92 :: 34 :: (bytes.quoted text ++ 34 :: tail)) =
            some ([92], 34 :: (bytes.quoted text ++ 34 :: tail)) :=
          readEscape_of_not_unicode (by decide) _
        rw [isQuote, quoted_cons_quote] at first
        have parts := Prod.mk.inj (Option.some.inj (isFirst.symm.trans first))
        rw [← parts.1, ← parts.2, readString_quote] at mapped
        have isString := (Prod.mk.inj (Option.some.inj mapped)).1
        refine Or.inr (Or.inl ?_)
        rw [← isString]
        simp
      · rw [quoted_cons isQuote, List.cons_append] at first
        rcases exists_later mapped with ⟨later, isString, isRead⟩
        by_cases unicode : kind = 117
        · rw [unicode, readEscape, if_pos rfl] at first
          rcases readUnicode_quoted first with ⟨inner, fewer, isOthers⟩
          rw [isOthers] at isRead
          refine Or.inr (Or.inr ⟨decoded, inner, later, ?_, isString, isRead⟩)
          rw [List.length_cons]
          omega
        · rw [readEscape_of_not_unicode unicode] at first
          rcases Option.map_eq_some_iff.mp first with ⟨one, _, same⟩
          have parts := Prod.mk.inj same
          rw [← parts.2] at isRead
          refine Or.inr (Or.inr ⟨decoded, text, later, ?_, isString, isRead⟩)
          rw [← parts.1, List.length_singleton, List.length_cons]
          omega

theorem shortened_of_readString
    (read : readString dialect (bytes.quoted text ++ 34 :: tail) = some (string, rest)) :
    Shortened dialect text tail string rest := by
  induction length : text.length using Nat.strong_induction_on generalizing text string with
  | _ size inductionHypothesis =>
      have shorter : forall {others later : List UInt8}, others.length < text.length ->
          readString dialect (bytes.quoted others ++ 34 :: tail) = some (later, rest) ->
          Shortened dialect others tail later rest :=
        fun less read => inductionHypothesis _ (length ▸ less) read rfl
      cases text with
      | nil =>
          rw [show bytes.quoted [] = [] from rfl, List.nil_append, readString_quote] at read
          refine Or.inl ⟨?_, fun member => absurd member List.not_mem_nil⟩
          rw [← (Prod.mk.inj (Option.some.inj read)).1]
      | cons byte text =>
          have less : text.length < (byte :: text).length := Nat.lt_succ_self _
          by_cases quote : byte = 34
          · rw [quote, readString_quote_step] at read
            rcases @exists_later _ _ [34] _ read with ⟨later, isString, isRead⟩
            rw [isString, quote]
            exact (shorter less isRead).cons (by decide)
          · by_cases escape : byte = 92
            · rw [escape] at read
              rcases readString_backslash read with hidden | early | ⟨_, others, _, fewer, isString, isRead⟩
              · exact Or.inr hidden
              · exact Or.inl ⟨Nat.le_of_lt early, fun _ => early⟩
              · have within : others.length < (byte :: text).length := by
                  rw [List.length_cons]
                  omega
                rw [isString]
                exact (shorter within isRead).escape fewer
            · rw [readString_plain_step quote escape] at read
              by_cases allowed : Allowed dialect byte
              · rw [if_pos allowed] at read
                rcases @exists_later _ _ [byte] _ read with ⟨later, isString, isRead⟩
                rw [isString]
                exact (shorter less isRead).cons escape
              · rw [if_neg allowed] at read
                cases read

/-! ## What the client makes of the command -/

variable {args : List (List UInt8)} {command : List UInt8}

/-- The mark between the command and the variables. -/
def mark : List UInt8 := ascii "|||"

/-- Without `--env` the mark stands behind the joined words. -/
theorem execResult_of_plain (plain : forall arg, arg ∈ args -> arg ≠ ascii "--env") :
    execResult bytes args = joinParts bytes args ++ mark := by
  have bar : joinParts bytes args ++ mark = (joinParts bytes args ++ ascii "||") ++ [124] := by
    rw [List.append_assoc]
    rfl
  have option : isEchoOption (((joinParts bytes args ++ ascii "||") ++ [124]).map UInt8.toNat) = false := by
    refine isEchoOption_eq_false (List.mem_map.mpr ⟨124, ?_, rfl⟩) (by decide)
    exact List.mem_append_right _ (List.mem_singleton_self _)
  have printed : parseExecArgs bytes args = bytes.echo (joinParts bytes args ++ mark) := by
    rw [parseExecArgs, execArgs_of_plain plain []]
    dsimp only
    rw [List.nil_append, if_pos rfl, List.append_nil]
    rfl
  rw [execResult, printed, bar]
  exact Alphabet.captured_echo_concat (by decide) option

/-- The command is what stands before the first mark, and the variables what stands behind it. -/
theorem split_at_mark (plain : forall arg, arg ∈ args -> arg ≠ ascii "--env") :
    joinParts bytes args ++ mark = commandOf bytes args ++ (mark ++ envJsonOf bytes args) := by
  have result := execResult_of_plain plain
  rcases exists_afterFirst (by decide : mark ≠ []) (joinParts bytes args) with ⟨rest, isRest⟩
  have isEnv : envJsonOf bytes args = rest := by
    rw [envJsonOf, result]
    exact congrArg (fun found => Option.getD found _) isRest
  rw [isEnv, commandOf, result]
  exact split_of_afterFirst isRest

/-- Newlines at the end are taken away before or after the quotes are escaped. -/
theorem captured_quoted (text : List UInt8) :
    bytes.captured (bytes.quoted text) = bytes.quoted (bytes.captured text) := by
  induction text using List.reverseRecOn with
  | nil => rfl
  | append_singleton text byte inductionHypothesis =>
      have split : bytes.quoted (text ++ [byte]) = bytes.quoted text ++ bytes.quoted [byte] :=
        List.flatMap_append
      by_cases newline : byte = 10
      · have single : bytes.quoted [byte] = [10] := by rw [newline]; decide
        rw [split, single, newline, Alphabet.captured, List.rdropWhile_concat_pos _ _ _ (by decide),
          Alphabet.captured, List.rdropWhile_concat_pos _ _ _ (by decide)]
        exact inductionHypothesis
      · have ending : Exists fun before => bytes.quoted [byte] = before ++ [byte] := by
          by_cases quote : byte = 34
          · exact ⟨[92], by rw [quote]; decide⟩
          · exact ⟨[], by rw [quoted_cons quote]; rfl⟩
        rcases ending with ⟨before, isEnding⟩
        have other : ¬ decide (byte = bytes.symbol '\n') = true := by
          rw [decide_eq_true_eq]
          exact newline
        have whole : bytes.captured (text ++ [byte]) = text ++ [byte] :=
          List.rdropWhile_concat_neg _ _ _ other
        rw [whole, split, isEnding, ← List.append_assoc]
        exact List.rdropWhile_concat_neg _ _ _ other

/-- The text behind the command in the body. -/
def bodyTail (envJson : List UInt8) : List UInt8 :=
  if envJson = [] then [125] else 44 :: 34 :: 101 :: (ascii "nv\":" ++ envJson ++ [125])

/-- The body is an object that begins with the command. -/
theorem buildJson_eq (cmd envJson : List UInt8) :
    buildJson cmd envJson = openMember (ascii "command") ++ (cmd ++ 34 :: bodyTail envJson) := by
  have opening : ascii "\x7b\"command\":\"" = openMember (ascii "command") := by decide
  rw [buildJson, bodyTail, opening]
  by_cases empty : envJson = []
  · rw [if_pos empty, if_pos empty, List.append_assoc]
    rfl
  · rw [if_neg empty, if_neg empty, List.append_assoc, List.append_assoc, List.append_assoc]
    rfl

theorem plain_name : forall byte, byte ∈ ascii "command" -> byte ≠ 34 ∧ byte ≠ 92 ∧ 32 ≤ byte :=
  forall_mem_of_all (by decide)

/-- The command the server extracts is read from behind the name. -/
theorem execCommand_eq_some {envJson : List UInt8}
    (extracted : execCommand dialect (buildJson (bytes.quoted text) envJson) = some command) :
    Exists fun rest =>
      readString dialect (bytes.quoted text ++ 34 :: bodyTail envJson) = some (command, rest) ∧
        ((skipBlanks rest).head? = some 125 ∨ (skipBlanks rest).head? = some 44) := by
  unfold execCommand at extracted
  rw [buildJson_eq] at extracted
  split at extracted
  next found isFound =>
    rcases Option.bind_eq_some_iff.mp isFound with ⟨value, parsed, member⟩
    rcases parse_first_member plain_name parsed with ⟨string, rest, read, first, followed⟩
    have same : found = string := by
      have equal := Option.some.inj (member.symm.trans first)
      injection equal
    rw [← Option.some.inj extracted, same]
    exact ⟨rest, read, followed⟩
  next => exact absurd extracted nofun

/-- A command that is extracted is not longer than the text between the quotes, and shorter
if that has a backslash. -/
theorem length_le_of_extracted {envJson : List UInt8}
    (extracted : execCommand dialect (buildJson (bytes.quoted text) envJson) = some command) :
    command.length ≤ text.length ∧ (92 ∈ text -> command.length < text.length) := by
  rcases execCommand_eq_some extracted with ⟨rest, read, followed⟩
  rcases shortened_of_readString read with shorter | ⟨more, hidden⟩
  · exact shorter
  · -- the closing quote was escaped: no member can end where the string does
    have plain : forall {byte : UInt8} {others : List UInt8}, byte ≠ 34 -> byte ≠ 92 -> 32 ≤ byte ->
        readString dialect (byte :: others) =
          (readString dialect others).map (fun result => (byte :: result.1, result.2)) := by
      intro byte others notQuote notEscape printable
      rw [readString_char (by simpa using notQuote), readChar_plain notEscape (Or.inl printable),
        Option.bind_some]
      rfl
    rw [bodyTail] at hidden
    by_cases empty : envJson = []
    · rw [if_pos empty, plain (by decide) (by decide) (by decide)] at hidden
      exact absurd hidden nofun
    · rw [if_neg empty, plain (by decide) (by decide) (by decide), readString_quote] at hidden
      have isRest := (Prod.mk.inj (Option.some.inj hidden)).2
      rw [← isRest] at followed
      have letter : forall others : List UInt8, skipBlanks (101 :: others) = 101 :: others :=
        fun others => List.dropWhile_cons_of_neg (by decide)
      rw [letter] at followed
      rcases followed with brace | comma
      · exact absurd brace nofun
      · exact absurd comma nofun

/-! ## The request -/

/-- The commands the request carries to a server whose reader accepts the dialect. -/
structure Carried (dialect : Dialect) (command : List UInt8) : Prop where
  noBackslash : 92 ∉ command
  allowed : forall byte, byte ∈ command -> Allowed dialect byte
  noNewline : command.getLast? ≠ some 10
  noMark : ¬ mark <:+: command
  noBar : command.getLast? ≠ some 124

theorem captured_eq_self_iff (text : List UInt8) :
    bytes.captured text = text ↔ text.getLast? ≠ some 10 := by
  rw [Alphabet.captured, List.rdropWhile_eq_self_iff]
  constructor
  · intro other newline
    rcases List.getLast?_eq_some_iff.mp newline with ⟨before, isText⟩
    have some : text ≠ [] := by rw [isText]; simp
    refine other some (decide_eq_true ?_)
    rw [List.getLast_congr some (by simp) isText, List.getLast_concat]
    rfl
  · intro other some newline
    have isLast : text.getLast some = 10 := of_decide_eq_true newline
    exact other (isLast ▸ List.getLast?_eq_some_getLast some)

/-- A text without the mark, and without a bar at its end, is what stands before the mark
that follows it. -/
theorem eq_of_split {cmd rest : List UInt8} (noMark : ¬ mark <:+: command)
    (noBar : command.getLast? ≠ some 124) (split : command ++ mark = cmd ++ (mark ++ rest)) :
    cmd = command ∧ rest = [] := by
  have isCommand : command = cmd ++ (mark ++ rest).take rest.length := by
    have lengths := congrArg List.length split
    simp only [List.length_append] at lengths
    have size : command.length = cmd.length + rest.length := by omega
    have taken := congrArg (List.take command.length) split
    rw [List.take_left, size, List.take_length_add_append] at taken
    exact taken
  match rest, isCommand with
  | [], isCommand =>
      rw [List.length_nil, List.take_zero, List.append_nil] at isCommand
      exact ⟨isCommand.symm, rfl⟩
  | [_], isCommand =>
      have ending : command = cmd ++ [124] := isCommand
      exact absurd (by rw [ending, List.getLast?_concat]) noBar
  | [_, _], isCommand =>
      have ending : command = (cmd ++ [124]) ++ [124] := by
        rw [List.append_assoc]
        exact isCommand
      exact absurd (by rw [ending, List.getLast?_concat]) noBar
  | first :: second :: third :: rest, isCommand =>
      refine absurd ⟨cmd, (first :: second :: third :: rest).take rest.length, ?_⟩ noMark
      rw [isCommand, List.append_assoc]
      rfl

/-- The mark does not occur in a text that stands before the first mark, nor begins at its end. -/
theorem unmarked_of_commandOf (result : execResult bytes args = command ++ mark)
    (whole : commandOf bytes args = command) :
    ¬ mark <:+: command ∧ command.getLast? ≠ some 124 := by
  rw [commandOf, result] at whole
  constructor
  · rintro ⟨before, behind, isCommand⟩
    have within := (length_beforeFirst_le before (behind ++ mark) (by decide : mark ≠ [])).1
    rw [← List.append_assoc, ← List.append_assoc, isCommand] at within
    have shorter : (beforeFirst mark (command ++ mark)).length = command.length :=
      congrArg List.length whole
    have longer := congrArg List.length isCommand
    have three : mark.length = 3 := by decide
    simp only [List.length_append] at longer
    omega
  · intro bar
    rcases List.getLast?_eq_some_iff.mp bar with ⟨before, isCommand⟩
    have within := (length_beforeFirst_le before [124] (by decide : mark ≠ [])).1
    have same : before ++ (mark ++ [124]) = command ++ mark := by
      rw [isCommand, List.append_assoc]
      rfl
    rw [same] at within
    have shorter : (beforeFirst mark (command ++ mark)).length = command.length :=
      congrArg List.length whole
    rw [isCommand, List.length_append] at shorter
    rw [isCommand] at within
    have one : [124].length = 1 := rfl
    omega

/-- The server extracts the arguments joined by blanks if and only if there are some, no empty
one stands before others, and the joined text has neither a backslash nor `|||` nor a
character that may not stand in a string, and ends with neither a newline nor a bar. -/
theorem request_carries_command_iff (dialect : Dialect) {args : List (List UInt8)}
    (plain : forall arg, arg ∈ args -> arg ≠ ascii "--env") :
    received dialect args = some (joined bytes args) ↔
      args ≠ [] ∧ StartsWithWord args ∧ Carried dialect (joined bytes args) := by
  have split := split_at_mark plain
  have body : forall some : args ≠ [], requestBody args =
      Option.some (buildJson (bytes.quoted (bytes.captured (commandOf bytes args)))
        (envJsonOf bytes args)) := by
    intro some
    rw [requestBody, if_neg some, captured_quoted]
  constructor
  · intro carried
    have some : args ≠ [] := by
      intro none
      rw [received, requestBody, if_pos none] at carried
      exact absurd carried nofun
    rw [received, body some, Option.bind_some] at carried
    have bound := length_le_of_extracted carried
    have isPrefix : bytes.captured (commandOf bytes args) <+: commandOf bytes args :=
      List.rdropWhile_prefix _ _
    have captured := isPrefix.length_le
    have words := length_joinParts_le bytes args
    have lengths := congrArg List.length split
    simp only [List.length_append] at lengths
    have isCaptured : bytes.captured (commandOf bytes args) = commandOf bytes args :=
      isPrefix.eq_of_length (by omega)
    have noEnv : envJsonOf bytes args = [] := List.length_eq_zero_iff.mp (by omega)
    have whole : (joined bytes args).length ≤ (joinParts bytes args).length := by omega
    have starts : StartsWithWord args := startsWithWord_of_length (by decide) whole
    have isCommand : commandOf bytes args = joined bytes args := by
      rw [noEnv, List.append_nil] at split
      rw [← joinParts_of_startsWithWord starts]
      exact (List.append_cancel_right split).symm
    rw [isCaptured, isCommand] at carried bound
    have noBackslash : 92 ∉ joined bytes args := fun member => Nat.lt_irrefl _ (bound.2 member)
    have result := execResult_of_plain plain
    rw [joinParts_of_startsWithWord starts] at result
    have marks := unmarked_of_commandOf result isCommand
    refine ⟨some, starts, noBackslash, ?_, ?_, marks.1, marks.2⟩
    · rcases execCommand_eq_some carried with ⟨rest, read, _⟩
      rw [readString_quoted dialect noBackslash] at read
      by_contra forbidden
      rw [if_neg (fun all => forbidden (forall_mem_of_all all))] at read
      exact absurd read nofun
    · rw [isCommand] at isCaptured
      exact (captured_eq_self_iff _).mp isCaptured
  · rintro ⟨some, starts, carried⟩
    rw [joinParts_of_startsWithWord starts] at split
    rcases eq_of_split carried.noMark carried.noBar split with ⟨isCommand, noEnv⟩
    have isCaptured := (captured_eq_self_iff _).mpr carried.noNewline
    have read := readString_quoted dialect carried.noBackslash [125]
    rw [if_pos (all_of_allowed carried.allowed)] at read
    rcases parse_single_member plain_name read with ⟨value, parsed, member⟩
    have tail : bodyTail [] = [125] := rfl
    rw [received, body some, Option.bind_some, isCommand, isCaptured, noEnv, execCommand, buildJson_eq,
      tail, parsed, Option.bind_some, member]

/-- A command without special characters arrives. -/
theorem request_carries_command_iff_ls :
    received rfc8259 [ascii "ls", ascii "-l"] = some (joined bytes [ascii "ls", ascii "-l"]) :=
  (request_carries_command_iff rfc8259 (by decide)).mpr
    ⟨by decide, by decide, ⟨by decide, forall_mem_of_all (by decide), by decide, by decide, by decide⟩⟩

/-- The backslash of a `grep` pattern is no escape of JSON: the server finds no valid request. -/
theorem request_loses_backslash :
    received rfc8259 [ascii "grep", ascii "\\d", ascii "f"] = none ∧
      joined bytes [ascii "grep", ascii "\\d", ascii "f"] = ascii "grep \\d f" := by
  decide +kernel

end Client
end AdbBridge
