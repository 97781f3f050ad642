import AdbBridge.Client.Arguments
import AdbBridge.Handler.ExecPipe
import AdbBridge.Library.Utf8

namespace AdbBridge
namespace Client

open Library Library.Numeral Library.PercentCoding Library.Search Server Handler

/-!
# The query of `pipe`

`urlencode` writes a character that is not unreserved as `%` and its code in
hexadecimal.  The server takes two digits behind each `%` for a byte.  For an ASCII
character these are the same; the code of another character is not the bytes that
encode it, and may have more than two digits.

The bytes of the command would have to be made up for by later characters.  They
never are: from the first character outside ASCII on, the bytes that are missing
are bytes above 127, and each further character leaves one more of them.
-/

/-! ## The client -/

/-- `[a-zA-Z0-9._~-]` -/
def isUnreserved (char : Char) : Bool :=
  char.isAlphanum || char == '.' || char == '_' || char == '~' || char == '-'

/-- What `urlencode` appends for a character. -/
def encodeChar (char : Char) : List UInt8 :=
  if isUnreserved char then [UInt8.ofNat char.toNat]
  else if char = ' ' then [43]
  else 37 :: formatHex02 char.toNat

/-- The variable `out` of `urlencode` after its loop. -/
def encodeText (text : List Char) : List UInt8 := text.flatMap encodeChar

/-- `$(urlencode "$text")` -/
def urlencode (text : List Char) : List UInt8 := bytes.captured (bytes.echo (encodeText text))

/-- The parameter of one variable. -/
def envSegment (kv : List Char) : List UInt8 :=
  ascii "env_" ++ urlencode (keyOf characters kv) ++ 61 :: urlencode (valueOf characters kv)

/-- What `build_pipe_query` prints, captured. -/
def buildPipeQuery (cmd : List Char) (vars : List (List Char)) : List UInt8 :=
  bytes.captured (bytes.echo
    (ascii "command=" ++ urlencode cmd ++ vars.flatMap (fun kv => 38 :: envSegment kv)))

/-- The query of `pipe`, and of `pipe --raw`. -/
def pipeQuery (raw : Bool) (cmd : List Char) (vars : List (List Char)) : List UInt8 :=
  if raw then buildPipeQuery cmd vars ++ ascii "&raw=1" else buildPipeQuery cmd vars

/-! ## The bytes of an encoded text -/

variable {char : Char} {text cmd : List Char} {vars : List (List Char)} {byte : UInt8} {raw : Bool}

/-- The bytes `urlencode` writes. -/
def isUrlByte (byte : UInt8) : Bool :=
  isHexDigit byte || (65 ≤ byte && byte ≤ 90) || (97 ≤ byte && byte ≤ 122) ||
    byte == 46 || byte == 95 || byte == 126 || byte == 45 || byte == 43 || byte == 37

/-- An unreserved character is ASCII and has no meaning in an encoded text. -/
theorem unreserved_ascii (isPlain : isUnreserved char = true) : char.toNat < 128 ∧
    isUrlByte (UInt8.ofNat char.toNat) = true ∧
    UInt8.ofNat char.toNat ≠ 37 ∧ UInt8.ofNat char.toNat ≠ 43 := by
  have plain : forall code : Nat, code < 128 -> isUnreserved (Char.ofNat code) = true ->
      isUrlByte (UInt8.ofNat code) = true ∧ UInt8.ofNat code ≠ 37 ∧ UInt8.ofNat code ≠ 43 := by decide
  have small : char.toNat < 128 := by
    have alphanumeric : char.isAlphanum = true -> char.val ≤ 122 := by
      intro isAlphanumeric
      rcases (Bool.or_eq_true _ _).mp isAlphanumeric with letter | digit
      · rcases (Bool.or_eq_true _ _).mp letter with upper | lower
        · have bounds : 65 ≤ char.val ∧ char.val ≤ 90 := of_decide_eq_true upper
          exact UInt32.le_trans bounds.2 (by decide)
        · have bounds : decide (97 ≤ char.val) = true ∧ decide (char.val ≤ 122) = true :=
            (Bool.and_eq_true _ _).mp lower
          exact of_decide_eq_true bounds.2
      · have bounds : decide (48 ≤ char.val) = true ∧ decide (char.val ≤ 57) = true :=
          (Bool.and_eq_true _ _).mp digit
        exact UInt32.le_trans (of_decide_eq_true bounds.2) (by decide)
    simp only [isUnreserved, Bool.or_eq_true, beq_iff_eq] at isPlain
    rcases isPlain with (((letterOrDigit | rfl) | rfl) | rfl) | rfl
    · have within := UInt32.le_iff_toNat_le.mp (alphanumeric letterOrDigit)
      exact Nat.lt_of_le_of_lt within (by decide)
    · decide
    · decide
    · decide
    · decide
  refine ⟨small, plain char.toNat small ?_⟩
  rw [Char.ofNat_toNat]
  exact isPlain

theorem isUrlByte_of_isHexDigit (digit : isHexDigit byte = true) : isUrlByte byte = true := by
  simp only [isUrlByte, digit, Bool.true_or]

theorem isUrlByte_of_mem_encodeChar (member : byte ∈ encodeChar char) : isUrlByte byte = true := by
  rw [encodeChar] at member
  split at member
  next isPlain => exact List.mem_singleton.mp member ▸ (unreserved_ascii isPlain).2.1
  next =>
    split at member
    · exact List.mem_singleton.mp member ▸ by decide
    · rcases List.mem_cons.mp member with percent | digit
      · exact percent ▸ by decide
      · exact isUrlByte_of_isHexDigit (isHexDigit_of_mem_formatHex02 digit)

theorem encodeText_ne_nil (some : text ≠ []) : encodeText text ≠ [] := by
  intro none
  rcases List.exists_mem_of_ne_nil text some with ⟨char, member⟩
  have noByte := List.flatMap_eq_nil_iff.mp none char member
  rw [encodeChar] at noByte
  split at noByte
  · exact absurd noByte (List.cons_ne_nil _ _)
  · split at noByte <;> exact absurd noByte (List.cons_ne_nil _ _)

theorem isUrlByte_of_mem_encodeText (member : byte ∈ encodeText text) : isUrlByte byte = true := by
  rcases List.mem_flatMap.mp member with ⟨char, _, inChar⟩
  exact isUrlByte_of_mem_encodeChar inChar

theorem newline_notMem_encodeText : bytes.symbol '\n' ∉ encodeText text :=
  fun member => absurd (isUrlByte_of_mem_encodeText member) (by decide)

/-! ## Options of `echo` -/

/-- A character that is not unreserved leaves a byte no option has. -/
theorem exists_mark (special : isUnreserved char = false) :
    Exists fun mark => mark ∈ encodeChar char ∧ (mark = 43 ∨ mark = 37) := by
  rw [encodeChar, if_neg (by simp [special])]
  split
  · exact ⟨43, List.mem_singleton_self _, Or.inl rfl⟩
  · exact ⟨37, List.mem_cons_self, Or.inr rfl⟩

theorem encodeText_unreserved (plain : forall char, char ∈ text -> isUnreserved char = true) :
    (encodeText text).map UInt8.toNat = text.map Char.toNat := by
  induction text with
  | nil => rfl
  | cons char text inductionHypothesis =>
      have here := plain char List.mem_cons_self
      have code : (UInt8.ofNat char.toNat).toNat = char.toNat := by
        have small := (unreserved_ascii here).1
        rw [UInt8.toNat_ofNat', Nat.mod_eq_of_lt (by omega)]
      rw [encodeText, List.flatMap_cons, encodeChar, if_pos here, List.singleton_append, List.map_cons,
        List.map_cons, code]
      exact congrArg _ (inductionHypothesis (fun other member =>
        plain other (List.mem_cons_of_mem char member)))

/-- The encoded text is an option of `echo` where the text is one. -/
theorem isEchoOption_encodeText (text : List Char) :
    isEchoOption ((encodeText text).map UInt8.toNat) = isEchoOption (text.map Char.toNat) := by
  by_cases plain : forall char, char ∈ text -> isUnreserved char = true
  · rw [encodeText_unreserved plain]
  · simp only [not_forall, Bool.not_eq_true] at plain
    rcases plain with ⟨char, member, special⟩
    rcases exists_mark special with ⟨mark, inChar, isMark⟩
    have encoded : isEchoOption ((encodeText text).map UInt8.toNat) = false := by
      refine isEchoOption_eq_false (List.mem_map_of_mem (List.mem_flatMap.mpr ⟨char, member, inChar⟩)) ?_
      rcases isMark with plus | percent
      · exact plus ▸ by decide
      · exact percent ▸ by decide
    have unencoded : isEchoOption (text.map Char.toNat) = false := by
      refine isEchoOption_eq_false (List.mem_map_of_mem member) ?_
      have differs : forall other : Char, isUnreserved other = true -> char.toNat ≠ other.toNat := by
        intro other isPlain same
        rw [Char.toNat_inj.mp same, isPlain] at special
        exact absurd special nofun
      exact ⟨differs '-' (by decide), differs 'n' (by decide), differs 'e' (by decide), differs 'E' (by decide)⟩
    rw [encoded, unencoded]

/-- The encoding is captured, unless `echo` takes it for an option. -/
theorem urlencode_eq (text : List Char) :
    urlencode text = if isEchoOption (text.map Char.toNat) then [] else encodeText text := by
  rw [← isEchoOption_encodeText, urlencode]
  by_cases option : isEchoOption ((encodeText text).map UInt8.toNat) = true
  · rw [if_pos option, Alphabet.captured_option option]
  · rw [if_neg option]
    exact Alphabet.captured_echo (Bool.eq_false_iff.mpr option) newline_notMem_encodeText

theorem isUrlByte_of_mem_urlencode (member : byte ∈ urlencode text) : isUrlByte byte = true := by
  rw [urlencode_eq] at member
  split at member
  · exact absurd member List.not_mem_nil
  · exact isUrlByte_of_mem_encodeText member

/-! ## The segments of the query -/

/-- The segments behind the command. -/
def segments (raw : Bool) (vars : List (List Char)) : List (List UInt8) :=
  vars.map envSegment ++ if raw then [ascii "raw=1"] else []

/-- A byte of a segment is one of the encoding or belongs to the name of the parameter. -/
theorem mem_envSegment {kv : List Char} (member : byte ∈ envSegment kv) :
    isUrlByte byte = true ∨ byte = 61 := by
  have name : forall other, other ∈ ascii "env_" -> isUrlByte other = true := forall_mem_of_all (by decide)
  rw [envSegment, List.mem_append, List.mem_append, List.mem_cons] at member
  rcases member with (inName | inKey) | isEqual | inValue
  · exact Or.inl (name byte inName)
  · exact Or.inl (isUrlByte_of_mem_urlencode inKey)
  · exact Or.inr isEqual
  · exact Or.inl (isUrlByte_of_mem_urlencode inValue)

theorem mem_command (member : byte ∈ ascii "command=" ++ urlencode cmd) :
    isUrlByte byte = true ∨ byte = 61 := by
  have name : forall other, other ∈ ascii "command=" -> isUrlByte other = true ∨ other = 61 :=
    forall_mem_of_all (by decide)
  rcases List.mem_append.mp member with inName | inValue
  · exact name byte inName
  · exact Or.inl (isUrlByte_of_mem_urlencode inValue)

theorem buildPipeQuery_eq (cmd : List Char) (vars : List (List Char)) :
    buildPipeQuery cmd vars =
      ascii "command=" ++ urlencode cmd ++ vars.flatMap (fun kv => 38 :: envSegment kv) := by
  apply Alphabet.captured_echo
  · apply Bool.eq_false_iff.mpr
    intro option
    exact absurd (Option.some.inj (dash_of_option option)) (by decide : (99 : Nat) ≠ 45)
  · intro member
    have newline : bytes.symbol '\n' = 10 := by decide
    rw [newline] at member
    rcases List.mem_append.mp member with inCommand | inVars
    · rcases mem_command inCommand with isByte | isEqual
      · exact absurd isByte (by decide)
      · exact absurd isEqual (by decide)
    · rcases List.mem_flatMap.mp inVars with ⟨kv, _, inSegment⟩
      rcases List.mem_cons.mp inSegment with separator | inside
      · exact absurd separator (by decide)
      · rcases mem_envSegment inside with isByte | isEqual
        · exact absurd isByte (by decide)
        · exact absurd isEqual (by decide)

theorem pipeQuery_eq (raw : Bool) (cmd : List Char) (vars : List (List Char)) :
    pipeQuery raw cmd vars =
      ascii "command=" ++ urlencode cmd ++ (segments raw vars).flatMap (fun segment => 38 :: segment) := by
  rw [pipeQuery, buildPipeQuery_eq, segments, List.flatMap_append, List.flatMap_map]
  cases raw with
  | false => rw [if_neg (by decide), if_neg (by decide), List.flatMap_nil, List.append_nil]
  | true =>
      rw [if_pos rfl, if_pos rfl, List.append_assoc (ascii "command=" ++ urlencode cmd)]
      rfl

theorem not_separator (which : isUrlByte byte = true ∨ byte = 61) : byte ≠ 38 := by
  rintro rfl
  rcases which with isByte | isEqual
  · exact absurd isByte (by decide)
  · exact absurd isEqual (by decide)

/-- The server finds the segments again. -/
theorem splitOn_pipeQuery (raw : Bool) (cmd : List Char) (vars : List (List Char)) :
    (pipeQuery raw cmd vars).splitOn 38 = (ascii "command=" ++ urlencode cmd) :: segments raw vars := by
  rw [pipeQuery_eq]
  apply splitOn_behind
  · exact fun member => not_separator (mem_command member) rfl
  · intro segment member inside
    rcases List.mem_append.mp member with isVar | isRaw
    · rcases List.mem_map.mp isVar with ⟨kv, _, same⟩
      exact not_separator (mem_envSegment (same ▸ inside)) rfl
    · cases raw with
      | false => exact absurd isRaw List.not_mem_nil
      | true =>
          rw [List.mem_singleton.mp isRaw] at inside
          exact absurd inside (by decide)

/-- No other segment is taken for the command. -/
theorem not_isCommand_of_mem_segments {segment : List UInt8} (member : segment ∈ segments raw vars) :
    ¬ IsCommand segment := by
  rintro ⟨starts, _⟩
  rcases List.mem_append.mp member with isVar | isRaw
  · rcases List.mem_map.mp isVar with ⟨kv, _, rfl⟩
    exact absurd starts nofun
  · cases raw with
    | false => exact absurd isRaw List.not_mem_nil
    | true =>
        rw [List.mem_singleton.mp isRaw] at starts
        exact absurd starts (by decide)

/-- The server finds the encoded command, if there is any. -/
theorem parseQuery_command (raw : Bool) (cmd : List Char) (vars : List (List Char)) :
    (parseQuery (pipeQuery raw cmd vars)).command =
      if urlencode cmd = [] then none else some (urlencode cmd) := by
  rw [parseQuery, foldl_segment_command, splitOn_pipeQuery, List.foldl_cons,
    foldl_commandAfter_of_none (fun _ member => not_isCommand_of_mem_segments member)]
  exact commandAfter_command (urlencode cmd)

/-- Every entry of the environment is the encoding of a variable. -/
theorem exists_of_mem_env {entry : List UInt8 × List UInt8}
    (member : entry ∈ (parseQuery (pipeQuery raw cmd vars)).env) : Exists fun kv => kv ∈ vars ∧
      entry = (urlencode (keyOf characters kv), urlencode (valueOf characters kv)) := by
  rcases segment_of_mem_env member with ⟨segment, free⟩
  rw [splitOn_pipeQuery] at segment
  rcases List.mem_cons.mp segment with isCommand | behind
  · exact absurd (List.cons.inj isCommand).1 (by decide)
  · rcases List.mem_append.mp behind with isVar | isRaw
    · rcases List.mem_map.mp isVar with ⟨kv, listed, same⟩
      have keyFree : (61 : UInt8) ∉ urlencode (keyOf characters kv) :=
        fun inside => absurd (isUrlByte_of_mem_urlencode inside) (by decide)
      rw [envSegment, List.append_assoc] at same
      have parts := split_inj (List.append_cancel_left same) keyFree free
      exact ⟨kv, listed, Prod.ext parts.1.symm parts.2.symm⟩
    · cases raw with
      | false => exact absurd isRaw List.not_mem_nil
      | true => exact absurd (List.cons.inj (List.mem_singleton.mp isRaw)).1 (by decide)

/-! ## Decoding -/

/-- What the encoding of a character is decoded to: the first two digits are taken for a
byte, all others stand for themselves. -/
def decodedChar (char : Char) : List UInt8 :=
  if char.toNat < 128 then [UInt8.ofNat char.toNat]
  else UInt8.ofNat (digitsValue 16 ((formatHex02 char.toNat).take 2)) :: (formatHex02 char.toNat).drop 2

/-- The bytes the server has for an encoded text. -/
def decodedText (text : List Char) : List UInt8 := text.flatMap decodedChar

/-- A digit that stands for itself. -/
def digitToken (digit : UInt8) (isDigit : isHexDigit digit = true) : Token :=
  .literal digit (isHexDigit_ne isDigit)

theorem exists_tokens_digits {digits : List UInt8}
    (isDigit : forall digit, digit ∈ digits -> isHexDigit digit = true) :
    Exists fun tokens => render tokens = digits ∧ content tokens = digits := by
  induction digits with
  | nil => exact ⟨[], rfl, rfl⟩
  | cons digit digits inductionHypothesis =>
      rcases inductionHypothesis (fun other member => isDigit other (List.mem_cons_of_mem digit member)) with
        ⟨tokens, text, bytes⟩
      refine ⟨digitToken digit (isDigit digit List.mem_cons_self) :: tokens, ?_, ?_⟩
      · rw [render_cons, text]
        rfl
      · rw [content_cons, bytes]
        rfl

/-- The digits of a character are an escape and digits that stand for themselves. -/
theorem exists_tokens_escape (char : Char) : Exists fun tokens =>
    render tokens = 37 :: formatHex02 char.toNat ∧
      content tokens = UInt8.ofNat (digitsValue 16 ((formatHex02 char.toNat).take 2)) ::
        (formatHex02 char.toNat).drop 2 := by
  have isDigit : forall digit, digit ∈ formatHex02 char.toNat -> isHexDigit digit = true :=
    fun _ member => isHexDigit_of_mem_formatHex02 member
  have two := two_le_length_formatHex02 char.toNat
  rcases digits : formatHex02 char.toNat with _ | ⟨high, _ | ⟨low, others⟩⟩
  · rw [digits] at two
    exact absurd two (by decide)
  · rw [digits] at two
    exact absurd two (by simp)
  · rw [digits] at isDigit
    rcases exists_tokens_digits (fun digit member =>
      isDigit digit (List.mem_cons_of_mem high (List.mem_cons_of_mem low member))) with ⟨tokens, text, bytes⟩
    refine ⟨.escape high low (isDigit high List.mem_cons_self)
      (isDigit low (List.mem_cons_of_mem high List.mem_cons_self)) :: tokens, ?_, ?_⟩
    · rw [render_cons, text]
      rfl
    · rw [content_cons, bytes]
      rfl

theorem exists_tokens_char (char : Char) : Exists fun tokens =>
    render tokens = encodeChar char ∧ content tokens = decodedChar char := by
  rw [encodeChar, decodedChar]
  by_cases isPlain : isUnreserved char = true
  · have facts := unreserved_ascii isPlain
    have allowed : UInt8.ofNat char.toNat ≠ 38 ∧ UInt8.ofNat char.toNat ≠ 32 ∧
        UInt8.ofNat char.toNat ≠ 0 := by
      refine ⟨?_, ?_, ?_⟩ <;> (intro same; rw [same] at facts; exact absurd facts.2.1 (by decide))
    rw [if_pos isPlain, if_pos facts.1]
    exact ⟨[.literal _ ⟨facts.2.2.1, facts.2.2.2, allowed⟩], rfl, rfl⟩
  · rw [if_neg isPlain]
    by_cases space : char = ' '
    · rw [if_pos space, space]
      exact ⟨[.plus], rfl, rfl⟩
    · rw [if_neg space]
      rcases exists_tokens_escape char with ⟨tokens, text, bytes⟩
      refine ⟨tokens, text, bytes.trans ?_⟩
      by_cases small : char.toNat < 128
      · rcases formatHex02_of_lt (show char.toNat < 256 by omega) with ⟨high, low, digits, value⟩
        rw [if_pos small, digits]
        exact congrArg (fun number => [UInt8.ofNat number]) value
      · rw [if_neg small]

theorem exists_tokens_text (text : List Char) : Exists fun tokens =>
    render tokens = encodeText text ∧ content tokens = decodedText text := by
  induction text with
  | nil => exact ⟨[], rfl, rfl⟩
  | cons char text inductionHypothesis =>
      rcases exists_tokens_char char with ⟨here, hereText, hereBytes⟩
      rcases inductionHypothesis with ⟨tokens, text, bytes⟩
      refine ⟨here ++ tokens, ?_, ?_⟩
      · rw [render, List.flatMap_append]
        exact congrArg₂ _ hereText text
      · rw [content, List.map_append]
        exact congrArg₂ _ hereBytes bytes

/-- What the decoder makes of an encoded text that fits. -/
theorem percentDecode_encodeText {room : Nat} (fits : (encodeText text).length ≤ room) :
    percentDecode room (encodeText text) = decodedText text := by
  rcases exists_tokens_text text with ⟨tokens, rendered, bytes⟩
  have count := length_le_render tokens
  rw [← rendered] at fits ⊢
  rw [percentDecode_render (Nat.le_trans count fits), bytes]

/-- ASCII text is decoded to its bytes. -/
theorem decodedText_ascii (isAscii : forall char, char ∈ text -> char.toNat < 128) :
    decodedText text = Utf8.encode text := by
  rw [Utf8.encode_ascii isAscii]
  induction text with
  | nil => rfl
  | cons char text inductionHypothesis =>
      rw [decodedText, List.flatMap_cons, decodedChar, if_pos (isAscii char List.mem_cons_self)]
      exact congrArg _ (inductionHypothesis (fun other member =>
        isAscii other (List.mem_cons_of_mem char member)))

/-- A digit is an ASCII character. -/
theorem lt_of_isHexDigit (digit : isHexDigit byte = true) : byte < 128 := by
  simp only [isHexDigit, Bool.or_eq_true, Bool.and_eq_true, decide_eq_true_eq] at digit
  rcases digit with (decimal | lower) | upper
  · exact UInt8.lt_of_le_of_lt decimal.2 (by decide)
  · exact UInt8.lt_of_le_of_lt lower.2 (by decide)
  · exact UInt8.lt_of_le_of_lt upper.2 (by decide)

theorem ofNat_lt_of_ascii (isAscii : char.toNat < 128) : UInt8.ofNat char.toNat < 128 := by
  rw [UInt8.lt_iff_toNat_lt, UInt8.toNat_ofNat', Nat.mod_eq_of_lt (by omega)]
  exact isAscii

/-- With the bytes of a character outside ASCII at least two bytes are missing. -/
theorem missing_two {missing : List UInt8} (high : forall byte, byte ∈ missing -> 128 ≤ byte)
    (other : 128 ≤ char.toNat) : Exists fun first => Exists fun second => Exists fun more =>
      missing ++ String.utf8EncodeChar char = first :: second :: more ∧
        forall byte, byte ∈ first :: second :: more -> 128 ≤ byte := by
  rcases Utf8.encodeChar_other other with ⟨lead, next, rest, bytes, outside⟩
  have all : forall byte, byte ∈ missing ++ String.utf8EncodeChar char -> 128 ≤ byte := by
    intro byte member
    rcases List.mem_append.mp member with earlier | here
    · exact high byte earlier
    · exact outside byte (bytes ▸ here)
  rw [bytes] at all ⊢
  rcases missing with _ | ⟨first, _ | ⟨second, missing⟩⟩
  · exact ⟨lead, next, rest, rfl, all⟩
  · exact ⟨first, lead, next :: rest, rfl, all⟩
  · exact ⟨first, second, missing ++ lead :: next :: rest, rfl, all⟩

/-- The bytes of a character outside ASCII, and of those still missing from earlier
ones, do not come out: a further byte is missing then, or a digit stands in its place. -/
theorem not_prefix_decodedText {missing : List UInt8} (high : forall byte, byte ∈ missing -> 128 ≤ byte)
    (some : missing ≠ [] ∨ Exists fun char => char ∈ text ∧ 128 ≤ char.toNat) :
    ¬ missing ++ Utf8.encode text <+: decodedText text := by
  induction text generalizing missing with
  | nil =>
      intro isPrefix
      rcases some with first | ⟨char, member, _⟩
      · exact first (List.append_eq_nil_iff.mp (List.prefix_nil.mp isPrefix)).1
      · exact absurd member List.not_mem_nil
  | cons char text inductionHypothesis =>
      rw [Utf8.encode_cons, decodedText, List.flatMap_cons, decodedChar]
      by_cases isAscii : char.toNat < 128
      · rw [if_pos isAscii, Utf8.encodeChar_ascii isAscii]
        intro isPrefix
        cases missing with
        | nil =>
            have later : Exists fun other => other ∈ text ∧ 128 ≤ other.toNat := by
              rcases some with none | ⟨other, member, outside⟩
              · exact absurd rfl none
              · rcases List.mem_cons.mp member with same | inText
                · exact absurd isAscii (same ▸ Nat.not_lt.mpr outside)
                · exact ⟨other, inText, outside⟩
            exact inductionHypothesis (fun _ member => absurd member List.not_mem_nil) (Or.inr later)
              (List.cons_prefix_cons.mp isPrefix).2
        | cons first missing =>
            have large := high first List.mem_cons_self
            rw [(List.cons_prefix_cons.mp isPrefix).1] at large
            exact UInt8.not_le.mpr (ofNat_lt_of_ascii isAscii) large
      · rcases missing_two high (Nat.not_lt.mp isAscii) with ⟨first, second, more, queue, all⟩
        rw [if_neg isAscii, ← List.append_assoc, queue]
        intro isPrefix
        have behind := (List.cons_prefix_cons.mp isPrefix).2
        cases digits : (formatHex02 char.toNat).drop 2 with
        | nil =>
            rw [digits] at behind
            exact inductionHypothesis (fun byte member => all byte (List.mem_cons_of_mem first member))
              (Or.inl (List.cons_ne_nil second more)) behind
        | cons digit others =>
            rw [digits] at behind
            have same : second = digit := (List.cons_prefix_cons.mp behind).1
            have large := all second (List.mem_cons_of_mem first List.mem_cons_self)
            have member : digit ∈ formatHex02 char.toNat :=
              List.mem_of_mem_drop (digits ▸ List.mem_cons_self)
            have small := lt_of_isHexDigit (isHexDigit_of_mem_formatHex02 member)
            rw [same] at large
            exact UInt8.not_le.mpr small large

theorem cString_prefix (memory : List UInt8) : cString memory <+: memory := List.takeWhile_prefix _

/-- The string the server runs is the text if and only if that is ASCII. -/
theorem cString_decodedText_iff (noZero : '\x00' ∉ text) :
    cString (decodedText text) = Utf8.encode text ↔ forall char, char ∈ text -> char.toNat < 128 := by
  constructor
  · intro same char member
    by_contra outside
    have isPrefix := cString_prefix (decodedText text)
    rw [same] at isPrefix
    rw [← List.nil_append (Utf8.encode text)] at isPrefix
    exact not_prefix_decodedText (fun _ none => absurd none List.not_mem_nil)
      (Or.inr ⟨char, member, Nat.not_lt.mp outside⟩) isPrefix
  · intro isAscii
    rw [decodedText_ascii isAscii, Utf8.encode_ascii isAscii]
    apply cString_eq_self
    intro byte member zero
    rcases List.mem_map.mp member with ⟨char, inText, same⟩
    have small := isAscii char inText
    have code := congrArg UInt8.toNat (same.trans zero)
    rw [UInt8.toNat_ofNat', Nat.mod_eq_of_lt (by omega)] at code
    have isZero : char = '\x00' := Char.toNat_inj.mp code
    exact noZero (isZero ▸ inText)

/-! ## The round trip -/

theorem length_encodeText_le (raw : Bool) (vars : List (List Char))
    (plain : isEchoOption (text.map Char.toNat) = false) :
    (encodeText text).length ≤ (pipeQuery raw text vars).length := by
  rw [pipeQuery_eq, urlencode_eq, if_neg (by simp [plain]), List.length_append, List.length_append]
  omega

theorem refused_ne_runs {status : Nat} {message command : List UInt8} :
    ¬ Exists fun env => Exists fun isRaw =>
      PipeAnswer.refused status message = .runs command env isRaw := by
  rintro ⟨env, isRaw, same⟩
  cases same

/-- A command whose query fits is run as the client had it if and only if there is one,
it is ASCII, and `echo` does not take it for an option. -/
theorem command_round_trip_iff (raw : Bool) (text : List Char) (vars : List (List Char))
    (noZero : '\x00' ∉ text) (fits : (pipeQuery raw text vars).length < queryCap) :
    (Exists fun env => Exists fun isRaw =>
        handleExecPipe (pipeQuery raw text vars) = .runs (Utf8.encode text) env isRaw) ↔
      text ≠ [] ∧ (forall char, char ∈ text -> char.toNat < 128) ∧
        isEchoOption (text.map Char.toNat) = false := by
  have command := parseQuery_command raw text vars
  rw [urlencode_eq] at command
  by_cases option : isEchoOption (text.map Char.toNat) = true
  · rw [if_pos option, if_pos rfl] at command
    rw [handleExecPipe]
    simp only [command]
    refine iff_of_false refused_ne_runs (fun conditions => ?_)
    exact Bool.false_ne_true (conditions.2.2.symm.trans option)
  · have plain := Bool.eq_false_iff.mpr option
    rw [if_neg option] at command
    by_cases empty : text = []
    · rw [if_pos (by rw [empty]; rfl)] at command
      rw [handleExecPipe]
      simp only [command]
      exact iff_of_false refused_ne_runs (fun conditions => conditions.1 empty)
    · have encoded := encodeText_ne_nil empty
      have room : (encodeText text).length ≤ cmdBufSize - 1 := by
        have short := length_encodeText_le raw vars plain
        have sizes : queryCap = 1024 ∧ cmdBufSize - 1 = 4095 := ⟨rfl, rfl⟩
        omega
      rw [if_neg encoded] at command
      rw [handleExecPipe]
      simp only [command, percentDecode_encodeText room, PipeAnswer.runs.injEq, exists_and_left,
        exists_eq', and_true]
      rw [cString_decodedText_iff noZero]
      exact ⟨fun isAscii => ⟨empty, isAscii, plain⟩, fun conditions => conditions.2.1⟩

theorem command_round_trip_iff_ls : Exists fun env => Exists fun isRaw =>
    handleExecPipe (pipeQuery false ['l', 's'] []) = .runs (ascii "ls") env isRaw :=
  (command_round_trip_iff false ['l', 's'] [] (by decide) (by decide)).mpr
    ⟨by decide, forall_mem_of_all (by decide), by decide⟩

/-- Of the letter é, two bytes in the command, the server has the one byte that is its code. -/
theorem command_decodes_to_code_point :
    handleExecPipe (pipeQuery false ['é'] []) = .runs [233] [] false ∧
      Utf8.encode ['é'] = [195, 169] ∧
      ¬ Exists fun env => Exists fun isRaw =>
        handleExecPipe (pipeQuery false ['é'] []) = .runs (Utf8.encode ['é']) env isRaw := by
  have answer : handleExecPipe (pipeQuery false ['é'] []) = .runs [233] [] false := by decide
  refine ⟨answer, by decide, ?_⟩
  rintro ⟨env, isRaw, runs⟩
  rw [answer] at runs
  exact absurd (PipeAnswer.runs.inj runs).1 (by decide)

end Client
end AdbBridge
