import AdbBridge.Library.Numeral

namespace Library
namespace Json

open Numeral

/-!
# Reading JSON

The grammar of RFC 8259 over bytes.  A string is read into the bytes it denotes,
with the escapes of code points in UTF-8; a number keeps its text.

A reader may accept more than the grammar.  Two such extensions are parameters:
control characters that stand unescaped in a string, and text behind the value.
-/

/-- What a reader accepts beyond the grammar. -/
structure Dialect where
  rawControls : Bool
  trailing : Bool
deriving DecidableEq, Repr

/-- The grammar itself. -/
def rfc8259 : Dialect := ⟨false, false⟩

/-- A JSON value; the members of an object are in their order. -/
inductive Value where
  | null
  | bool (value : Bool)
  | number (text : List UInt8)
  | string (text : List UInt8)
  | array (elements : List Value)
  | object (members : List (List UInt8 × Value))

/-! ## Strings -/

/-- The UTF-8 encoding of a code point. -/
def utf8 (code : Nat) : List UInt8 := String.utf8EncodeChar (Char.ofNat code)

/-- The byte an escape of two characters stands for. -/
def unescape (kind : UInt8) : Option UInt8 :=
  if kind = 34 ∨ kind = 92 ∨ kind = 47 then some kind
  else if kind = 98 then some 8
  else if kind = 102 then some 12
  else if kind = 110 then some 10
  else if kind = 114 then some 13
  else if kind = 116 then some 9
  else none

/-- A UTF-16 unit: four hexadecimal digits. -/
def readUnit : List UInt8 -> Option (Nat × List UInt8)
  | first :: second :: third :: fourth :: rest =>
      if [first, second, third, fourth].all isHexDigit then
        some (digitsValue 16 [first, second, third, fourth], rest)
      else none
  | _ => none

/-- The second half of a surrogate pair. -/
def readLowSurrogate (high : Nat) : List UInt8 -> Option (List UInt8 × List UInt8)
  | 92 :: 117 :: rest =>
      match readUnit rest with
      | some (low, rest) =>
          if 0xDC00 ≤ low ∧ low < 0xE000 then
            some (utf8 (0x10000 + (high - 0xD800) * 0x400 + (low - 0xDC00)), rest)
          else none
      | none => none
  | _ => none

/-- The escape of a code point, behind its `u`. -/
def readUnicode (text : List UInt8) : Option (List UInt8 × List UInt8) :=
  match readUnit text with
  | some (unit, rest) =>
      if unit < 0xD800 ∨ 0xE000 ≤ unit then some (utf8 unit, rest)
      else if unit < 0xDC00 then readLowSurrogate unit rest
      else none
  | none => none

/-- An escape, behind its backslash. -/
def readEscape : List UInt8 -> Option (List UInt8 × List UInt8)
  | [] => none
  | kind :: rest =>
      if kind = 117 then readUnicode rest
      else (unescape kind).map (fun byte => ([byte], rest))

/-- One character of a string: the bytes it denotes, and what follows it. -/
def readChar (dialect : Dialect) : List UInt8 -> Option (List UInt8 × List UInt8)
  | [] => none
  | byte :: rest =>
      if byte = 92 then readEscape rest
      else if byte < 32 ∧ dialect.rawControls = false then none
      else some ([byte], rest)

/-- The characters up to the closing quote, with fuel. -/
def readChars (dialect : Dialect) : Nat -> List UInt8 -> Option (List UInt8 × List UInt8)
  | 0, _ => none
  | fuel + 1, text =>
      if text.head? = some 34 then some ([], text.tail)
      else
        match readChar dialect text with
        | some (decoded, rest) =>
            (readChars dialect fuel rest).map (fun result => (decoded ++ result.1, result.2))
        | none => none

/-- A string, behind its opening quote. -/
def readString (dialect : Dialect) (text : List UInt8) : Option (List UInt8 × List UInt8) :=
  readChars dialect text.length text

variable {dialect : Dialect} {text rest decoded : List UInt8}

theorem readUnit_length {unit : Nat} (read : readUnit text = some (unit, rest)) :
    rest.length + 4 = text.length := by
  unfold readUnit at read
  split at read
  next first second third fourth others =>
    split at read
    · have same := (Prod.mk.inj (Option.some.inj read)).2
      rw [← same]
      rfl
    · exact absurd read nofun
  next => exact absurd read nofun

theorem utf8_length_le (code : Nat) : (utf8 code).length ≤ 4 := by
  rw [utf8, String.length_utf8EncodeChar]
  exact Char.utf8Size_le_four _

/-- The escape of a code point has at least four digits, and denotes at most four bytes. -/
theorem readUnicode_length (read : readUnicode text = some (decoded, rest)) :
    decoded.length ≤ 4 ∧ rest.length + 4 ≤ text.length := by
  unfold readUnicode at read
  cases unitRead : readUnit text with
  | none =>
      rw [unitRead] at read
      exact absurd read nofun
  | some result =>
      rcases result with ⟨unit, others⟩
      have length := readUnit_length unitRead
      rw [unitRead] at read
      dsimp only at read
      by_cases plain : unit < 0xD800 ∨ 0xE000 ≤ unit
      · rw [if_pos plain] at read
        have same := Prod.mk.inj (Option.some.inj read)
        rw [← same.1, ← same.2]
        exact ⟨utf8_length_le unit, Nat.le_of_eq length⟩
      · rw [if_neg plain] at read
        by_cases high : unit < 0xDC00
        · rw [if_pos high] at read
          unfold readLowSurrogate at read
          split at read
          next later =>
            split at read
            next low final lowRead =>
              have lowLength := readUnit_length lowRead
              split at read
              · have same := Prod.mk.inj (Option.some.inj read)
                rw [← same.1, ← same.2]
                refine ⟨utf8_length_le _, ?_⟩
                rw [List.length_cons, List.length_cons] at length
                omega
              · exact absurd read nofun
            next => exact absurd read nofun
          next => exact absurd read nofun
        · rw [if_neg high] at read
          exact absurd read nofun

/-- An escape of two characters. -/
theorem readEscape_of_not_unicode {kind : UInt8} (notUnicode : kind ≠ 117) (rest : List UInt8) :
    readEscape (kind :: rest) = (unescape kind).map (fun byte => ([byte], rest)) := by
  rw [readEscape, if_neg notUnicode]

/-- A character is followed by a shorter text. -/
theorem readChar_length (read : readChar dialect text = some (decoded, rest)) :
    rest.length < text.length := by
  cases text with
  | nil => exact absurd read nofun
  | cons byte others =>
      rw [readChar] at read
      by_cases escape : byte = 92
      · rw [if_pos escape] at read
        cases others with
        | nil => exact absurd read nofun
        | cons kind later =>
            by_cases unicode : kind = 117
            · rw [readEscape, if_pos unicode] at read
              have length := (readUnicode_length read).2
              rw [List.length_cons, List.length_cons]
              omega
            · rw [readEscape_of_not_unicode unicode] at read
              rcases Option.map_eq_some_iff.mp read with ⟨_, _, same⟩
              rw [← (Prod.mk.inj same).2, List.length_cons, List.length_cons]
              omega
      · rw [if_neg escape] at read
        split at read
        · exact absurd read nofun
        · rw [← (Prod.mk.inj (Option.some.inj read)).2]
          exact Nat.lt_succ_self _

/-- As many steps as there are bytes are enough. -/
theorem readChars_eq_readString {fuel : Nat} (enough : text.length ≤ fuel) :
    readChars dialect fuel text = readString dialect text := by
  induction fuel using Nat.strong_induction_on generalizing text with
  | _ fuel inductionHypothesis =>
      cases text with
      | nil =>
          cases fuel with
          | zero => rfl
          | succ fuel =>
              rw [readChars, if_neg (by simp)]
              rfl
      | cons byte others =>
          cases fuel with
          | zero => exact absurd enough (by simp)
          | succ fuel =>
              rw [readString, List.length_cons, readChars, readChars]
              by_cases quote : (byte :: others).head? = some 34
              · rw [if_pos quote, if_pos quote]
              · rw [if_neg quote, if_neg quote]
                cases charRead : readChar dialect (byte :: others) with
                | none => rfl
                | some result =>
                    rcases result with ⟨decoded, rest⟩
                    have shorter := readChar_length charRead
                    rw [List.length_cons] at shorter enough
                    dsimp only
                    rw [inductionHypothesis fuel (Nat.lt_succ_self _) (by omega),
                      inductionHypothesis others.length (by omega) (by omega)]

theorem readString_quote (dialect : Dialect) (rest : List UInt8) :
    readString dialect (34 :: rest) = some ([], rest) := by
  rw [readString, List.length_cons, readChars, if_pos List.head?_cons, List.tail_cons]

theorem readString_char (notQuote : text.head? ≠ some 34) :
    readString dialect text = (readChar dialect text).bind (fun first =>
      (readString dialect first.2).map (fun result => (first.1 ++ result.1, result.2))) := by
  cases text with
  | nil => rfl
  | cons byte others =>
      rw [readString, List.length_cons, readChars, if_neg notQuote]
      cases charRead : readChar dialect (byte :: others) with
      | none => rfl
      | some result =>
          have shorter := readChar_length charRead
          rw [List.length_cons] at shorter
          dsimp only [Option.bind_some]
          rw [readChars_eq_readString (Nat.le_of_lt_succ shorter)]

/-- A character that stands for itself. -/
theorem readChar_plain {byte : UInt8} (notEscape : byte ≠ 92)
    (allowed : 32 ≤ byte ∨ dialect.rawControls = true) (rest : List UInt8) :
    readChar dialect (byte :: rest) = some ([byte], rest) := by
  rw [readChar, if_neg notEscape, if_neg]
  rintro ⟨control, strict⟩
  rcases allowed with high | raw
  · exact absurd high (UInt8.not_le.mpr control)
  · exact absurd (strict.symm.trans raw) nofun

/-- Text without quotes and backslashes, and without control characters if these may not
stand in a string, denotes itself. -/
theorem readString_plain (dialect : Dialect) {text : List UInt8} (plain : forall byte, byte ∈ text ->
    byte ≠ 34 ∧ byte ≠ 92 ∧ (32 ≤ byte ∨ dialect.rawControls = true)) (rest : List UInt8) :
    readString dialect (text ++ 34 :: rest) = some (text, rest) := by
  induction text with
  | nil => exact readString_quote dialect rest
  | cons byte text inductionHypothesis =>
      have here := plain byte List.mem_cons_self
      have notQuote : ((byte :: text) ++ 34 :: rest).head? ≠ some 34 :=
        fun quote => here.1 (Option.some.inj quote)
      rw [readString_char notQuote, List.cons_append, readChar_plain here.2.1 here.2.2, Option.bind_some,
        inductionHypothesis (fun other member => plain other (List.mem_cons_of_mem byte member))]
      rfl

/-! ## Values -/

def skipBlanks (text : List UInt8) : List UInt8 := text.dropWhile isBlank

/-- One or more digits. -/
def readDigits (text : List UInt8) : Option (List UInt8 × List UInt8) :=
  if text.takeWhile isDigit = [] then none else some (text.takeWhile isDigit, text.dropWhile isDigit)

/-- Digits without a leading zero. -/
def readInteger : List UInt8 -> Option (List UInt8 × List UInt8)
  | [] => none
  | byte :: rest => if byte = 48 then some ([48], rest) else readDigits (byte :: rest)

/-- The fraction of a number, if there is one. -/
def readFraction : List UInt8 -> Option (List UInt8 × List UInt8)
  | 46 :: rest => (readDigits rest).map (fun digits => (46 :: digits.1, digits.2))
  | rest => some ([], rest)

/-- A sign, if there is one. -/
def readSign (plus : Bool) : List UInt8 -> List UInt8 × List UInt8
  | [] => ([], [])
  | byte :: rest => if byte = 45 ∨ (plus = true ∧ byte = 43) then ([byte], rest) else ([], byte :: rest)

/-- The exponent of a number, if there is one. -/
def readExponent : List UInt8 -> Option (List UInt8 × List UInt8)
  | [] => some ([], [])
  | byte :: rest =>
      if byte = 101 ∨ byte = 69 then
        (readDigits (readSign true rest).2).map
          (fun digits => (byte :: ((readSign true rest).1 ++ digits.1), digits.2))
      else some ([], byte :: rest)

/-- A number, as its text. -/
def readNumber (text : List UInt8) : Option (List UInt8 × List UInt8) := do
  let sign := readSign false text
  let integer ← readInteger sign.2
  let fraction ← readFraction integer.2
  let exponent ← readExponent fraction.2
  return (sign.1 ++ integer.1 ++ fraction.1 ++ exponent.1, exponent.2)

/-- A literal name or a number. -/
def readScalar (text : List UInt8) : Option (Value × List UInt8) :=
  if ascii "null" <+: text then some (.null, text.drop 4)
  else if ascii "true" <+: text then some (.bool true, text.drop 4)
  else if ascii "false" <+: text then some (.bool false, text.drop 5)
  else (readNumber text).map (fun number => (.number number.1, number.2))

mutual

/-- A value, with fuel. -/
def readValue (dialect : Dialect) : Nat -> List UInt8 -> Option (Value × List UInt8)
  | 0, _ => none
  | fuel + 1, text =>
      match skipBlanks text with
      | 34 :: rest => (readString dialect rest).map (fun string => (.string string.1, string.2))
      | 91 :: rest =>
          if (skipBlanks rest).head? = some 93 then some (.array [], (skipBlanks rest).tail)
          else (readElements dialect fuel rest).map (fun array => (.array array.1, array.2))
      | 123 :: rest =>
          if (skipBlanks rest).head? = some 125 then some (.object [], (skipBlanks rest).tail)
          else (readMembers dialect fuel rest).map (fun object => (.object object.1, object.2))
      | rest => readScalar rest

/-- The elements of an array up to its bracket. -/
def readElements (dialect : Dialect) : Nat -> List UInt8 -> Option (List Value × List UInt8)
  | 0, _ => none
  | fuel + 1, text =>
      match readValue dialect fuel text with
      | some (value, rest) =>
          match skipBlanks rest with
          | 93 :: rest => some ([value], rest)
          | 44 :: rest =>
              (readElements dialect fuel rest).map (fun array => (value :: array.1, array.2))
          | _ => none
      | none => none

/-- The members of an object up to its brace. -/
def readMembers (dialect : Dialect) :
    Nat -> List UInt8 -> Option (List (List UInt8 × Value) × List UInt8)
  | 0, _ => none
  | fuel + 1, text =>
      match skipBlanks text with
      | 34 :: rest =>
          match readString dialect rest with
          | some (name, rest) =>
              match skipBlanks rest with
              | 58 :: rest =>
                  match readValue dialect fuel rest with
                  | some (value, rest) =>
                      match skipBlanks rest with
                      | 125 :: rest => some ([(name, value)], rest)
                      | 44 :: rest =>
                          (readMembers dialect fuel rest).map
                            (fun object => ((name, value) :: object.1, object.2))
                      | _ => none
                  | none => none
              | _ => none
          | none => none
      | _ => none

end

/-- The value of a text. -/
def parse (dialect : Dialect) (text : List UInt8) : Option Value :=
  match readValue dialect (text.length + 1) text with
  | some (value, rest) => if dialect.trailing ∨ skipBlanks rest = [] then some value else none
  | none => none

/-- The first member of an object with the given name, up to the case of letters. -/
def Value.member (value : Value) (name : List UInt8) : Option Value :=
  match value with
  | .object members =>
      (members.find? (fun entry => entry.1.map lower == name.map lower)).map (fun entry => entry.2)
  | _ => none

/-! ## Objects that begin with a string member -/

variable {name string : List UInt8} {value : Value}

/-- The text of an object up to the opening quote of the value of its first member. -/
def openMember (name : List UInt8) : List UInt8 := 123 :: 34 :: (name ++ [34, 58, 34])

/-- The members of an object from the value of the first one on, which is a string. -/
def membersFrom (dialect : Dialect) (fuel : Nat) (name text : List UInt8) :
    Option (List (List UInt8 × Value) × List UInt8) :=
  match readString dialect text with
  | some (string, rest) =>
      match skipBlanks rest with
      | 125 :: rest => some ([(name, .string string)], rest)
      | 44 :: rest =>
          (readMembers dialect fuel rest).map
            (fun object => ((name, .string string) :: object.1, object.2))
      | _ => none
  | none => none

private theorem readMembers_first (plain : forall byte, byte ∈ name -> byte ≠ 34 ∧ byte ≠ 92 ∧ 32 ≤ byte)
    (fuel : Nat) (text : List UInt8) :
    readMembers dialect (fuel + 2) (34 :: (name ++ 34 :: 58 :: 34 :: text)) =
      membersFrom dialect (fuel + 1) name text := by
  have quote : forall rest : List UInt8, skipBlanks (34 :: rest) = 34 :: rest :=
    fun rest => List.dropWhile_cons_of_neg (by decide)
  have colon : skipBlanks (58 :: 34 :: text) = 58 :: 34 :: text :=
    List.dropWhile_cons_of_neg (by decide)
  have isName := readString_plain dialect
    (fun byte member => ⟨(plain byte member).1, (plain byte member).2.1, Or.inl (plain byte member).2.2⟩)
    (58 :: 34 :: text)
  have value : readValue dialect (fuel + 1) (34 :: text) =
      (readString dialect text).map (fun string => (.string string.1, string.2)) := by
    rw [readValue, quote]
    rfl
  rw [readMembers, quote]
  simp only [isName, colon, value]
  rw [membersFrom]
  cases readString dialect text with
  | none => rfl
  | some result => rfl

private theorem readValue_first (dialect : Dialect)
    (plain : forall byte, byte ∈ name -> byte ≠ 34 ∧ byte ≠ 92 ∧ 32 ≤ byte)
    (text : List UInt8) : Exists fun fuel =>
    readValue dialect ((openMember name ++ text).length + 1) (openMember name ++ text) =
      (membersFrom dialect fuel name text).map (fun object => (.object object.1, object.2)) := by
  have shape : openMember name ++ text = 123 :: 34 :: (name ++ 34 :: 58 :: 34 :: text) := by
    simp [openMember]
  have brace : forall rest : List UInt8, skipBlanks (123 :: rest) = 123 :: rest :=
    fun rest => List.dropWhile_cons_of_neg (by decide)
  have quote : forall rest : List UInt8, skipBlanks (34 :: rest) = 34 :: rest :=
    fun rest => List.dropWhile_cons_of_neg (by decide)
  refine ⟨(name ++ 34 :: 58 :: 34 :: text).length + 1, ?_⟩
  have isObject : forall rest : List UInt8, (skipBlanks rest).head? ≠ some 125 ->
      readValue dialect (rest.length + 2) (123 :: rest) =
        (readMembers dialect (rest.length + 1) rest).map (fun object => (.object object.1, object.2)) := by
    intro rest notEmpty
    rw [readValue, brace]
    exact if_neg notEmpty
  rw [shape, List.length_cons, isObject _ (by rw [quote]; simp), List.length_cons,
    readMembers_first plain]

/-- The value of the first member is the string that is read, and a comma or a brace follows. -/
theorem parse_first_member (plain : forall byte, byte ∈ name -> byte ≠ 34 ∧ byte ≠ 92 ∧ 32 ≤ byte)
    (parsed : parse dialect (openMember name ++ text) = some value) :
    Exists fun string => Exists fun rest => readString dialect text = some (string, rest) ∧
      value.member name = some (.string string) ∧
      ((skipBlanks rest).head? = some 125 ∨ (skipBlanks rest).head? = some 44) := by
  rcases readValue_first dialect plain text with ⟨fuel, read⟩
  have first : forall members : List (List UInt8 × Value), forall string : List UInt8,
      (Value.object ((name, .string string) :: members)).member name = some (.string string) := by
    intro members string
    rw [Value.member, List.find?_cons_of_pos (by simp)]
    rfl
  rw [parse, read] at parsed
  cases isRead : membersFrom dialect fuel name text with
  | none =>
      rw [isRead] at parsed
      exact absurd parsed nofun
  | some object =>
      rw [isRead] at parsed
      have isValue : value = .object object.1 := by
        dsimp only [Option.map_some] at parsed
        split at parsed
        · exact (Option.some.inj parsed).symm
        · exact absurd parsed nofun
      unfold membersFrom at isRead
      split at isRead
      next string rest stringRead =>
        refine ⟨string, rest, stringRead, ?_⟩
        split at isRead
        next final followed =>
          rw [isValue, ← Option.some.inj isRead, followed]
          exact ⟨first [] string, Or.inl rfl⟩
        next others followed =>
          rcases Option.map_eq_some_iff.mp isRead with ⟨more, _, same⟩
          rw [isValue, ← same, followed]
          exact ⟨first more.1 string, Or.inr rfl⟩
        next => exact absurd isRead nofun
      next => exact absurd isRead nofun

/-- An object with a single string member. -/
theorem parse_single_member (plain : forall byte, byte ∈ name -> byte ≠ 34 ∧ byte ≠ 92 ∧ 32 ≤ byte)
    (read : readString dialect text = some (string, [125])) : Exists fun value =>
    parse dialect (openMember name ++ text) = some value ∧
      value.member name = some (.string string) := by
  rcases readValue_first dialect plain text with ⟨fuel, isRead⟩
  have brace : skipBlanks [125] = [125] := by decide
  have members : membersFrom dialect fuel name text = some ([(name, .string string)], []) := by
    rw [membersFrom, read]
    simp only [brace]
  refine ⟨.object [(name, .string string)], ?_, ?_⟩
  · rw [parse, isRead, members]
    exact if_pos (Or.inr rfl)
  · rw [Value.member, List.find?_cons_of_pos (by simp)]
    rfl

end Json
end Library
