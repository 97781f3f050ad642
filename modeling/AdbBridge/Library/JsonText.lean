import AdbBridge.Library.Json
import AdbBridge.Library.Utf8

namespace Library
namespace Json

open Numeral

/-!
# Strings pasted into JSON text

A text written between quotes without being escaped is read back as itself only
if it has nothing to escape.  The converse is not immediate: an escape in the
text denotes fewer bytes than it takes, and the reader might make up for them
with what stands behind the closing quote.  It cannot if a comma and a quote
stand there.
-/

/-- Text that stands for itself between quotes. -/
def Plain (text : List UInt8) : Prop := forall byte, byte ∈ text -> byte ≠ 34 ∧ byte ≠ 92 ∧ 32 ≤ byte

theorem readString_of_plain {text : List UInt8} (plain : Plain text) (rest : List UInt8) :
    readString rfc8259 (text ++ 34 :: rest) = some (text, rest) :=
  readString_plain rfc8259 (fun byte member =>
    ⟨(plain byte member).1, (plain byte member).2.1, Or.inl (plain byte member).2.2⟩) rest

/-! ## Strings that are escaped -/

/-- A text that is read as one byte of a string. -/
def Spells (text : List UInt8) (byte : UInt8) : Prop :=
  forall rest, (text ++ rest).head? ≠ some 34 ∧ readChar rfc8259 (text ++ rest) = some ([byte], rest)

theorem spells_self {byte : UInt8} (notQuote : byte ≠ 34) (notEscape : byte ≠ 92) (high : 32 ≤ byte) :
    Spells [byte] byte :=
  fun rest => ⟨fun first => notQuote (Option.some.inj first), readChar_plain notEscape (Or.inl high) rest⟩

/-- An escape of two characters. -/
theorem spells_short {kind byte : UInt8} (means : unescape kind = some byte) : Spells [92, kind] byte := by
  intro rest
  refine ⟨fun first => absurd (Option.some.inj first) (by decide), ?_⟩
  have notUnicode : kind ≠ 117 := by
    rintro rfl
    have none : unescape 117 = none := by decide
    rw [none] at means
    cases means
  change readEscape (kind :: rest) = _
  rw [readEscape_of_not_unicode notUnicode, means]
  rfl

/-- An ASCII character as four hexadecimal digits. -/
theorem spells_unicode {digits : List UInt8} {byte : UInt8} (four : digits.length = 4)
    (hex : digits.all isHexDigit = true) (value : digitsValue 16 digits = byte.toNat) (isAscii : byte < 128) :
    Spells (92 :: 117 :: digits) byte := by
  intro rest
  refine ⟨fun first => absurd (Option.some.inj first) (by decide), ?_⟩
  have small : byte.toNat < 128 := UInt8.lt_iff_toNat_lt.mp isAscii
  have unit : readUnit (digits ++ rest) = some (byte.toNat, rest) := by
    rcases List.length_eq_four.mp four with ⟨first, second, third, fourth, shape⟩
    rw [shape] at hex value ⊢
    rw [← value]
    exact if_pos hex
  have encoded : utf8 byte.toNat = [byte] := Utf8.encodeChar_ofNat isAscii
  change readUnicode (digits ++ rest) = _
  rw [readUnicode, unit]
  dsimp only
  rw [if_pos (Or.inl (by omega)), encoded]

/-- A text that is read as a string up to the quote behind it. -/
def Spelled (text string : List UInt8) : Prop :=
  forall rest, readString rfc8259 (text ++ 34 :: rest) = some (string, rest)

theorem Plain.spelled {text : List UInt8} (plain : Plain text) : Spelled text text := readString_of_plain plain

/-- A string is read back if each of its bytes is. -/
theorem spelled_flatMap {escape : UInt8 -> List UInt8} (spells : forall byte, Spells (escape byte) byte)
    (string : List UInt8) : Spelled (string.flatMap escape) string := by
  intro rest
  induction string with
  | nil => exact readString_quote rfc8259 rest
  | cons byte string inductionHypothesis =>
      rcases spells byte (string.flatMap escape ++ 34 :: rest) with ⟨notQuote, isByte⟩
      rw [List.flatMap_cons, List.append_assoc, readString_char notQuote, isByte, Option.bind_some,
        inductionHypothesis]
      rfl

/-! ## An escape takes more than it denotes -/

variable {text rest decoded tail : List UInt8}

/-- The four digits of a unit stand before a quote that follows them. -/
theorem readUnit_within {unit : Nat} (read : readUnit (text ++ 34 :: tail) = some (unit, rest)) :
    Exists fun digits => Exists fun later =>
      text = digits ++ later ∧ digits.length = 4 ∧ rest = later ++ 34 :: tail := by
  have quote : isHexDigit 34 = false := by decide
  rcases text with _ | ⟨first, _ | ⟨second, _ | ⟨third, _ | ⟨fourth, later⟩⟩⟩⟩
  · unfold readUnit at read
    split at read
    next shape =>
      rw [← (List.cons.inj shape).1, List.all_cons, quote, Bool.false_and, if_neg Bool.false_ne_true] at read
      cases read
    next => cases read
  · unfold readUnit at read
    split at read
    next shape =>
      rw [← (List.cons.inj (List.cons.inj shape).2).1] at read
      simp only [List.all_cons, quote, Bool.false_and, Bool.and_false, Bool.false_eq_true, if_false] at read
      cases read
    next => cases read
  · unfold readUnit at read
    split at read
    next shape =>
      rw [← (List.cons.inj (List.cons.inj (List.cons.inj shape).2).2).1] at read
      simp only [List.all_cons, quote, Bool.false_and, Bool.and_false, Bool.false_eq_true, if_false] at read
      cases read
    next => cases read
  · unfold readUnit at read
    split at read
    next shape =>
      rw [← (List.cons.inj (List.cons.inj (List.cons.inj (List.cons.inj shape).2).2).2).1] at read
      simp only [List.all_cons, quote, Bool.false_and, Bool.and_false, Bool.false_eq_true, if_false] at read
      cases read
    next => cases read
  · refine ⟨[first, second, third, fourth], later, rfl, rfl, ?_⟩
    unfold readUnit at read
    split at read
    next shape =>
      split at read
      · rw [← (Prod.mk.inj (Option.some.inj read)).2]
        exact (List.cons.inj (List.cons.inj (List.cons.inj (List.cons.inj shape).2).2).2).2.symm
      · cases read
    next => cases read

/-- The escape of a code point stands before a quote that follows it. -/
theorem readUnicode_within (read : readUnicode (text ++ 34 :: tail) = some (decoded, rest)) :
    Exists fun escape => Exists fun later =>
      text = escape ++ later ∧ decoded.length ≤ escape.length ∧ rest = later ++ 34 :: tail := by
  have short := (readUnicode_length read).1
  unfold readUnicode at read
  cases unitRead : readUnit (text ++ 34 :: tail) with
  | none =>
      rw [unitRead] at read
      cases read
  | some result =>
      rcases result with ⟨unit, others⟩
      rcases readUnit_within unitRead with ⟨digits, later, split, four, isRest⟩
      rw [unitRead] at read
      dsimp only at read
      by_cases plain : unit < 0xD800 ∨ 0xE000 ≤ unit
      · rw [if_pos plain] at read
        have same := Prod.mk.inj (Option.some.inj read)
        exact ⟨digits, later, split, by omega, by rw [← same.2, isRest]⟩
      · rw [if_neg plain] at read
        by_cases high : unit < 0xDC00
        · rw [if_pos high, isRest] at read
          rcases later with _ | ⟨slash, _ | ⟨mark, later⟩⟩
          · unfold readLowSurrogate at read
            split at read
            next shape => exact absurd (List.cons.inj shape).1 (by decide)
            next => cases read
          · unfold readLowSurrogate at read
            split at read
            next shape => exact absurd (List.cons.inj (List.cons.inj shape).2).1 (by decide)
            next => cases read
          · unfold readLowSurrogate at read
            split at read
            next more shape =>
              have isMore : more = later ++ 34 :: tail := (List.cons.inj (List.cons.inj shape).2).2.symm
              split at read
              next low final lowRead =>
                rw [isMore] at lowRead
                rcases readUnit_within lowRead with ⟨lowDigits, last, lowSplit, _, isFinal⟩
                split at read
                · have same := Prod.mk.inj (Option.some.inj read)
                  refine ⟨digits ++ slash :: mark :: lowDigits, last, ?_, ?_, by rw [← same.2, isFinal]⟩
                  · rw [split, lowSplit, List.append_assoc]
                    rfl
                  · rw [List.length_append]
                    omega
                · cases read
              next => cases read
            next => cases read
        · rw [if_neg high] at read
          cases read

/-- An escape that begins in a text ends in it, if a quote stands behind and the
text is more than its backslash. -/
theorem readEscape_within {kind : UInt8} (read : readEscape (kind :: (text ++
    34 :: tail)) = some (decoded, rest)) :
    Exists fun escape => Exists fun later =>
      text = escape ++ later ∧ decoded.length ≤ escape.length + 1 ∧ rest = later ++ 34 :: tail := by
  by_cases unicode : kind = 117
  · rw [readEscape, if_pos unicode] at read
    rcases readUnicode_within read with ⟨escape, later, split, short, isRest⟩
    exact ⟨escape, later, split, by omega, isRest⟩
  · rw [readEscape_of_not_unicode unicode] at read
    rcases Option.map_eq_some_iff.mp read with ⟨byte, _, same⟩
    have parts := Prod.mk.inj same
    refine ⟨[], text, rfl, ?_, parts.2.symm⟩
    rw [← parts.1]
    exact Nat.le_refl 1

/-! ## What is read back as itself -/

/-- A text in front of a quote, a comma and a quote that is read as itself, or as
itself behind something else, stands for itself and nothing stands before it. -/
theorem plain_of_readString_append {before : List UInt8}
    (read : readString rfc8259 (text ++ 34 :: 44 :: 34 :: tail) = some (before ++ text, rest)) :
    before = [] ∧ Plain text := by
  induction size : text.length using Nat.strong_induction_on generalizing text before rest with
  | _ size inductionHypothesis =>
      cases text with
      | nil =>
          rw [List.nil_append, readString_quote, List.append_nil] at read
          exact ⟨(Prod.mk.inj (Option.some.inj read)).1.symm, fun _ member => absurd member List.not_mem_nil⟩
      | cons byte text =>
          subst size
          by_cases quote : byte = 34
          · rw [quote, List.cons_append, readString_quote] at read
            have impossible := (Prod.mk.inj (Option.some.inj read)).1
            exact absurd impossible.symm (by simp)
          have notQuote : (byte :: text ++ 34 :: 44 :: 34 :: tail).head? ≠ some 34 :=
            fun first => quote (Option.some.inj first)
          rw [readString_char notQuote, List.cons_append] at read
          by_cases escape : byte = 92
          · -- what an escape denotes is shorter than it, so the rest would have to begin too late
            rw [readChar, if_pos escape] at read
            rcases Option.bind_eq_some_iff.mp read with ⟨⟨decoded, others⟩, isEscape, later⟩
            rcases Option.map_eq_some_iff.mp later with ⟨⟨string, final⟩, isString, same⟩
            have whole := (Prod.mk.inj same).1
            dsimp only at whole isString
            cases text with
            | nil =>
                have denoted : (decoded, others) = ([34], 44 :: 34 :: tail) :=
                  (Option.some.inj isEscape).symm
                rw [(Prod.mk.inj denoted).2] at isString
                have comma : readString rfc8259 (44 :: 34 :: tail) = some ([44], tail) :=
                  readString_of_plain (fun other member => by
                    rw [List.mem_singleton.mp member]
                    decide : Plain [44]) tail
                have isComma := Option.some.inj (comma.symm.trans isString)
                rw [← (Prod.mk.inj isComma).1, escape] at whole
                have last : (44 : UInt8) = 92 := (List.cons.inj (List.append_inj' whole rfl).2).1
                exact absurd last (by decide)
            | cons kind text =>
                rcases readEscape_within isEscape with ⟨used, remaining, split, short, isRest⟩
                rw [isRest] at isString
                have shape : before ++ byte :: kind :: text =
                    before ++ (byte :: kind :: used) ++ remaining := by
                  rw [split, List.append_assoc]
                  rfl
                have front : decoded <+: before ++ (byte :: kind :: used) := by
                  refine List.prefix_of_prefix_length_le (List.prefix_append decoded string)
                    (?_ : _ <+: decoded ++ string) ?_
                  · rw [whole, shape]
                    exact List.prefix_append _ _
                  · rw [List.length_append, List.length_cons, List.length_cons]
                    omega
                rcases front with ⟨missing, isFront⟩
                have isRemaining : string = missing ++ remaining := by
                  rw [shape, ← isFront, List.append_assoc] at whole
                  exact List.append_cancel_left whole
                rw [isRemaining] at isString
                have smaller : remaining.length < (byte :: kind :: text).length := by
                  rw [split, List.length_cons, List.length_cons, List.length_append]
                  omega
                have none := (inductionHypothesis _ smaller isString rfl).1
                have lengths := congrArg List.length isFront
                rw [none, List.append_nil, List.length_append, List.length_cons, List.length_cons] at lengths
                omega
          · by_cases control : byte < 32
            · rw [readChar, if_neg escape, if_pos ⟨control, rfl⟩] at read
              cases read
            · have high : 32 ≤ byte := UInt8.not_lt.mp control
              rw [readChar_plain escape (Or.inl high), Option.bind_some] at read
              rcases Option.map_eq_some_iff.mp read with ⟨⟨string, final⟩, isString, same⟩
              have whole := (Prod.mk.inj same).1
              dsimp only at whole isString
              have smaller : text.length < (byte :: text).length := Nat.lt_succ_self _
              cases before with
              | nil =>
                  rw [List.nil_append, List.singleton_append] at whole
                  have isText : string = [] ++ text := (List.cons.inj whole).2
                  rw [isText] at isString
                  have plain := (inductionHypothesis _ smaller isString rfl).2
                  refine ⟨rfl, fun other member => ?_⟩
                  rcases List.mem_cons.mp member with here | later
                  · rw [here]
                    exact ⟨quote, escape, high⟩
                  · exact plain other later
              | cons first before =>
                  rw [List.singleton_append, List.cons_append] at whole
                  have isText : string = (before ++ [byte]) ++ text := by
                    rw [(List.cons.inj whole).2, List.append_assoc, List.singleton_append]
                  rw [isText] at isString
                  have none := (inductionHypothesis _ smaller isString rfl).1
                  exact absurd none (by simp)

/-! ## Numbers and booleans -/

/-- The text goes on with the end of a member, of an array or of an object. -/
def Stops (tail : List UInt8) : Prop :=
  forall byte, tail.head? = some byte -> byte = 44 ∨ byte = 93 ∨ byte = 125

theorem Stops.cons {byte : UInt8} (stops : byte = 44 ∨ byte = 93 ∨ byte = 125) (rest : List UInt8) :
    Stops (byte :: rest) := fun _ first => Option.some.inj first ▸ stops

/-- A text that is read as a value wherever a value may end behind it. -/
def Reads (text : List UInt8) (value : Value) : Prop :=
  forall fuel tail, Stops tail -> readValue rfc8259 (fuel + 1) (text ++ tail) = some (value, tail)

/-- Text that begins neither with a blank nor with a string, an array or an object
is a scalar. -/
theorem readValue_scalar {byte : UInt8} (notBlank : isBlank byte = false)
    (notOpen : byte ≠ 34 ∧ byte ≠ 91 ∧ byte ≠ 123) (fuel : Nat) (rest : List UInt8) :
    readValue rfc8259 (fuel + 1) (byte :: rest) = readScalar (byte :: rest) := by
  have kept : skipBlanks (byte :: rest) = byte :: rest :=
    List.dropWhile_cons_of_neg (by rw [notBlank]; exact Bool.false_ne_true)
  rw [readValue, kept]
  split
  next shape => exact absurd (List.cons.inj shape).1 notOpen.1
  next shape => exact absurd (List.cons.inj shape).1 notOpen.2.1
  next shape => exact absurd (List.cons.inj shape).1 notOpen.2.2
  next => rfl

theorem reads_true : Reads (ascii "true") (.bool true) := by
  intro fuel tail _
  have notNull : ¬ ascii "null" <+: ascii "true" ++ tail := fun isPrefix =>
    absurd (List.cons_prefix_cons.mp isPrefix).1 (by decide)
  change readValue rfc8259 (fuel + 1) (116 :: (ascii "rue" ++ tail)) = _
  rw [readValue_scalar (by decide) (by decide)]
  change readScalar (ascii "true" ++ tail) = _
  rw [readScalar, if_neg notNull, if_pos (List.prefix_append _ _)]
  rfl

theorem reads_false : Reads (ascii "false") (.bool false) := by
  intro fuel tail _
  have notNull : ¬ ascii "null" <+: ascii "false" ++ tail := fun isPrefix =>
    absurd (List.cons_prefix_cons.mp isPrefix).1 (by decide)
  have notTrue : ¬ ascii "true" <+: ascii "false" ++ tail := fun isPrefix =>
    absurd (List.cons_prefix_cons.mp isPrefix).1 (by decide)
  change readValue rfc8259 (fuel + 1) (102 :: (ascii "alse" ++ tail)) = _
  rw [readValue_scalar (by decide) (by decide)]
  change readScalar (ascii "false" ++ tail) = _
  rw [readScalar, if_neg notNull, if_neg notTrue, if_pos (List.prefix_append _ _)]
  rfl

/-- A number behind its sign is read up to the end of its digits. -/
theorem readInteger_formatDec (value : Nat) (stops : Stops tail) :
    readInteger (formatDec (value : Int) ++ tail) = some (formatDec (value : Int), tail) := by
  have stop : forall byte, tail.head? = some byte -> isDigit byte = false := by
    intro byte first
    rcases stops byte first with rfl | rfl | rfl <;> decide
  have none : tail.takeWhile isDigit = [] ∧ tail.dropWhile isDigit = tail := by
    cases tail with
    | nil => exact ⟨rfl, rfl⟩
    | cons byte rest =>
        have notDigit : ¬ isDigit byte = true := by
          rw [stop byte rfl]
          exact Bool.false_ne_true
        exact ⟨List.takeWhile_cons_of_neg notDigit, List.dropWhile_cons_of_neg notDigit⟩
  have digits : readDigits (formatDec (value : Int) ++ tail) = some (formatDec (value : Int), tail) := by
    have all : forall byte, byte ∈ formatDec (value : Int) -> isDigit byte = true :=
      fun byte member => isDigit_of_mem_formatDec member
    rw [readDigits, List.takeWhile_append_of_pos all, List.dropWhile_append_of_pos all, none.1, none.2,
      List.append_nil, if_neg (formatDec_ne_nil value)]
  by_cases zero : value = 0
  · have isZero : formatDec ((0 : Nat) : Int) = [48] := by decide
    rw [zero, isZero]
    rfl
  · have leading := formatDec_head_ne_zero (Nat.pos_of_ne_zero zero)
    cases shape : formatDec (value : Int) with
    | nil => exact absurd shape (formatDec_ne_nil value)
    | cons byte rest =>
        rw [shape] at leading digits
        have notZero : byte ≠ 48 := fun isZero => leading (by rw [isZero]; rfl)
        rw [List.cons_append, readInteger, if_neg notZero]
        exact digits

/-- Without a fraction and an exponent a number ends with its digits. -/
theorem readNumber_formatDec (value : Int) (stops : Stops tail) :
    readNumber (formatDec value ++ tail) = some (formatDec value, tail) := by
  have fraction : readFraction tail = some ([], tail) := by
    unfold readFraction
    split
    next rest =>
      rcases stops 46 rfl with impossible | impossible | impossible <;> exact absurd impossible (by decide)
    next => rfl
  have exponent : readExponent tail = some ([], tail) := by
    cases tail with
    | nil => rfl
    | cons byte rest =>
        have notMark : ¬ (byte = 101 ∨ byte = 69) := by
          rcases stops byte rfl with rfl | rfl | rfl <;> decide
        rw [readExponent, if_neg notMark]
  rcases Int.eq_nat_or_neg value with ⟨magnitude, positive | negative⟩
  · subst positive
    cases shape : formatDec (magnitude : Int) with
    | nil => exact absurd shape (formatDec_ne_nil magnitude)
    | cons byte rest =>
        have integer := readInteger_formatDec magnitude stops
        rw [shape] at integer
        have isDigit := isDigit_of_mem_formatDec (shape ▸ List.mem_cons_self : byte ∈ formatDec
          (magnitude : Int))
        have notMinus : ¬ (byte = 45 ∨ (false = true ∧ byte = 43)) := by
          rintro (rfl | impossible)
          · exact absurd isDigit (by decide)
          · exact Bool.false_ne_true impossible.1
        have sign : readSign false (byte :: rest ++ tail) = ([], byte :: rest ++ tail) := by
          rw [List.cons_append, readSign, if_neg notMinus]
        rw [readNumber]
        simp only [sign, integer, fraction, exponent, Option.bind_eq_bind, Option.bind_some]
        simp
  · by_cases zero : magnitude = 0
    · subst zero
      subst negative
      have integer := readInteger_formatDec 0 stops
      have isZero : formatDec (-((0 : Nat) : Int)) = [48] := by decide
      have same : formatDec ((0 : Nat) : Int) = [48] := by decide
      rw [same] at integer
      have sign : readSign false ([48] ++ tail) = ([], [48] ++ tail) := rfl
      rw [isZero, readNumber]
      simp only [sign, integer, fraction, exponent, Option.bind_eq_bind, Option.bind_some]
      rfl
    · subst negative
      have integer := readInteger_formatDec magnitude stops
      have sign : readSign false (45 :: formatDec (magnitude : Int) ++ tail) =
          ([45], formatDec (magnitude : Int) ++ tail) := rfl
      rw [formatDec_neg (Nat.pos_of_ne_zero zero), readNumber]
      simp only [sign, integer, fraction, exponent, Option.bind_eq_bind, Option.bind_some]
      simp

/-- The text `%d` prints is a JSON number. -/
theorem reads_formatDec (value : Int) : Reads (formatDec value) (.number (formatDec value)) := by
  intro fuel tail stops
  have first : Exists fun byte => Exists fun rest =>
      formatDec value = byte :: rest ∧ (byte = 45 ∨ isDigit byte = true) := by
    rcases Int.eq_nat_or_neg value with ⟨magnitude, positive | negative⟩
    · cases shape : formatDec value with
      | nil => exact absurd (positive ▸ shape) (formatDec_ne_nil magnitude)
      | cons byte rest =>
          refine ⟨byte, rest, rfl, Or.inr ?_⟩
          rw [positive] at shape
          exact isDigit_of_mem_formatDec (shape ▸ List.mem_cons_self)
    · by_cases zero : magnitude = 0
      · exact ⟨48, [], by rw [negative, zero]; decide, Or.inr (by decide)⟩
      · exact ⟨45, _, by rw [negative, formatDec_neg (Nat.pos_of_ne_zero zero)], Or.inl rfl⟩
  rcases first with ⟨byte, rest, shape, kind⟩
  have number := readNumber_formatDec value stops
  have facts : isBlank byte = false ∧ byte ≠ 34 ∧ byte ≠ 91 ∧ byte ≠ 123 ∧ byte ≠ 110 ∧ byte ≠ 116 ∧
      byte ≠ 102 := by
    rcases kind with rfl | digit
    · decide
    · refine ⟨?_, ?_, ?_, ?_, ?_, ?_, ?_⟩
      · rw [isBlank, Bool.or_eq_false_iff, Bool.or_eq_false_iff, Bool.or_eq_false_iff]
        refine ⟨⟨⟨?_, ?_⟩, ?_⟩, ?_⟩ <;> apply beq_eq_false_iff_ne.mpr <;>
          (rintro rfl; exact absurd digit (by decide))
      all_goals (rintro rfl; exact absurd digit (by decide))
  rw [shape] at number ⊢
  rw [List.cons_append] at number ⊢
  have notWord : forall (letter : UInt8) (word : List UInt8), byte ≠ letter ->
      ¬ letter :: word <+: byte :: (rest ++ tail) := fun letter word different isPrefix =>
    different (List.cons_prefix_cons.mp isPrefix).1.symm
  have notNull : ¬ ascii "null" <+: byte :: (rest ++ tail) :=
    notWord 110 (ascii "ull") facts.2.2.2.2.1
  have notTrue : ¬ ascii "true" <+: byte :: (rest ++ tail) :=
    notWord 116 (ascii "rue") facts.2.2.2.2.2.1
  have notFalse : ¬ ascii "false" <+: byte :: (rest ++ tail) :=
    notWord 102 (ascii "alse") facts.2.2.2.2.2.2
  rw [readValue_scalar facts.1 ⟨facts.2.1, facts.2.2.1, facts.2.2.2.1⟩, readScalar, if_neg notNull,
    if_neg notTrue, if_neg notFalse, number]
  rfl

/-! ## Members, arrays and objects -/

/-- The members of an object behind the first value. -/
def membersAfter (fuel : Nat) (name : List UInt8) (value : Value) (rest : List UInt8) :
    Option (List (List UInt8 × Value) × List UInt8) :=
  match skipBlanks rest with
  | 125 :: rest => some ([(name, value)], rest)
  | 44 :: rest =>
      (readMembers rfc8259 fuel rest).map (fun object => ((name, value) :: object.1, object.2))
  | _ => none

variable {name : List UInt8} {value : Value} {members : List (List UInt8 × Value)}

/-- A member begins with its name. -/
theorem readMembers_spelled {nameText : List UInt8} (spelled : Spelled nameText name) (fuel : Nat)
    (text : List UInt8) :
    readMembers rfc8259 (fuel + 1) (34 :: (nameText ++ 34 :: 58 :: text)) =
      (readValue rfc8259 fuel text).bind (fun read => membersAfter fuel name read.1 read.2) := by
  have quote : forall rest : List UInt8, skipBlanks (34 :: rest) = 34 :: rest :=
    fun rest => List.dropWhile_cons_of_neg (by decide)
  have colon : skipBlanks (58 :: text) = 58 :: text := List.dropWhile_cons_of_neg (by decide)
  rw [readMembers, quote]
  simp only [spelled (58 :: text), colon]
  cases readValue rfc8259 fuel text <;> rfl

theorem readMembers_name (plain : Plain name) (fuel : Nat) (text : List UInt8) :
    readMembers rfc8259 (fuel + 1) (34 :: (name ++ 34 :: 58 :: text)) =
      (readValue rfc8259 fuel text).bind (fun read => membersAfter fuel name read.1 read.2) :=
  readMembers_spelled plain.spelled fuel text

theorem membersAfter_comma (fuel : Nat) (name : List UInt8) (value : Value) (rest : List UInt8) :
    membersAfter fuel name value (44 :: rest) =
      (readMembers rfc8259 fuel rest).map (fun object => ((name, value) :: object.1, object.2)) := by
  have comma : skipBlanks (44 :: rest) = 44 :: rest := List.dropWhile_cons_of_neg (by decide)
  rw [membersAfter, comma]
  rfl

/-- The first member is the one whose value was read first. -/
theorem membersAfter_first {fuel : Nat} {first : List UInt8 × Value}
    (read : membersAfter fuel name value text = some (first :: members, rest)) : (name, value) = first := by
  unfold membersAfter at read
  split at read
  · exact (List.cons.inj (Prod.mk.inj (Option.some.inj read)).1).1
  · rcases Option.map_eq_some_iff.mp read with ⟨_, _, same⟩
    exact (List.cons.inj (Prod.mk.inj same).1).1
  · cases read

/-- A member with a fixed text is read, and then the others are. -/
theorem readMembers_fixed_iff (plain : Plain name) (reads : Reads text value) (fuel : Nat) :
    readMembers rfc8259 (fuel + 2) (34 :: (name ++ 34 :: 58 :: (text ++ 44 :: tail))) =
        some ((name, value) :: members, rest) ↔
      readMembers rfc8259 (fuel + 1) tail = some (members, rest) := by
  rw [readMembers_name plain, reads fuel _ (Stops.cons (Or.inl rfl) tail), Option.bind_some,
    membersAfter_comma, Option.map_eq_some_iff]
  constructor
  · rintro ⟨⟨others, final⟩, read, same⟩
    have parts := Prod.mk.inj same
    rw [read, ← (List.cons.inj parts.1).2, ← parts.2]
  · exact fun read => ⟨_, read, rfl⟩

/-- The last member with a fixed text. -/
theorem readMembers_last (plain : Plain name) (reads : Reads text value) (fuel : Nat) :
    readMembers rfc8259 (fuel + 2) (34 :: (name ++ 34 :: 58 :: (text ++ 125 :: tail))) =
      some ([(name, value)], tail) := by
  have brace : skipBlanks (125 :: tail) = 125 :: tail := List.dropWhile_cons_of_neg (by decide)
  rw [readMembers_name plain, reads fuel _ (Stops.cons (Or.inr (Or.inr rfl)) tail), Option.bind_some,
    membersAfter, brace]
  rfl

theorem readValue_quote (fuel : Nat) (text : List UInt8) :
    readValue rfc8259 (fuel + 1) (34 :: text) =
      (readString rfc8259 text).map (fun string => (.string string.1, string.2)) := by
  have quote : skipBlanks (34 :: text) = 34 :: text := List.dropWhile_cons_of_neg (by decide)
  rw [readValue, quote]
  rfl

/-- A string between its quotes. -/
theorem reads_spelled {string : List UInt8} (spelled : Spelled text string) :
    Reads (34 :: (text ++ [34])) (.string string) := by
  intro fuel tail _
  rw [List.cons_append, List.append_assoc, List.singleton_append, readValue_quote, spelled]
  rfl

/-- A text pasted between the quotes of a member with others behind it is read back
as itself if and only if it has nothing to escape. -/
theorem readMembers_string_iff (plain : Plain name) (fuel : Nat) :
    readMembers rfc8259 (fuel + 2) (34 :: (name ++ 34 :: 58 :: 34 :: (text ++ 34 :: 44 :: 34 :: tail))) =
        some ((name, .string text) :: members, rest) ↔
      Plain text ∧ readMembers rfc8259 (fuel + 1) (34 :: tail) = some (members, rest) := by
  rw [readMembers_name plain, readValue_quote]
  constructor
  · intro read
    rcases Option.bind_eq_some_iff.mp read with ⟨⟨string, behind⟩, isString, after⟩
    rcases Option.map_eq_some_iff.mp isString with ⟨⟨decoded, others⟩, isRead, same⟩
    have parts := Prod.mk.inj same
    rw [← parts.1, ← parts.2] at after
    have isText : decoded = text := Value.string.inj (Prod.mk.inj (membersAfter_first after)).2
    have isPlain : Plain text := by
      have asItself : readString rfc8259 (text ++ 34 :: 44 :: 34 :: tail) = some ([] ++ text, others) := by
        rw [isRead, isText, List.nil_append]
      exact (plain_of_readString_append asItself).2
    refine ⟨isPlain, ?_⟩
    have known := (readString_of_plain isPlain (44 :: 34 :: tail)).symm.trans isRead
    rw [← (Prod.mk.inj (Option.some.inj known)).2, isText] at after
    dsimp only at after
    rw [membersAfter_comma, Option.map_eq_some_iff] at after
    rcases after with ⟨⟨more, final⟩, moreRead, whole⟩
    have ends := Prod.mk.inj whole
    rw [moreRead, ← (List.cons.inj ends.1).2, ← ends.2]
  · rintro ⟨isPlain, read⟩
    rw [readString_of_plain isPlain, Option.map_some, Option.bind_some, membersAfter_comma, read]
    rfl

/-- The elements of an array behind the first value. -/
def elementsAfter (fuel : Nat) (value : Value) (rest : List UInt8) : Option (List Value × List UInt8) :=
  match skipBlanks rest with
  | 93 :: rest => some ([value], rest)
  | 44 :: rest => (readElements rfc8259 fuel rest).map (fun array => (value :: array.1, array.2))
  | _ => none

theorem readElements_eq (fuel : Nat) (text : List UInt8) :
    readElements rfc8259 (fuel + 1) text =
      (readValue rfc8259 fuel text).bind (fun read => elementsAfter fuel read.1 read.2) := by
  rw [readElements]
  cases readValue rfc8259 fuel text <;> rfl

theorem elementsAfter_bracket (fuel : Nat) (value : Value) (rest : List UInt8) :
    elementsAfter fuel value (93 :: rest) = some ([value], rest) := by
  have bracket : skipBlanks (93 :: rest) = 93 :: rest := List.dropWhile_cons_of_neg (by decide)
  rw [elementsAfter, bracket]
  rfl

theorem elementsAfter_comma (fuel : Nat) (value : Value) (rest : List UInt8) :
    elementsAfter fuel value (44 :: rest) =
      (readElements rfc8259 fuel rest).map (fun array => (value :: array.1, array.2)) := by
  have comma : skipBlanks (44 :: rest) = 44 :: rest := List.dropWhile_cons_of_neg (by decide)
  rw [elementsAfter, comma]
  rfl

/-- The first element is the value that was read first. -/
theorem elementsAfter_first {fuel : Nat} {first : Value} {elements : List Value}
    (read : elementsAfter fuel value text = some (first :: elements, rest)) : value = first := by
  unfold elementsAfter at read
  split at read
  · exact (List.cons.inj (Prod.mk.inj (Option.some.inj read)).1).1
  · rcases Option.map_eq_some_iff.mp read with ⟨_, _, same⟩
    exact (List.cons.inj (Prod.mk.inj same).1).1
  · cases read

/-- An object that does not end at once. -/
theorem readValue_object (fuel : Nat) (text : List UInt8) :
    readValue rfc8259 (fuel + 1) (123 :: 34 :: text) =
      (readMembers rfc8259 fuel (34 :: text)).map (fun object => (.object object.1, object.2)) := by
  have brace : skipBlanks (123 :: 34 :: text) = 123 :: 34 :: text := List.dropWhile_cons_of_neg (by decide)
  have quote : skipBlanks (34 :: text) = 34 :: text := List.dropWhile_cons_of_neg (by decide)
  have notEmpty : ¬ (skipBlanks (34 :: text)).head? = some 125 := by
    rw [quote]
    simp
  rw [readValue, brace]
  exact if_neg notEmpty

/-- An array whose first element is an object. -/
theorem readValue_array (fuel : Nat) (text : List UInt8) :
    readValue rfc8259 (fuel + 1) (91 :: 123 :: text) =
      (readElements rfc8259 fuel (123 :: text)).map (fun array => (.array array.1, array.2)) := by
  have bracket : skipBlanks (91 :: 123 :: text) = 91 :: 123 :: text := List.dropWhile_cons_of_neg (by decide)
  have brace : skipBlanks (123 :: text) = 123 :: text := List.dropWhile_cons_of_neg (by decide)
  have notEmpty : ¬ (skipBlanks (123 :: text)).head? = some 93 := by
    rw [brace]
    simp
  rw [readValue, bracket]
  exact if_neg notEmpty

/-! ## How much text a value takes -/

variable {dialect : Dialect}

/-- The least length of a text for a value; the elements of arrays and the members
of objects are not counted. -/
def Value.width : Value -> Nat
  | .null => 4
  | .bool value => if value then 4 else 5
  | .number text => text.length
  | .string text => text.length + 2
  | .array _ => 2
  | .object _ => 2

/-- The least length of members with quotes and colons, each with the comma or the
brace behind it. -/
def membersWidth (members : List (List UInt8 × Value)) : Nat :=
  (members.map (fun member => member.1.length + 4 + member.2.width)).sum

theorem readChar_width (read : readChar dialect text = some (decoded, rest)) :
    decoded.length + rest.length ≤ text.length := by
  cases text with
  | nil => cases read
  | cons byte others =>
      rw [readChar] at read
      by_cases escape : byte = 92
      · rw [if_pos escape] at read
        cases others with
        | nil => cases read
        | cons kind later =>
            by_cases unicode : kind = 117
            · rw [readEscape, if_pos unicode] at read
              have length := readUnicode_length read
              rw [List.length_cons, List.length_cons]
              omega
            · rw [readEscape_of_not_unicode unicode] at read
              rcases Option.map_eq_some_iff.mp read with ⟨_, _, same⟩
              rw [← (Prod.mk.inj same).1, ← (Prod.mk.inj same).2]
              simp only [List.length_cons, List.length_nil]
              omega
      · rw [if_neg escape] at read
        split at read
        · cases read
        · rw [← (Prod.mk.inj (Option.some.inj read)).1, ← (Prod.mk.inj (Option.some.inj read)).2]
          simp only [List.length_cons, List.length_nil]
          omega

theorem readString_width (read : readString dialect text = some (decoded, rest)) :
    decoded.length + 1 + rest.length ≤ text.length := by
  induction size : text.length using Nat.strong_induction_on generalizing text decoded with
  | _ size inductionHypothesis =>
      subst size
      by_cases quote : text.head? = some 34
      · cases text with
        | nil => cases quote
        | cons byte others =>
            have isQuote : byte = 34 := Option.some.inj quote
            rw [isQuote, readString_quote] at read
            have parts := Prod.mk.inj (Option.some.inj read)
            rw [← parts.1, ← parts.2, List.length_nil, List.length_cons]
            omega
      · rw [readString_char quote] at read
        rcases Option.bind_eq_some_iff.mp read with ⟨⟨first, others⟩, isChar, later⟩
        rcases Option.map_eq_some_iff.mp later with ⟨⟨string, final⟩, isString, same⟩
        have parts := Prod.mk.inj same
        have width := readChar_width isChar
        dsimp only at parts isString
        rw [parts.2] at isString
        have bound := inductionHypothesis others.length (readChar_length isChar) isString rfl
        rw [← parts.1, List.length_append]
        omega

theorem length_skipBlanks_le (text : List UInt8) : (skipBlanks text).length ≤ text.length :=
  (List.dropWhile_suffix _).length_le

/-- A number is the text that was read. -/
theorem readNumber_width (read : readNumber text = some (decoded, rest)) :
    decoded.length + rest.length ≤ text.length := by
  have digits : forall text result rest, readDigits text = some (result, rest) ->
      result.length + rest.length ≤ text.length := by
    intro text result rest read
    unfold readDigits at read
    split at read
    · cases read
    · have parts := Prod.mk.inj (Option.some.inj read)
      rw [← parts.1, ← parts.2, ← List.length_append, List.takeWhile_append_dropWhile]
  have sign : forall plus text, (readSign plus text).1.length +
    (readSign plus text).2.length ≤ text.length := by
    intro plus text
    cases text with
    | nil => exact Nat.le_refl 0
    | cons byte others =>
        rw [readSign]
        split <;> simp only [List.length_cons, List.length_nil] <;> omega
  rw [readNumber] at read
  simp only [Option.bind_eq_bind] at read
  rcases Option.bind_eq_some_iff.mp read with ⟨integer, isInteger, read⟩
  rcases Option.bind_eq_some_iff.mp read with ⟨fraction, isFraction, read⟩
  rcases Option.bind_eq_some_iff.mp read with ⟨exponent, isExponent, read⟩
  have parts := Prod.mk.inj (Option.some.inj read)
  have integerWidth : integer.1.length + integer.2.length ≤ (readSign false text).2.length := by
    cases shape : (readSign false text).2 with
    | nil =>
        rw [shape] at isInteger
        cases isInteger
    | cons byte others =>
        rw [shape, readInteger] at isInteger
        split at isInteger
        · rw [← Option.some.inj isInteger]
          simp only [List.length_cons, List.length_nil]
          omega
        · exact digits _ _ _ isInteger
  have fractionWidth : fraction.1.length + fraction.2.length ≤ integer.2.length := by
    unfold readFraction at isFraction
    split at isFraction
    next later shape =>
      rcases Option.map_eq_some_iff.mp isFraction with ⟨found, isDigits, same⟩
      have width := digits _ _ _ isDigits
      rw [← same, shape]
      simp only [List.length_cons]
      omega
    next =>
      rw [← Option.some.inj isFraction, List.length_nil]
      dsimp only
      omega
  have exponentWidth : exponent.1.length + exponent.2.length ≤ fraction.2.length := by
    cases shape : fraction.2 with
    | nil =>
        rw [shape, readExponent] at isExponent
        rw [← Option.some.inj isExponent]
        exact Nat.le_refl 0
    | cons byte others =>
        rw [shape, readExponent] at isExponent
        split at isExponent
        · rcases Option.map_eq_some_iff.mp isExponent with ⟨found, isDigits, same⟩
          have width := digits _ _ _ isDigits
          have signWidth := sign true others
          rw [← same]
          simp only [List.length_cons, List.length_append]
          omega
        · rw [← Option.some.inj isExponent, List.length_nil]
          dsimp only
          omega
  have signWidth := sign false text
  rw [← parts.1, ← parts.2]
  simp only [List.length_append]
  omega

theorem readScalar_width (read : readScalar text = some (value, rest)) :
    value.width + rest.length ≤ text.length := by
  unfold readScalar at read
  split at read
  next isPrefix =>
    have long := isPrefix.length_le
    have parts := Prod.mk.inj (Option.some.inj read)
    rw [← parts.1, ← parts.2, List.length_drop]
    change 4 ≤ _ at long
    change 4 + _ ≤ _
    omega
  · split at read
    next isPrefix =>
      have long := isPrefix.length_le
      have parts := Prod.mk.inj (Option.some.inj read)
      rw [← parts.1, ← parts.2, List.length_drop]
      change 4 ≤ _ at long
      change 4 + _ ≤ _
      omega
    · split at read
      next isPrefix =>
        have long := isPrefix.length_le
        have parts := Prod.mk.inj (Option.some.inj read)
        rw [← parts.1, ← parts.2, List.length_drop]
        change 5 ≤ _ at long
        change 5 + _ ≤ _
        omega
      · rcases Option.map_eq_some_iff.mp read with ⟨number, isNumber, same⟩
        have width := readNumber_width isNumber
        rw [← (Prod.mk.inj same).1, ← (Prod.mk.inj same).2]
        exact width

/-- Whatever is read takes at least its width.  By induction on the fuel, for the
three readers together. -/
theorem read_width (dialect : Dialect) (fuel : Nat) :
    (forall text value rest, readValue dialect fuel text = some (value, rest) ->
      value.width + rest.length ≤ text.length) ∧
    (forall text elements rest, readElements dialect fuel text = some (elements, rest) ->
      rest.length + 1 ≤ text.length) ∧
    (forall text members rest, readMembers dialect fuel text = some (members, rest) ->
      membersWidth members + rest.length ≤ text.length ∧ rest.length + 1 ≤ text.length) := by
  induction fuel with
  | zero =>
      refine ⟨?_, ?_, ?_⟩ <;> (intro text result rest read; cases read)
  | succ fuel inductionHypothesis =>
      rcases inductionHypothesis with ⟨values, elements, members⟩
      refine ⟨?_, ?_, ?_⟩
      · intro text value rest read
        have blanks := length_skipBlanks_le text
        rw [readValue] at read
        split at read
        next string shape =>
          rcases Option.map_eq_some_iff.mp read with ⟨found, isString, same⟩
          have width := readString_width isString
          rw [← (Prod.mk.inj same).1, ← (Prod.mk.inj same).2, Value.width]
          rw [shape, List.length_cons] at blanks
          omega
        next others shape =>
          rw [shape, List.length_cons] at blanks
          have inner := length_skipBlanks_le others
          split at read
          next closes =>
            have parts := Prod.mk.inj (Option.some.inj read)
            have some : skipBlanks others ≠ [] := by
              intro none
              rw [none] at closes
              cases closes
            have positive := List.length_pos_iff.mpr some
            rw [← parts.1, ← parts.2, Value.width, List.length_tail]
            omega
          next =>
            rcases Option.map_eq_some_iff.mp read with ⟨found, isArray, same⟩
            have width := elements _ _ _ isArray
            rw [← (Prod.mk.inj same).1, ← (Prod.mk.inj same).2, Value.width]
            omega
        next others shape =>
          rw [shape, List.length_cons] at blanks
          have inner := length_skipBlanks_le others
          split at read
          next closes =>
            have parts := Prod.mk.inj (Option.some.inj read)
            have some : skipBlanks others ≠ [] := by
              intro none
              rw [none] at closes
              cases closes
            have positive := List.length_pos_iff.mpr some
            rw [← parts.1, ← parts.2, Value.width, List.length_tail]
            omega
          next =>
            rcases Option.map_eq_some_iff.mp read with ⟨found, isObject, same⟩
            have width := (members _ _ _ isObject).2
            rw [← (Prod.mk.inj same).1, ← (Prod.mk.inj same).2, Value.width]
            omega
        next =>
          have width := readScalar_width read
          omega
      · intro text array rest read
        rw [readElements] at read
        split at read
        next value others isValue =>
          have first := values _ _ _ isValue
          have blanks := length_skipBlanks_le others
          split at read
          next more shape =>
            rw [shape, List.length_cons] at blanks
            rw [← (Prod.mk.inj (Option.some.inj read)).2]
            omega
          next more shape =>
            rw [shape, List.length_cons] at blanks
            rcases Option.map_eq_some_iff.mp read with ⟨found, isArray, same⟩
            have later := elements _ _ _ isArray
            rw [← (Prod.mk.inj same).2]
            omega
          next => cases read
        next => cases read
      · intro text object rest read
        have blanks := length_skipBlanks_le text
        rw [readMembers] at read
        split at read
        next behindQuote quoteShape =>
          rw [quoteShape, List.length_cons] at blanks
          split at read
          next name behindName isName =>
            have nameWidth := readString_width isName
            have nameBlanks := length_skipBlanks_le behindName
            split at read
            next behindColon colonShape =>
              rw [colonShape, List.length_cons] at nameBlanks
              split at read
              next value behindValue isValue =>
                have first := values _ _ _ isValue
                have valueBlanks := length_skipBlanks_le behindValue
                split at read
                next final finalShape =>
                  rw [finalShape, List.length_cons] at valueBlanks
                  have parts := Prod.mk.inj (Option.some.inj read)
                  rw [← parts.1, ← parts.2, membersWidth, List.map_singleton, List.sum_singleton]
                  dsimp only
                  omega
                next more commaShape =>
                  rw [commaShape, List.length_cons] at valueBlanks
                  rcases Option.map_eq_some_iff.mp read with ⟨found, isObject, same⟩
                  have later := members _ _ _ isObject
                  rw [membersWidth] at later
                  rw [← (Prod.mk.inj same).1, ← (Prod.mk.inj same).2, membersWidth, List.map_cons,
                    List.sum_cons]
                  dsimp only
                  omega
                next => cases read
              next => cases read
            next => cases read
          next => cases read
        next => cases read

/-- The text of an object is longer than its members. -/
theorem parse_object_width {dialect : Dialect} {text : List UInt8} {members : List (List UInt8 × Value)}
    (parsed : parse dialect text = some (.object members)) : membersWidth members + 1 ≤ text.length := by
  rw [parse] at parsed
  split at parsed
  next value rest read =>
    have isObject : value = .object members := by
      split_ifs at parsed
      exact Option.some.inj parsed
    rw [isObject, readValue] at read
    have blanks := length_skipBlanks_le text
    split at read
    next =>
      rcases Option.map_eq_some_iff.mp read with ⟨_, _, same⟩
      cases (Prod.mk.inj same).1
    next =>
      split at read
      · cases (Prod.mk.inj (Option.some.inj read)).1
      · rcases Option.map_eq_some_iff.mp read with ⟨_, _, same⟩
        cases (Prod.mk.inj same).1
    next others shape =>
      rw [shape, List.length_cons] at blanks
      split at read
      · have none := Value.object.inj (Prod.mk.inj (Option.some.inj read)).1
        rw [← none, membersWidth, List.map_nil, List.sum_nil]
        omega
      · rcases Option.map_eq_some_iff.mp read with ⟨found, isMembers, same⟩
        have width := ((read_width dialect _).2.2 _ _ _ isMembers).1
        rw [Value.object.inj (Prod.mk.inj same).1] at width
        have inner := length_skipBlanks_le others
        omega
    next =>
      rw [readScalar] at read
      split_ifs at read
      · cases (Prod.mk.inj (Option.some.inj read)).1
      · cases (Prod.mk.inj (Option.some.inj read)).1
      · cases (Prod.mk.inj (Option.some.inj read)).1
      · rcases Option.map_eq_some_iff.mp read with ⟨_, _, same⟩
        cases (Prod.mk.inj same).1
  next => cases parsed

/-! ## The shape of what is read -/

theorem readUnit_shape {unit : Nat} (read : readUnit text = some (unit, rest)) :
    Exists fun first => Exists fun second => Exists fun third => Exists fun fourth =>
      text = first :: second :: third :: fourth :: rest ∧
        [first, second, third, fourth].all isHexDigit = true ∧
        unit = digitsValue 16 [first, second, third, fourth] := by
  unfold readUnit at read
  split at read
  next first second third fourth others =>
    split at read
    next digits =>
      have same := Prod.mk.inj (Option.some.inj read)
      exact ⟨first, second, third, fourth, by rw [same.2], digits, same.1.symm⟩
    next => cases read
  next => cases read

/-- The escape of a code point is one unit, or a high surrogate with a low one behind it. -/
theorem readUnicode_shape (read : readUnicode text = some (decoded, rest)) :
    Exists fun unit => Exists fun middle => readUnit text = some (unit, middle) ∧
      ((unit < 0xD800 ∨ 0xE000 ≤ unit) ∧ decoded = utf8 unit ∧ rest = middle ∨
        (0xD800 ≤ unit ∧ unit < 0xDC00) ∧ Exists fun lowText => Exists fun low =>
          middle = 92 :: 117 :: lowText ∧ readUnit lowText = some (low, rest) ∧
            (0xDC00 ≤ low ∧ low < 0xE000) ∧
            decoded = utf8 (0x10000 + (unit - 0xD800) * 0x400 + (low - 0xDC00))) := by
  unfold readUnicode at read
  split at read
  next unit middle unitRead =>
    refine ⟨unit, middle, unitRead, ?_⟩
    by_cases plain : unit < 0xD800 ∨ 0xE000 ≤ unit
    · rw [if_pos plain] at read
      have same := Prod.mk.inj (Option.some.inj read)
      exact Or.inl ⟨plain, same.1.symm, same.2.symm⟩
    · rw [if_neg plain] at read
      by_cases high : unit < 0xDC00
      · rw [if_pos high] at read
        unfold readLowSurrogate at read
        split at read
        next lowText =>
          split at read
          next low final lowRead =>
            by_cases isLow : 0xDC00 ≤ low ∧ low < 0xE000
            · rw [if_pos isLow] at read
              have same := Prod.mk.inj (Option.some.inj read)
              exact Or.inr ⟨⟨by omega, high⟩, lowText, low, rfl, by rw [lowRead, same.2], isLow, same.1.symm⟩
            · rw [if_neg isLow] at read
              cases read
          next => cases read
        next => cases read
      · rw [if_neg high] at read
        cases read
  next => cases read

/-- A character stands for itself, or is an escape of two characters or of a code point. -/
theorem readChar_shape (read : readChar dialect text = some (decoded, rest)) :
    (Exists fun byte => byte ≠ 92 ∧ text = byte :: rest ∧ decoded = [byte]) ∨
      (Exists fun kind => Exists fun byte => kind ≠ 117 ∧ text = 92 :: kind :: rest ∧
        unescape kind = some byte ∧ decoded = [byte]) ∨
      (Exists fun others => text = 92 :: 117 :: others ∧ readUnicode others = some (decoded, rest)) := by
  cases text with
  | nil => cases read
  | cons byte others =>
      rw [readChar] at read
      by_cases escape : byte = 92
      · rw [if_pos escape] at read
        cases others with
        | nil => cases read
        | cons kind later =>
            by_cases unicode : kind = 117
            · rw [readEscape, if_pos unicode] at read
              exact Or.inr (Or.inr ⟨later, by rw [escape, unicode], read⟩)
            · rw [readEscape_of_not_unicode unicode] at read
              rcases Option.map_eq_some_iff.mp read with ⟨denoted, means, same⟩
              have parts := Prod.mk.inj same
              exact Or.inr (Or.inl ⟨kind, denoted, unicode, by rw [escape, parts.2], means, parts.1.symm⟩)
      · rw [if_neg escape] at read
        split at read
        · cases read
        · have same := Prod.mk.inj (Option.some.inj read)
          exact Or.inl ⟨byte, escape, by rw [same.2], same.1.symm⟩

/-- A value behind its blanks is a string, an array, an object or a scalar. -/
theorem readValue_shape {fuel : Nat} (read : readValue dialect (fuel + 1) text = some (value, rest)) :
    (Exists fun inner => Exists fun string => skipBlanks text = 34 :: inner ∧
      readString dialect inner = some (string, rest) ∧ value = .string string) ∨
    (Exists fun inner => skipBlanks text = 91 :: inner ∧
      (skipBlanks inner = 93 :: rest ∧ value = .array [] ∨ (skipBlanks inner).head? ≠ some 93 ∧
        Exists fun elements => readElements dialect fuel inner = some (elements, rest) ∧
          value = .array elements)) ∨
    (Exists fun inner => skipBlanks text = 123 :: inner ∧
      (skipBlanks inner = 125 :: rest ∧ value = .object [] ∨ (skipBlanks inner).head? ≠ some 125 ∧
        Exists fun members => readMembers dialect fuel inner = some (members, rest) ∧
          value = .object members)) ∨
    readScalar (skipBlanks text) = some (value, rest) := by
  have closes : forall {inner : List UInt8} {close : UInt8}, (skipBlanks inner).head? = some close ->
      skipBlanks inner = close :: (skipBlanks inner).tail := by
    intro inner close head
    cases shape : skipBlanks inner with
    | nil =>
        rw [shape] at head
        cases head
    | cons byte others =>
        rw [shape] at head
        rw [Option.some.inj head, List.tail_cons]
  rw [readValue] at read
  split at read
  next inner shape =>
    rcases Option.map_eq_some_iff.mp read with ⟨string, isString, same⟩
    have parts := Prod.mk.inj same
    exact Or.inl ⟨inner, string.1, shape, by rw [isString, ← parts.2], parts.1.symm⟩
  next inner shape =>
    refine Or.inr (Or.inl ⟨inner, shape, ?_⟩)
    by_cases empty : (skipBlanks inner).head? = some 93
    · rw [if_pos empty] at read
      have parts := Prod.mk.inj (Option.some.inj read)
      exact Or.inl ⟨by rw [closes empty, parts.2], parts.1.symm⟩
    · rw [if_neg empty] at read
      rcases Option.map_eq_some_iff.mp read with ⟨array, isArray, same⟩
      have parts := Prod.mk.inj same
      exact Or.inr ⟨empty, array.1, by rw [isArray, ← parts.2], parts.1.symm⟩
  next inner shape =>
    refine Or.inr (Or.inr (Or.inl ⟨inner, shape, ?_⟩))
    by_cases empty : (skipBlanks inner).head? = some 125
    · rw [if_pos empty] at read
      have parts := Prod.mk.inj (Option.some.inj read)
      exact Or.inl ⟨by rw [closes empty, parts.2], parts.1.symm⟩
    · rw [if_neg empty] at read
      rcases Option.map_eq_some_iff.mp read with ⟨object, isObject, same⟩
      have parts := Prod.mk.inj same
      exact Or.inr ⟨empty, object.1, by rw [isObject, ← parts.2], parts.1.symm⟩
  next => exact Or.inr (Or.inr (Or.inr read))

/-- The elements of an array are a value and either the bracket, or a comma and more. -/
theorem readElements_shape {fuel : Nat} {elements : List Value}
    (read : readElements dialect (fuel + 1) text = some (elements, rest)) :
    Exists fun first => Exists fun middle => readValue dialect fuel text = some (first, middle) ∧
      (skipBlanks middle = 93 :: rest ∧ elements = [first] ∨
        Exists fun inner => Exists fun others => skipBlanks middle = 44 :: inner ∧
          readElements dialect fuel inner = some (others, rest) ∧ elements = first :: others) := by
  rw [readElements] at read
  split at read
  next first middle isFirst =>
    refine ⟨first, middle, isFirst, ?_⟩
    split at read
    next final shape =>
      have parts := Prod.mk.inj (Option.some.inj read)
      exact Or.inl ⟨by rw [shape, parts.2], parts.1.symm⟩
    next inner shape =>
      rcases Option.map_eq_some_iff.mp read with ⟨array, isArray, same⟩
      have parts := Prod.mk.inj same
      exact Or.inr ⟨inner, array.1, shape, by rw [isArray, ← parts.2], parts.1.symm⟩
    next => cases read
  next => cases read

/-- The members of an object are a name, a colon and a value, and either the brace, or a
comma and more. -/
theorem readMembers_shape {fuel : Nat} {members : List (List UInt8 × Value)}
    (read : readMembers dialect (fuel + 1) text = some (members, rest)) :
    Exists fun quoted => Exists fun name => Exists fun colon => Exists fun behind =>
      Exists fun first => Exists fun middle => skipBlanks text = 34 :: quoted ∧
        readString dialect quoted = some (name, colon) ∧ skipBlanks colon = 58 :: behind ∧
        readValue dialect fuel behind = some (first, middle) ∧
        (skipBlanks middle = 125 :: rest ∧ members = [(name, first)] ∨
          Exists fun inner => Exists fun others => skipBlanks middle = 44 :: inner ∧
            readMembers dialect fuel inner = some (others, rest) ∧ members = (name, first) :: others) := by
  rw [readMembers] at read
  split at read
  next quoted isQuoted =>
    split at read
    next name colon isName =>
      split at read
      next behind isColon =>
        split at read
        next first middle isFirst =>
          refine ⟨quoted, name, colon, behind, first, middle, isQuoted, isName, isColon, isFirst, ?_⟩
          split at read
          next final shape =>
            have parts := Prod.mk.inj (Option.some.inj read)
            exact Or.inl ⟨by rw [shape, parts.2], parts.1.symm⟩
          next inner shape =>
            rcases Option.map_eq_some_iff.mp read with ⟨object, isObject, same⟩
            have parts := Prod.mk.inj same
            exact Or.inr ⟨inner, object.1, shape, by rw [isObject, ← parts.2], parts.1.symm⟩
          next => cases read
        next => cases read
      next => cases read
    next => cases read
  next => cases read

/-! ### Numbers -/

/-- A character of a number. -/
def isNumeralChar (byte : UInt8) : Bool :=
  isDigit byte || byte == 43 || byte == 45 || byte == 101 || byte == 69 || byte == 46

private theorem isNumeralChar_of_isDigit {byte : UInt8} (digit : isDigit byte = true) :
    isNumeralChar byte = true := by
  rw [isNumeralChar, digit]
  rfl

private theorem readDigits_shape (read : readDigits text = some (decoded, rest)) :
    text = decoded ++ rest ∧ decoded ≠ [] ∧ forall byte, byte ∈ decoded -> isDigit byte = true := by
  rw [readDigits] at read
  split at read
  next => cases read
  next some_ =>
    have parts := Prod.mk.inj (Option.some.inj read)
    rw [← parts.1, ← parts.2, List.takeWhile_append_dropWhile]
    exact ⟨rfl, some_, fun byte member => List.mem_takeWhile_imp member⟩

private theorem readSign_shape (plus : Bool) (text : List UInt8) :
    text = (readSign plus text).1 ++ (readSign plus text).2 ∧
      forall byte, byte ∈ (readSign plus text).1 -> byte = 45 ∨ plus = true ∧ byte = 43 := by
  cases text with
  | nil => exact ⟨rfl, fun _ member => absurd member List.not_mem_nil⟩
  | cons byte others =>
      rw [readSign]
      by_cases sign : byte = 45 ∨ plus = true ∧ byte = 43
      · rw [if_pos sign]
        exact ⟨rfl, fun other member => List.mem_singleton.mp member ▸ sign⟩
      · rw [if_neg sign]
        exact ⟨rfl, fun _ member => absurd member List.not_mem_nil⟩

private theorem readInteger_shape (read : readInteger text = some (decoded, rest)) :
    text = decoded ++ rest ∧ decoded ≠ [] ∧ forall byte, byte ∈ decoded -> isDigit byte = true := by
  cases text with
  | nil => cases read
  | cons byte others =>
      rw [readInteger] at read
      by_cases zero : byte = 48
      · rw [if_pos zero] at read
        have parts := Prod.mk.inj (Option.some.inj read)
        rw [← parts.1, ← parts.2, zero]
        exact ⟨rfl, List.cons_ne_nil _ _, fun other member => List.mem_singleton.mp member ▸ by decide⟩
      · rw [if_neg zero] at read
        exact readDigits_shape read

private theorem readFraction_shape (read : readFraction text = some (decoded, rest)) :
    text = decoded ++ rest ∧ forall byte, byte ∈ decoded -> isNumeralChar byte = true := by
  unfold readFraction at read
  split at read
  next others =>
    rcases Option.map_eq_some_iff.mp read with ⟨digits, isDigits, same⟩
    have parts := Prod.mk.inj same
    have shape := readDigits_shape isDigits
    rw [← parts.1, ← parts.2, shape.1]
    refine ⟨rfl, fun byte member => ?_⟩
    rcases List.mem_cons.mp member with point | digit
    · rw [point]
      decide
    · exact isNumeralChar_of_isDigit (shape.2.2 byte digit)
  next =>
    have parts := Prod.mk.inj (Option.some.inj read)
    rw [← parts.1, ← parts.2]
    exact ⟨rfl, fun _ member => absurd member List.not_mem_nil⟩

private theorem readExponent_shape (read : readExponent text = some (decoded, rest)) :
    text = decoded ++ rest ∧ forall byte, byte ∈ decoded -> isNumeralChar byte = true := by
  cases text with
  | nil =>
      have parts := Prod.mk.inj (Option.some.inj read)
      rw [← parts.1, ← parts.2]
      exact ⟨rfl, fun _ member => absurd member List.not_mem_nil⟩
  | cons letter others =>
      rw [readExponent] at read
      by_cases exponent : letter = 101 ∨ letter = 69
      · rw [if_pos exponent] at read
        rcases Option.map_eq_some_iff.mp read with ⟨digits, isDigits, same⟩
        have parts := Prod.mk.inj same
        have shape := readDigits_shape isDigits
        have sign := readSign_shape true others
        rw [← parts.1, ← parts.2]
        refine ⟨?_, fun byte member => ?_⟩
        · rw [List.cons_append, List.append_assoc, ← shape.1, ← sign.1]
        · rcases List.mem_cons.mp member with isLetter | member
          · rw [isLetter]
            rcases exponent with rfl | rfl <;> decide
          · rcases List.mem_append.mp member with isSign | isDigit
            · rcases sign.2 byte isSign with rfl | ⟨_, rfl⟩ <;> decide
            · exact isNumeralChar_of_isDigit (shape.2.2 byte isDigit)
      · rw [if_neg exponent] at read
        have parts := Prod.mk.inj (Option.some.inj read)
        rw [← parts.1, ← parts.2]
        exact ⟨rfl, fun _ member => absurd member List.not_mem_nil⟩

/-- A number is what stands in front of the rest; it consists of characters of numbers, and
begins with a digit or a minus. -/
theorem readNumber_shape (read : readNumber text = some (decoded, rest)) :
    text = decoded ++ rest ∧ (forall byte, byte ∈ decoded -> isNumeralChar byte = true) ∧
      Exists fun first => Exists fun others => decoded = first :: others ∧
        (first = 45 ∨ isDigit first = true) := by
  rw [readNumber] at read
  simp only [Option.bind_eq_bind] at read
  rcases Option.bind_eq_some_iff.mp read with ⟨integer, isInteger, read⟩
  rcases Option.bind_eq_some_iff.mp read with ⟨fraction, isFraction, read⟩
  rcases Option.bind_eq_some_iff.mp read with ⟨exponent, isExponent, read⟩
  have parts := Prod.mk.inj (Option.some.inj read)
  have sign := readSign_shape false text
  have integerShape := readInteger_shape isInteger
  have fractionShape := readFraction_shape isFraction
  have exponentShape := readExponent_shape isExponent
  have isMinus : forall byte, byte ∈ (readSign false text).1 -> byte = 45 := by
    intro byte member
    rcases sign.2 byte member with minus | ⟨impossible, _⟩
    · exact minus
    · cases impossible
  rw [← parts.1, ← parts.2]
  refine ⟨?_, ?_, ?_⟩
  · rw [List.append_assoc, List.append_assoc, List.append_assoc, ← exponentShape.1, ← fractionShape.1,
      ← integerShape.1, ← sign.1]
  · intro byte member
    rcases List.mem_append.mp member with member | member
    · rcases List.mem_append.mp member with member | member
      · rcases List.mem_append.mp member with member | member
        · rw [isMinus byte member]
          decide
        · exact isNumeralChar_of_isDigit (integerShape.2.2 byte member)
      · exact fractionShape.2 byte member
    · exact exponentShape.2 byte member
  · cases minus : (readSign false text).1 with
    | cons first others =>
        exact ⟨first, _, rfl, Or.inl (isMinus first (by rw [minus]; exact List.mem_cons_self))⟩
    | nil =>
        cases digits : integer.1 with
        | nil => exact absurd digits integerShape.2.1
        | cons first others =>
            exact ⟨first, _, rfl, Or.inr (integerShape.2.2 first (by rw [digits]; exact List.mem_cons_self))⟩

/-- The first character of a value is a visible one of ASCII. -/
theorem readValue_visible {dialect : Dialect} {fuel : Nat} {text rest : List UInt8} {value : Value}
    (read : readValue dialect fuel text = some (value, rest)) :
    Exists fun byte => Exists fun others => skipBlanks text = byte :: others ∧ 32 < byte ∧ byte < 127 := by
  cases fuel with
  | zero => cases read
  | succ fuel =>
      rcases readValue_shape read with ⟨inner, _, shape, _⟩ | ⟨inner, shape, _⟩ | ⟨inner, shape, _⟩ | scalar
      · exact ⟨34, inner, shape, by decide⟩
      · exact ⟨91, inner, shape, by decide⟩
      · exact ⟨123, inner, shape, by decide⟩
      · have literal : forall name : List UInt8, name <+: skipBlanks text -> (Exists fun first =>
            Exists fun others => name = first :: others ∧ 32 < first ∧ first < 127) ->
            Exists fun byte => Exists fun others =>
              skipBlanks text = byte :: others ∧ 32 < byte ∧ byte < 127 := by
          rintro name ⟨behind, same⟩ ⟨first, others, isName, visible⟩
          exact ⟨first, others ++ behind, by rw [← same, isName]; rfl, visible⟩
        unfold readScalar at scalar
        split_ifs at scalar with isNull isTrue isFalse
        · exact literal _ isNull ⟨110, _, rfl, by decide⟩
        · exact literal _ isTrue ⟨116, _, rfl, by decide⟩
        · exact literal _ isFalse ⟨102, _, rfl, by decide⟩
        · rcases Option.map_eq_some_iff.mp scalar with ⟨number, isNumber, _⟩
          rcases @readNumber_shape _ number.2 _ isNumber with ⟨shape, _, first, others, isText, begins⟩
          refine ⟨first, others ++ number.2, by rw [shape, isText]; rfl, ?_⟩
          rcases begins with rfl | digit
          · decide
          · simp only [isDigit, Bool.and_eq_true, decide_eq_true_eq, UInt8.le_iff_toNat_le] at digit
            rw [UInt8.lt_iff_toNat_lt, UInt8.lt_iff_toNat_lt]
            exact ⟨Nat.lt_of_lt_of_le (by decide) digit.1, Nat.lt_of_le_of_lt digit.2 (by decide)⟩

end Json
end Library
