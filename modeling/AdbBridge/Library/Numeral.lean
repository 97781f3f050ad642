import Mathlib.Data.List.Basic
import Mathlib.Data.List.TakeWhile
import Mathlib.Tactic.Ring

namespace Library
namespace Numeral

/-!
# Byte strings and numerals of the C library

Bytes are `UInt8`, strings are lists of them.  A C string is the part of a
byte block before its first NUL.  The numerals are those of `strtol` and of
the `%x` conversion: digits are read after optional blanks, a sign and (in
base sixteen) a `0x` prefix, and the value saturates at the bounds of a 64-bit
`long`.  The hexadecimal printer and the reader are inverse to each other.
-/

/-- The bytes of an ASCII string literal. -/
def ascii (text : String) : List UInt8 :=
  text.toList.map (fun char => UInt8.ofNat char.toNat)

/-- A letter without its case. -/
def lower (byte : UInt8) : UInt8 := if 65 ≤ byte ∧ byte ≤ 90 then byte + 32 else byte

/-- A blank between the tokens of a text. -/
def isBlank (byte : UInt8) : Bool := byte == 32 || byte == 9 || byte == 10 || byte == 13

/-- The C string at the start of a block of memory: everything before the first NUL. -/
def cString (memory : List UInt8) : List UInt8 :=
  memory.takeWhile (fun byte => byte != 0)

/-- A condition on the symbols of a text is checked symbol by symbol. -/
theorem forall_mem_of_all {α : Type} {p : α -> Prop} [DecidablePred p] {text : List α}
    (all : text.all (fun symbol => decide (p symbol)) = true) : forall symbol, symbol ∈ text -> p symbol :=
  fun symbol member => of_decide_eq_true (List.all_eq_true.mp all symbol member)

/-- The C string of a text that begins with a part of it. -/
theorem cString_append {text : List UInt8} (noZero : forall byte, byte ∈ text -> byte ≠ 0)
    (rest : List UInt8) : cString (text ++ rest) = text ++ cString rest :=
  List.takeWhile_append_of_pos (fun byte member => bne_iff_ne.mpr (noZero byte member))

/-- A string without NUL that is followed by one is the C string of the block. -/
theorem cString_append_zero {text rest : List UInt8} (noZero : forall byte, byte ∈ text -> byte ≠ 0) :
    cString (text ++ 0 :: rest) = text := by
  have ends : cString (0 :: rest) = [] := List.takeWhile_cons_of_neg (by decide)
  rw [cString_append noZero, ends, List.append_nil]

/-- Nothing behind a NUL belongs to the C string. -/
theorem cString_append_of_zero {memory rest : List UInt8} (zero : 0 ∈ memory) :
    cString (memory ++ rest) = cString memory := by
  induction memory with
  | nil => exact absurd zero List.not_mem_nil
  | cons first memory inductionHypothesis =>
      by_cases here : first = 0
      · rw [cString, cString, List.cons_append, List.takeWhile_cons_of_neg (by simp [here]),
          List.takeWhile_cons_of_neg (by simp [here])]
      · have later : 0 ∈ memory := (List.mem_cons.mp zero).resolve_left (fun same => here same.symm)
        have tail := inductionHypothesis later
        simp only [cString] at tail
        rw [cString, cString, List.cons_append, List.takeWhile_cons_of_pos (by simp [here]),
          List.takeWhile_cons_of_pos (by simp [here]), tail]

/-- A string without NUL is its own C string. -/
theorem cString_eq_self {text : List UInt8} (noZero : forall byte, byte ∈ text -> byte ≠ 0) :
    cString text = text := by
  have whole : cString (text ++ []) = text ++ [] := cString_append noZero []
  rwa [List.append_nil] at whole

/-! ## Digits -/

/-- The digits `strtol` accepts in base sixteen. -/
def isHexDigit (byte : UInt8) : Bool :=
  (48 ≤ byte && byte ≤ 57) || (97 ≤ byte && byte ≤ 102) || (65 ≤ byte && byte ≤ 70)

/-- The value of a hexadecimal digit in either case. -/
def digitValue (byte : UInt8) : Nat :=
  if byte ≤ 57 then byte.toNat - 48 else if 97 ≤ byte then byte.toNat - 87 else byte.toNat - 55

/-- The number a list of digits denotes, most significant digit first. -/
def digitsValue (base : Nat) (digits : List UInt8) : Nat :=
  digits.foldl (fun value digit => value * base + digitValue digit) 0

/-- The lower-case digit of a number below sixteen. -/
def hexDigit (value : Nat) : UInt8 :=
  if value < 10 then UInt8.ofNat (48 + value) else UInt8.ofNat (87 + value)

theorem digitValue_lt {byte : UInt8} (digit : isHexDigit byte = true) : digitValue byte < 16 := by
  simp only [isHexDigit, Bool.or_eq_true, Bool.and_eq_true, decide_eq_true_eq,
    UInt8.le_iff_toNat_le, UInt8.reduceToNat] at digit
  simp only [digitValue, UInt8.le_iff_toNat_le, UInt8.reduceToNat]
  split_ifs <;> omega

theorem isHexDigit_hexDigit {value : Nat} (small : value < 16) :
    isHexDigit (hexDigit value) = true := by
  revert value
  decide

theorem digitValue_hexDigit {value : Nat} (small : value < 16) :
    digitValue (hexDigit value) = value := by
  revert value
  decide

private theorem digitsValue_foldl (base start : Nat) (digits : List UInt8) :
    digits.foldl (fun value digit => value * base + digitValue digit) start =
      start * base ^ digits.length + digitsValue base digits := by
  induction digits generalizing start with
  | nil => simp [digitsValue]
  | cons digit rest inductionHypothesis =>
      have unfolded : digitsValue base (digit :: rest) =
          (0 * base + digitValue digit) * base ^ rest.length + digitsValue base rest := by
        rw [digitsValue, List.foldl_cons, inductionHypothesis]
      rw [List.foldl_cons, inductionHypothesis, unfolded, List.length_cons, Nat.pow_succ]
      ring

/-- The first digit counts with the weight of the digits after it. -/
theorem digitsValue_cons (base : Nat) (digit : UInt8) (rest : List UInt8) :
    digitsValue base (digit :: rest) = digitValue digit * base ^ rest.length + digitsValue base rest := by
  rw [digitsValue, List.foldl_cons, digitsValue_foldl, Nat.zero_mul, Nat.zero_add]

/-! ## The `%x` conversion -/

/-- Prepend the digits of a number to the text after them, least significant first. -/
def hexDigitsBefore : Nat -> Nat -> List UInt8 -> List UInt8
  | 0, _, text => text
  | fuel + 1, value, text =>
      if value < 16 then hexDigit value :: text
      else hexDigitsBefore fuel (value / 16) (hexDigit (value % 16) :: text)

/-- The text `%x` (and `%zx`) prints for a number. -/
def formatHex (value : Nat) : List UInt8 := hexDigitsBefore (value + 1) value []

private theorem length_hexDigitsBefore_le (fuel value digits : Nat) (text : List UInt8)
    (small : value < 16 ^ (digits + 1)) :
    (hexDigitsBefore fuel value text).length ≤ digits + 1 + text.length := by
  induction fuel generalizing value digits text with
  | zero => exact Nat.le_add_left _ _
  | succ fuel inductionHypothesis =>
      rw [hexDigitsBefore]
      by_cases last : value < 16
      · rw [if_pos last, List.length_cons]
        omega
      · rw [if_neg last]
        cases digits with
        | zero => omega
        | succ digits =>
            have quotient : value / 16 < 16 ^ (digits + 1) :=
              Nat.div_lt_of_lt_mul (by rw [← Nat.pow_succ']; exact small)
            have later := inductionHypothesis _ digits (hexDigit (value % 16) :: text) quotient
            rw [List.length_cons] at later
            omega

/-- A number below a power of 16 has no more digits than the exponent. -/
theorem length_formatHex_le {value digits : Nat} (small : value < 16 ^ (digits + 1)) :
    (formatHex value).length ≤ digits + 1 := length_hexDigitsBefore_le _ value digits [] small

private theorem hexDigitsBefore_isHexDigit (fuel value : Nat) (text : List UInt8)
    (digits : forall byte, byte ∈ text -> isHexDigit byte = true) :
    forall byte, byte ∈ hexDigitsBefore fuel value text -> isHexDigit byte = true := by
  induction fuel generalizing value text with
  | zero => exact digits
  | succ fuel inductionHypothesis =>
      rw [hexDigitsBefore]
      by_cases small : value < 16
      · rw [if_pos small]
        intro byte member
        rcases List.mem_cons.mp member with same | later
        · exact same ▸ isHexDigit_hexDigit small
        · exact digits byte later
      · rw [if_neg small]
        apply inductionHypothesis
        intro byte member
        rcases List.mem_cons.mp member with same | later
        · exact same ▸ isHexDigit_hexDigit (Nat.mod_lt value (by decide))
        · exact digits byte later

/-- Everything `%x` prints is a hexadecimal digit. -/
theorem isHexDigit_of_mem_formatHex {value : Nat} {byte : UInt8} (member : byte ∈ formatHex value) :
    isHexDigit byte = true :=
  hexDigitsBefore_isHexDigit (value + 1) value []
    (fun _ impossible => absurd impossible List.not_mem_nil) byte member

private theorem digitsValue_hexDigitsBefore (fuel value : Nat) (text : List UInt8)
    (enough : value < fuel) :
    digitsValue 16 (hexDigitsBefore fuel value text) =
      value * 16 ^ text.length + digitsValue 16 text := by
  induction fuel generalizing value text with
  | zero => exact absurd enough (Nat.not_lt_zero value)
  | succ fuel inductionHypothesis =>
      rw [hexDigitsBefore]
      by_cases small : value < 16
      · rw [if_pos small, digitsValue_cons, digitValue_hexDigit small]
      · have shorter : value / 16 < fuel := by omega
        have split : value = value / 16 * 16 + value % 16 := by omega
        rw [if_neg small, inductionHypothesis _ _ shorter, digitsValue_cons,
          digitValue_hexDigit (Nat.mod_lt value (by decide)), List.length_cons, Nat.pow_succ]
        conv_rhs => rw [split]
        ring

/-- Reading the digits `%x` prints gives the number back. -/
theorem digitsValue_formatHex (value : Nat) : digitsValue 16 (formatHex value) = value := by
  rw [formatHex, digitsValue_hexDigitsBefore _ _ _ (Nat.lt_succ_self value)]
  simp [digitsValue]

theorem formatHex_ne_nil (value : Nat) : formatHex value ≠ [] := by
  have nonempty : forall (fuel value : Nat) (text : List UInt8), text ≠ [] ->
      hexDigitsBefore fuel value text ≠ [] := by
    intro fuel
    induction fuel with
    | zero => intro _ _ given; exact given
    | succ fuel inductionHypothesis =>
        intro value text _
        rw [hexDigitsBefore]
        by_cases small : value < 16
        · rw [if_pos small]
          exact List.cons_ne_nil _ _
        · rw [if_neg small]
          exact inductionHypothesis _ _ (List.cons_ne_nil _ _)
  rw [formatHex, hexDigitsBefore]
  by_cases small : value < 16
  · rw [if_pos small]
    exact List.cons_ne_nil _ _
  · rw [if_neg small]
    exact nonempty _ _ _ (List.cons_ne_nil _ _)

/-! ## The `%04x` conversion -/

/-- Zeros in front of a number do not count. -/
theorem digitsValue_zeros (base count : Nat) (text : List UInt8) :
    digitsValue base (List.replicate count 48 ++ text) = digitsValue base text := by
  induction count with
  | zero => rfl
  | succ count inductionHypothesis =>
      have zero : digitValue 48 = 0 := by decide
      rw [List.replicate_succ, List.cons_append, digitsValue_cons, zero, Nat.zero_mul, Nat.zero_add,
        inductionHypothesis]

/-- The text `%04x` prints for a number. -/
def formatHex04 (value : Nat) : List UInt8 :=
  List.replicate (4 - (formatHex value).length) 48 ++ formatHex value

/-- A number below 65536 is printed with four digits, which give its value. -/
theorem formatHex04_of_lt {value : Nat} (small : value < 65536) :
    (formatHex04 value).length = 4 ∧ (formatHex04 value).all isHexDigit = true ∧
      digitsValue 16 (formatHex04 value) = value := by
  have short : (formatHex value).length ≤ 3 + 1 := length_formatHex_le small
  refine ⟨?_, ?_, ?_⟩
  · rw [formatHex04, List.length_append, List.length_replicate]
    omega
  · apply List.all_eq_true.mpr
    intro byte member
    rcases List.mem_append.mp member with padding | digit
    · rw [List.eq_of_mem_replicate padding]
      decide
    · exact isHexDigit_of_mem_formatHex digit
  · rw [formatHex04, digitsValue_zeros, digitsValue_formatHex]

/-! ## The `%02X` conversion -/

/-- A hexadecimal digit in upper case. -/
def upperDigit (digit : UInt8) : UInt8 := if 97 ≤ digit then digit - 32 else digit

/-- The text `%02X` prints for a number. -/
def formatHex02 (value : Nat) : List UInt8 :=
  List.replicate (2 - (formatHex value).length) 48 ++ (formatHex value).map upperDigit

theorem isHexDigit_upperDigit {digit : UInt8} (isDigit : isHexDigit digit = true) :
    isHexDigit (upperDigit digit) = true := by
  unfold upperDigit
  by_cases lower : 97 ≤ digit
  · rw [if_pos lower]
    simp only [isHexDigit, Bool.or_eq_true, Bool.and_eq_true, decide_eq_true_eq,
      UInt8.le_iff_toNat_le, UInt8.reduceToNat] at isDigit lower ⊢
    have value : (digit - 32).toNat = digit.toNat - 32 :=
      UInt8.toNat_sub_of_le digit 32 (UInt8.le_iff_toNat_le.mpr (by simp only [UInt8.reduceToNat]; omega))
    omega
  · rw [if_neg lower]
    exact isDigit

theorem digitValue_upperDigit {value : Nat} (small : value < 16) :
    digitValue (upperDigit (hexDigit value)) = value := by
  revert value
  decide

theorem isHexDigit_of_mem_formatHex02 {value : Nat} {byte : UInt8} (member : byte ∈ formatHex02 value) :
    isHexDigit byte = true := by
  rcases List.mem_append.mp member with padding | digit
  · rw [List.eq_of_mem_replicate padding]
    decide
  · rcases List.mem_map.mp digit with ⟨lower, isLower, same⟩
    exact same ▸ isHexDigit_upperDigit (isHexDigit_of_mem_formatHex isLower)

theorem two_le_length_formatHex02 (value : Nat) : 2 ≤ (formatHex02 value).length := by
  rw [formatHex02, List.length_append, List.length_replicate, List.length_map]
  omega

/-- A byte is printed with two digits, which give its value. -/
theorem formatHex02_of_lt {value : Nat} (small : value < 256) : Exists fun high => Exists fun low =>
    formatHex02 value = [high, low] ∧ digitsValue 16 [high, low] = value := by
  have number : forall first second : Nat, first < 16 -> second < 16 ->
      digitsValue 16 [upperDigit (hexDigit first), upperDigit (hexDigit second)] = first * 16 + second := by
    intro first second firstSmall secondSmall
    rw [digitsValue_cons, digitsValue_cons, digitValue_upperDigit firstSmall,
      digitValue_upperDigit secondSmall]
    simp [digitsValue]
  by_cases single : value < 16
  · have digits : formatHex value = [hexDigit value] := by
      rw [formatHex, hexDigitsBefore, if_pos single]
    refine ⟨48, upperDigit (hexDigit value), by rw [formatHex02, digits]; rfl, ?_⟩
    have padded := number 0 value (by decide) single
    rw [Nat.zero_mul, Nat.zero_add] at padded
    exact padded
  · have positive : value = (value - 1) + 1 := by omega
    have digits : formatHex value = [hexDigit (value / 16), hexDigit (value % 16)] := by
      rw [formatHex, hexDigitsBefore, if_neg single]
      conv_lhs => rw [positive]
      rw [hexDigitsBefore, ← positive, if_pos (by omega)]
    refine ⟨_, _, by rw [formatHex02, digits]; rfl, ?_⟩
    rw [number _ _ (by omega) (Nat.mod_lt value (by decide))]
    omega

/-! ## `strtol` -/

/-- The largest value of a 64-bit `long`. -/
def longMax : Int := 9223372036854775807

/-- The blanks `isspace` accepts in the C locale. -/
def isSpace (byte : UInt8) : Bool := byte == 32 || (9 ≤ byte && byte ≤ 13)

theorem isSpace_of_isHexDigit {byte : UInt8} (digit : isHexDigit byte = true) :
    isSpace byte = false := by
  simp only [isHexDigit, Bool.or_eq_true, Bool.and_eq_true, decide_eq_true_eq,
    UInt8.le_iff_toNat_le, UInt8.reduceToNat] at digit
  have notBlank : byte ≠ 32 := by
    rintro rfl
    simp at digit
  simp only [isSpace, Bool.or_eq_false_iff, beq_eq_false_iff_ne, ne_eq, notBlank,
    not_false_eq_true, true_and, Bool.and_eq_false_iff, decide_eq_false_iff_not,
    UInt8.le_iff_toNat_le, UInt8.reduceToNat]
  omega

/-- The digits of a base up to sixteen. -/
def isDigitOf (base : Nat) (byte : UInt8) : Bool := isHexDigit byte && digitValue byte < base

/-- Drop the `0x` that base sixteen admits when a digit follows it. -/
def skipHexPrefix : List UInt8 -> List UInt8
  | 48 :: mark :: digit :: rest =>
      if (mark == 120 || mark == 88) && isHexDigit digit then digit :: rest
      else 48 :: mark :: digit :: rest
  | text => text

/-- The magnitude read after blanks and sign. -/
def strtolMagnitude (base : Nat) (text : List UInt8) : Nat :=
  digitsValue base
    ((if base = 16 then skipHexPrefix text else text).takeWhile (isDigitOf base))

/-- `strtol(text, NULL, base)` for a base up to sixteen. -/
def strtol (base : Nat) (text : List UInt8) : Int :=
  match text.dropWhile isSpace with
  | 45 :: rest => max (-longMax - 1) (-(strtolMagnitude base rest : Int))
  | 43 :: rest => min longMax (strtolMagnitude base rest)
  | rest => min longMax (strtolMagnitude base rest)

/-- The result is a `long`. -/
theorem strtol_isLong (base : Nat) (text : List UInt8) :
    -longMax - 1 ≤ strtol base text ∧ strtol base text ≤ longMax := by
  have most : longMax = 9223372036854775807 := rfl
  unfold strtol
  split <;> omega

/-- A run of hexadecimal digits that ends before a byte which is neither a
digit nor an `x` is read as the number it denotes. -/
theorem strtol_hexDigits {digits rest : List UInt8} (nonempty : digits ≠ [])
    (digit : forall byte, byte ∈ digits -> isHexDigit byte = true)
    (stop : forall byte, rest.head? = some byte ->
      isHexDigit byte = false ∧ byte ≠ 120 ∧ byte ≠ 88)
    (fits : (digitsValue 16 digits : Int) ≤ longMax) :
    strtol 16 (digits ++ rest) = digitsValue 16 digits := by
  have stopped : rest.takeWhile (isDigitOf 16) = [] := by
    cases rest with
    | nil => rfl
    | cons byte tail =>
        apply List.takeWhile_cons_of_neg
        simp [isDigitOf, (stop byte rfl).1]
  have every : forall byte, byte ∈ digits -> isDigitOf 16 byte = true := by
    intro byte member
    rw [isDigitOf, digit byte member, decide_eq_true (digitValue_lt (digit byte member))]
    rfl
  have taken : (digits ++ rest).takeWhile (isDigitOf 16) = digits := by
    rw [List.takeWhile_append_of_pos every, stopped, List.append_nil]
  have noPrefix : skipHexPrefix (digits ++ rest) = digits ++ rest := by
    unfold skipHexPrefix
    split
    next mark third tail shape =>
      have notMark : (mark == 120 || mark == 88) = false := by
        cases digits with
        | nil => exact absurd rfl nonempty
        | cons first others =>
            have shapeTail : others ++ rest = mark :: third :: tail := (List.cons.inj shape).2
            cases others with
            | nil =>
                have found := stop mark (by rw [show rest = mark :: third :: tail from shapeTail]; rfl)
                simp [found.2.1, found.2.2]
            | cons second _ =>
                have same : second = mark := (List.cons.inj shapeTail).1
                have isDigit := digit second (by simp)
                rw [same] at isDigit
                rw [Bool.or_eq_false_iff]
                constructor <;> apply beq_eq_false_iff_ne.mpr <;> rintro rfl <;> exact absurd isDigit
                  (by decide)
      rw [notMark, Bool.false_and, if_neg (by decide), shape]
    next => rfl
  have magnitude : strtolMagnitude 16 (digits ++ rest) = digitsValue 16 digits := by
    rw [strtolMagnitude, if_pos rfl, noPrefix, taken]
  cases digits with
  | nil => exact absurd rfl nonempty
  | cons first others =>
      have isDigit := digit first List.mem_cons_self
      have notSpace : isSpace first = false := isSpace_of_isHexDigit isDigit
      have kept : ((first :: others) ++ rest).dropWhile isSpace = first :: (others ++ rest) := by
        rw [List.cons_append, List.dropWhile_cons_of_neg (by simp [notSpace])]
      rw [strtol, kept]
      split
      next shape =>
        have same := (List.cons.inj shape).1
        rw [same] at isDigit
        exact absurd isDigit (by decide)
      next shape =>
        have same := (List.cons.inj shape).1
        rw [same] at isDigit
        exact absurd isDigit (by decide)
      next =>
        rw [← List.cons_append, magnitude]
        exact min_eq_right fits

/-! ## The `%d` conversion -/

/-- A decimal digit. -/
def isDigit (byte : UInt8) : Bool := 48 ≤ byte && byte ≤ 57

/-- The text `%d` prints for a number. -/
def formatDec (value : Int) : List UInt8 := ascii (toString value)

/-- The bytes of the digits of a natural number. -/
theorem formatDec_ofNat (value : Nat) :
    formatDec (value : Int) = (Nat.toDigits 10 value).map (fun char => UInt8.ofNat char.toNat) := by
  have natural : toString (value : Int) = value.repr := by
    rw [Int.toString_eq_repr, Int.repr_eq_if, if_pos (Int.natCast_nonneg value), Int.toNat_natCast]
  rw [formatDec, ascii, natural, Nat.toList_repr]

/-- A negative number is a minus sign and the digits of its magnitude. -/
theorem formatDec_neg {value : Nat} (positive : 0 < value) :
    formatDec (-(value : Int)) = 45 :: formatDec (value : Int) := by
  have sign : toString (-(value : Int)) = "-" ++ value.repr := by
    rw [Int.toString_eq_repr, Int.repr_eq_if, if_neg (by omega), Int.neg_neg, Int.toNat_natCast]
  rw [formatDec, ascii, sign, String.toList_append, List.map_append, Nat.toList_repr, ← formatDec_ofNat]
  rfl

private theorem char_bounds {value : Nat} {char : Char} (member : char ∈ Nat.toDigits 10 value) :
    48 ≤ char.toNat ∧ char.toNat ≤ 57 := by
  have isDigit := Nat.isDigit_of_mem_toDigits (by decide) (by decide) member
  rw [Char.isDigit, Bool.and_eq_true, decide_eq_true_eq, decide_eq_true_eq] at isDigit
  exact ⟨isDigit.1, isDigit.2⟩

private theorem toNat_ofNat_char {value : Nat} {char : Char} (member : char ∈ Nat.toDigits 10 value) :
    (UInt8.ofNat char.toNat).toNat = char.toNat := by
  have bounds := char_bounds member
  rw [UInt8.toNat_ofNat', Nat.mod_eq_of_lt]
  omega

theorem isDigit_of_mem_formatDec {value : Nat} {byte : UInt8} (member : byte ∈ formatDec (value : Int)) :
    isDigit byte = true := by
  rw [formatDec_ofNat] at member
  rcases List.mem_map.mp member with ⟨char, isChar, same⟩
  have bounds := char_bounds isChar
  have toNat := toNat_ofNat_char isChar
  rw [same] at toNat
  rw [isDigit, Bool.and_eq_true, decide_eq_true_eq, decide_eq_true_eq, UInt8.le_iff_toNat_le,
    UInt8.le_iff_toNat_le, toNat]
  exact bounds

/-- `%d` prints visible ASCII. -/
theorem formatDec_bounds {value : Int} {byte : UInt8} (member : byte ∈ formatDec value) :
    45 ≤ byte ∧ byte < 128 := by
  have digits : forall magnitude : Nat, byte ∈ formatDec (magnitude : Int) -> 45 ≤ byte ∧ byte < 128 := by
    intro magnitude inDigits
    have digit := isDigit_of_mem_formatDec inDigits
    rw [isDigit, Bool.and_eq_true, decide_eq_true_eq, decide_eq_true_eq] at digit
    exact ⟨UInt8.le_trans (by decide) digit.1, UInt8.lt_of_le_of_lt digit.2 (by decide)⟩
  rcases Int.eq_nat_or_neg value with ⟨magnitude, rfl | rfl⟩
  · exact digits magnitude member
  · by_cases zero : magnitude = 0
    · subst zero
      exact digits 0 member
    · rw [formatDec_neg (Nat.pos_of_ne_zero zero)] at member
      rcases List.mem_cons.mp member with sign | later
      · rw [sign]
        decide
      · exact digits magnitude later

/-- A number below a power of 10 has no more digits than the exponent. -/
theorem length_formatDec_le {value digits : Nat} (small : value < 10 ^ (digits + 1)) :
    (formatDec (value : Int)).length ≤ digits + 1 := by
  rw [formatDec_ofNat, List.length_map]
  exact (Nat.length_toDigits_le_iff (by decide) (Nat.succ_pos digits)).mpr small

theorem formatDec_ne_nil (value : Nat) : formatDec (value : Int) ≠ [] := by
  rw [formatDec_ofNat]
  exact fun empty => Nat.toDigits_ne_nil (List.map_eq_nil_iff.mp empty)

/-- Reading the digits `%d` prints gives the number back. -/
theorem digitsValue_formatDec (value : Nat) : digitsValue 10 (formatDec (value : Int)) = value := by
  have read : forall (chars : List Char) (start : Nat),
      (forall char, char ∈ chars -> char ∈ Nat.toDigits 10 value) ->
      (chars.map (fun char => UInt8.ofNat char.toNat)).foldl
          (fun value digit => value * 10 + digitValue digit) start =
        Nat.ofDigitChars 10 chars start := by
    intro chars
    induction chars with
    | nil => intro start _; rfl
    | cons char rest inductionHypothesis =>
        intro start all
        have isChar := all char List.mem_cons_self
        have digit : digitValue (UInt8.ofNat char.toNat) = char.toNat - 48 := by
          have bounds := char_bounds isChar
          rw [digitValue, if_pos ?_, toNat_ofNat_char isChar]
          rw [UInt8.le_iff_toNat_le, toNat_ofNat_char isChar]
          exact bounds.2
        rw [List.map_cons, List.foldl_cons, digit, Nat.ofDigitChars_cons,
          inductionHypothesis _ (fun other member => all other (List.mem_cons_of_mem char member)),
          Nat.mul_comm]
        rfl
  rw [formatDec_ofNat, digitsValue, read _ _ (fun _ member => member), Nat.ofDigitChars_ten_toDigits]

/-- A positive number is printed without a leading zero. -/
theorem formatDec_head_ne_zero {value : Nat} (positive : 0 < value) :
    (formatDec (value : Int)).head? ≠ some 48 := by
  have leading : (Nat.toDigits 10 value).head? ≠ some '0' := by
    induction value using Nat.strong_induction_on with
    | _ value inductionHypothesis =>
        rw [Nat.toDigits_eq_if (by decide)]
        by_cases small : value < 10
        · have all : forall value, value < 10 -> 0 < value -> [value.digitChar].head? ≠ some '0' := by decide
          rw [if_pos small]
          exact all value small positive
        · rw [if_neg small, List.head?_append_of_ne_nil _ Nat.toDigits_ne_nil]
          exact inductionHypothesis (value / 10) (by omega) (by omega)
  rw [formatDec_ofNat, List.head?_map]
  intro zero
  rcases Option.map_eq_some_iff.mp zero with ⟨char, first, isZero⟩
  have toNat := toNat_ofNat_char (List.mem_of_mem_head? (Option.mem_def.mpr first))
  rw [isZero] at toNat
  have isChar : char = '0' := Char.toNat_inj.mp toNat.symm
  exact leading (isChar ▸ first)

/-! ## Decimal numerals -/

theorem isDigitOf_ten (byte : UInt8) : isDigitOf 10 byte = isDigit byte := by
  rw [Bool.eq_iff_iff]
  simp only [isDigitOf, isHexDigit, digitValue, isDigit, Bool.and_eq_true, Bool.or_eq_true,
    decide_eq_true_eq, UInt8.le_iff_toNat_le, UInt8.reduceToNat]
  split_ifs <;> omega

/-- A decimal digit is neither a blank nor a sign. -/
theorem isDigit_bounds {byte : UInt8} (digit : isDigit byte = true) :
    isSpace byte = false ∧ byte ≠ 45 ∧ byte ≠ 43 := by
  have hex : isHexDigit byte = true := by
    rw [isHexDigit, Bool.or_assoc, Bool.or_eq_true]
    exact Or.inl digit
  refine ⟨isSpace_of_isHexDigit hex, ?_, ?_⟩ <;> (rintro rfl; exact absurd digit (by decide))

/-- The digits at the front of a text. -/
theorem strtolMagnitude_ten (text : List UInt8) :
    strtolMagnitude 10 text = digitsValue 10 (text.takeWhile isDigit) := by
  have same : isDigitOf 10 = isDigit := funext isDigitOf_ten
  rw [strtolMagnitude, if_neg (by decide), same]

/-- A text that begins with a digit is read as the digits at its front. -/
theorem strtol_ten_of_digit {byte : UInt8} (digit : isDigit byte = true) (rest : List UInt8) :
    strtol 10 (byte :: rest) = min longMax (digitsValue 10 ((byte :: rest).takeWhile isDigit)) := by
  rcases isDigit_bounds digit with ⟨notSpace, notMinus, notPlus⟩
  have kept : (byte :: rest).dropWhile isSpace = byte :: rest :=
    List.dropWhile_cons_of_neg (by rw [notSpace]; decide)
  rw [strtol, kept]
  split
  next shape => exact absurd (List.cons.inj shape).1 notMinus
  next shape => exact absurd (List.cons.inj shape).1 notPlus
  next => rw [strtolMagnitude_ten]

/-- A run of digits that ends before another byte is read as the number it denotes. -/
theorem strtol_digits {digits rest : List UInt8} (nonempty : digits ≠ [])
    (digit : forall byte, byte ∈ digits -> isDigit byte = true)
    (stop : forall byte, rest.head? = some byte -> isDigit byte = false)
    (fits : (digitsValue 10 digits : Int) ≤ longMax) :
    strtol 10 (digits ++ rest) = digitsValue 10 digits := by
  have stopped : rest.takeWhile isDigit = [] := by
    cases rest with
    | nil => rfl
    | cons byte tail => exact List.takeWhile_cons_of_neg (by rw [stop byte rfl]; decide)
  cases digits with
  | nil => exact absurd rfl nonempty
  | cons first others =>
      rw [List.cons_append, strtol_ten_of_digit (digit first List.mem_cons_self), ← List.cons_append,
        List.takeWhile_append_of_pos digit, stopped, List.append_nil]
      exact min_eq_right fits

/-- Skipping and taking stop at a byte that fails the test. -/
theorem while_stop {test : UInt8 -> Bool} {byte : UInt8} (stop : test byte = false) (text rest : List UInt8) :
    (text ++ byte :: rest).takeWhile test = text.takeWhile test ∧
      (text ++ byte :: rest).dropWhile test = text.dropWhile test ++ byte :: rest := by
  induction text with
  | nil =>
      have fails : ¬ test byte = true := by rw [stop]; decide
      exact ⟨List.takeWhile_cons_of_neg fails, List.dropWhile_cons_of_neg fails⟩
  | cons first text inductionHypothesis =>
      rw [List.cons_append]
      by_cases passes : test first = true
      · rw [List.takeWhile_cons_of_pos passes, List.takeWhile_cons_of_pos passes,
          List.dropWhile_cons_of_pos passes, List.dropWhile_cons_of_pos passes, inductionHypothesis.1]
        exact ⟨rfl, inductionHypothesis.2⟩
      · rw [List.takeWhile_cons_of_neg passes, List.takeWhile_cons_of_neg passes,
          List.dropWhile_cons_of_neg passes, List.dropWhile_cons_of_neg passes]
        exact ⟨rfl, rfl⟩

/-- Blanks in front of a number do not count. -/
theorem strtol_append_of_spaces {blanks : List UInt8} (spaces : forall byte, byte ∈ blanks ->
    isSpace byte = true)
    (base : Nat) (rest : List UInt8) : strtol base (blanks ++ rest) = strtol base rest := by
  rw [strtol, strtol, List.dropWhile_append_of_pos spaces]

/-- Neither do they if they are skipped before. -/
theorem strtol_dropWhile {test : UInt8 -> Bool} (spaces : forall byte, test byte = true -> isSpace byte = true)
    (base : Nat) (text : List UInt8) : strtol base (text.dropWhile test) = strtol base text := by
  have split := @List.takeWhile_append_dropWhile UInt8 test text
  have skipped : forall byte, byte ∈ text.takeWhile test -> isSpace byte = true :=
    fun byte member => spaces byte (List.mem_takeWhile_imp member)
  rw [← strtol_append_of_spaces skipped base (text.dropWhile test), split]

/-- A number is read to the end of its line, if there is anything on the line. -/
theorem strtol_ten_line {text : List UInt8} (some : Exists fun byte => byte ∈ text ∧ isSpace byte = false)
    (rest : List UInt8) : strtol 10 (text ++ 13 :: rest) = strtol 10 text := by
  have stops : forall before : List UInt8,
      strtolMagnitude 10 (before ++ 13 :: rest) = strtolMagnitude 10 before := by
    intro before
    rw [strtolMagnitude_ten, strtolMagnitude_ten, (while_stop (by decide) before rest).1]
  have nonempty : text.dropWhile isSpace ≠ [] := by
    intro empty
    rcases some with ⟨byte, member, notSpace⟩
    have space := List.dropWhile_eq_nil_iff.mp empty byte member
    exact absurd (notSpace.symm.trans space) Bool.false_ne_true
  have behind : (text ++ 13 :: rest).dropWhile isSpace = text.dropWhile isSpace ++ 13 :: rest := by
    rw [List.dropWhile_append, if_neg (by simpa using nonempty)]
  rw [strtol, strtol, behind]
  cases shape : text.dropWhile isSpace with
  | nil => exact absurd shape nonempty
  | cons byte more =>
      by_cases minus : byte = 45
      · subst minus
        simp only [List.cons_append, stops]
      · by_cases plus : byte = 43
        · subst plus
          simp only [List.cons_append, stops]
        · have magnitude := stops (byte :: more)
          rw [List.cons_append] at magnitude
          rw [List.cons_append]
          split
          next shape => exact absurd (List.cons.inj shape).1 minus
          next shape => exact absurd (List.cons.inj shape).1 plus
          next =>
            split
            next shape => exact absurd (List.cons.inj shape).1 minus
            next shape => exact absurd (List.cons.inj shape).1 plus
            next => rw [magnitude]

/-- What stands behind a byte that is no blank, sign or digit is not read. -/
theorem strtol_ten_stop {byte : UInt8} (notSpace : isSpace byte = false) (notMinus : byte ≠ 45)
    (notPlus : byte ≠ 43) (notDigit : isDigit byte = false) (text rest other : List UInt8) :
    strtol 10 (text ++ byte :: rest) = strtol 10 (text ++ byte :: other) := by
  have read : forall tail : List UInt8, strtolMagnitude 10 (byte :: tail) = 0 := by
    intro tail
    rw [strtolMagnitude_ten, List.takeWhile_cons_of_neg (by rw [notDigit]; decide)]
    rfl
  have magnitude : forall before, strtolMagnitude 10 (before ++ byte :: rest) =
      strtolMagnitude 10 (before ++ byte :: other) := by
    intro before
    rw [strtolMagnitude_ten, strtolMagnitude_ten, (while_stop notDigit before rest).1,
      (while_stop notDigit before other).1]
  rw [strtol, strtol, (while_stop notSpace text rest).2, (while_stop notSpace text other).2]
  cases text.dropWhile isSpace with
  | nil =>
      rw [List.nil_append, List.nil_append]
      split
      next shape => exact absurd (List.cons.inj shape).1 notMinus
      next shape => exact absurd (List.cons.inj shape).1 notPlus
      next =>
        split
        next shape => exact absurd (List.cons.inj shape).1 notMinus
        next shape => exact absurd (List.cons.inj shape).1 notPlus
        next => rw [read, read]
  | cons first before =>
      rw [List.cons_append, List.cons_append]
      by_cases minus : first = 45
      · subst minus
        simp only [magnitude]
      · by_cases plus : first = 43
        · subst plus
          simp only [magnitude]
        · have whole := magnitude (first :: before)
          rw [List.cons_append, List.cons_append] at whole
          split
          next shape => exact absurd (List.cons.inj shape).1 minus
          next shape => exact absurd (List.cons.inj shape).1 plus
          next =>
            split
            next shape => exact absurd (List.cons.inj shape).1 minus
            next shape => exact absurd (List.cons.inj shape).1 plus
            next => rw [whole]

theorem digitValue_of_isDigit {byte : UInt8} (digit : isDigit byte = true) :
    digitValue byte = byte.toNat - 48 := by
  rw [isDigit, Bool.and_eq_true, decide_eq_true_eq, decide_eq_true_eq] at digit
  rw [digitValue, if_pos digit.2]

/-- Digits denote one if they are a one behind zeros, and not otherwise. -/
theorem digitsValue_eq_one_iff {digits : List UInt8}
    (isDigits : forall byte, byte ∈ digits -> isDigit byte = true) :
    digitsValue 10 digits = 1 ↔ Exists fun zeros => digits = List.replicate zeros 48 ++ [49] := by
  induction digits with
  | nil =>
      constructor
      · intro impossible
        exact absurd impossible (by decide)
      · rintro ⟨zeros, shape⟩
        cases zeros <;> cases shape
  | cons digit rest inductionHypothesis =>
      have here := isDigits digit List.mem_cons_self
      have later := inductionHypothesis (fun byte member => isDigits byte (List.mem_cons_of_mem _ member))
      have bounds := here
      rw [isDigit, Bool.and_eq_true, decide_eq_true_eq, decide_eq_true_eq, UInt8.le_iff_toNat_le,
        UInt8.le_iff_toNat_le] at bounds
      simp only [UInt8.reduceToNat] at bounds
      have weight : 1 ≤ 10 ^ rest.length := Nat.one_le_pow _ _ (by decide)
      rw [digitsValue_cons, digitValue_of_isDigit here]
      constructor
      · intro one
        by_cases zero : digit.toNat = 48
        · have isZero : digit = 48 := UInt8.toNat_inj.mp zero
          rw [zero, Nat.sub_self, Nat.zero_mul, Nat.zero_add] at one
          rcases later.mp one with ⟨zeros, shape⟩
          refine ⟨zeros + 1, ?_⟩
          rw [isZero, shape, List.replicate_succ, List.cons_append]
        · have large : 10 ^ rest.length ≤ (digit.toNat - 48) * 10 ^ rest.length :=
            Nat.le_mul_of_pos_left _ (by omega)
          have single : 10 ^ rest.length = 1 := by omega
          have none : rest = [] := by
            cases rest with
            | nil => rfl
            | cons next others =>
                rw [List.length_cons, Nat.pow_succ] at single
                omega
          subst none
          rw [List.length_nil, Nat.pow_zero, Nat.mul_one] at one
          have value : digitsValue 10 [] = 0 := rfl
          have isOne : digit = 49 := UInt8.toNat_inj.mp (by
            rw [value] at one
            change digit.toNat = 49
            omega)
          exact ⟨0, by rw [isOne]; rfl⟩
      · rintro ⟨zeros, shape⟩
        cases zeros with
        | zero =>
            rcases List.cons.inj shape with ⟨isOne, none⟩
            rw [isOne, none]
            rfl
        | succ zeros =>
            rw [List.replicate_succ, List.cons_append] at shape
            rcases List.cons.inj shape with ⟨isZero, others⟩
            rw [later.mpr ⟨zeros, others⟩, isZero]
            simp

/-- A text is read as -1 if, behind blanks and a minus sign, its digits denote
one, and not otherwise. -/
theorem strtol_ten_eq_neg_one_iff {text : List UInt8} :
    strtol 10 text = -1 ↔ Exists fun zeros => Exists fun rest =>
      text.dropWhile isSpace = 45 :: (List.replicate zeros 48 ++ 49 :: rest) ∧
        forall byte, rest.head? = some byte -> isDigit byte = false := by
  have nonneg : forall magnitude : Nat, min longMax (magnitude : Int) ≠ -1 := by
    intro magnitude
    have large : (0 : Int) ≤ longMax := by decide
    omega
  have lower : forall magnitude : Nat, max (-longMax - 1) (-(magnitude : Int)) = -1 ↔ magnitude = 1 := by
    intro magnitude
    have large : longMax = 9223372036854775807 := rfl
    omega
  have prefixDigits : forall rest : List UInt8, digitsValue 10 (rest.takeWhile isDigit) = 1 ↔
      Exists fun zeros => Exists fun more => rest = List.replicate zeros 48 ++ 49 :: more ∧
        forall byte, more.head? = some byte -> isDigit byte = false := by
    intro rest
    rw [digitsValue_eq_one_iff (fun byte member => List.mem_takeWhile_imp member)]
    constructor
    · rintro ⟨zeros, digits⟩
      refine ⟨zeros, rest.dropWhile isDigit, ?_, ?_⟩
      · have whole := List.takeWhile_append_dropWhile (p := isDigit) (l := rest)
        rw [digits, List.append_assoc] at whole
        exact whole.symm
      · intro byte first
        have stops := List.head?_dropWhile_not isDigit rest
        rw [first] at stops
        exact stops
    · rintro ⟨zeros, more, shape, stops⟩
      refine ⟨zeros, ?_⟩
      have none : more.takeWhile isDigit = [] := by
        cases more with
        | nil => rfl
        | cons byte tail => exact List.takeWhile_cons_of_neg (by rw [stops byte rfl]; decide)
      have digits : forall byte, byte ∈ List.replicate zeros 48 ++ [49] -> isDigit byte = true := by
        intro byte member
        rcases List.mem_append.mp member with zero | one
        · rw [(List.mem_replicate.mp zero).2]
          rfl
        · rw [List.mem_singleton.mp one]
          rfl
      have split : rest = (List.replicate zeros 48 ++ [49]) ++ more := by
        rw [shape, List.append_assoc, List.singleton_append]
      rw [split, List.takeWhile_append_of_pos digits, none, List.append_nil]
  rw [strtol]
  split
  next rest shape =>
    rw [lower, strtolMagnitude_ten, prefixDigits]
    constructor
    · rintro ⟨zeros, more, same, stops⟩
      exact ⟨zeros, more, by rw [shape, same], stops⟩
    · rintro ⟨zeros, more, same, stops⟩
      exact ⟨zeros, more, (List.cons.inj (shape.symm.trans same)).2, stops⟩
  next shape =>
    refine ⟨fun impossible => absurd impossible (nonneg _), ?_⟩
    rintro ⟨_, _, same, _⟩
    have sign : (43 : UInt8) = 45 := (List.cons.inj (shape.symm.trans same)).1
    exact absurd sign (by decide)
  next notMinus _ =>
    refine ⟨fun impossible => absurd impossible (nonneg _), ?_⟩
    rintro ⟨_, _, same, _⟩
    exact absurd same (notMinus _)

end Numeral
end Library
