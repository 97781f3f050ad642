import AdbBridge.Library.JsonText

namespace Library
namespace Json

open Numeral

/-!
# Writing JSON

How the text of a value is put together from the texts of its parts, such that a reader gets
the value back.  Blanks may stand around every part.  What stands behind a text must
not go on with a number; everything else is delimited by its own last character.
-/

variable {text rest tail decoded : List UInt8} {value : Value}

/-! ## Numbers -/

/-- What stands behind a number does not belong to it. -/
def EndsNumber (rest : List UInt8) : Prop := forall byte, rest.head? = some byte -> isNumeralChar byte = false

theorem EndsNumber.cons {byte : UInt8} (other : isNumeralChar byte = false) (rest : List UInt8) :
    EndsNumber (byte :: rest) := fun _ first => Option.some.inj first ▸ other

theorem EndsNumber.notDigit (ends : EndsNumber tail) {byte : UInt8} (first : tail.head? = some byte) :
    ¬ isDigit byte = true := by
  intro digit
  have numeral : isNumeralChar byte = true := by
    rw [isNumeralChar, digit]
    rfl
  rw [ends byte first] at numeral
  cases numeral

/-- The digits of a text are not more with a tail behind it. -/
theorem digits_append (text : List UInt8) (ends : EndsNumber tail) :
    (text ++ tail).takeWhile isDigit = text.takeWhile isDigit ∧
      (text ++ tail).dropWhile isDigit = text.dropWhile isDigit ++ tail := by
  induction text with
  | nil =>
      cases tail with
      | nil => exact ⟨rfl, rfl⟩
      | cons byte rest =>
          have notDigit := ends.notDigit List.head?_cons
          exact ⟨List.takeWhile_cons_of_neg notDigit, List.dropWhile_cons_of_neg notDigit⟩
  | cons byte text inductionHypothesis =>
      rw [List.cons_append]
      by_cases digit : isDigit byte = true
      · rw [List.takeWhile_cons_of_pos digit, List.takeWhile_cons_of_pos digit,
          List.dropWhile_cons_of_pos digit,
          List.dropWhile_cons_of_pos digit, inductionHypothesis.1, inductionHypothesis.2]
        exact ⟨rfl, rfl⟩
      · rw [List.takeWhile_cons_of_neg digit, List.takeWhile_cons_of_neg digit,
          List.dropWhile_cons_of_neg digit,
          List.dropWhile_cons_of_neg digit]
        exact ⟨rfl, rfl⟩

theorem readDigits_append (read : readDigits text = some (decoded, rest)) (ends : EndsNumber tail) :
    readDigits (text ++ tail) = some (decoded, rest ++ tail) := by
  have digits := digits_append text ends
  rw [readDigits] at read ⊢
  rw [digits.1, digits.2]
  split_ifs at read ⊢ with none
  have parts := Prod.mk.inj (Option.some.inj read)
  rw [parts.1, parts.2]

theorem readSign_append {plus : Bool} (some_ : text ≠ []) (tail : List UInt8) :
    readSign plus (text ++ tail) = ((readSign plus text).1, (readSign plus text).2 ++ tail) := by
  cases text with
  | nil => exact absurd rfl some_
  | cons byte others =>
      rw [List.cons_append, readSign, readSign]
      split_ifs <;> rfl

theorem readInteger_append (read : readInteger text = some (decoded, rest)) (ends : EndsNumber tail) :
    readInteger (text ++ tail) = some (decoded, rest ++ tail) := by
  cases text with
  | nil => cases read
  | cons byte others =>
      rw [readInteger] at read
      rw [List.cons_append, readInteger]
      split_ifs at read ⊢ with zero
      · have parts := Prod.mk.inj (Option.some.inj read)
        rw [← parts.1, ← parts.2]
      · exact readDigits_append read ends

theorem readFraction_other (noPoint : text.head? ≠ some 46) : readFraction text = some ([], text) := by
  unfold readFraction
  split
  next => exact absurd rfl noPoint
  next => rfl

theorem readFraction_append (read : readFraction text = some (decoded, rest)) (ends : EndsNumber tail) :
    readFraction (text ++ tail) = some (decoded, rest ++ tail) := by
  by_cases point : text.head? = some 46
  · rcases List.head?_eq_some_iff.mp point with ⟨others, rfl⟩
    rcases Option.map_eq_some_iff.mp read with ⟨digits, isDigits, same⟩
    have parts := Prod.mk.inj same
    have longer := @readDigits_append _ digits.2 _ digits.1 isDigits ends
    rw [List.cons_append, readFraction, longer, ← parts.1, ← parts.2]
    rfl
  · rw [readFraction_other point] at read
    have parts := Prod.mk.inj (Option.some.inj read)
    rw [← parts.1, ← parts.2]
    apply readFraction_other
    cases text with
    | nil => exact fun first => absurd (ends 46 first) (by decide)
    | cons byte others => exact point

theorem readExponent_append (read : readExponent text = some (decoded, rest)) (ends : EndsNumber tail) :
    readExponent (text ++ tail) = some (decoded, rest ++ tail) := by
  cases text with
  | nil =>
      have parts := Prod.mk.inj (Option.some.inj read)
      rw [← parts.1, ← parts.2, List.nil_append]
      cases tail with
      | nil => rfl
      | cons byte others =>
          rw [readExponent, if_neg]
          rintro (rfl | rfl)
          · exact absurd (ends 101 rfl) (by decide)
          · exact absurd (ends 69 rfl) (by decide)
  | cons byte others =>
      rw [readExponent] at read
      rw [List.cons_append, readExponent]
      split_ifs at read ⊢ with mark
      · rcases Option.map_eq_some_iff.mp read with ⟨digits, isDigits, same⟩
        have parts := Prod.mk.inj same
        have some_ : others ≠ [] := by
          rintro rfl
          cases isDigits
        have longer := @readDigits_append _ digits.2 _ digits.1 isDigits ends
        rw [readSign_append some_, longer, ← parts.1, ← parts.2]
        rfl
      · have parts := Prod.mk.inj (Option.some.inj read)
        rw [← parts.1, ← parts.2]
        rfl

/-- A number is the same one with something behind it that does not go on with it. -/
theorem readNumber_append (read : readNumber text = some (decoded, rest)) (ends : EndsNumber tail) :
    readNumber (text ++ tail) = some (decoded, rest ++ tail) := by
  have some_ : text ≠ [] := by
    rintro rfl
    cases read
  rw [readNumber] at read
  simp only [Option.bind_eq_bind] at read
  rcases Option.bind_eq_some_iff.mp read with ⟨integer, isInteger, read⟩
  rcases Option.bind_eq_some_iff.mp read with ⟨fraction, isFraction, read⟩
  rcases Option.bind_eq_some_iff.mp read with ⟨exponent, isExponent, read⟩
  have parts := Prod.mk.inj (Option.some.inj read)
  have integerLonger := @readInteger_append _ integer.2 tail integer.1 isInteger ends
  have fractionLonger := @readFraction_append _ fraction.2 tail fraction.1 isFraction ends
  have exponentLonger := @readExponent_append _ exponent.2 tail exponent.1 isExponent ends
  rw [readNumber]
  simp only [readSign_append some_, integerLonger, fractionLonger, exponentLonger, Option.bind_eq_bind,
    Option.bind_some]
  rw [← parts.1, ← parts.2]
  rfl

/-! ## Values -/

/-- A text that is read as a value, whatever stands behind it that does not go on with a number. -/
def Denotes (text : List UInt8) (value : Value) : Prop :=
  forall fuel tail, text.length < fuel -> EndsNumber tail ->
    readValue rfc8259 fuel (text ++ tail) = some (value, tail)

/-- Blanks between tokens. -/
def Blanks (text : List UInt8) : Prop := forall byte, byte ∈ text -> isBlank byte = true

theorem blanks_nil : Blanks [] := fun _ member => absurd member List.not_mem_nil

theorem blanks_space : Blanks [32] := fun _ member => by
  rw [List.mem_singleton.mp member]
  rfl

theorem Blanks.append {front back : List UInt8} (ahead : Blanks front) (behind : Blanks back) :
    Blanks (front ++ back) := fun byte member => (List.mem_append.mp member).elim (ahead byte) (behind byte)

theorem skipBlanks_append {front : List UInt8} (blanks : Blanks front) (text : List UInt8) :
    skipBlanks (front ++ text) = skipBlanks text := List.dropWhile_append_of_pos blanks

theorem skipBlanks_token {byte : UInt8} (token : isBlank byte = false) (rest : List UInt8) :
    skipBlanks (byte :: rest) = byte :: rest :=
  List.dropWhile_cons_of_neg (by rw [token]; exact Bool.false_ne_true)

/-- Readers skip the blanks in front. -/
theorem readValue_blanks {front : List UInt8} (blanks : Blanks front) (fuel : Nat) (text : List UInt8) :
    readValue rfc8259 fuel (front ++ text) = readValue rfc8259 fuel text := by
  cases fuel with
  | zero => rfl
  | succ fuel => rw [readValue, readValue, skipBlanks_append blanks]

theorem endsNumber_blanks {back : List UInt8} (blanks : Blanks back) (ends : EndsNumber tail) :
    EndsNumber (back ++ tail) := by
  cases back with
  | nil => exact ends
  | cons byte others =>
      intro first isFirst
      rw [← Option.some.inj isFirst]
      have blank := blanks byte List.mem_cons_self
      simp only [isBlank, Bool.or_eq_true, beq_iff_eq] at blank
      rcases blank with ((rfl | rfl) | rfl) | rfl <;> decide

/-- A literal name or a number. -/
theorem denotes_scalar (byte : UInt8) (first : text.head? = some byte) (notBlank : isBlank byte = false)
    (notOpen : byte ≠ 34 ∧ byte ≠ 91 ∧ byte ≠ 123)
    (reads : forall tail, EndsNumber tail -> readScalar (text ++ tail) = some (value, tail)) :
    Denotes text value := by
  intro fuel tail enough ends
  rcases List.head?_eq_some_iff.mp first with ⟨others, rfl⟩
  rcases Nat.exists_eq_add_of_lt enough with ⟨spare, rfl⟩
  rw [List.cons_append, readValue_scalar notBlank notOpen]
  exact reads tail ends

theorem not_prefix_of_head {byte : UInt8} {word : List UInt8} (first : text.head? = some byte)
    (differs : word.head? ≠ some byte) (some_ : word ≠ []) : ¬ word <+: text := by
  rintro ⟨behind, rfl⟩
  rw [List.head?_append_of_ne_nil _ some_] at first
  exact differs first

theorem denotes_null : Denotes (ascii "null") .null :=
  denotes_scalar 110 rfl (by decide) (by decide) (fun tail _ => if_pos (List.prefix_append _ tail))

theorem denotes_true : Denotes (ascii "true") (.bool true) := by
  refine denotes_scalar 116 rfl (by decide) (by decide) (fun tail _ => ?_)
  rw [readScalar, if_neg (not_prefix_of_head rfl (by decide) (by decide)), if_pos (List.prefix_append _ tail)]
  rfl

theorem denotes_false : Denotes (ascii "false") (.bool false) := by
  refine denotes_scalar 102 rfl (by decide) (by decide) (fun tail _ => ?_)
  rw [readScalar, if_neg (not_prefix_of_head rfl (by decide) (by decide)),
    if_neg (not_prefix_of_head rfl (by decide) (by decide)), if_pos (List.prefix_append _ tail)]
  rfl

theorem denotes_number (numeral : readNumber text = some (text, [])) : Denotes text (.number text) := by
  rcases (readNumber_shape numeral).2.2 with ⟨byte, others, isText, begins⟩
  have first : text.head? = some byte := by
    rw [isText]
    rfl
  have facts : isBlank byte = false ∧ (byte ≠ 34 ∧ byte ≠ 91 ∧ byte ≠ 123) ∧ byte ≠ 110 ∧ byte ≠ 116 ∧
      byte ≠ 102 := by
    rcases begins with rfl | digit
    · decide
    · have differs : forall other, isDigit other = false -> byte ≠ other := by
        rintro other notDigit rfl
        rw [digit] at notDigit
        cases notDigit
      refine ⟨?_, ⟨?_, ?_, ?_⟩, ?_, ?_, ?_⟩
      · simp only [isBlank, Bool.or_eq_false_iff, beq_eq_false_iff_ne]
        exact ⟨⟨⟨differs 32 rfl, differs 9 rfl⟩, differs 10 rfl⟩, differs 13 rfl⟩
      all_goals exact differs _ (by decide)
  refine denotes_scalar byte first facts.1 facts.2.1 (fun tail ends => ?_)
  have head : (text ++ tail).head? = some byte := by
    rw [isText]
    rfl
  have notWord : forall (letter : UInt8) (others : List UInt8), byte ≠ letter ->
    ¬ letter :: others <+: text ++ tail :=
    fun letter others differs => not_prefix_of_head head (fun same => differs (Option.some.inj same).symm)
      (List.cons_ne_nil _ _)
  have notNull : ¬ ascii "null" <+: text ++ tail := notWord 110 (ascii "ull") facts.2.2.1
  have notTrue : ¬ ascii "true" <+: text ++ tail := notWord 116 (ascii "rue") facts.2.2.2.1
  have notFalse : ¬ ascii "false" <+: text ++ tail := notWord 102 (ascii "alse") facts.2.2.2.2
  rw [readScalar, if_neg notNull, if_neg notTrue, if_neg notFalse, readNumber_append numeral ends]
  rfl

/-- A string between its quotes. -/
theorem denotes_string {string : List UInt8} (spelled : Spelled text string) :
    Denotes (34 :: (text ++ [34])) (.string string) := by
  intro fuel tail enough _
  rcases Nat.exists_eq_add_of_lt enough with ⟨spare, rfl⟩
  rw [List.cons_append, List.append_assoc, List.singleton_append, readValue_quote, spelled]
  rfl

/-! ## Arrays -/

/-- The elements of an array, read up to the bracket. -/
def DenotesElements (text : List UInt8) (values : List Value) : Prop :=
  forall fuel tail, text.length + 1 < fuel -> readElements rfc8259 fuel (text ++ 93 :: tail) =
    some (values, tail)

variable {front back : List UInt8} {values : List Value}

theorem endsNumber_close (rest : List UInt8) {byte : UInt8} (closes : byte = 44 ∨ byte = 93 ∨ byte = 125) :
    EndsNumber (byte :: rest) := by
  apply EndsNumber.cons
  rcases closes with rfl | rfl | rfl <;> decide

theorem elementsAfter_blanks (blanks : Blanks back) (fuel : Nat) (value : Value) (rest : List UInt8) :
    elementsAfter fuel value (back ++ rest) = elementsAfter fuel value rest := by
  rw [elementsAfter, elementsAfter, skipBlanks_append blanks]

theorem denotesElements_last (denotes : Denotes text value) (ahead : Blanks front) (behind : Blanks back) :
    DenotesElements (front ++ (text ++ back)) [value] := by
  intro fuel tail enough
  rcases Nat.exists_eq_add_of_lt enough with ⟨spare, rfl⟩
  rw [readElements_eq, List.append_assoc, List.append_assoc, readValue_blanks ahead,
    denotes _ _ (by simp only [List.length_append]; omega)
      (endsNumber_blanks behind (endsNumber_close tail (Or.inr (Or.inl rfl)))), Option.bind_some,
    elementsAfter_blanks behind, elementsAfter_bracket]

theorem denotesElements_more (denotes : Denotes text value) (ahead : Blanks front) (behind : Blanks back)
    (others : DenotesElements rest values) :
    DenotesElements (front ++ (text ++ (back ++ 44 :: rest))) (value :: values) := by
  intro fuel tail enough
  rcases Nat.exists_eq_add_of_lt enough with ⟨spare, rfl⟩
  simp only [List.append_assoc, List.cons_append]
  rw [readElements_eq, readValue_blanks ahead,
    denotes _ _ (by simp only [List.length_append]; omega)
      (endsNumber_blanks behind (endsNumber_close _ (Or.inl rfl))), Option.bind_some,
    elementsAfter_blanks behind, elementsAfter_comma,
    others _ _ (by simp only [List.length_append, List.length_cons]; omega)]
  rfl

theorem readValue_openArray (fuel : Nat) (text : List UInt8) :
    readValue rfc8259 (fuel + 1) (91 :: text) =
      if (skipBlanks text).head? = some 93 then some (.array [], (skipBlanks text).tail)
      else (readElements rfc8259 fuel text).map (fun array => (.array array.1, array.2)) := by
  rw [readValue, skipBlanks_token (by decide)]
  rfl

theorem denotes_emptyArray (blanks : Blanks back) : Denotes (91 :: (back ++ [93])) (.array []) := by
  intro fuel tail enough _
  rcases Nat.exists_eq_add_of_lt enough with ⟨spare, rfl⟩
  have bracket : skipBlanks (back ++ 93 :: tail) = 93 :: tail := by
    rw [skipBlanks_append blanks, skipBlanks_token (by decide)]
  rw [List.cons_append, List.append_assoc, List.singleton_append, readValue_openArray, bracket]
  rfl

/-- A value does not begin with what closes an array or an object. -/
theorem readElements_notClosed {fuel : Nat} (read : readElements rfc8259 fuel text = some (values, rest)) :
    (skipBlanks text).head? ≠ some 93 := by
  intro closed
  cases fuel with
  | zero => cases read
  | succ fuel =>
      rcases List.head?_eq_some_iff.mp closed with ⟨others, shape⟩
      have none : readValue rfc8259 fuel text = none := by
        cases fuel with
        | zero => rfl
        | succ fuel =>
            rw [readValue, shape]
            rfl
      rw [readElements_eq, none] at read
      cases read

theorem denotes_array (elements : DenotesElements text values) : Denotes (91 :: (text ++ [93]))
    (.array values) := by
  intro fuel tail enough _
  rcases Nat.exists_eq_add_of_lt enough with ⟨spare, rfl⟩
  have read := elements ((91 :: (text ++ [93])).length + spare) tail (by
    simp only [List.length_append, List.length_cons, List.length_nil]
    omega)
  rw [List.cons_append, List.append_assoc, List.singleton_append, readValue_openArray,
    if_neg (readElements_notClosed read), read]
  rfl

/-! ## Objects -/

/-- The members of an object, read up to the brace. -/
def DenotesMembers (text : List UInt8) (members : List (List UInt8 × Value)) : Prop :=
  forall fuel tail, text.length + 1 < fuel ->
    readMembers rfc8259 fuel (text ++ 125 :: tail) = some (members, tail)

variable {nameText name inner : List UInt8} {members : List (List UInt8 × Value)}

theorem readMembers_blanks (blanks : Blanks front) (fuel : Nat) (text : List UInt8) :
    readMembers rfc8259 fuel (front ++ text) = readMembers rfc8259 fuel text := by
  cases fuel with
  | zero => rfl
  | succ fuel => rw [readMembers, readMembers, skipBlanks_append blanks]

theorem membersAfter_blanks (blanks : Blanks back) (fuel : Nat) (name : List UInt8) (value : Value)
    (rest : List UInt8) : membersAfter fuel name value (back ++ rest) = membersAfter fuel name value rest := by
  rw [membersAfter, membersAfter, skipBlanks_append blanks]

theorem membersAfter_brace (fuel : Nat) (name : List UInt8) (value : Value) (rest : List UInt8) :
    membersAfter fuel name value (125 :: rest) = some ([(name, value)], rest) := by
  rw [membersAfter, skipBlanks_token (by decide)]
  rfl

/-- A member up to its value. -/
theorem readMembers_value (spelled : Spelled nameText name) (denotes : Denotes text value)
    (ahead : Blanks front)
    (between : Blanks inner) {fuel : Nat} (enough : text.length < fuel) (ends : EndsNumber tail) :
    readMembers rfc8259 (fuel + 1) (front ++ 34 :: (nameText ++ 34 :: 58 :: (inner ++ (text ++ tail)))) =
      membersAfter fuel name value tail := by
  rw [readMembers_blanks ahead, readMembers_spelled spelled, readValue_blanks between, denotes _ _ enough ends,
    Option.bind_some]

theorem denotesMembers_last (spelled : Spelled nameText name) (denotes : Denotes text value)
    (ahead : Blanks front) (between : Blanks inner) (behind : Blanks back) :
    DenotesMembers (front ++ 34 :: (nameText ++ 34 :: 58 :: (inner ++ (text ++ back)))) [(name, value)] := by
  intro fuel tail enough
  rcases Nat.exists_eq_add_of_lt enough with ⟨spare, rfl⟩
  simp only [List.append_assoc, List.cons_append]
  rw [readMembers_value spelled denotes ahead between
    (by simp only [List.length_append, List.length_cons]; omega)
    (endsNumber_blanks behind (endsNumber_close tail (Or.inr (Or.inr rfl)))), membersAfter_blanks behind,
    membersAfter_brace]

theorem denotesMembers_more (spelled : Spelled nameText name) (denotes : Denotes text value)
    (ahead : Blanks front) (between : Blanks inner) (behind : Blanks back)
    (others : DenotesMembers rest members) :
    DenotesMembers (front ++ 34 :: (nameText ++ 34 :: 58 :: (inner ++ (text ++ (back ++ 44 :: rest)))))
      ((name, value) :: members) := by
  intro fuel tail enough
  rcases Nat.exists_eq_add_of_lt enough with ⟨spare, rfl⟩
  simp only [List.append_assoc, List.cons_append]
  rw [readMembers_value spelled denotes ahead between
    (by simp only [List.length_append, List.length_cons]; omega)
    (endsNumber_blanks behind (endsNumber_close _ (Or.inl rfl))), membersAfter_blanks behind,
    membersAfter_comma, others _ _ (by simp only [List.length_append, List.length_cons]; omega)]
  rfl

theorem readValue_openObject (fuel : Nat) (text : List UInt8) :
    readValue rfc8259 (fuel + 1) (123 :: text) =
      if (skipBlanks text).head? = some 125 then some (.object [], (skipBlanks text).tail)
      else (readMembers rfc8259 fuel text).map (fun object => (.object object.1, object.2)) := by
  rw [readValue, skipBlanks_token (by decide)]
  rfl

theorem denotes_emptyObject (blanks : Blanks back) : Denotes (123 :: (back ++ [125])) (.object []) := by
  intro fuel tail enough _
  rcases Nat.exists_eq_add_of_lt enough with ⟨spare, rfl⟩
  have brace : skipBlanks (back ++ 125 :: tail) = 125 :: tail := by
    rw [skipBlanks_append blanks, skipBlanks_token (by decide)]
  rw [List.cons_append, List.append_assoc, List.singleton_append, readValue_openObject, brace]
  rfl

theorem readMembers_notClosed {fuel : Nat} (read : readMembers rfc8259 fuel text = some (members, rest)) :
    (skipBlanks text).head? ≠ some 125 := by
  intro closed
  cases fuel with
  | zero => cases read
  | succ fuel =>
      rcases List.head?_eq_some_iff.mp closed with ⟨others, shape⟩
      rw [readMembers, shape] at read
      cases read

theorem denotes_object (ahead : Blanks front) (inside : DenotesMembers text members) :
    Denotes (123 :: (front ++ (text ++ [125]))) (.object members) := by
  intro fuel tail enough _
  rcases Nat.exists_eq_add_of_lt enough with ⟨spare, rfl⟩
  have read := inside ((123 :: (front ++ (text ++ [125]))).length + spare) tail (by
    simp only [List.length_append, List.length_cons, List.length_nil]
    omega)
  rw [List.cons_append, List.append_assoc, List.append_assoc, List.singleton_append, readValue_openObject,
    skipBlanks_append ahead, if_neg (readMembers_notClosed read), readMembers_blanks ahead, read]
  rfl

/-- A text that denotes a value is one. -/
theorem Denotes.parse (denotes : Denotes text value) : parse rfc8259 text = some value := by
  have read := denotes (text.length + 1) [] (Nat.lt_succ_self _) (fun _ first => absurd first (by simp))
  rw [List.append_nil] at read
  rw [Json.parse, read]
  exact if_pos (Or.inr rfl)

end Json
end Library
