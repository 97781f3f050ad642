import AdbBridge.Cjson.Parser
import AdbBridge.Library.JsonText

namespace AdbBridge
namespace Cjson

open Library Library.Numeral Library.Checked Library.Json

/-!
# The two passes of `parse_string`

The first pass looks for the closing quote and reserves a byte for every character or
escape it passes; the second pass decodes.  A `\u` without four digits is taken for six
characters by the second pass only, so that the passes need not agree on where an escape
begins.  The memory is large enough nevertheless.

Where the text is a string of the grammar the passes agree, and what is stored is what
the string denotes.
-/

/-! ## Escapes of code points -/

theorem hexDigitOf_eq (byte : UInt8) :
    hexDigitOf byte = if isHexDigit byte = true then some (digitValue byte) else none := by
  have bounds : byte.toNat < 256 := byte.toNat_lt
  rw [hexDigitOf]
  simp only [isHexDigit, digitValue, UInt8.le_iff_toNat_le, Bool.or_eq_true, Bool.and_eq_true,
    decide_eq_true_eq, UInt8.reduceToNat]
  split_ifs <;> first | omega | rfl | exact congrArg some (by omega)

section Digits

variable {content rest : List UInt8} {input : Nat} {byte : UInt8}

theorem parseHexDigits_digit (found : content.drop input = byte :: rest) (isDigit : isHexDigit byte = true)
    (count value : Nat) :
    parseHexDigits content (count + 1) input value = parseHexDigits content count (input + 1)
      (if 0 < count then (value + digitValue byte) <<< 4 else value + digitValue byte) := by
  rw [parseHexDigits, read_of_drop found, ok_bind, hexDigitOf_eq, if_pos isDigit]

theorem parseHexDigits_stop (found : content.drop input = byte :: rest) (noDigit : ¬ isHexDigit byte = true)
    (count value : Nat) : parseHexDigits content (count + 1) input value = .ok 0 := by
  rw [parseHexDigits, read_of_drop found, ok_bind, hexDigitOf_eq, if_neg noDigit]
  rfl

theorem drop_succ (found : content.drop input = byte :: rest) : content.drop (input + 1) = rest := by
  rw [← List.drop_drop, found, List.drop_one, List.tail_cons]

/-- `parse_hex4` of four characters. -/
theorem parseHex4_eq (rest : List UInt8) {first second third fourth : UInt8}
    (found : content.drop input = first :: second :: third :: fourth :: rest) :
    parseHex4 content input = .ok (if [first, second, third, fourth].all isHexDigit = true then
      digitsValue 16 [first, second, third, fourth] else 0) := by
  have foundSecond := drop_succ found
  have foundThird := drop_succ foundSecond
  have foundFourth := drop_succ foundThird
  rw [parseHex4]
  by_cases firstDigit : isHexDigit first = true
  · rw [parseHexDigits_digit found firstDigit]
    by_cases secondDigit : isHexDigit second = true
    · rw [parseHexDigits_digit foundSecond secondDigit]
      by_cases thirdDigit : isHexDigit third = true
      · rw [parseHexDigits_digit foundThird thirdDigit]
        by_cases fourthDigit : isHexDigit fourth = true
        · have all : [first, second, third, fourth].all isHexDigit = true := by
            simp [firstDigit, secondDigit, thirdDigit, fourthDigit]
          rw [parseHexDigits_digit foundFourth fourthDigit, if_pos all, parseHexDigits]
          simp [digitsValue, Nat.shiftLeft_eq]
          rfl
        · rw [parseHexDigits_stop foundFourth fourthDigit]
          simp [fourthDigit]
      · rw [parseHexDigits_stop foundThird thirdDigit]
        simp [thirdDigit]
    · rw [parseHexDigits_stop foundSecond secondDigit]
      simp [secondDigit]
  · rw [parseHexDigits_stop found firstDigit]
    simp [firstDigit]

end Digits

/-- Four hexadecimal digits denote less than `0x10000`. -/
theorem digitsValue_four_lt {first second third fourth : UInt8}
    (all : [first, second, third, fourth].all isHexDigit = true) :
    digitsValue 16 [first, second, third, fourth] < 65536 := by
  simp only [List.all_cons, List.all_nil, Bool.and_true, Bool.and_eq_true] at all
  have one := digitValue_lt all.1
  have two := digitValue_lt all.2.1
  have three := digitValue_lt all.2.2.1
  have four := digitValue_lt all.2.2.2
  simp only [digitsValue, List.foldl_cons, List.foldl_nil]
  omega

/-- `parse_hex4` reads four characters and yields a UTF-16 unit. -/
theorem meets_parseHex4 {content : List UInt8} {input : Nat} (inside : input + 4 ≤ content.length) :
    Meets (parseHex4 content input) (fun value => value < 65536) := by
  have four : (content.drop input).length = content.length - input := List.length_drop
  rcases shape : content.drop input with _ | ⟨first, _ | ⟨second, _ | ⟨third, _ | ⟨fourth, rest⟩⟩⟩⟩
  case nil => rw [shape, List.length_nil] at four; omega
  case cons.nil => rw [shape, List.length_singleton] at four; omega
  case cons.cons.nil => rw [shape] at four; simp at four; omega
  case cons.cons.cons.nil => rw [shape] at four; simp at four; omega
  rw [parseHex4_eq _ shape]
  apply meets_ok
  by_cases all : [first, second, third, fourth].all isHexDigit = true
  · rw [if_pos all]
    exact digitsValue_four_lt all
  · rw [if_neg all]
    decide

theorem continuationByte_eq (codepoint : Nat) :
    continuationByte codepoint = UInt8.ofNat (codepoint % 64 + 128) := by
  have small : forall value, value < 256 ->
      (UInt8.ofNat value ||| 0x80) &&& 0xBF = UInt8.ofNat (value % 64 + 128) := by decide +kernel
  have low : codepoint % 256 % 64 = codepoint % 64 := Nat.mod_mod_of_dvd codepoint ⟨4, rfl⟩
  have byte : UInt8.ofNat codepoint = UInt8.ofNat (codepoint % 256) := by
    apply UInt8.toNat_inj.mp
    rw [UInt8.toNat_ofNat', UInt8.toNat_ofNat', Nat.mod_mod]
  have reduced := small (codepoint % 256) (Nat.mod_lt _ (by decide))
  rw [low, ← byte] at reduced
  rw [continuationByte, UInt8.ofNat_and, UInt8.ofNat_or]
  exact reduced

theorem encodeSequence_one (codepoint : Nat) :
    encodeSequence 1 0 codepoint = [UInt8.ofNat (codepoint &&& 0x7F)] := rfl

theorem encodeSequence_two (codepoint : Nat) : encodeSequence 2 0xC0 codepoint =
    [UInt8.ofNat ((codepoint / 64 ||| 0xC0) &&& 0xFF), UInt8.ofNat (codepoint % 64 + 128)] := by
  rw [← continuationByte_eq, ← Nat.shiftRight_eq_div_pow codepoint 6]
  rfl

theorem encodeSequence_three (codepoint : Nat) : encodeSequence 3 0xE0 codepoint =
    [UInt8.ofNat ((codepoint / 4096 ||| 0xE0) &&& 0xFF), UInt8.ofNat (codepoint / 64 % 64 + 128),
      UInt8.ofNat (codepoint % 64 + 128)] := by
  rw [← continuationByte_eq, ← continuationByte_eq, ← Nat.shiftRight_eq_div_pow codepoint 6,
    ← Nat.shiftRight_eq_div_pow codepoint 12, Nat.shiftRight_add codepoint 6 6]
  rfl

theorem encodeSequence_four (codepoint : Nat) : encodeSequence 4 0xF0 codepoint =
    [UInt8.ofNat ((codepoint / 262144 ||| 0xF0) &&& 0xFF), UInt8.ofNat (codepoint / 4096 % 64 + 128),
      UInt8.ofNat (codepoint / 64 % 64 + 128), UInt8.ofNat (codepoint % 64 + 128)] := by
  rw [← continuationByte_eq, ← continuationByte_eq, ← continuationByte_eq,
    ← Nat.shiftRight_eq_div_pow codepoint 6, ← Nat.shiftRight_eq_div_pow codepoint 12,
    ← Nat.shiftRight_eq_div_pow codepoint 18, Nat.shiftRight_add codepoint 12 6,
    Nat.shiftRight_add codepoint 6 6]
  rfl

/-- A Unicode scalar value is encoded in UTF-8. -/
theorem encodeCodepoint_eq {codepoint : Nat} (isScalar : Nat.isValidChar codepoint) :
    encodeCodepoint codepoint = .ok (utf8 codepoint) := by
  have value : (Char.ofNat codepoint).val.toNat = codepoint := by
    rw [Char.ofNat, dif_pos isScalar]
    rfl
  have limit : codepoint < 0x110000 := by
    rcases isScalar with low | high
    · omega
    · exact high.2
  have two : forall lead, lead < 32 -> UInt8.ofNat ((lead ||| 0xC0) &&& 0xFF) =
    UInt8.ofNat (lead % 32 + 192) := by
    decide
  have three : forall lead, lead < 16 -> UInt8.ofNat ((lead ||| 0xE0) &&& 0xFF) =
    UInt8.ofNat (lead % 16 + 224) := by
    decide
  have four : forall lead, lead < 8 -> UInt8.ofNat ((lead ||| 0xF0) &&& 0xFF) =
    UInt8.ofNat (lead % 8 + 240) := by
    decide
  have one : forall lead, lead < 128 -> UInt8.ofNat (lead &&& 0x7F) = UInt8.ofNat lead := by
    decide
  rw [encodeCodepoint, utf8, String.utf8EncodeChar, value]
  by_cases ascii : codepoint < 0x80
  · rw [if_pos ascii, if_pos (Nat.le_of_lt_succ ascii), encodeSequence_one, one _ ascii]
    rfl
  · rw [if_neg ascii, if_neg (show ¬ codepoint ≤ 0x7F by omega)]
    by_cases double : codepoint < 0x800
    · rw [if_pos double, if_pos (Nat.le_of_lt_succ double), encodeSequence_two, two _ (by omega)]
      rfl
    · rw [if_neg double, if_neg (show ¬ codepoint ≤ 0x7FF by omega)]
      by_cases triple : codepoint < 0x10000
      · rw [if_pos triple, if_pos (Nat.le_of_lt_succ triple), encodeSequence_three, three _ (by omega)]
        rfl
      · rw [if_neg triple, if_neg (show ¬ codepoint ≤ 0xFFFF by omega), if_pos (Nat.le_of_lt_succ limit),
          encodeSequence_four,
          four _ (by omega)]
        rfl

theorem length_encodeContinuations (count codepoint : Nat) (encoded : List UInt8) :
    (encodeContinuations count codepoint encoded).2.length = count + encoded.length := by
  induction count generalizing codepoint encoded with
  | zero => exact (Nat.zero_add _).symm
  | succ count inductionHypothesis =>
      rw [encodeContinuations, inductionHypothesis, List.length_cons]
      omega

/-- A code point below `0x10000` takes three bytes at most, and any other four. -/
theorem meets_encodeCodepoint (codepoint : Nat) :
    Meets (encodeCodepoint codepoint) (fun encoded =>
      encoded.length ≤ 4 ∧ (codepoint < 0x10000 -> encoded.length ≤ 3)) := by
  have length : forall utf8Length mark, 0 < utf8Length ->
      (encodeSequence utf8Length mark codepoint).length = utf8Length := by
    intro utf8Length mark positive
    rw [encodeSequence, List.length_cons, length_encodeContinuations, List.length_nil]
    omega
  rw [encodeCodepoint]
  split_ifs
  · exact meets_ok ⟨by rw [length _ _ (by decide)]; decide, fun _ => by rw [length _ _ (by decide)]; decide⟩
  · exact meets_ok ⟨by rw [length _ _ (by decide)]; decide, fun _ => by rw [length _ _ (by decide)]; decide⟩
  · exact meets_ok ⟨by rw [length _ _ (by decide)]; decide, fun _ => by rw [length _ _ (by decide)]⟩
  · exact meets_ok ⟨by rw [length _ _ (by decide)], fun small => by omega⟩
  · exact meets_refused

/-- A literal of six characters is written as three bytes at most, and one of twelve as
four; both end in front of the closing quote. -/
theorem meets_utf16LiteralToUtf8 {content : List UInt8} {inputPointer inputEnd : Nat}
    (inside : inputEnd < content.length) :
    Meets (utf16LiteralToUtf8 content inputPointer inputEnd) (fun escape =>
      inputPointer + escape.1 ≤ inputEnd ∧
        (escape.1 = 6 ∧ escape.2.length ≤ 3 ∨ escape.1 = 12 ∧ escape.2.length ≤ 4)) := by
  rw [utf16LiteralToUtf8]
  apply meets_refuseIf
  intro sixLeft
  apply (meets_parseHex4 (by omega)).bind
  intro firstCode unit
  apply meets_refuseIf
  intro notLow
  by_cases high : 0xD800 ≤ firstCode ∧ firstCode ≤ 0xDBFF
  · rw [if_pos high]
    apply meets_refuseIf
    intro twelveLeft
    rw [read_of_lt (show inputPointer + 6 < content.length by omega), ok_bind]
    apply meets_refuseIf
    intro isBackslash
    rw [read_of_lt (show inputPointer + 6 + 1 < content.length by omega), ok_bind]
    apply meets_refuseIf
    intro isLetter
    apply (meets_parseHex4 (by omega)).bind
    intro secondCode _
    apply meets_refuseIf
    intro isLow
    apply (meets_encodeCodepoint _).bind
    intro encoded bound
    exact meets_ok ⟨by omega, Or.inr ⟨rfl, bound.1⟩⟩
  · rw [if_neg high]
    apply (meets_encodeCodepoint _).bind
    intro encoded bound
    exact meets_ok ⟨by omega, Or.inl ⟨rfl, bound.2 unit⟩⟩

/-! ## The first pass -/

/-- The first pass goes from `start` to the closing quote at `stop` in `count` steps. -/
inductive Passes (content : List UInt8) : Nat -> Nat -> Nat -> Prop where
  | stop {start : Nat} (quote : content[start]? = some 34) : Passes content start start 0
  | plain {start stop count : Nat} {byte : UInt8} (found : content[start]? = some byte)
      (notQuote : byte ≠ 34) (notEscape : byte ≠ 92) (later : Passes content (start + 1) stop count) :
      Passes content start stop (count + 1)
  | escape {start stop count : Nat} (found : content[start]? = some 92)
      (later : Passes content (start + 2) stop count) : Passes content start stop (count + 1)

variable {content : List UInt8} {start stop count : Nat}

theorem Passes.bounds (passes : Passes content start stop count) :
    start ≤ stop ∧ content[stop]? = some 34 ∧ stop < content.length := by
  induction passes with
  | stop quote => exact ⟨Nat.le_refl _, quote, (List.getElem?_eq_some_iff.mp quote).1⟩
  | plain _ _ _ _ inductionHypothesis =>
      exact ⟨Nat.le_trans (Nat.le_succ _) inductionHypothesis.1, inductionHypothesis.2⟩
  | escape _ _ inductionHypothesis =>
      exact ⟨Nat.le_trans (Nat.le_add_right _ 2) inductionHypothesis.1, inductionHypothesis.2⟩

theorem Passes.count_le (passes : Passes content start stop count) : start + count ≤ stop := by
  induction passes with
  | stop => exact Nat.le_refl _
  | plain => omega
  | escape => omega

/-- The first pass stops at the closing quote; what it has skipped is the number of
characters without that of the steps. -/
theorem meets_findStringEnd (fuel start skipped : Nat) (inside : start ≤ content.length)
    (enough : content.length < start + fuel) :
    Meets (findStringEnd content fuel start skipped) (fun found => Exists fun count =>
      Passes content start found.1 count ∧ found.1 + skipped = start + count + found.2) := by
  induction fuel generalizing start skipped with
  | zero => exact absurd enough (by omega)
  | succ fuel inductionHypothesis =>
      rw [findStringEnd]
      cases found : content[start]? with
      | none => exact meets_refused
      | some byte =>
          have here : start < content.length := (List.getElem?_eq_some_iff.mp found).1
          by_cases quote : byte = 34
          · rw [quote] at found ⊢
            exact meets_ok ⟨0, .stop found, rfl⟩
          · dsimp only
            rw [if_neg quote]
            by_cases escape : byte = 92
            · rw [if_pos escape]
              rw [escape] at found
              by_cases last : content.length ≤ start + 1
              · rw [if_pos last]
                exact meets_refused
              · rw [if_neg last]
                apply (inductionHypothesis (start + 2) (skipped + 1) (by omega) (by omega)).mono
                rintro ⟨stop, passed⟩ ⟨count, later, sum⟩
                exact ⟨count + 1, .escape found later, by dsimp only at sum ⊢; omega⟩
            · rw [if_neg escape]
              apply (inductionHypothesis (start + 1) skipped (by omega) (by omega)).mono
              rintro ⟨stop, passed⟩ ⟨count, later, sum⟩
              exact ⟨count + 1, .plain found quote escape later, by dsimp only at sum ⊢; omega⟩

/-! ## The second pass -/

/-- A budget of bytes for the second pass at `start`: where the first pass began a step it
is the number of the steps left, behind a backslash that it skipped there is a byte more, and
nothing is left behind the closing quote. -/
inductive Budget (content : List UInt8) (stop start : Nat) : Nat -> Prop where
  | step {count : Nat} (passes : Passes content start stop count) : Budget content stop start count
  | within {count : Nat} (passes : Passes content (start + 1) stop count) :
      Budget content stop start (count + 1)
  | behind (isBehind : start = stop + 1) : Budget content stop start 0

variable {budget : Nat}

theorem Budget.start_le (left : Budget content stop start budget) : start ≤ stop + 1 := by
  cases left with
  | step passes => exact Nat.le_succ_of_le passes.bounds.1
  | within passes => exact Nat.le_succ_of_le (Nat.le_of_succ_le passes.bounds.1)
  | behind isBehind => exact Nat.le_of_eq isBehind

/-- A character that is no backslash costs a byte. -/
theorem Budget.plain {byte : UInt8} (left : Budget content stop start budget) (before : start < stop)
    (found : content[start]? = some byte) (notEscape : byte ≠ 92) :
    Exists fun rest => Budget content stop (start + 1) rest ∧ rest + 1 = budget := by
  cases left with
  | step passes =>
      cases passes with
      | stop quote => exact absurd before (Nat.lt_irrefl _)
      | plain _ _ _ later => exact ⟨_, .step later, rfl⟩
      | escape escape _ =>
          rw [found] at escape
          exact absurd (Option.some.inj escape) notEscape
  | within passes => exact ⟨_, .step passes, rfl⟩
  | behind isBehind => omega

/-- Two characters in front of the closing quote cost at least one byte of the budget. -/
theorem Budget.two (left : Budget content stop start budget) (before : start + 2 ≤ stop) :
    Exists fun rest => Budget content stop (start + 2) rest ∧ rest + 1 ≤ budget := by
  have one : forall {from_ count : Nat}, Passes content from_ stop count -> from_ < stop ->
      Exists fun rest => Budget content stop (from_ + 1) rest ∧ rest ≤ count := by
    intro from_ count passes notEnd
    cases passes with
    | stop quote => exact absurd notEnd (Nat.lt_irrefl _)
    | plain _ _ _ later => exact ⟨_, .step later, Nat.le_succ _⟩
    | escape _ later => exact ⟨_, .within later, Nat.le_refl _⟩
  cases left with
  | step passes =>
      cases passes with
      | stop quote => omega
      | plain _ _ _ later =>
          rcases one later (by omega) with ⟨rest, more, bound⟩
          exact ⟨rest, more, Nat.succ_le_succ bound⟩
      | escape _ later => exact ⟨_, .step later, Nat.le_refl _⟩
  | within passes =>
      rcases one passes (by omega) with ⟨rest, more, bound⟩
      exact ⟨rest, more, Nat.succ_le_succ bound⟩
  | behind isBehind => omega

/-- Six characters cost at least three bytes of the budget. -/
theorem Budget.six (left : Budget content stop start budget) (before : start + 6 ≤ stop) :
    Exists fun rest => Budget content stop (start + 6) rest ∧ rest + 3 ≤ budget := by
  rcases left.two (by omega) with ⟨first, left, firstBound⟩
  rcases left.two (by omega) with ⟨second, left, secondBound⟩
  rcases left.two (by omega) with ⟨third, left, thirdBound⟩
  exact ⟨third, left, by omega⟩

/-- An escape of two characters costs at least one byte, also where the second one is the
closing quote. -/
theorem Budget.short (left : Budget content stop start budget) (before : start < stop)
    (found : content[start]? = some 92) :
    Exists fun rest => Budget content stop (start + 2) rest ∧ rest + 1 ≤ budget := by
  by_cases inside : start + 2 ≤ stop
  · exact left.two inside
  · cases left with
    | step passes =>
        cases passes with
        | stop quote => omega
        | plain here _ notEscape _ =>
            rw [found] at here
            exact absurd (Option.some.inj here).symm notEscape
        | escape _ later => exact absurd later.bounds.1 inside
    | within passes =>
        cases passes with
        | stop quote => exact ⟨0, .behind rfl, Nat.le_refl _⟩
        | plain _ _ _ later => exact absurd later.bounds.1 (by omega)
        | escape _ later => exact absurd later.bounds.1 (by omega)
    | behind isBehind => omega

/-- An escape is read inside the buffer, and what it is written as is paid for by the
characters it has. -/
theorem meets_unescapeSequence (left : Budget content stop start budget) (before : start < stop)
    (inside : stop < content.length) (found : content[start]? = some 92) :
    Meets (unescapeSequence content start stop) (fun escape => 0 < escape.1 ∧
      Exists fun rest => Budget content stop (start + escape.1) rest ∧
        rest + escape.2.length ≤ budget) := by
  rw [unescapeSequence, read_of_lt (show start + 1 < content.length by omega), ok_bind]
  have short : forall bytes : List UInt8, bytes.length = 1 ->
      Meets (.ok (2, bytes)) (fun escape : Nat × List UInt8 => 0 < escape.1 ∧
        Exists fun rest => Budget content stop (start + escape.1) rest ∧
          rest + escape.2.length ≤ budget) := by
    intro bytes single
    rcases left.short before found with ⟨rest, more, bound⟩
    exact meets_ok ⟨Nat.succ_pos _, rest, more, by rw [single]; exact bound⟩
  split_ifs
  · exact short [8] rfl
  · exact short [12] rfl
  · exact short [10] rfl
  · exact short [13] rfl
  · exact short [9] rfl
  · exact short [_] rfl
  · apply (meets_utf16LiteralToUtf8 inside).mono
    rintro ⟨length, encoded⟩ ⟨within, sizes⟩
    dsimp only at within sizes ⊢
    rcases sizes with ⟨rfl, three⟩ | ⟨rfl, four⟩
    · rcases left.six within with ⟨rest, more, bound⟩
      exact ⟨Nat.succ_pos _, rest, more, by omega⟩
    · rcases left.six (by omega) with ⟨middle, left, middleBound⟩
      rcases left.six (by omega) with ⟨rest, more, bound⟩
      exact ⟨Nat.succ_pos _, rest, more, by omega⟩
  · exact meets_refused

/-- The second pass stores as much as its budget allows, and no more. -/
theorem meets_unescapeString {size : Nat} (inside : stop < content.length) (fuel start budget : Nat)
    (output : List UInt8) (left : Budget content stop start budget)
    (room : output.length + budget < size) (enough : stop + 1 < start + fuel) :
    Meets (unescapeString content stop size fuel start output) (fun result => result.length < size) := by
  induction fuel generalizing start budget output with
  | zero => exact absurd left.start_le (by omega)
  | succ fuel inductionHypothesis =>
      rw [unescapeString]
      by_cases before : start < stop
      · rw [if_pos before, read_of_lt (show start < content.length by omega), ok_bind]
        have found : content[start]? = some (content.get ⟨start, by omega⟩) :=
          List.getElem?_eq_getElem (show start < content.length by omega)
        by_cases plain : content.get ⟨start, by omega⟩ ≠ 92
        · rw [if_pos plain]
          rcases left.plain before found plain with ⟨rest, more, cost⟩
          rw [emit, if_pos (by rw [List.length_singleton]; omega)]
          exact inductionHypothesis (start + 1) rest _ more
            (by rw [List.length_append, List.length_singleton]; omega) (by omega)
        · rw [if_neg plain]
          rw [not_not.mp plain] at found
          apply (meets_unescapeSequence left before inside found).bind
          rintro ⟨length, bytes⟩ ⟨positive, rest, more, cost⟩
          dsimp only at positive more cost ⊢
          rw [emit, if_pos (by omega)]
          exact inductionHypothesis (start + length) rest _ more
            (by rw [List.length_append]; omega) (by omega)
      · rw [if_neg before]
        exact meets_ok (by omega)

/-- `parse_string` keeps to the buffer and to the memory it has reserved, and stops
behind a closing quote. -/
theorem meets_parseString {buffer : ParseBuffer} (inside : buffer.offset < buffer.content.length) :
    Meets (parseString buffer) (fun string => string.2.content = buffer.content ∧
      string.2.depth = buffer.depth ∧ buffer.offset + 2 ≤ string.2.offset ∧
        string.2.offset ≤ buffer.content.length) := by
  rw [parseString, read_of_lt inside, ok_bind]
  apply meets_refuseIf
  intro isQuote
  apply (meets_findStringEnd _ _ _ (by omega) (by omega)).bind
  rintro ⟨stop, skipped⟩ ⟨count, passes, sum⟩
  have bounds := passes.bounds
  dsimp only at sum bounds ⊢
  apply (meets_unescapeString bounds.2.2 _ _ count [] (.step passes) (by
    rw [List.length_nil]
    omega) (by omega)).bind
  intro output fits
  rw [emit, if_pos (by
    rw [List.length_singleton]
    omega)]
  exact meets_ok ⟨rfl, rfl, Nat.succ_le_succ bounds.1, bounds.2.2⟩

/-! ## Strings of the grammar -/

section Complete

variable {dialect : Dialect} {text rest decoded tail : List UInt8} {size : Nat}

/-- The first pass finds what it goes to. -/
theorem findStringEnd_of_passes (passes : Passes content start stop count) (fuel skipped : Nat)
    (enough : stop < start + fuel) :
    findStringEnd content fuel start skipped = .ok (stop, skipped + (stop - start - count)) := by
  induction passes generalizing fuel skipped with
  | stop quote =>
      cases fuel with
      | zero => exact absurd enough (Nat.lt_irrefl _)
      | succ fuel =>
          rw [findStringEnd, quote]
          simp only [if_true, Nat.sub_self, Nat.add_zero]
          rfl
  | @plain start stop count byte found notQuote notEscape later inductionHypothesis =>
      have bounds := later.bounds
      cases fuel with
      | zero => exact absurd enough (by omega)
      | succ fuel =>
          rw [findStringEnd, found]
          dsimp only
          rw [if_neg notQuote, if_neg notEscape, inductionHypothesis fuel skipped (by omega)]
          exact congrArg (fun passed => Except.ok (stop, skipped + passed)) (by omega)
  | @escape start stop count found later inductionHypothesis =>
      have bounds := later.bounds
      have bound := later.count_le
      cases fuel with
      | zero => exact absurd enough (by omega)
      | succ fuel =>
          rw [findStringEnd, found]
          dsimp only
          rw [if_neg (by decide), if_pos rfl, if_neg (by omega),
            inductionHypothesis fuel (skipped + 1) (by omega)]
          exact congrArg (fun passed => Except.ok (stop, passed)) (by omega)

theorem isHexDigit_ne {byte : UInt8} (isDigit : isHexDigit byte = true) : byte ≠ 34 ∧ byte ≠ 92 := by
  constructor
  · rintro rfl
    exact absurd isDigit (by decide)
  · rintro rfl
    exact absurd isDigit (by decide)

/-- The first pass steps over four hexadecimal digits one by one. -/
theorem Passes.digits {first second third fourth : UInt8}
    (all : [first, second, third, fourth].all isHexDigit = true)
    (found : content.drop start = first :: second :: third :: fourth :: rest)
    (later : Passes content (start + 4) stop count) : Passes content start stop (count + 4) := by
  simp only [List.all_cons, List.all_nil, Bool.and_true, Bool.and_eq_true] at all
  have here : forall {index : Nat} {byte : UInt8} {others : List UInt8},
      content.drop index = byte :: others -> content[index]? = some byte := by
    intro index byte others shape
    rw [← List.head?_drop, shape, List.head?_cons]
  have foundSecond := drop_succ found
  have foundThird := drop_succ foundSecond
  have foundFourth := drop_succ foundThird
  have one := isHexDigit_ne all.1
  have two := isHexDigit_ne all.2.1
  have three := isHexDigit_ne all.2.2.1
  have four := isHexDigit_ne all.2.2.2
  exact .plain (here found) one.1 one.2 (.plain (here foundSecond) two.1 two.2
    (.plain (here foundThird) three.1 three.2 (.plain (here foundFourth) four.1 four.2 later)))

/-- The pair of surrogates, as it is put together from ten bits of each. -/
theorem pair_eq {high low : Nat} (isHigh : 0xD800 ≤ high ∧ high < 0xDC00)
    (isLow : 0xDC00 ≤ low ∧ low < 0xE000) :
    0x10000 + (((high &&& 0x3FF) <<< 10) ||| (low &&& 0x3FF)) =
      0x10000 + (high - 0xD800) * 0x400 + (low - 0xDC00) := by
  have highBits : high &&& 0x3FF = high % 2 ^ 10 := Nat.and_two_pow_sub_one_eq_mod high 10
  have lowBits : low &&& 0x3FF = low % 2 ^ 10 := Nat.and_two_pow_sub_one_eq_mod low 10
  rw [highBits, lowBits, ← Nat.shiftLeft_add_eq_or_of_lt (Nat.mod_lt low (by decide)), Nat.shiftLeft_eq]
  omega

/-- An escape of two characters is decoded as the grammar has it. -/
theorem unescapeSequence_short {kind byte : UInt8} (notUnicode : kind ≠ 117)
    (means : unescape kind = some byte) (found : content.drop start = 92 :: kind :: rest) :
    unescapeSequence content start stop = .ok (2, [byte]) := by
  rw [unescapeSequence, read_of_drop (drop_succ found), ok_bind]
  unfold unescape at means
  split_ifs at means with same backspace formFeed newline carriage tab
  · have differs : kind ≠ 98 ∧ kind ≠ 102 ∧ kind ≠ 110 ∧ kind ≠ 114 ∧ kind ≠ 116 := by
      rcases same with rfl | rfl | rfl <;> decide
    rw [if_neg differs.1, if_neg differs.2.1, if_neg differs.2.2.1, if_neg differs.2.2.2.1,
      if_neg differs.2.2.2.2, if_pos same, Option.some.inj means]
    rfl
  all_goals
    cases Option.some.inj means
    simp [*]
    rfl

/-- An escape of a code point is passed and decoded as the grammar has it. -/
theorem unicode_complete {others : List UInt8} (read : readUnicode others = some (decoded, rest))
    (found : content.drop start = 92 :: 117 :: (others ++ tail)) :
    Exists fun length => Exists fun steps => decoded.length ≤ steps ∧ 0 < length ∧
      content.drop (start + length) = rest ++ tail ∧
      (forall {stop count : Nat}, Passes content (start + length) stop count ->
        Passes content start stop (count + steps) ∧
          unescapeSequence content start stop = .ok (length, decoded)) := by
  have short := (readUnicode_length read).1
  have here : content[start]? = some 92 := by rw [← List.head?_drop, found, List.head?_cons]
  have foundKind := drop_succ found
  have foundUnit := drop_succ foundKind
  rcases readUnicode_shape read with ⟨unit, middle, unitRead, shape⟩
  rcases readUnit_shape unitRead with ⟨first, second, third, fourth, split, digits, isUnit⟩
  rw [split] at foundUnit
  have unitValue := parseHex4_eq (middle ++ tail) foundUnit
  rw [if_pos digits, ← isUnit] at unitValue
  have foundMiddle : content.drop (start + 6) = middle ++ tail :=
    drop_succ (drop_succ (drop_succ (drop_succ foundUnit)))
  have toLiteral : forall stop, unescapeSequence content start stop =
    utf16LiteralToUtf8 content start stop := by
    intro stop
    rw [unescapeSequence, read_of_drop foundKind, ok_bind]
    rfl
  rcases shape with ⟨plain, isDecoded, isRest⟩ | ⟨isHigh, lowText, low, isMiddle, lowRead, isLow, isDecoded⟩
  · refine ⟨6, 5, by omega, by decide, by rw [foundMiddle, isRest], ?_⟩
    intro stop count later
    have bounds := later.bounds
    refine ⟨.escape here (Passes.digits digits foundUnit later), ?_⟩
    have isScalar : Nat.isValidChar unit := by
      have unitLt := digitsValue_four_lt digits
      rw [← isUnit] at unitLt
      rcases plain with low | high
      · exact Or.inl low
      · exact Or.inr ⟨by omega, by omega⟩
    rw [toLiteral, utf16LiteralToUtf8, refuseIf_bind_of_not (by omega), unitValue, ok_bind,
      refuseIf_bind_of_not (by omega), if_neg (by omega), encodeCodepoint_eq isScalar, ok_bind, isDecoded]
    rfl
  · rw [isMiddle] at foundMiddle
    have foundLetter := drop_succ foundMiddle
    have foundLow := drop_succ foundLetter
    rcases readUnit_shape lowRead with ⟨one, two, three, four, lowSplit, lowDigits, isLowUnit⟩
    rw [lowSplit] at foundLow
    have lowValue := parseHex4_eq (rest ++ tail) foundLow
    rw [if_pos lowDigits, ← isLowUnit] at lowValue
    have foundRest : content.drop (start + 12) = rest ++ tail :=
      drop_succ (drop_succ (drop_succ (drop_succ foundLow)))
    have second : content[start + 6]? = some 92 := by rw [← List.head?_drop, foundMiddle]; rfl
    refine ⟨12, 10, by omega, by decide, foundRest, ?_⟩
    intro stop count later
    have bounds := later.bounds
    refine ⟨.escape here (Passes.digits digits foundUnit (.escape second
      (Passes.digits lowDigits foundLow later))), ?_⟩
    have isScalar : Nat.isValidChar (0x10000 + (unit - 0xD800) * 0x400 + (low - 0xDC00)) :=
      Or.inr ⟨by omega, by omega⟩
    rw [toLiteral, utf16LiteralToUtf8, refuseIf_bind_of_not (by omega), unitValue, ok_bind,
      refuseIf_bind_of_not (by omega), if_pos (by omega)]
    dsimp only
    rw [refuseIf_bind_of_not (by omega), read_of_drop foundMiddle, ok_bind,
      refuseIf_bind_of_not (by decide), read_of_drop foundLetter, ok_bind,
      refuseIf_bind_of_not (by decide), lowValue, ok_bind, refuseIf_bind_of_not (by omega),
      pair_eq isHigh isLow, encodeCodepoint_eq isScalar, ok_bind, isDecoded]
    rfl

theorem unescapeString_plain {byte : UInt8} (found : content.drop start = byte :: rest) (notEscape : byte ≠ 92)
    (before : start < stop) (fuel : Nat) {output : List UInt8} (room : output.length + 1 ≤ size) :
    unescapeString content stop size (fuel + 1) start output =
      unescapeString content stop size fuel (start + 1) (output ++ [byte]) := by
  rw [unescapeString, if_pos before, read_of_drop found, ok_bind, if_pos notEscape, emit,
    if_pos (by rw [List.length_singleton]; exact room)]
  rfl

theorem unescapeString_escape {length : Nat} {bytes : List UInt8} (found : content.drop start = 92 :: rest)
    (before : start < stop) (escape : unescapeSequence content start stop = .ok (length, bytes))
    (fuel : Nat) {output : List UInt8} (room : output.length + bytes.length ≤ size) :
    unescapeString content stop size (fuel + 1) start output =
      unescapeString content stop size fuel (start + length) (output ++ bytes) := by
  rw [unescapeString, if_pos before, read_of_drop found, ok_bind, if_neg (not_not.mpr rfl), escape, ok_bind,
    emit, if_pos room]
  rfl

/-- Both passes agree on a string of the grammar: the first ends at its closing quote, and
the second stores what the string denotes. -/
theorem string_complete (read : readString dialect text = some (decoded, rest))
    (found : content.drop start = text ++ tail) :
    Exists fun stop => Exists fun count => Passes content start stop count ∧
      content.drop (stop + 1) = rest ++ tail ∧
      forall size fuel output, stop < start + fuel -> output.length + count < size ->
        unescapeString content stop size fuel start output = .ok (output ++ decoded) := by
  induction length : text.length using Nat.strong_induction_on generalizing text decoded start with
  | _ length inductionHypothesis =>
      subst length
      by_cases quote : text.head? = some 34
      · rcases List.head?_eq_some_iff.mp quote with ⟨others, shape⟩
        rw [shape, readString_quote] at read
        have same := Prod.mk.inj (Option.some.inj read)
        rw [shape] at found
        refine ⟨start, 0, .stop (by rw [← List.head?_drop, found]; rfl), ?_, ?_⟩
        · rw [same.2] at found
          exact drop_succ found
        · intro size fuel output enough room
          cases fuel with
          | zero => exact absurd enough (Nat.lt_irrefl _)
          | succ fuel =>
              rw [unescapeString, if_neg (Nat.lt_irrefl _), ← same.1, List.append_nil]
              rfl
      · rw [readString_char quote] at read
        rcases Option.bind_eq_some_iff.mp read with ⟨⟨first, others⟩, isChar, later⟩
        rcases Option.map_eq_some_iff.mp later with ⟨⟨string, final⟩, isString, same⟩
        have parts := Prod.mk.inj same
        dsimp only at isString parts
        rw [parts.2] at isString
        have shorter := readChar_length isChar
        rcases readChar_shape isChar with ⟨byte, notEscape, shape, isFirst⟩ |
          ⟨kind, byte, notUnicode, shape, means, isFirst⟩ | ⟨unicode, shape, isUnicode⟩
        · rw [shape, List.cons_append] at found
          have notQuote : byte ≠ 34 := by
            rintro rfl
            rw [shape] at quote
            exact quote List.head?_cons
          have here : content[start]? = some byte := by rw [← List.head?_drop, found, List.head?_cons]
          rcases inductionHypothesis _ shorter isString (drop_succ found) rfl with
            ⟨stop, count, passes, foundRest, decodes⟩
          have bounds := passes.bounds
          refine ⟨stop, count + 1, .plain here notQuote notEscape passes, foundRest, ?_⟩
          intro size fuel output enough room
          cases fuel with
          | zero => exact absurd enough (by omega)
          | succ fuel =>
              rw [unescapeString_plain found notEscape (by omega) fuel (by omega),
                decodes size fuel _ (by omega) (by rw [List.length_append, List.length_singleton]; omega),
                ← parts.1, isFirst, List.append_assoc]
        · rw [shape, List.cons_append, List.cons_append] at found
          have here : content[start]? = some 92 := by rw [← List.head?_drop, found, List.head?_cons]
          rcases inductionHypothesis _ shorter isString (drop_succ (drop_succ found)) rfl with
            ⟨stop, count, passes, foundRest, decodes⟩
          have bounds := passes.bounds
          refine ⟨stop, count + 1, .escape here passes, foundRest, ?_⟩
          intro size fuel output enough room
          cases fuel with
          | zero => exact absurd enough (by omega)
          | succ fuel =>
              rw [unescapeString_escape found (by omega) (unescapeSequence_short notUnicode means found) fuel
                  (by rw [List.length_singleton]; omega),
                decodes size fuel _ (by omega) (by rw [List.length_append, List.length_singleton]; omega),
                ← parts.1, isFirst, List.append_assoc]
        · rw [shape, List.cons_append, List.cons_append] at found
          rcases unicode_complete isUnicode found with ⟨length, steps, cost, positive, foundOthers, whole⟩
          rcases inductionHypothesis _ shorter isString foundOthers rfl with
            ⟨stop, count, passes, foundRest, decodes⟩
          have bounds := passes.bounds
          refine ⟨stop, count + steps, (whole passes).1, foundRest, ?_⟩
          intro size fuel output enough room
          cases fuel with
          | zero => exact absurd enough (by omega)
          | succ fuel =>
              rw [unescapeString_escape found (by omega) (whole passes).2 fuel (by omega),
                decodes size fuel _ (by omega) (by rw [List.length_append]; omega), ← parts.1,
                List.append_assoc]

/-- `parse_string` of a string of the grammar. -/
theorem parseString_complete {buffer : ParseBuffer} (read : readString dialect text = some (decoded, rest))
    (found : buffer.content.drop buffer.offset = 34 :: (text ++ tail)) :
    Exists fun behind => parseString buffer = .ok (decoded, behind) ∧
      behind.content = buffer.content ∧ behind.depth = buffer.depth ∧
      behind.content.drop behind.offset = rest ++ tail := by
  rcases string_complete read (drop_succ found) with ⟨stop, count, passes, foundRest, decodes⟩
  have bounds := passes.bounds
  have steps := passes.count_le
  refine ⟨{ buffer with offset := stop + 1 }, ?_, rfl, rfl, foundRest⟩
  rw [parseString, read_of_drop found, ok_bind, refuseIf_bind_of_not (by decide),
    findStringEnd_of_passes passes _ _ (by omega), ok_bind]
  dsimp only
  rw [decodes _ _ [] (by omega) (by rw [List.length_nil]; omega), ok_bind, List.nil_append]
  have stored : decoded.length < stop - buffer.offset - (0 + (stop - (buffer.offset + 1) - count)) + 1 :=
    (meets_unescapeString bounds.2.2 (buffer.content.length + 1) _ count [] (.step passes) (by
      rw [List.length_nil]
      omega) (by omega)).of_ok (decodes _ _ [] (by omega) (by rw [List.length_nil]; omega))
  rw [emit, if_pos (by rw [List.length_singleton]; exact stored)]
  rfl

end Complete

end Cjson
end AdbBridge
