import AdbBridge.Library.Numeral

namespace Library
namespace PercentCoding

open Numeral

/-!
# Percent and plus coding

A byte string is encoded byte by byte: a byte stands for itself, a space may be
written `+`, and any byte may be written `%` with two hexadecimal digits.  The
decoder works on a text of any origin: a `%` without two bytes behind it is
taken literally.  Cutting the encoded text short therefore does not only cut the
content short, it can also put the beginning of an escape into it; the last
result says when the content comes out complete all the same.
-/

/-! ## Encoded bytes -/

/-- One encoded byte.  Neither a separator, nor a space, nor NUL is written literally. -/
inductive Token where
  | literal (byte : UInt8)
      (plain : byte ≠ 37 ∧ byte ≠ 43 ∧ byte ≠ 38 ∧ byte ≠ 32 ∧ byte ≠ 0)
  | plus
  | escape (high low : UInt8) (highDigit : isHexDigit high = true) (lowDigit : isHexDigit low = true)

/-- The text of an encoded byte. -/
def Token.text : Token -> List UInt8
  | .literal byte _ => [byte]
  | .plus => [43]
  | .escape high low _ _ => [37, high, low]

/-- The byte that is encoded. -/
def Token.byte : Token -> UInt8
  | .literal byte _ => byte
  | .plus => 32
  | .escape high low _ _ => UInt8.ofNat (digitsValue 16 [high, low])

/-- An encoded text. -/
def render (tokens : List Token) : List UInt8 := tokens.flatMap Token.text

/-- The encoded content. -/
def content (tokens : List Token) : List UInt8 := tokens.map Token.byte

@[simp] theorem render_nil : render [] = [] := rfl

@[simp] theorem render_cons (token : Token) (rest : List Token) :
    render (token :: rest) = token.text ++ render rest := List.flatMap_cons

@[simp] theorem content_cons (token : Token) (rest : List Token) :
    content (token :: rest) = token.byte :: content rest := rfl

/-- A byte stored into a `char`. -/
def toChar (value : Int) : UInt8 := UInt8.ofNat (value % 256).toNat

/-- The decoder, with the room left in its buffer. -/
def percentDecode : Nat -> List UInt8 -> List UInt8
  | 0, _ => []
  | _ + 1, [] => []
  | room + 1, 37 :: high :: low :: rest => toChar (strtol 16 [high, low]) :: percentDecode room rest
  | room + 1, 43 :: rest => 32 :: percentDecode room rest
  | room + 1, byte :: rest => byte :: percentDecode room rest

/-! ## Decoding whole tokens -/

theorem isHexDigit_ne {byte : UInt8} (digit : isHexDigit byte = true) :
    byte ≠ 37 ∧ byte ≠ 43 ∧ byte ≠ 38 ∧ byte ≠ 32 ∧ byte ≠ 0 := by
  refine ⟨?_, ?_, ?_, ?_, ?_⟩ <;> (rintro rfl; exact absurd digit (by decide))

theorem digitsValue_two (high low : UInt8) :
    digitsValue 16 [high, low] = digitValue high * 16 + digitValue low := by
  rw [digitsValue_cons, digitsValue_cons]
  simp [digitsValue]

theorem toChar_strtol {high low : UInt8} (highDigit : isHexDigit high = true)
    (lowDigit : isHexDigit low = true) :
    toChar (strtol 16 [high, low]) = UInt8.ofNat (digitsValue 16 [high, low]) := by
  have highSmall := digitValue_lt highDigit
  have lowSmall := digitValue_lt lowDigit
  have value := digitsValue_two high low
  have read : strtol 16 ([high, low] ++ []) = digitsValue 16 [high, low] := by
    apply strtol_hexDigits (by simp)
    · intro byte member
      rcases List.mem_cons.mp member with same | later
      · exact same ▸ highDigit
      · exact List.mem_singleton.mp later ▸ lowDigit
    · nofun
    · rw [value]
      have bound : longMax = 9223372036854775807 := rfl
      omega
  rw [List.append_nil] at read
  rw [toChar, read, show ((digitsValue 16 [high, low] : Int) % 256).toNat = digitsValue 16 [high, low] by omega]

/-- A byte that is neither `%` nor `+` stands for itself. -/
theorem percentDecode_plain (room : Nat) {byte : UInt8} (rest : List UInt8) (notPercent : byte ≠ 37)
    (notPlus : byte ≠ 43) : percentDecode (room + 1) (byte :: rest) = byte :: percentDecode room rest := by
  rw [percentDecode]
  · exact fun _ _ _ same _ => notPercent same
  · exact notPlus

/-- A `%` without two bytes behind it stands for itself. -/
theorem percentDecode_percent (room : Nat) {rest : List UInt8} (short : rest.length < 2) :
    percentDecode (room + 1) (37 :: rest) = 37 :: percentDecode room rest := by
  rw [percentDecode]
  · rintro high low tail _ rfl
    exact absurd short (by simp)
  · decide

/-- A token is decoded to its byte. -/
theorem percentDecode_token (room : Nat) (token : Token) (rest : List UInt8) :
    percentDecode (room + 1) (token.text ++ rest) = token.byte :: percentDecode room rest := by
  cases token with
  | literal byte plain =>
      exact percentDecode_plain room rest plain.1 plain.2.1
  | plus => rfl
  | escape high low highDigit lowDigit =>
      simp only [Token.text, List.cons_append, List.nil_append, percentDecode, Token.byte]
      rw [toChar_strtol highDigit lowDigit]

/-- A text encodes bytes: each stands for itself, is escaped, or is a space written `+`. -/
inductive Encodes : List UInt8 -> List UInt8 -> Prop where
  | nil : Encodes [] []
  | literal {byte : UInt8} {bytes text : List UInt8} (plain : byte ≠ 37 ∧ byte ≠ 43 ∧ byte ≠ 38)
      (rest : Encodes bytes text) : Encodes (byte :: bytes) (byte :: text)
  | plus {bytes text : List UInt8} (rest : Encodes bytes text) : Encodes (32 :: bytes) (43 :: text)
  | escape {high low : UInt8} {bytes text : List UInt8} (highDigit : isHexDigit high = true)
      (lowDigit : isHexDigit low = true) (rest : Encodes bytes text) :
      Encodes (UInt8.ofNat (digitsValue 16 [high, low]) :: bytes) (37 :: high :: low :: text)

/-- Every encoding of some bytes is decoded to them, if there is room. -/
theorem Encodes.decode {bytes text : List UInt8} (encodes : Encodes bytes text) {room : Nat}
    (fits : bytes.length ≤ room) : percentDecode room text = bytes := by
  induction encodes generalizing room with
  | nil => cases room <;> rfl
  | literal plain rest inductionHypothesis =>
      cases room with
      | zero => exact absurd fits (Nat.not_succ_le_zero _)
      | succ room =>
          rw [percentDecode_plain room _ plain.1 plain.2.1,
            inductionHypothesis (Nat.le_of_succ_le_succ fits)]
  | plus rest inductionHypothesis =>
      cases room with
      | zero => exact absurd fits (Nat.not_succ_le_zero _)
      | succ room =>
          change 32 :: percentDecode room _ = _
          rw [inductionHypothesis (Nat.le_of_succ_le_succ fits)]
  | escape highDigit lowDigit rest inductionHypothesis =>
      cases room with
      | zero => exact absurd fits (Nat.not_succ_le_zero _)
      | succ room =>
          rw [percentDecode, toChar_strtol highDigit lowDigit,
            inductionHypothesis (Nat.le_of_succ_le_succ fits)]

/-- An encoding is at least as long as what it encodes. -/
theorem Encodes.length_le {bytes text : List UInt8} (encodes : Encodes bytes text) :
    bytes.length ≤ text.length := by
  induction encodes with
  | nil => exact Nat.le_refl _
  | literal plain rest inductionHypothesis => exact Nat.succ_le_succ inductionHypothesis
  | plus rest inductionHypothesis => exact Nat.succ_le_succ inductionHypothesis
  | escape highDigit lowDigit rest inductionHypothesis =>
      simp only [List.length_cons]
      omega

/-- Tokens encode their content. -/
theorem encodes_render (tokens : List Token) : Encodes (content tokens) (render tokens) := by
  induction tokens with
  | nil => exact .nil
  | cons token rest inductionHypothesis =>
      rw [content_cons, render_cons]
      cases token with
      | literal byte plain => exact .literal ⟨plain.1, plain.2.1, plain.2.2.1⟩ inductionHypothesis
      | plus => exact .plus inductionHypothesis
      | escape high low highDigit lowDigit => exact .escape highDigit lowDigit inductionHypothesis

/-- A whole encoded text is decoded to its content, if there is room for it. -/
theorem percentDecode_render {tokens : List Token} {room : Nat} (fits : tokens.length ≤ room) :
    percentDecode room (render tokens) = content tokens :=
  (encodes_render tokens).decode (by rw [content, List.length_map]; exact fits)

/-- Room for as many bytes as the text has is room for all that it encodes. -/
theorem percentDecode_of_room {text : List UInt8} {room : Nat} (fits : text.length ≤ room) :
    percentDecode room text = percentDecode text.length text := by
  have same : forall (first second : Nat) (text : List UInt8), text.length ≤ first -> text.length ≤ second ->
      percentDecode first text = percentDecode second text := by
    intro first second text
    fun_induction percentDecode first text generalizing second with
    | case1 text =>
        intro none _
        rw [List.length_eq_zero_iff.mp (Nat.le_zero.mp none)]
        cases second <;> rfl
    | case2 room =>
        intro _ _
        cases second <;> rfl
    | case3 room high low rest inductionHypothesis =>
        intro first other
        simp only [List.length_cons] at first other
        cases second with
        | zero => exact absurd other (Nat.not_succ_le_zero _)
        | succ second => rw [percentDecode, inductionHypothesis second (by omega) (by omega)]
    | case4 room rest inductionHypothesis =>
        intro first other
        simp only [List.length_cons] at first other
        cases second with
        | zero => exact absurd other (Nat.not_succ_le_zero _)
        | succ second => rw [percentDecode, inductionHypothesis second (by omega) (by omega)]
    | case5 room byte rest notEscape notPlus inductionHypothesis =>
        intro first other
        simp only [List.length_cons] at first other
        cases second with
        | zero => exact absurd other (Nat.not_succ_le_zero _)
        | succ second =>
            rw [percentDecode, inductionHypothesis second (by omega) (by omega)]
            · exact notEscape
            · exact notPlus
  exact same room text.length text fits (Nat.le_refl _)

theorem length_text_pos (token : Token) : 0 < token.text.length := by
  cases token <;> exact Nat.succ_pos _

theorem length_le_render (tokens : List Token) : tokens.length ≤ (render tokens).length := by
  induction tokens with
  | nil => exact Nat.le_refl _
  | cons token rest inductionHypothesis =>
      have positive := length_text_pos token
      rw [render_cons, List.length_append, List.length_cons]
      omega

/-! ## Decoding a cut text -/

/-- The text is cut within a final `%25`, after its `%`, or after its `%2` with one
encoded `2` to come: the remainder taken literally is what it encodes. -/
def LuckyCut (text : List UInt8) (cut : Nat) : Prop :=
  Exists fun before =>
    (cut = before + 1 ∧ text.drop before = ascii "%25") ∨
      (cut = before + 2 ∧ (text.drop before = ascii "%252" ∨ text.drop before = ascii "%25%32"))

/-- A value whose two hexadecimal digits are decimal ones has no other digits. -/
theorem digits_of_value {high low : UInt8} (highDigit : isHexDigit high = true)
    (lowDigit : isHexDigit low = true) (first second : Nat) (firstSmall : first < 10)
    (secondSmall : second < 10)
    (value : UInt8.ofNat (digitsValue 16 [high, low]) = UInt8.ofNat (first * 16 + second)) :
    high.toNat = 48 + first ∧ low.toNat = 48 + second := by
  have exactly : forall (digit : UInt8) (number : Nat), isHexDigit digit = true -> number < 10 ->
      digitValue digit = number -> digit.toNat = 48 + number := by
    intro digit number isDigit small same
    simp only [isHexDigit, Bool.or_eq_true, Bool.and_eq_true, decide_eq_true_eq,
      UInt8.le_iff_toNat_le, UInt8.reduceToNat] at isDigit
    simp only [digitValue, UInt8.le_iff_toNat_le, UInt8.reduceToNat] at same
    split_ifs at same <;> omega
  have highSmall := digitValue_lt highDigit
  have lowSmall := digitValue_lt lowDigit
  have numbers := congrArg UInt8.toNat value
  rw [UInt8.toNat_ofNat', UInt8.toNat_ofNat', digitsValue_two, Nat.mod_eq_of_lt (by omega),
    Nat.mod_eq_of_lt (by omega)] at numbers
  exact ⟨exactly high first highDigit firstSmall (by omega),
    exactly low second lowDigit secondSmall (by omega)⟩

/-- Within the text of a token no `%` follows the first byte. -/
theorem percent_head {token : Token} {rest : List UInt8} {before : Nat} (positive : 0 < before)
    (within : before < token.text.length) :
    ((token.text ++ rest).drop before).head? ≠ some 37 := by
  cases token with
  | literal byte plain =>
      rw [Token.text, List.length_singleton] at within
      omega
  | plus =>
      rw [Token.text, List.length_singleton] at within
      omega
  | escape high low highDigit lowDigit =>
      have places : before = 1 ∨ before = 2 := by
        simp only [Token.text, List.length_cons, List.length_nil] at within
        omega
      rcases places with rfl | rfl
      · simpa [Token.text] using (isHexDigit_ne highDigit).1
      · simpa [Token.text] using (isHexDigit_ne lowDigit).1

/-- Only an escape begins with `%`. -/
theorem length_text_of_percent {token : Token} {rest : List UInt8}
    (percent : (token.text ++ rest).head? = some 37) : token.text.length = 3 := by
  cases token with
  | literal byte plain => exact absurd (by simpa [Token.text] using percent) plain.1
  | plus => exact absurd percent (by simp [Token.text])
  | escape high low highDigit lowDigit => rfl

/-- Only the empty content has an empty text. -/
theorem render_eq_nil_iff {tokens : List Token} : render tokens = [] ↔ content tokens = [] := by
  cases tokens with
  | nil => exact Iff.rfl
  | cons token rest =>
      have positive := length_text_pos token
      rw [render_cons, content_cons]
      constructor
      · intro empty
        rw [(List.append_eq_nil_iff.mp empty).1] at positive
        exact absurd positive (Nat.lt_irrefl 0)
      · nofun

/-- The only encodings of the text "2". -/
theorem content_eq_two {tokens : List Token} :
    content tokens = [50] ↔ render tokens = ascii "2" ∨ render tokens = ascii "%32" := by
  constructor
  · intro same
    cases tokens with
    | nil => exact absurd same nofun
    | cons token rest =>
        rw [content_cons] at same
        have parts := List.cons.inj same
        rw [render_cons, render_eq_nil_iff.mpr parts.2, List.append_nil]
        cases token with
        | literal byte plain =>
            have equal : byte = 50 := parts.1
            subst equal
            exact Or.inl rfl
        | plus => exact absurd parts.1 (by decide)
        | escape high low highDigit lowDigit =>
            have digits := digits_of_value highDigit lowDigit 3 2 (by decide) (by decide) parts.1
            have three : high = 51 := UInt8.toNat_inj.mp digits.1
            have two : low = 50 := UInt8.toNat_inj.mp digits.2
            subst three
            subst two
            exact Or.inr rfl
  · intro shapes
    have bound := length_le_render tokens
    have decoded : percentDecode 3 (render tokens) = content tokens := by
      apply percentDecode_render
      rcases shapes with same | same <;>
        (rw [same] at bound; exact Nat.le_trans bound (by decide))
    rw [← decoded]
    rcases shapes with same | same <;> (rw [same]; decide)

theorem luckyCut_append {token : Token} {rest : List UInt8} {cut : Nat}
    (beyond : token.text.length ≤ cut) :
    LuckyCut (token.text ++ rest) cut ↔ LuckyCut rest (cut - token.text.length) := by
  constructor
  · rintro ⟨before, shape⟩
    have percent : ((token.text ++ rest).drop before).head? = some 37 := by
      rcases shape with ⟨_, same⟩ | ⟨_, same | same⟩ <;> (rw [same]; rfl)
    have after : token.text.length ≤ before := by
      by_contra within
      have zero : before = 0 := by
        by_contra positive
        exact percent_head (Nat.pos_of_ne_zero positive) (Nat.lt_of_not_le within) percent
      subst zero
      have three := length_text_of_percent percent
      rcases shape with ⟨place, _⟩ | ⟨place, _⟩ <;> omega
    rw [List.drop_append, List.drop_eq_nil_of_le after, List.nil_append] at shape
    refine ⟨before - token.text.length, ?_⟩
    rcases shape with ⟨place, same⟩ | ⟨place, same⟩
    · exact Or.inl ⟨by omega, same⟩
    · exact Or.inr ⟨by omega, same⟩
  · rintro ⟨before, shape⟩
    refine ⟨token.text.length + before, ?_⟩
    rw [List.drop_append, List.drop_eq_nil_of_le (Nat.le_add_right _ _), List.nil_append,
      Nat.add_sub_cancel_left]
    rcases shape with ⟨place, same⟩ | ⟨place, same⟩
    · exact Or.inl ⟨by omega, same⟩
    · exact Or.inr ⟨by omega, same⟩

/-- A text cut within its first escape. -/
theorem percentDecode_take_escape {high low : UInt8} (highDigit : isHexDigit high = true)
    (lowDigit : isHexDigit low = true) (rest : List Token) {room cut : Nat} (within : cut < 3)
    (fits : cut ≤ room) :
    percentDecode room ((37 :: high :: low :: render rest).take cut) =
        UInt8.ofNat (digitsValue 16 [high, low]) :: content rest ↔
      LuckyCut (37 :: high :: low :: render rest) cut := by
  have lowNot := (isHexDigit_ne lowDigit).1
  have highNot := isHexDigit_ne highDigit
  have percent : UInt8.ofNat (digitsValue 16 [high, low]) = 37 ↔ high = 50 ∧ low = 53 := by
    constructor
    · intro value
      have digits := digits_of_value highDigit lowDigit 2 5 (by decide) (by decide) value
      exact ⟨UInt8.toNat_inj.mp digits.1, UInt8.toNat_inj.mp digits.2⟩
    · rintro ⟨rfl, rfl⟩
      rfl
  have places : cut = 0 ∨ cut = 1 ∨ cut = 2 := by omega
  rcases places with rfl | rfl | rfl
  · constructor
    · intro same
      cases room <;> exact absurd same nofun
    · rintro ⟨before, ⟨place, _⟩ | ⟨place, _⟩⟩ <;> omega
  · cases room with
    | zero => exact absurd fits (by decide)
    | succ room =>
        have decoded : percentDecode (room + 1) [37] = [37] := by
          rw [percentDecode_percent room (by decide)]
          cases room <;> rfl
        simp only [List.take_succ_cons, List.take_zero, decoded, List.cons.injEq]
        constructor
        · rintro ⟨value, empty⟩
          rcases percent.mp value.symm with ⟨rfl, rfl⟩
          exact ⟨0, Or.inl ⟨rfl, by rw [render_eq_nil_iff.mpr empty.symm]; rfl⟩⟩
        · rintro ⟨before, ⟨place, same⟩ | ⟨place, _⟩⟩
          · have zero : before = 0 := by omega
            subst zero
            have parts : high = 50 ∧ low = 53 ∧ render rest = [] := by
              simpa [ascii] using same
            exact ⟨(percent.mpr ⟨parts.1, parts.2.1⟩).symm, (render_eq_nil_iff.mp parts.2.2).symm⟩
          · omega
  · cases room with
    | zero => exact absurd fits (by decide)
    | succ room =>
        cases room with
        | zero => exact absurd fits (by decide)
        | succ room =>
            have decoded : percentDecode (room + 1 + 1) [37, high] = [37, high] := by
              rw [percentDecode_percent (room + 1) (show [high].length < 2 from Nat.lt_succ_self 1),
                percentDecode_plain room [] highNot.1 highNot.2.1]
              cases room <;> rfl
            simp only [List.take_succ_cons, List.take_zero, decoded, List.cons.injEq]
            constructor
            · rintro ⟨value, more⟩
              rcases percent.mp value.symm with ⟨rfl, rfl⟩
              refine ⟨0, Or.inr ⟨rfl, ?_⟩⟩
              rcases content_eq_two.mp more.symm with same | same
              · exact Or.inl (by rw [same]; rfl)
              · exact Or.inr (by rw [same]; rfl)
            · rintro ⟨before, ⟨place, same⟩ | ⟨place, same⟩⟩
              · have one : before = 1 := by omega
                subst one
                exact absurd (congrArg List.head? same) (by simpa [ascii] using highNot.1)
              · have zero : before = 0 := by omega
                subst zero
                have parts : (high = 50 ∧ low = 53) ∧ content rest = [50] := by
                  rcases same with same | same
                  · have split : high = 50 ∧ low = 53 ∧ render rest = ascii "2" := by
                      simpa [ascii] using same
                    exact ⟨⟨split.1, split.2.1⟩, content_eq_two.mpr (Or.inl split.2.2)⟩
                  · have split : high = 50 ∧ low = 53 ∧ render rest = ascii "%32" := by
                      simpa [ascii] using same
                    exact ⟨⟨split.1, split.2.1⟩, content_eq_two.mpr (Or.inr split.2.2)⟩
                exact ⟨(percent.mpr parts.1).symm, by rw [parts.2, parts.1.1]⟩

/-- An encoded text that is cut short is decoded to its whole content only by a lucky cut. -/
theorem percentDecode_take_eq_iff {tokens : List Token} {room cut : Nat}
    (short : cut < (render tokens).length) (fits : cut ≤ room) :
    percentDecode room ((render tokens).take cut) = content tokens ↔ LuckyCut (render tokens) cut := by
  induction tokens generalizing room cut with
  | nil => exact absurd short (Nat.not_lt_zero cut)
  | cons token rest inductionHypothesis =>
      by_cases whole : token.text.length ≤ cut
      · have positive := length_text_pos token
        cases room with
        | zero => omega
        | succ room =>
            have later : cut - token.text.length < (render rest).length := by
              rw [render_cons, List.length_append] at short
              omega
            rw [render_cons, luckyCut_append whole,
              ← inductionHypothesis later (show cut - token.text.length ≤ room by omega),
              List.take_append, List.take_of_length_le whole, percentDecode_token, content_cons,
              List.cons.injEq]
            exact and_iff_right rfl
      · cases token with
        | literal byte plain =>
            have none : cut = 0 := Nat.lt_one_iff.mp (Nat.lt_of_not_le whole)
            subst none
            constructor
            · intro same
              cases room <;> exact absurd same nofun
            · rintro ⟨before, ⟨place, _⟩ | ⟨place, _⟩⟩ <;> omega
        | plus =>
            have none : cut = 0 := Nat.lt_one_iff.mp (Nat.lt_of_not_le whole)
            subst none
            constructor
            · intro same
              cases room <;> exact absurd same nofun
            · rintro ⟨before, ⟨place, _⟩ | ⟨place, _⟩⟩ <;> omega
        | escape high low highDigit lowDigit =>
            exact percentDecode_take_escape highDigit lowDigit rest (Nat.lt_of_not_le whole) fits

/-- A text too short for an escape is copied, up to its `+`. -/
theorem mem_percentDecode_of_short {room : Nat} {text : List UInt8} (short : text.length < 3) {byte : UInt8}
    (member : byte ∈ percentDecode room text) : byte ∈ text ∨ byte = 32 := by
  induction text generalizing room with
  | nil => cases room <;> exact absurd member List.not_mem_nil
  | cons first rest inductionHypothesis =>
      have restShort : rest.length < 2 := Nat.lt_of_succ_lt_succ short
      cases room with
      | zero => exact absurd member List.not_mem_nil
      | succ room =>
          have shape : percentDecode (room + 1) (first :: rest) = first :: percentDecode room rest ∨
              percentDecode (room + 1) (first :: rest) = 32 :: percentDecode room rest := by
            by_cases percent : first = 37
            · subst percent
              exact Or.inl (percentDecode_percent room restShort)
            · by_cases plus : first = 43
              · subst plus
                exact Or.inr rfl
              · exact Or.inl (percentDecode_plain room rest percent plus)
          have later : byte ∈ percentDecode room rest -> byte ∈ first :: rest ∨ byte = 32 := by
            intro inRest
            rcases inductionHypothesis (Nat.lt_succ_of_lt restShort) inRest with kept | space
            · exact Or.inl (List.mem_cons_of_mem _ kept)
            · exact Or.inr space
          rcases shape with same | same
          · rw [same] at member
            rcases List.mem_cons.mp member with equal | inRest
            · exact Or.inl (equal ▸ List.mem_cons_self)
            · exact later inRest
          · rw [same] at member
            rcases List.mem_cons.mp member with equal | inRest
            · exact Or.inr equal
            · exact later inRest

/-- The text of a token holds no separator, no space and no NUL. -/
theorem mem_text_ne {token : Token} {byte : UInt8} (member : byte ∈ token.text) :
    byte ≠ 38 ∧ byte ≠ 32 ∧ byte ≠ 0 := by
  cases token with
  | literal byte' plain => exact List.mem_singleton.mp member ▸ plain.2.2
  | plus => exact List.mem_singleton.mp member ▸ by decide
  | escape high low highDigit lowDigit =>
      simp only [Token.text, List.mem_cons, List.not_mem_nil, or_false] at member
      rcases member with rfl | rfl | rfl
      · decide
      · exact (isHexDigit_ne highDigit).2.2
      · exact (isHexDigit_ne lowDigit).2.2

/-- No NUL is decoded from a cut text whose content has none. -/
theorem percentDecode_take_ne_zero {tokens : List Token} (room cut : Nat)
    (noZero : forall byte, byte ∈ content tokens -> byte ≠ 0) {byte : UInt8}
    (member : byte ∈ percentDecode room ((render tokens).take cut)) : byte ≠ 0 := by
  induction tokens generalizing room cut with
  | nil =>
      rw [render_nil, List.take_nil] at member
      cases room <;> exact absurd member List.not_mem_nil
  | cons token rest inductionHypothesis =>
      cases room with
      | zero => exact absurd member List.not_mem_nil
      | succ room =>
          by_cases whole : token.text.length ≤ cut
          · rw [render_cons, List.take_append, List.take_of_length_le whole, percentDecode_token] at member
            rcases List.mem_cons.mp member with same | inRest
            · exact same ▸ noZero token.byte List.mem_cons_self
            · exact inductionHypothesis room _
                (fun other listed => noZero other (List.mem_cons_of_mem _ listed)) inRest
          · have bound : token.text.length ≤ 3 := by cases token <;> simp [Token.text]
            rw [render_cons, List.take_append_of_le_length (by omega)] at member
            rcases mem_percentDecode_of_short (by rw [List.length_take]; omega) member with kept | space
            · exact (mem_text_ne (List.mem_of_mem_take kept)).2.2
            · rw [space]
              decide

/-- An encoded text holds no separator, no space and no NUL. -/
theorem mem_render_ne {tokens : List Token} {byte : UInt8} (member : byte ∈ render tokens) :
    byte ≠ 38 ∧ byte ≠ 32 ∧ byte ≠ 0 := by
  rcases List.mem_flatMap.mp member with ⟨token, _, inText⟩
  exact mem_text_ne inText

end PercentCoding
end Library
