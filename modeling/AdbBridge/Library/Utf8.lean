import Mathlib.Data.List.Basic

namespace Library
namespace Utf8

/-!
# UTF-8 texts

A text of characters is encoded character by character.  An ASCII character is one
byte, its code; any other character is at least two bytes, and none of them is the
code of an ASCII character.
-/

variable {char : Char} {text : List Char}

/-- The bytes of a text. -/
def encode (text : List Char) : List UInt8 := text.flatMap String.utf8EncodeChar

theorem encode_cons (char : Char) (text : List Char) :
    encode (char :: text) = String.utf8EncodeChar char ++ encode text := List.flatMap_cons

theorem encodeChar_ascii (isAscii : char.toNat < 128) :
    String.utf8EncodeChar char = [UInt8.ofNat char.toNat] := by
  have small : char.val.toNat ≤ 127 := Nat.le_of_lt_succ isAscii
  rw [String.utf8EncodeChar]
  exact if_pos small

/-- The character whose code is a byte. -/
theorem encodeChar_ofNat {byte : UInt8} (isAscii : byte < 128) :
    String.utf8EncodeChar (Char.ofNat byte.toNat) = [byte] := by
  have small : byte.toNat < 128 := UInt8.lt_iff_toNat_lt.mp isAscii
  have toNat : (Char.ofNat byte.toNat).toNat = byte.toNat := by
    rw [Char.ofNat, dif_pos (Or.inl (by omega))]
    rfl
  rw [encodeChar_ascii (by rw [toNat]; exact small), toNat, UInt8.ofNat_toNat]

theorem encodeChar_other (other : 128 ≤ char.toNat) : Exists fun lead => Exists fun next =>
    Exists fun rest => String.utf8EncodeChar char = lead :: next :: rest ∧
      forall byte, byte ∈ lead :: next :: rest -> 128 ≤ byte := by
  have notAscii : ¬ char.val.toNat ≤ 127 := Nat.not_le.mpr other
  have high : forall value : Nat, 128 ≤ value -> value < 256 -> 128 ≤ UInt8.ofNat value := by
    intro value low small
    rw [UInt8.le_iff_toNat_le, UInt8.toNat_ofNat', Nat.mod_eq_of_lt small]
    exact low
  rw [String.utf8EncodeChar]
  rw [if_neg notAscii]
  split
  · refine ⟨_, _, _, rfl, ?_⟩
    simp only [List.mem_cons, List.not_mem_nil, or_false]
    rintro byte (rfl | rfl) <;> exact high _ (by omega) (by omega)
  · split
    · refine ⟨_, _, _, rfl, ?_⟩
      simp only [List.mem_cons, List.not_mem_nil, or_false]
      rintro byte (rfl | rfl | rfl) <;> exact high _ (by omega) (by omega)
    · refine ⟨_, _, _, rfl, ?_⟩
      simp only [List.mem_cons, List.not_mem_nil, or_false]
      rintro byte (rfl | rfl | rfl | rfl) <;> exact high _ (by omega) (by omega)

theorem encode_ascii (isAscii : forall char, char ∈ text -> char.toNat < 128) :
    encode text = text.map (fun char => UInt8.ofNat char.toNat) := by
  induction text with
  | nil => rfl
  | cons char text inductionHypothesis =>
      rw [encode_cons, encodeChar_ascii (isAscii char List.mem_cons_self),
        inductionHypothesis (fun other member => isAscii other (List.mem_cons_of_mem char member))]
      rfl

/-- An ASCII character occurs in the bytes where it occurs in the text. -/
theorem mem_encode_of_ascii (isAscii : char.toNat < 128) (member : char ∈ text) :
    UInt8.ofNat char.toNat ∈ encode text :=
  List.mem_flatMap.mpr ⟨char, member, by rw [encodeChar_ascii isAscii]; exact List.mem_singleton_self _⟩

/-! ## Valid bytes -/

/-- The bytes of some text. -/
def Valid (bytes : List UInt8) : Prop := Exists fun text => encode text = bytes

variable {byte : UInt8} {before rest : List UInt8}

theorem valid_nil : Valid [] := ⟨[], rfl⟩

/-- An ASCII byte stands for itself, wherever it stands. -/
theorem valid_cons_ascii (isAscii : byte < 128) : Valid (byte :: rest) ↔ Valid rest := by
  constructor
  · rintro ⟨text, encoded⟩
    cases text with
    | nil => cases encoded
    | cons char text =>
        rw [encode_cons] at encoded
        by_cases single : char.toNat < 128
        · rw [encodeChar_ascii single] at encoded
          exact ⟨text, (List.cons.inj encoded).2⟩
        · rcases encodeChar_other (Nat.not_lt.mp single) with ⟨lead, next, more, shape, high⟩
          rw [shape] at encoded
          have isLead := (List.cons.inj encoded).1
          have large := high lead List.mem_cons_self
          rw [isLead] at large
          exact absurd isAscii (UInt8.not_lt.mpr large)
  · rintro ⟨text, encoded⟩
    refine ⟨Char.ofNat byte.toNat :: text, ?_⟩
    rw [encode_cons, encodeChar_ofNat isAscii, encoded]
    rfl

/-- ASCII bytes are valid. -/
theorem valid_of_ascii {bytes : List UInt8} (isAscii : forall byte, byte ∈ bytes ->
    byte < 128) : Valid bytes := by
  induction bytes with
  | nil => exact valid_nil
  | cons byte rest inductionHypothesis =>
      exact (valid_cons_ascii (isAscii byte List.mem_cons_self)).mpr
        (inductionHypothesis (fun other member => isAscii other (List.mem_cons_of_mem byte member)))

/-- At an ASCII byte valid bytes may be cut. -/
theorem valid_append_ascii (isAscii : byte < 128) :
    Valid (before ++ byte :: rest) ↔ Valid before ∧ Valid rest := by
  constructor
  · rintro ⟨text, encoded⟩
    induction text generalizing before with
    | nil => exact absurd encoded.symm (by simp [encode])
    | cons char text inductionHypothesis =>
        rw [encode_cons] at encoded
        rcases List.append_eq_append_iff.mp encoded with ⟨more, isBefore, later⟩ | ⟨more, isChar, later⟩
        · rcases inductionHypothesis later with ⟨⟨first, isFirst⟩, isRest⟩
          exact ⟨⟨char :: first, by rw [encode_cons, isFirst, isBefore]⟩, isRest⟩
        · cases more with
          | nil =>
              rw [List.append_nil] at isChar
              rw [List.nil_append] at later
              refine ⟨⟨[char], ?_⟩, (valid_cons_ascii isAscii).mp ⟨text, later.symm⟩⟩
              rw [encode_cons, isChar]
              exact List.append_nil _
          | cons first more =>
              have isByte : byte = first := (List.cons.inj later).1
              by_cases single : char.toNat < 128
              · rw [encodeChar_ascii single] at isChar
                have length := congrArg List.length isChar
                simp only [List.length_append, List.length_cons, List.length_nil] at length
                have noBefore : before = [] := List.length_eq_zero_iff.mp (by omega)
                have noMore : more = [] := List.length_eq_zero_iff.mp (by omega)
                rw [noBefore, (List.cons.inj later).2, noMore]
                exact ⟨valid_nil, text, rfl⟩
              · rcases encodeChar_other (Nat.not_lt.mp single) with ⟨lead, next, tail, shape, high⟩
                have large := high first (by
                  rw [← shape, isChar]
                  exact List.mem_append_right _ List.mem_cons_self)
                rw [← isByte] at large
                exact absurd isAscii (UInt8.not_lt.mpr large)
  · rintro ⟨⟨first, isFirst⟩, isRest⟩
    rcases (valid_cons_ascii isAscii).mpr isRest with ⟨second, isSecond⟩
    refine ⟨first ++ second, ?_⟩
    rw [encode, List.flatMap_append]
    change encode first ++ encode second = _
    rw [isFirst, isSecond]

end Utf8
end Library
