import AdbBridge.Library.Search

namespace Library

/-!
# Characters of a charset

A tool that works on characters cuts a text of bytes into the characters of its
charset.  A byte that begins none of them ends what it takes for text.
-/

/-- How many bytes the first character of a text takes: none where the first byte begins no
character.  ASCII is part of the charset, and of no longer character. -/
structure Charset where
  width : List UInt8 -> Nat
  within : forall text, width text ≤ text.length
  ofAscii : forall {byte : UInt8} (rest : List UInt8), byte < 128 -> width (byte :: rest) = 1
  ofLonger : forall {text : List UInt8}, 1 < width text ->
    forall byte, byte ∈ text.take (width text) -> 128 ≤ byte

namespace Charset

/-- The charset in which each byte is a character. -/
def bytewise : Charset where
  width text := min 1 text.length
  within text := Nat.min_le_right 1 text.length
  ofAscii rest _ := by
    rw [List.length_cons]
    omega
  ofLonger longer := by omega

/-! ## UTF-8 -/

/-- A byte inside a character. -/
def Continues (byte : UInt8) : Prop := 128 ≤ byte ∧ byte < 192

/-- The bytes of one character: neither in a longer form than needed, nor a surrogate, nor
behind the last code point. -/
def IsUtf8Char : List UInt8 -> Prop
  | [byte] => byte < 128
  | [lead, second] => (194 ≤ lead ∧ lead < 224) ∧ Continues second
  | [lead, second, third] =>
      (224 ≤ lead ∧ lead < 240) ∧ Continues second ∧ Continues third ∧
        (lead = 224 -> 160 ≤ second) ∧ (lead = 237 -> second < 160)
  | [lead, second, third, fourth] =>
      (240 ≤ lead ∧ lead < 245) ∧ Continues second ∧ Continues third ∧ Continues fourth ∧
        (lead = 240 -> 144 ≤ second) ∧ (lead = 244 -> second < 144)
  | _ => False

instance : DecidablePred Continues := fun byte => inferInstanceAs (Decidable (128 ≤ byte ∧ byte < 192))

instance : DecidablePred IsUtf8Char
  | [] => isFalse id
  | [_] => inferInstanceAs (Decidable (_ < _))
  | [_, _] => inferInstanceAs (Decidable (_ ∧ _))
  | [_, _, _] => inferInstanceAs (Decidable (_ ∧ _ ∧ _ ∧ _ ∧ _))
  | [_, _, _, _] => inferInstanceAs (Decidable (_ ∧ _ ∧ _ ∧ _ ∧ _ ∧ _))
  | _ :: _ :: _ :: _ :: _ :: _ => isFalse id

/-- No byte of a longer character is ASCII. -/
theorem le_of_isUtf8Char {bytes : List UInt8} (isChar : IsUtf8Char bytes) (longer : 1 < bytes.length) :
    forall byte, byte ∈ bytes -> 128 ≤ byte := by
  rw [IsUtf8Char.eq_def] at isChar
  split at isChar
  · exact absurd longer (Nat.lt_irrefl 1)
  · rcases isChar with ⟨lead, second⟩
    simp only [List.forall_mem_cons]
    exact ⟨UInt8.le_trans (by decide) lead.1, second.1, nofun⟩
  · rcases isChar with ⟨lead, second, third, _⟩
    simp only [List.forall_mem_cons]
    exact ⟨UInt8.le_trans (by decide) lead.1, second.1, third.1, nofun⟩
  · rcases isChar with ⟨lead, second, third, fourth, _⟩
    simp only [List.forall_mem_cons]
    exact ⟨UInt8.le_trans (by decide) lead.1, second.1, third.1, fourth.1, nofun⟩
  · exact absurd isChar id

/-- Whether a text begins with a character of the given length. -/
def beginsChar (text : List UInt8) (length : Nat) : Bool :=
  decide (length ≤ text.length ∧ IsUtf8Char (text.take length))

/-- The length of the character a text begins with. -/
def utf8Width (text : List UInt8) : Nat := (([1, 2, 3, 4] : List Nat).find? (beginsChar text)).getD 0

/-- The width is 0, or that of a character. -/
theorem utf8Width_spec (text : List UInt8) :
    utf8Width text = 0 ∨ utf8Width text ≤ text.length ∧ IsUtf8Char (text.take (utf8Width text)) := by
  rw [utf8Width]
  cases search : ([1, 2, 3, 4] : List Nat).find? (beginsChar text) with
  | none => exact Or.inl rfl
  | some length =>
      have begins : beginsChar text length = true := List.find?_some search
      exact Or.inr (of_decide_eq_true begins)

/-- The charset of UTF-8. -/
def utf8 : Charset where
  width := utf8Width
  within text := by
    rcases utf8Width_spec text with none | some
    · rw [none]
      exact Nat.zero_le _
    · exact some.1
  ofAscii {byte} rest isAscii := by
    have here : beginsChar (byte :: rest) 1 = true :=
      decide_eq_true ⟨Nat.succ_le_succ (Nat.zero_le _), isAscii⟩
    rw [utf8Width, List.find?_cons_of_pos here]
    rfl
  ofLonger {text} longer := by
    rcases utf8Width_spec text with none | some
    · rw [none] at longer
      exact absurd longer nofun
    · apply le_of_isUtf8Char some.2
      rw [List.length_take_of_le some.1]
      exact longer

/-! ## Runs of characters -/

variable (charset : Charset)

/-- The text up to the first byte that begins no character, and the rest.  The number counts
the bytes left of a character that has begun. -/
def spanFrom : Nat -> List UInt8 -> List UInt8 × List UInt8
  | _, [] => ([], [])
  | inside + 1, byte :: rest => (byte :: (spanFrom inside rest).1, (spanFrom inside rest).2)
  | 0, byte :: rest =>
      if charset.width (byte :: rest) = 0 then ([], byte :: rest)
      else
        (byte :: (spanFrom (charset.width (byte :: rest) - 1) rest).1,
          (spanFrom (charset.width (byte :: rest) - 1) rest).2)

/-- The characters a text begins with, and the rest. -/
def span (text : List UInt8) : List UInt8 × List UInt8 := charset.spanFrom 0 text

/-- The two parts make up the text. -/
theorem spanFrom_append (inside : Nat) (text : List UInt8) :
    (charset.spanFrom inside text).1 ++ (charset.spanFrom inside text).2 = text := by
  induction text generalizing inside with
  | nil => rfl
  | cons byte rest inductionHypothesis =>
      cases inside with
      | succ inside =>
          rw [spanFrom, List.cons_append, inductionHypothesis]
      | zero =>
          rw [spanFrom]
          split
          · rfl
          · rw [List.cons_append, inductionHypothesis]

theorem span_append (text : List UInt8) : (charset.span text).1 ++ (charset.span text).2 = text :=
  charset.spanFrom_append 0 text

/-- The byte that ends a run begins no character. -/
theorem width_of_spanFrom {inside : Nat} {text later : List UInt8} {byte : UInt8}
    (ends : (charset.spanFrom inside text).2 = byte :: later) : charset.width (byte :: later) = 0 := by
  induction text generalizing inside with
  | nil => exact absurd ends nofun
  | cons symbol rest inductionHypothesis =>
      cases inside with
      | succ inside => exact inductionHypothesis ends
      | zero =>
          rw [spanFrom] at ends
          split at ends
          case isTrue none =>
            rw [← ends]
            exact none
          case isFalse some => exact inductionHypothesis ends

/-- Such a byte is not ASCII. -/
theorem le_of_span {text later : List UInt8} {byte : UInt8}
    (ends : (charset.span text).2 = byte :: later) : 128 ≤ byte := by
  have none := charset.width_of_spanFrom ends
  apply UInt8.not_lt.mp
  intro isAscii
  rw [charset.ofAscii later isAscii] at none
  exact absurd none nofun

/-- ASCII text in front is part of the run. -/
theorem span_append_left {before : List UInt8} (isAscii : forall byte, byte ∈ before -> byte < 128)
    (text : List UInt8) :
    charset.span (before ++ text) = (before ++ (charset.span text).1, (charset.span text).2) := by
  induction before with
  | nil => rfl
  | cons byte before inductionHypothesis =>
      have one := charset.ofAscii (before ++ text) (isAscii byte List.mem_cons_self)
      have later := inductionHypothesis (fun other member => isAscii other (List.mem_cons_of_mem byte member))
      rw [span] at later
      rw [List.cons_append, span, spanFrom, one, if_neg Nat.one_ne_zero, Nat.sub_self, later]
      rfl

/-- ASCII text is one run. -/
theorem span_ascii {text : List UInt8} (isAscii : forall byte, byte ∈ text -> byte < 128) :
    charset.span text = (text, []) := by
  have whole := charset.span_append_left isAscii []
  have nothing : charset.span [] = ([], []) := rfl
  rw [nothing, List.append_nil] at whole
  exact whole

end Charset
end Library
