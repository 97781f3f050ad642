import AdbBridge.Cjson.Strings

namespace AdbBridge
namespace Cjson

open Library Library.Numeral Library.Checked

/-!
# The parser stays inside its buffer

Whatever the buffer holds, and whether or not a NUL ends it, the parser reads inside of
it and comes to an end: every level of nesting and every further element takes a
character.  What it accepts is nested no deeper than the limit, so that printing it
is not refused.
-/

variable {Double : Type} {doubles : Doubles Double}

mutual

/-- How deep arrays and objects are nested in an item. -/
def Item.nesting : Item Double -> Nat
  | .null => 0
  | .false => 0
  | .true => 0
  | .number _ _ => 0
  | .string _ => 0
  | .array child => nestingOfElements child + 1
  | .object child => nestingOfMembers child + 1

def nestingOfElements : List (Item Double) -> Nat
  | [] => 0
  | item :: next => max item.nesting (nestingOfElements next)

def nestingOfMembers : List (List UInt8 × Item Double) -> Nat
  | [] => 0
  | (_, item) :: next => max item.nesting (nestingOfMembers next)

end

/-! ## Single steps -/

section Steps

variable {buffer : ParseBuffer}

theorem canAccess_iff {index : Nat} :
    buffer.canAccess index = true ↔ buffer.offset + index < buffer.content.length := decide_eq_true_iff

theorem offset_lt_of_sees {byte : UInt8} (sees : buffer.sees byte = true) :
    buffer.offset < buffer.content.length :=
  (List.getElem?_eq_some_iff.mp (beq_iff_eq.mp sees)).1

theorem offset_le_of_seesText {text : List UInt8} (sees : buffer.seesText text = true) :
    text ≠ [] -> buffer.offset + text.length ≤ buffer.content.length := by
  intro nonempty
  have taken := congrArg List.length (beq_iff_eq.mp sees)
  rw [List.length_take, List.length_drop] at taken
  have positive := List.length_pos_iff.mpr nonempty
  omega

/-- Blanks are skipped forwards, and not beyond the buffer; in front of its end a character remains. -/
theorem skipWhitespace_bounds (inside : buffer.offset ≤ buffer.content.length) :
    buffer.skipWhitespace.content = buffer.content ∧ buffer.skipWhitespace.depth = buffer.depth ∧
      buffer.offset ≤ buffer.skipWhitespace.offset ∧
      buffer.skipWhitespace.offset ≤ buffer.content.length ∧
      (buffer.offset < buffer.content.length -> buffer.skipWhitespace.offset < buffer.content.length) := by
  rw [ParseBuffer.skipWhitespace]
  by_cases access : buffer.canAccess 0 = true
  · have here := canAccess_iff.mp access
    have blanks := (List.takeWhile_prefix (l := buffer.content.drop buffer.offset) (· ≤ 32)).length_le
    rw [List.length_drop] at blanks
    rw [if_pos access]
    refine ⟨rfl, rfl, ?_⟩
    dsimp only
    split_ifs <;> omega
  · rw [if_neg access]
    exact ⟨rfl, rfl, Nat.le_refl _, inside, id⟩

end Steps

/-! ## Values -/

/-- A part of the parser has moved on inside the buffer, at the same level. -/
structure MovedOn (before after : ParseBuffer) : Prop where
  content : after.content = before.content
  depth : after.depth = before.depth
  forward : before.offset < after.offset
  inside : after.offset ≤ before.content.length

/-- What is left of the buffer. -/
def ParseBuffer.left (buffer : ParseBuffer) : Nat := buffer.content.length - buffer.offset

theorem meets_parseNumber {buffer : ParseBuffer} (shallow : buffer.depth ≤ nestingLimit) :
    Meets (parseNumber doubles buffer) (fun result =>
      MovedOn buffer result.2 ∧ result.1.nesting + buffer.depth ≤ nestingLimit) := by
  have leaf : 0 + buffer.depth ≤ nestingLimit := by omega
  rw [parseNumber]
  have taken := doubles.strtod_le ((buffer.content.drop buffer.offset).takeWhile isNumberChar)
  have number := (List.takeWhile_prefix (l := buffer.content.drop buffer.offset) isNumberChar).length_le
  rw [List.length_drop] at number
  by_cases none : (doubles.strtod ((buffer.content.drop buffer.offset).takeWhile isNumberChar)).2 = 0
  · rw [if_pos none]
    exact meets_refused
  · rw [if_neg none]
    apply meets_ok
    refine ⟨⟨rfl, rfl, ?_, ?_⟩, leaf⟩
    · exact Nat.lt_add_of_pos_right (Nat.pos_of_ne_zero none)
    · change buffer.offset + _ ≤ _
      omega

/-- What a value, an array or an object is parsed to. -/
def ItemResult (buffer : ParseBuffer) (result : Item Double × ParseBuffer) : Prop :=
  MovedOn buffer result.2 ∧ result.1.nesting + buffer.depth ≤ nestingLimit

/-- `parse_value` from any offset with the given fuel. -/
def ValueMeets (doubles : Doubles Double) (fuel : Nat) : Prop :=
  forall buffer : ParseBuffer, buffer.offset ≤ buffer.content.length -> buffer.depth ≤ nestingLimit ->
    3 * buffer.left + 1 ≤ fuel -> Meets (parseValue doubles fuel buffer) (ItemResult buffer)

/-- `parse_array` and `parse_object` from an offset inside the buffer. -/
def ContainerMeets (parseContainer : Nat -> ParseBuffer -> Except Stop (Item Double × ParseBuffer))
    (fuel : Nat) : Prop :=
  forall buffer : ParseBuffer, buffer.offset < buffer.content.length -> 3 * buffer.left ≤ fuel ->
    Meets (parseContainer fuel buffer) (ItemResult buffer)

/-- The loops in them. -/
def LoopMeets {Child : Type} (nesting : Child -> Nat)
    (parseChildren : Nat -> ParseBuffer -> Except Stop (Child × ParseBuffer)) (fuel : Nat) : Prop :=
  forall buffer : ParseBuffer, buffer.offset < buffer.content.length -> buffer.depth ≤ nestingLimit ->
    3 * buffer.left ≤ fuel + 1 -> Meets (parseChildren fuel buffer) (fun result =>
      MovedOn buffer result.2 ∧ nesting result.1 + buffer.depth ≤ nestingLimit)

theorem valueMeets_succ {fuel : Nat} (array : ContainerMeets (parseArray doubles) fuel)
    (object : ContainerMeets (parseObject doubles) fuel) : ValueMeets doubles (fuel + 1) := by
  intro buffer inside shallow enough
  have leaf : 0 + buffer.depth ≤ nestingLimit := by omega
  have literal : forall text : List UInt8, text ≠ [] -> buffer.seesText text = true ->
      MovedOn buffer (buffer.advance text.length) := by
    intro text nonempty sees
    have bound := offset_le_of_seesText sees nonempty
    have positive := List.length_pos_iff.mpr nonempty
    exact ⟨rfl, rfl, Nat.lt_add_of_pos_right positive, bound⟩
  rw [parseValue]
  split_ifs with isNull isFalse isTrue isString isNumber isArray isObject
  · exact meets_ok ⟨literal (ascii "null") (by decide) isNull, leaf⟩
  · exact meets_ok ⟨literal (ascii "false") (by decide) isFalse, leaf⟩
  · exact meets_ok ⟨literal (ascii "true") (by decide) isTrue, leaf⟩
  · apply (meets_parseString (offset_lt_of_sees isString)).bind
    rintro string ⟨content, depth, forward, behind⟩
    exact meets_ok ⟨⟨content, depth, Nat.lt_of_succ_lt forward, behind⟩, leaf⟩
  · exact meets_parseNumber shallow
  · have here := offset_lt_of_sees isArray
    exact array buffer here (by omega)
  · have here := offset_lt_of_sees isObject
    exact object buffer here (by omega)
  · exact meets_refused

/-- An array or an object with its children; the character behind its bracket may be a
blank. -/
theorem meets_children {Child : Type} {nesting : Child -> Nat} {fuel : Nat} {close : UInt8}
    {parseChildren : Nat -> ParseBuffer -> Except Stop (Child × ParseBuffer)} {toItem : Child -> Item Double}
    {empty : Item Double} (children : LoopMeets nesting parseChildren fuel)
    (isEmpty : empty.nesting = 1) (isItem : forall child, (toItem child).nesting = nesting child + 1)
    {buffer : ParseBuffer} (inside : buffer.offset < buffer.content.length)
    (shallow : ¬ nestingLimit ≤ buffer.depth) (enough : 3 * buffer.left ≤ fuel + 1) :
    Meets (if buffer.enter.skipWhitespace.sees close = true then
        pure (empty, buffer.enter.skipWhitespace.leave)
      else do
        refuseIf (buffer.enter.skipWhitespace.canAccess 0 = false)
        let children ← parseChildren fuel buffer.enter.skipWhitespace.stepBack
        refuseIf (children.2.sees close = false)
        pure (toItem children.1, children.2.leave)) (ItemResult buffer) := by
  rcases @skipWhitespace_bounds buffer.enter inside with
    ⟨content, depth, forward, behind, _⟩
  have contentLength := congrArg List.length content
  have back : buffer.enter.depth = buffer.depth + 1 := rfl
  have ahead : buffer.enter.offset = buffer.offset + 1 := rfl
  have whole : buffer.enter.content = buffer.content := rfl
  rw [whole] at content contentLength behind
  rw [back] at depth
  rw [ahead] at forward
  split_ifs with closes
  · have here := offset_lt_of_sees closes
    refine meets_ok ⟨⟨content, ?_, ?_, ?_⟩, ?_⟩
    · exact Nat.sub_eq_of_eq_add depth
    · exact Nat.lt_succ_of_le (Nat.le_of_succ_le forward)
    · rw [contentLength] at here
      exact here
    · dsimp only
      rw [isEmpty]
      omega
  · apply meets_refuseIf
    intro access
    have here := canAccess_iff.mp (Bool.eq_true_of_not_eq_false access)
    rw [contentLength] at here
    have frontContent : buffer.enter.skipWhitespace.stepBack.content = buffer.content := content
    have frontDepth : buffer.enter.skipWhitespace.stepBack.depth = buffer.depth + 1 := depth
    have frontOffset : buffer.enter.skipWhitespace.stepBack.offset =
      buffer.enter.skipWhitespace.offset - 1 := rfl
    have frontMeets := children buffer.enter.skipWhitespace.stepBack
    rw [ParseBuffer.left, frontContent, frontDepth, frontOffset] at frontMeets
    rw [ParseBuffer.left] at enough
    apply (frontMeets (by omega) (by omega) (by omega)).bind
    rintro ⟨child, last⟩ ⟨moved, bound⟩
    have lastContent : last.content = buffer.content := moved.content.trans frontContent
    have lastDepth : last.depth = buffer.depth + 1 := moved.depth.trans frontDepth
    have lastForward := moved.forward
    rw [frontOffset] at lastForward
    dsimp only at lastForward bound ⊢
    apply meets_refuseIf
    intro closes
    have there := offset_lt_of_sees (Bool.eq_true_of_not_eq_false closes)
    rw [lastContent] at there
    refine meets_ok ⟨⟨lastContent, Nat.sub_eq_of_eq_add lastDepth, ?_, there⟩, ?_⟩
    · change buffer.offset < last.offset + 1
      omega
    · dsimp only
      rw [isItem]
      omega

theorem arrayMeets_succ {fuel : Nat} (elements : LoopMeets nestingOfElements (parseElements doubles) fuel) :
    ContainerMeets (parseArray doubles) (fuel + 1) := by
  intro buffer inside enough
  rw [parseArray]
  apply meets_refuseIf
  intro shallow
  rw [read_of_lt inside, ok_bind]
  apply meets_refuseIf
  intro _
  exact meets_children elements rfl (fun _ => rfl) inside shallow enough

theorem objectMeets_succ {fuel : Nat} (members : LoopMeets nestingOfMembers (parseMembers doubles) fuel) :
    ContainerMeets (parseObject doubles) (fuel + 1) := by
  intro buffer inside enough
  rw [parseObject]
  apply meets_refuseIf
  intro shallow
  apply meets_refuseIf
  intro _
  exact meets_children members rfl (fun _ => rfl) inside shallow enough

/-! ## The loops -/

variable {first second third : ParseBuffer}

theorem MovedOn.trans (before : MovedOn first second) (after : MovedOn second third) : MovedOn first third := by
  have inside := after.inside
  rw [before.content] at inside
  exact ⟨after.content.trans before.content, after.depth.trans before.depth,
    Nat.lt_trans before.forward after.forward, inside⟩

theorem MovedOn.inside_self (moved : MovedOn first second) : second.offset ≤ second.content.length := by
  rw [moved.content]
  exact moved.inside

theorem MovedOn.left_lt (moved : MovedOn first second) : second.left < first.left := by
  have forward := moved.forward
  have inside := moved.inside
  rw [ParseBuffer.left, ParseBuffer.left, moved.content]
  omega

/-- Blanks are skipped behind what was read. -/
theorem MovedOn.skipWhitespace (moved : MovedOn first second) : MovedOn first second.skipWhitespace := by
  rcases skipWhitespace_bounds moved.inside_self with ⟨content, depth, forward, behind, _⟩
  rw [moved.content] at content behind
  exact ⟨content, depth.trans moved.depth, Nat.lt_of_lt_of_le moved.forward forward, behind⟩

theorem movedOn_advance (inside : first.offset < first.content.length) : MovedOn first (first.advance 1) :=
  ⟨rfl, rfl, Nat.lt_succ_self _, inside⟩

theorem elementsMeet_succ {fuel : Nat} (value : ValueMeets doubles fuel)
    (elements : LoopMeets nestingOfElements (parseElements doubles) fuel) :
    LoopMeets nestingOfElements (parseElements doubles) (fuel + 1) := by
  intro buffer inside shallow enough
  have start := (movedOn_advance inside).skipWhitespace
  have startLeft := start.left_lt
  rw [parseElements]
  apply (value _ start.inside_self (by rw [start.depth]; exact shallow) (by omega)).bind
  rintro ⟨element, behind⟩ ⟨moved, bound⟩
  have next := (start.trans moved).skipWhitespace
  have nextLeft := moved.skipWhitespace.left_lt
  rw [start.depth] at bound
  dsimp only at bound nextLeft ⊢
  split_ifs with comma
  · apply (elements _ (offset_lt_of_sees comma) (by rw [next.depth]; exact shallow) (by omega)).bind
    rintro ⟨others, last⟩ ⟨rest, restBound⟩
    rw [next.depth] at restBound
    exact meets_ok ⟨next.trans rest, by rw [nestingOfElements, Nat.max_def]; split_ifs <;> assumption⟩
  · exact meets_ok ⟨next, by rw [nestingOfElements, nestingOfElements, Nat.max_zero]; exact bound⟩

theorem membersMeet_succ {fuel : Nat} (value : ValueMeets doubles fuel)
    (members : LoopMeets nestingOfMembers (parseMembers doubles) fuel) :
    LoopMeets nestingOfMembers (parseMembers doubles) (fuel + 1) := by
  intro buffer inside shallow enough
  rw [parseMembers]
  apply meets_refuseIf
  intro access
  have room := canAccess_iff.mp (Bool.eq_true_of_not_eq_false access)
  have start := (movedOn_advance inside).skipWhitespace
  have nameInside : (buffer.advance 1).skipWhitespace.offset <
    (buffer.advance 1).skipWhitespace.content.length := by
    rcases @skipWhitespace_bounds (buffer.advance 1) inside with ⟨content, _, _, _, remains⟩
    rw [content]
    exact remains room
  apply (meets_parseString nameInside).bind
  rintro ⟨name, behindName⟩ ⟨content, depth, forward, ending⟩
  have named : MovedOn (buffer.advance 1).skipWhitespace behindName :=
    ⟨content, depth, Nat.lt_of_succ_lt forward, ending⟩
  dsimp only
  apply meets_refuseIf
  intro colon
  have colonInside := offset_lt_of_sees (Bool.eq_true_of_not_eq_false colon)
  have before := (start.trans named).skipWhitespace
  have valueStart := (before.trans (movedOn_advance colonInside)).skipWhitespace
  have valueLeft := valueStart.left_lt
  apply (value _ valueStart.inside_self (by rw [valueStart.depth]; exact shallow) (by omega)).bind
  rintro ⟨element, behind⟩ ⟨moved, bound⟩
  have next := (valueStart.trans moved).skipWhitespace
  have nextLeft := moved.skipWhitespace.left_lt
  rw [valueStart.depth] at bound
  dsimp only at bound nextLeft ⊢
  split_ifs with comma
  · apply (members _ (offset_lt_of_sees comma) (by rw [next.depth]; exact shallow) (by omega)).bind
    rintro ⟨others, last⟩ ⟨rest, restBound⟩
    rw [next.depth] at restBound
    exact meets_ok ⟨next.trans rest, by rw [nestingOfMembers, Nat.max_def]; split_ifs <;> assumption⟩
  · exact meets_ok ⟨next, by rw [nestingOfMembers, nestingOfMembers, Nat.max_zero]; exact bound⟩

/-! ## The whole parser -/

/-- With fuel for what is left, no part of the parser leaves the buffer or stops early. -/
theorem meets_parts (doubles : Doubles Double) (fuel : Nat) : ValueMeets doubles fuel ∧
    (ContainerMeets (parseArray doubles) fuel ∧ ContainerMeets (parseObject doubles) fuel) ∧
    LoopMeets nestingOfElements (parseElements doubles) fuel ∧
    LoopMeets nestingOfMembers (parseMembers doubles) fuel := by
  induction fuel with
  | zero =>
      have some_ : forall buffer : ParseBuffer, buffer.offset < buffer.content.length ->
        ¬ 3 * buffer.left ≤ 1 := by
        intro buffer inside enough
        rw [ParseBuffer.left] at enough
        omega
      refine ⟨?_, ⟨?_, ?_⟩, ?_, ?_⟩
      · exact fun _ _ _ enough => absurd enough (Nat.not_succ_le_zero _)
      · exact fun buffer inside enough => absurd (Nat.le_succ_of_le enough) (some_ buffer inside)
      · exact fun buffer inside enough => absurd (Nat.le_succ_of_le enough) (some_ buffer inside)
      · exact fun buffer inside _ enough => absurd enough (some_ buffer inside)
      · exact fun buffer inside _ enough => absurd enough (some_ buffer inside)
  | succ fuel inductionHypothesis =>
      rcases inductionHypothesis with ⟨value, ⟨array, object⟩, elements, members⟩
      exact ⟨valueMeets_succ array object, ⟨arrayMeets_succ elements, objectMeets_succ members⟩,
        elementsMeet_succ value elements, membersMeet_succ value members⟩

theorem skipUtf8Bom_bounds (content : List UInt8) :
    (ParseBuffer.skipUtf8Bom ⟨content, 0, 0⟩).content = content ∧
      (ParseBuffer.skipUtf8Bom ⟨content, 0, 0⟩).depth = 0 ∧
      (ParseBuffer.skipUtf8Bom ⟨content, 0, 0⟩).offset ≤ content.length := by
  rw [ParseBuffer.skipUtf8Bom]
  split_ifs with bom
  · have access := canAccess_iff.mp (Bool.and_eq_true_iff.mp bom).1
    refine ⟨rfl, rfl, ?_⟩
    rw [ParseBuffer.advance]
    dsimp only at access ⊢
    omega
  · exact ⟨rfl, rfl, Nat.zero_le _⟩

/-- The value of the whole text, behind a mark and blanks. -/
theorem meets_start (doubles : Doubles Double) (content : List UInt8) :
    Meets (parseValue doubles (3 * content.length + 1) (ParseBuffer.skipUtf8Bom ⟨content, 0, 0⟩).skipWhitespace)
      (fun result => result.1.nesting ≤ nestingLimit) := by
  rcases skipUtf8Bom_bounds content with ⟨isContent, isDepth, inside⟩
  generalize ParseBuffer.skipUtf8Bom ⟨content, 0, 0⟩ = buffer at isContent isDepth inside ⊢
  rw [← isContent] at inside ⊢
  rcases skipWhitespace_bounds inside with ⟨skipped, depth, forward, behind, _⟩
  have left : buffer.skipWhitespace.left ≤ buffer.content.length := by
    rw [ParseBuffer.left, skipped]
    exact Nat.sub_le _ _
  refine ((meets_parts doubles _).1 buffer.skipWhitespace (by rw [skipped]; exact behind)
    (by rw [depth, isDepth]; exact Nat.zero_le _) (by omega)).mono ?_
  rintro ⟨item, last⟩ ⟨_, bound⟩
  exact Nat.le_trans (Nat.le_add_right _ _) bound

/-- What is parsed is not nested too deep. -/
theorem nesting_of_parse {content : List UInt8} {item : Item Double}
    (parsed : parseWithLengthOpts doubles content = .ok item) : item.nesting ≤ nestingLimit := by
  rw [parseWithLengthOpts] at parsed
  rcases bind_eq_ok_iff.mp parsed with ⟨_, _, parsed⟩
  rcases bind_eq_ok_iff.mp parsed with ⟨value, isValue, same⟩
  cases same
  exact (meets_start doubles content).of_ok isValue

/-- Whatever bytes the buffer holds, the parser ends without an access outside of it or of
the memory of a string, and the item it builds is not nested beyond the limit. -/
theorem parseWithLengthOpts_inside (doubles : Doubles Double) (content : List UInt8) :
    Meets (parseWithLengthOpts doubles content) (fun item => item.nesting ≤ nestingLimit) := by
  rw [parseWithLengthOpts]
  apply meets_refuseIf
  intro _
  exact (meets_start doubles content).bind (fun _ bound => meets_ok bound)

end Cjson
end AdbBridge
