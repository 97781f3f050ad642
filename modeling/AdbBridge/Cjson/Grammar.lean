import AdbBridge.Cjson.Bounds
import AdbBridge.Library.JsonWriting
import Mathlib.Data.List.DropRight

namespace AdbBridge
namespace Cjson

open Library Library.Numeral Library.Checked Library.Json

/-!
# JSON texts are parsed to what they denote

Every text that a reader of JSON takes for a value, the parser takes for the same value:
it accepts more blanks, raw control characters and other numbers, but it gives no other
meaning to what the grammar derives.  The nesting limit is the only reason to refuse.
-/

variable {Double : Type} {doubles : Doubles Double}

/-! ## What a value is parsed to -/

mutual

/-- The item of a value. -/
def itemOf (doubles : Doubles Double) : Value -> Item Double
  | .null => .null
  | .bool true => .true
  | .bool false => .false
  | .number text => .number (doubles.strtod text).1 (doubles.valueint (doubles.strtod text).1)
  | .string text => .string text
  | .array elements => .array (itemsOf doubles elements)
  | .object members => .object (namedItemsOf doubles members)

def itemsOf (doubles : Doubles Double) : List Value -> List (Item Double)
  | [] => []
  | value :: next => itemOf doubles value :: itemsOf doubles next

def namedItemsOf (doubles : Doubles Double) : List (List UInt8 × Value) -> List (List UInt8 × Item Double)
  | [] => []
  | (name, value) :: next => (name, itemOf doubles value) :: namedItemsOf doubles next

end

/-- `strtod` takes the whole of a number of the grammar. -/
def TakesNumerals (doubles : Doubles Double) : Prop :=
  forall text number rest, readNumber text = some (number, rest) -> (doubles.strtod number).2 = number.length

/-! ## Blanks and tokens -/

section Tokens

variable {buffer : ParseBuffer} {text rest tail : List UInt8} {byte : UInt8}

theorem skipWhitespace_of_token (found : buffer.content.drop buffer.offset = text ++ tail)
    (token : skipBlanks text = byte :: rest) (visible : 32 < byte) :
    buffer.skipWhitespace.content = buffer.content ∧ buffer.skipWhitespace.depth = buffer.depth ∧
      buffer.offset ≤ buffer.skipWhitespace.offset ∧
      buffer.skipWhitespace.content.drop buffer.skipWhitespace.offset = byte :: (rest ++ tail) := by
  have shape : text = text.takeWhile isBlank ++ byte :: rest := by
    rw [← token]
    exact (List.takeWhile_append_dropWhile).symm
  have control : forall other, other ∈ text.takeWhile isBlank -> decide (other ≤ 32) = true := by
    intro other member
    have blank := List.mem_takeWhile_imp member
    simp only [isBlank, Bool.or_eq_true, beq_iff_eq] at blank
    rcases blank with ((rfl | rfl) | rfl) | rfl <;> decide
  have whole : buffer.content.drop buffer.offset = text.takeWhile isBlank ++ byte :: (rest ++ tail) := by
    rw [found]
    conv => lhs; rw [shape]
    rw [List.append_assoc, List.cons_append]
  have blanks : (buffer.content.drop buffer.offset).takeWhile (· ≤ 32) = text.takeWhile isBlank := by
    rw [whole, List.takeWhile_append_of_pos control, List.takeWhile_cons_of_neg, List.append_nil]
    rw [decide_eq_true_eq]
    exact UInt8.not_le.mpr visible
  have length := congrArg List.length whole
  rw [List.length_drop, List.length_append, List.length_cons] at length
  rw [ParseBuffer.skipWhitespace, if_pos (canAccess_iff.mpr (by omega)), blanks]
  dsimp only
  rw [if_neg (by omega), ← List.drop_drop, whole, List.drop_left]
  exact ⟨rfl, rfl, Nat.le_add_right _ _, rfl⟩

theorem sees_of_drop (found : buffer.content.drop buffer.offset = byte :: rest) (other : UInt8) :
    buffer.sees other = (byte == other) := by
  rw [ParseBuffer.sees, ← List.head?_drop, found, List.head?_cons]
  rfl

theorem seesText_of_drop (found : buffer.content.drop buffer.offset = text ++ tail) :
    buffer.seesText text = true := by
  rw [ParseBuffer.seesText, found, List.take_left]
  exact beq_self_eq_true _

/-- Another character stands at the offset than the one a name begins with. -/
theorem not_seesText (found : buffer.content.drop buffer.offset = byte :: rest) {name : List UInt8}
    (first : UInt8) (begins : name.head? = some first) (differs : byte ≠ first) :
    ¬ buffer.seesText name = true := by
  rcases List.head?_eq_some_iff.mp begins with ⟨others, isName⟩
  rw [ParseBuffer.seesText, found, isName, List.length_cons, List.take_succ_cons, beq_iff_eq]
  exact fun same => differs (List.cons.inj same).1

end Tokens

theorem endsNumber_of_token {text rest : List UInt8} {byte : UInt8} (token : skipBlanks text = byte :: rest)
    (notNumeral : isNumeralChar byte = false) (tail : List UInt8) : EndsNumber (text ++ tail) := by
  intro first isFirst
  cases text with
  | nil => cases token
  | cons head others =>
      rw [← Option.some.inj isFirst]
      by_cases blank : isBlank head = true
      · simp only [isBlank, Bool.or_eq_true, beq_iff_eq] at blank
        rcases blank with ((rfl | rfl) | rfl) | rfl <;> decide
      · rw [skipBlanks, List.dropWhile_cons_of_neg blank] at token
        rw [(List.cons.inj token).1]
        exact notNumeral

/-! ## Scalars -/

section Scalars

variable {dialect : Dialect} {buffer : ParseBuffer} {text rest tail : List UInt8} {value : Value}

theorem drop_advance (found : buffer.content.drop buffer.offset = text ++ rest) :
    (buffer.advance text.length).content.drop (buffer.advance text.length).offset = rest := by
  change buffer.content.drop (buffer.offset + text.length) = rest
  rw [← List.drop_drop, found, List.drop_left]

theorem parseNumber_complete (takes : TakesNumerals doubles) {number : List UInt8}
    (read : readNumber text = some (number, rest)) (ends : EndsNumber (rest ++ tail))
    (found : buffer.content.drop buffer.offset = text ++ tail) :
    parseNumber doubles buffer = .ok (itemOf doubles (.number number), buffer.advance number.length) ∧
      (buffer.advance number.length).content.drop (buffer.advance number.length).offset = rest ++ tail := by
  rcases readNumber_shape read with ⟨shape, chars, first, others, isNumber, _⟩
  have whole : buffer.content.drop buffer.offset = number ++ (rest ++ tail) := by
    rw [found, shape, List.append_assoc]
  have copied : (buffer.content.drop buffer.offset).takeWhile isNumberChar = number := by
    rw [whole, List.takeWhile_append_of_pos (p := isNumberChar) chars]
    cases behind : rest ++ tail with
    | nil => exact List.append_nil number
    | cons byte more =>
        have stop := ends byte (by rw [behind, List.head?_cons])
        rw [List.takeWhile_cons_of_neg
          (by rw [show isNumberChar byte = false from stop]; exact Bool.false_ne_true),
          List.append_nil]
  have taken := takes text number rest read
  refine ⟨?_, drop_advance whole⟩
  rw [parseNumber, copied, taken, if_neg (by rw [isNumber, List.length_cons]; exact Nat.succ_ne_zero _)]
  rfl

/-- A literal name or a number. -/
theorem parseScalar_complete (takes : TakesNumerals doubles)
    (read : readScalar text = some (value, rest))
    (ends : forall number, value = .number number -> EndsNumber (rest ++ tail))
    (found : buffer.content.drop buffer.offset = text ++ tail) (fuel : Nat) :
    Exists fun after => parseValue doubles (fuel + 1) buffer = .ok (itemOf doubles value, after) ∧
      after.content.drop after.offset = rest ++ tail := by
  have literal : forall name : List UInt8, name <+: text ->
      buffer.content.drop buffer.offset = name ++ (text.drop name.length ++ tail) := by
    intro name isPrefix
    rcases isPrefix with ⟨others, same⟩
    rw [found, ← same, List.drop_left, List.append_assoc]
  rw [readScalar] at read
  rw [parseValue]
  by_cases isNull : ascii "null" <+: text
  · rw [if_pos isNull] at read
    have parts := Prod.mk.inj (Option.some.inj read)
    rw [if_pos (seesText_of_drop (literal _ isNull)), ← parts.1, ← parts.2]
    exact ⟨_, rfl, drop_advance (literal _ isNull)⟩
  · rw [if_neg isNull] at read
    by_cases isTrue : ascii "true" <+: text
    · rw [if_pos isTrue] at read
      have parts := Prod.mk.inj (Option.some.inj read)
      have whole := literal _ isTrue
      rw [← parts.1, ← parts.2, if_neg (not_seesText whole 110 (by decide) (by decide)),
        if_neg (not_seesText whole 102 (by decide) (by decide)), if_pos (seesText_of_drop whole)]
      exact ⟨_, rfl, drop_advance whole⟩
    · rw [if_neg isTrue] at read
      by_cases isFalse : ascii "false" <+: text
      · rw [if_pos isFalse] at read
        have parts := Prod.mk.inj (Option.some.inj read)
        have whole := literal _ isFalse
        rw [← parts.1, ← parts.2, if_neg (not_seesText whole 110 (by decide) (by decide)),
          if_pos (seesText_of_drop whole)]
        exact ⟨_, rfl, drop_advance whole⟩
      · rw [if_neg isFalse] at read
        rcases Option.map_eq_some_iff.mp read with ⟨number, isNumber, same⟩
        have parts := Prod.mk.inj same
        have numberRead : readNumber text = some (number.1, rest) := by rw [isNumber, ← parts.2]
        rcases readNumber_shape numberRead with ⟨shape, _, first, others, isText, begins⟩
        have head : buffer.content.drop buffer.offset = first :: (others ++ rest ++ tail) := by
          rw [found, shape, isText]
          rfl
        have isDigitOrMinus : (buffer.sees 45 || (buffer.content[buffer.offset]?).any isDigit) = true := by
          rw [sees_of_drop head, ← List.head?_drop, head, List.head?_cons]
          rcases begins with minus | digit
          · rw [minus]
            rfl
          · rw [Option.any_some, digit, Bool.or_true]
        have notLetter : first ≠ 110 ∧ first ≠ 102 ∧ first ≠ 116 ∧ first ≠ 34 := by
          rcases begins with rfl | digit
          · decide
          · refine ⟨?_, ?_, ?_, ?_⟩ <;> rintro rfl <;> exact absurd digit (by decide)
        have parsed := parseNumber_complete takes numberRead (ends number.1 parts.1.symm) found
        rw [if_neg (not_seesText head 110 (by decide) notLetter.1),
          if_neg (not_seesText head 102 (by decide) notLetter.2.1),
          if_neg (not_seesText head 116 (by decide) notLetter.2.2.1),
          if_neg (by rw [sees_of_drop head, beq_iff_eq]; exact notLetter.2.2.2), if_pos isDigitOrMinus,
            ← parts.1]
        exact ⟨_, parsed⟩

/-- A scalar is not nested. -/
theorem nesting_of_readScalar (read : readScalar text = some (value, rest)) :
    (itemOf doubles value).nesting = 0 := by
  rw [readScalar] at read
  split_ifs at read
  · rw [← (Prod.mk.inj (Option.some.inj read)).1]
    rfl
  · rw [← (Prod.mk.inj (Option.some.inj read)).1]
    rfl
  · rw [← (Prod.mk.inj (Option.some.inj read)).1]
    rfl
  · rcases Option.map_eq_some_iff.mp read with ⟨number, _, same⟩
    rw [← (Prod.mk.inj same).1]
    rfl

end Scalars

/-! ## Values, arrays and objects -/

/-- The item is parsed, with the given text left; if it is nested too deep where it stands, it
is refused. -/
def Parses {Child : Type} (nesting : Nat) (computation : Except Stop (Child × ParseBuffer)) (child : Child)
    (left : List UInt8) : Prop :=
  if nesting ≤ nestingLimit then
    Exists fun after => computation = .ok (child, after) ∧ after.content.drop after.offset = left
  else computation = .error .refused

section Parses

variable {Child : Type} {nesting : Nat} {computation : Except Stop (Child × ParseBuffer)} {child : Child}
  {left : List UInt8}

theorem parses_of_ok {after : ParseBuffer} (shallow : nesting ≤ nestingLimit)
    (parsed : computation = .ok (child, after)) (here : after.content.drop after.offset = left) :
    Parses nesting computation child left := by
  rw [Parses, if_pos shallow]
  exact ⟨after, parsed, here⟩

theorem parses_of_refused (deep : nestingLimit < nesting) (refused : computation = .error .refused) :
    Parses nesting computation child left := by
  rw [Parses, if_neg (Nat.not_le_of_lt deep)]
  exact refused

theorem Parses.ok_or_refused (parses : Parses nesting computation child left) :
    (nesting ≤ nestingLimit ∧ Exists fun after => computation = .ok (child, after) ∧
        after.content.drop after.offset = left) ∨
      (nestingLimit < nesting ∧ computation = .error .refused) := by
  rw [Parses] at parses
  by_cases shallow : nesting ≤ nestingLimit
  · rw [if_pos shallow] at parses
    exact Or.inl ⟨shallow, parses⟩
  · rw [if_neg shallow] at parses
    exact Or.inr ⟨Nat.lt_of_not_le shallow, parses⟩

end Parses

/-- With this fuel of the reader, a value that it reads is parsed, or refused for its depth. -/
def ValueComplete (doubles : Doubles Double) (dialect : Dialect) (fuel : Nat) : Prop :=
  forall {text rest tail : List UInt8} {value : Value} {buffer : ParseBuffer} {parseFuel : Nat},
    readValue dialect fuel text = some (value, rest) ->
    buffer.content.drop buffer.offset = skipBlanks text ++ tail ->
    buffer.depth ≤ nestingLimit ->
    (forall number, value = .number number -> EndsNumber (rest ++ tail)) ->
    3 * buffer.left + 1 ≤ parseFuel ->
    Parses ((itemOf doubles value).nesting + buffer.depth) (parseValue doubles parseFuel buffer)
      (itemOf doubles value) (rest ++ tail)

/-- The same for the elements of an array; blanks in front of the first one are
already skipped, or not. -/
def ElementsComplete (doubles : Doubles Double) (dialect : Dialect) (fuel : Nat) : Prop :=
  forall {text ahead rest tail : List UInt8} {elements : List Value} {buffer : ParseBuffer} {parseFuel : Nat},
    readElements dialect fuel text = some (elements, rest) ->
    (buffer.advance 1).content.drop (buffer.advance 1).offset = ahead ++ tail ->
    skipBlanks ahead = skipBlanks text ->
    buffer.depth ≤ nestingLimit ->
    3 * buffer.left ≤ parseFuel + 1 ->
    Parses (nestingOfElements (itemsOf doubles elements) + buffer.depth)
      (parseElements doubles parseFuel buffer) (itemsOf doubles elements) (93 :: (rest ++ tail))

/-- The same for the members of an object. -/
def MembersComplete (doubles : Doubles Double) (dialect : Dialect) (fuel : Nat) : Prop :=
  forall {text ahead rest tail : List UInt8} {members : List (List UInt8 × Value)} {buffer : ParseBuffer}
    {parseFuel : Nat}, readMembers dialect fuel text = some (members, rest) ->
    (buffer.advance 1).content.drop (buffer.advance 1).offset = ahead ++ tail ->
    skipBlanks ahead = skipBlanks text ->
    buffer.depth ≤ nestingLimit ->
    3 * buffer.left ≤ parseFuel + 1 ->
    Parses (nestingOfMembers (namedItemsOf doubles members) + buffer.depth)
      (parseMembers doubles parseFuel buffer) (namedItemsOf doubles members) (125 :: (rest ++ tail))

theorem offset_lt_of_drop {buffer : ParseBuffer} {byte : UInt8} {rest : List UInt8}
    (found : buffer.content.drop buffer.offset = byte :: rest) : buffer.offset < buffer.content.length := by
  have length := congrArg List.length found
  rw [List.length_drop, List.length_cons] at length
  omega

theorem skipBlanks_skipBlanks (text : List UInt8) : skipBlanks (skipBlanks text) = skipBlanks text :=
  List.dropWhile_idempotent isBlank text

theorem drop_leave {buffer : ParseBuffer} {byte : UInt8} {rest : List UInt8}
    (found : buffer.content.drop buffer.offset = byte :: rest) :
    buffer.leave.content.drop buffer.leave.offset = rest := drop_succ found

/-- An array or an object that is empty, or whose children are parsed or refused. -/
theorem children_complete {Child : Type} {fuel nesting : Nat} {close : UInt8} (visible : 32 < close)
    {parseChildren : Nat -> ParseBuffer -> Except Stop (Child × ParseBuffer)} {toItem : Child -> Item Double}
    {empty : Item Double} {buffer : ParseBuffer} {inner rest tail : List UInt8} {item : Item Double}
    (found : buffer.enter.content.drop buffer.enter.offset = inner ++ tail)
    (cases_ : skipBlanks inner = close :: rest ∧ item = empty ∧ nesting ≤ nestingLimit ∨
      Exists fun byte => Exists fun others => Exists fun child => skipBlanks inner = byte :: others ∧
        32 < byte ∧
        byte ≠ close ∧ item = toItem child ∧
        (forall front : ParseBuffer, front.depth = buffer.depth + 1 -> front.left ≤ buffer.left ->
          (front.advance 1).content.drop (front.advance 1).offset = skipBlanks inner ++ tail ->
          Parses nesting (parseChildren fuel front) child (close :: (rest ++ tail)))) :
    Parses nesting (if buffer.enter.skipWhitespace.sees close = true then
        pure (empty, buffer.enter.skipWhitespace.leave)
      else do
        refuseIf (buffer.enter.skipWhitespace.canAccess 0 = false)
        let children ← parseChildren fuel buffer.enter.skipWhitespace.stepBack
        refuseIf (children.2.sees close = false)
        pure (toItem children.1, children.2.leave)) item (rest ++ tail) := by
  rcases cases_ with ⟨closes, isItem, shallow⟩ | ⟨byte, others, child, token, isVisible, differs,
    isItem, complete⟩
  · rcases skipWhitespace_of_token found closes visible with ⟨_, _, _, here⟩
    rw [if_pos (by rw [sees_of_drop here]; exact beq_self_eq_true _), isItem]
    exact parses_of_ok shallow rfl (drop_leave here)
  · rcases skipWhitespace_of_token found token isVisible with ⟨content, depth, forward, here⟩
    have inside := offset_lt_of_drop here
    have ahead : buffer.enter.offset = buffer.offset + 1 := rfl
    have whole : buffer.enter.content = buffer.content := rfl
    have back : buffer.enter.skipWhitespace.stepBack.offset + 1 = buffer.enter.skipWhitespace.offset :=
      Nat.sub_add_cancel (by omega)
    have frontLeft : buffer.enter.skipWhitespace.stepBack.left ≤ buffer.left := by
      change buffer.enter.skipWhitespace.content.length - _ ≤ buffer.content.length - _
      rw [content, whole]
      omega
    have children := complete buffer.enter.skipWhitespace.stepBack depth frontLeft (by
      change buffer.enter.skipWhitespace.content.drop (buffer.enter.skipWhitespace.stepBack.offset + 1) = _
      rw [back, here, token]
      rfl)
    rw [if_neg (by rw [sees_of_drop here, beq_iff_eq]; exact differs),
      refuseIf_bind_of_not (by rw [canAccess_iff.mpr inside]; decide)]
    rcases children.ok_or_refused with ⟨shallow, last, parsed, closing⟩ | ⟨deep, refused⟩
    · rw [parsed, ok_bind]
      dsimp only
      rw [sees_of_drop closing, refuseIf_bind_of_not (by rw [beq_self_eq_true]; decide),
        isItem]
      exact parses_of_ok shallow rfl (drop_leave closing)
    · rw [refused]
      exact parses_of_refused deep rfl

variable {dialect : Dialect}

theorem arrayComplete {fuel parseFuel : Nat} (elements : ElementsComplete doubles dialect fuel)
    {rest tail inner : List UInt8} {value : Value} {buffer : ParseBuffer}
    (shape : skipBlanks inner = 93 :: rest ∧ value = .array [] ∨ (skipBlanks inner).head? ≠ some 93 ∧
      Exists fun elements => readElements dialect fuel inner = some (elements, rest) ∧ value = .array elements)
    (found : buffer.content.drop buffer.offset = 91 :: (inner ++ tail))
    (enough : 3 * buffer.left ≤ parseFuel) :
    Parses ((itemOf doubles value).nesting + buffer.depth) (parseArray doubles parseFuel buffer)
      (itemOf doubles value) (rest ++ tail) := by
  have inside := offset_lt_of_drop found
  cases parseFuel with
  | zero =>
      rw [ParseBuffer.left] at enough
      omega
  | succ parseFuel =>
      have some : 1 ≤ (itemOf doubles value).nesting := by
        rcases shape with ⟨_, isValue⟩ | ⟨_, _, _, isValue⟩ <;>
          · rw [isValue, itemOf, Item.nesting]
            omega
      by_cases tooDeep : nestingLimit ≤ buffer.depth
      · have refused : refuseIf (nestingLimit ≤ buffer.depth) = .error .refused := if_pos tooDeep
        rw [parseArray, refused]
        exact parses_of_refused (by omega) rfl
      rw [parseArray, refuseIf_bind_of_not tooDeep, read_of_drop found, ok_bind,
        refuseIf_bind_of_not (not_not.mpr rfl)]
      refine children_complete (by decide) (drop_succ found) ?_
      rcases shape with ⟨closes, isValue⟩ | ⟨notClosed, list, read, isValue⟩
      · refine Or.inl ⟨closes, by rw [isValue]; rfl, ?_⟩
        rw [isValue]
        change 1 + buffer.depth ≤ nestingLimit
        omega
      · cases fuel with
        | zero => cases read
        | succ fuel =>
            rcases readElements_shape read with ⟨first, middle, isFirst, _⟩
            rcases readValue_visible isFirst with ⟨byte, others, token, visible, _⟩
            refine Or.inr ⟨byte, others, itemsOf doubles list, token, visible, ?_, by rw [isValue]; rfl, ?_⟩
            · rintro rfl
              rw [token] at notClosed
              exact notClosed List.head?_cons
            · intro front depth left ahead
              have same : nestingOfElements (itemsOf doubles list) + front.depth =
                  (itemOf doubles value).nesting + buffer.depth := by
                rw [isValue, itemOf, Item.nesting]
                omega
              rw [← same]
              exact elements read ahead (skipBlanks_skipBlanks inner) (by omega) (by omega)

theorem objectComplete {fuel parseFuel : Nat} (members : MembersComplete doubles dialect fuel)
    {rest tail inner : List UInt8} {value : Value} {buffer : ParseBuffer}
    (shape : skipBlanks inner = 125 :: rest ∧ value = .object [] ∨ (skipBlanks inner).head? ≠ some 125 ∧
      Exists fun members => readMembers dialect fuel inner = some (members, rest) ∧ value = .object members)
    (found : buffer.content.drop buffer.offset = 123 :: (inner ++ tail))
    (enough : 3 * buffer.left ≤ parseFuel) :
    Parses ((itemOf doubles value).nesting + buffer.depth) (parseObject doubles parseFuel buffer)
      (itemOf doubles value) (rest ++ tail) := by
  have inside := offset_lt_of_drop found
  cases parseFuel with
  | zero =>
      rw [ParseBuffer.left] at enough
      omega
  | succ parseFuel =>
      have some : 1 ≤ (itemOf doubles value).nesting := by
        rcases shape with ⟨_, isValue⟩ | ⟨_, _, _, isValue⟩ <;>
          · rw [isValue, itemOf, Item.nesting]
            omega
      by_cases tooDeep : nestingLimit ≤ buffer.depth
      · have refused : refuseIf (nestingLimit ≤ buffer.depth) = .error .refused := if_pos tooDeep
        rw [parseObject, refused]
        exact parses_of_refused (by omega) rfl
      rw [parseObject, refuseIf_bind_of_not tooDeep,
        refuseIf_bind_of_not (by rw [sees_of_drop found]; decide)]
      refine children_complete (by decide) (drop_succ found) ?_
      rcases shape with ⟨closes, isValue⟩ | ⟨notClosed, list, read, isValue⟩
      · refine Or.inl ⟨closes, by rw [isValue]; rfl, ?_⟩
        rw [isValue]
        change 1 + buffer.depth ≤ nestingLimit
        omega
      · cases fuel with
        | zero => cases read
        | succ fuel =>
            rcases readMembers_shape read with ⟨quoted, _, _, _, _, _, token, _⟩
            refine Or.inr ⟨34, quoted, namedItemsOf doubles list, token, by decide, by decide,
              by rw [isValue]; rfl, ?_⟩
            intro front depth left ahead
            have same : nestingOfMembers (namedItemsOf doubles list) + front.depth =
                (itemOf doubles value).nesting + buffer.depth := by
              rw [isValue, itemOf, Item.nesting]
              omega
            rw [← same]
            exact members read ahead (skipBlanks_skipBlanks inner) (by omega) (by omega)

theorem valueComplete_succ (takes : TakesNumerals doubles) {fuel : Nat}
    (elements : ElementsComplete doubles dialect fuel) (members : MembersComplete doubles dialect fuel) :
    ValueComplete doubles dialect (fuel + 1) := by
  intro text rest tail value buffer parseFuel read found shallow ends enough
  cases parseFuel with
  | zero => exact absurd enough (Nat.not_succ_le_zero _)
  | succ parseFuel =>
      rcases readValue_shape read with ⟨inner, string, token, isString, isValue⟩ | ⟨inner, token, shape⟩ |
        ⟨inner, token, shape⟩ | scalar
      · rw [token] at found
        rcases parseString_complete isString found with ⟨behind, parsed, _, _, here⟩
        refine @parses_of_ok _ _ _ _ _ behind ?_ ?_ here
        · rw [isValue, itemOf, Item.nesting, Nat.zero_add]
          exact shallow
        rw [parseValue, if_neg (not_seesText found 110 (by decide) (by decide)),
          if_neg (not_seesText found 102 (by decide) (by decide)),
          if_neg (not_seesText found 116 (by decide) (by decide)),
          if_pos (by rw [sees_of_drop found]; rfl), parsed, ok_bind, isValue]
        rfl
      · rw [token, List.cons_append] at found
        have parsed := arrayComplete elements shape found (Nat.le_of_succ_le_succ enough)
        rw [parseValue, if_neg (not_seesText found 110 (by decide) (by decide)),
          if_neg (not_seesText found 102 (by decide) (by decide)),
          if_neg (not_seesText found 116 (by decide) (by decide)),
          if_neg (by rw [sees_of_drop found]; decide),
          if_neg (by rw [sees_of_drop found, ← List.head?_drop, found, List.head?_cons]; decide),
          if_pos (by rw [sees_of_drop found]; rfl)]
        exact parsed
      · rw [token, List.cons_append] at found
        have parsed := objectComplete members shape found (Nat.le_of_succ_le_succ enough)
        rw [parseValue, if_neg (not_seesText found 110 (by decide) (by decide)),
          if_neg (not_seesText found 102 (by decide) (by decide)),
          if_neg (not_seesText found 116 (by decide) (by decide)),
          if_neg (by rw [sees_of_drop found]; decide),
          if_neg (by rw [sees_of_drop found, ← List.head?_drop, found, List.head?_cons]; decide),
          if_neg (by rw [sees_of_drop found]; decide),
          if_pos (by rw [sees_of_drop found]; rfl)]
        exact parsed
      · rcases parseScalar_complete takes scalar ends found parseFuel with ⟨after, parsed, here⟩
        exact parses_of_ok (by rw [nesting_of_readScalar scalar, Nat.zero_add]; exact shallow) parsed here

/-- The character in front of a value, and the blanks behind it, are skipped. -/
theorem start_of_token {buffer : ParseBuffer} {ahead text others tail : List UInt8} {byte : UInt8}
    (found : (buffer.advance 1).content.drop (buffer.advance 1).offset = ahead ++ tail)
    (same : skipBlanks ahead = skipBlanks text) (token : skipBlanks text = byte :: others)
    (visible : 32 < byte) :
    MovedOn buffer (buffer.advance 1).skipWhitespace ∧
      (buffer.advance 1).skipWhitespace.content.drop (buffer.advance 1).skipWhitespace.offset =
        skipBlanks text ++ tail := by
  rcases skipWhitespace_of_token found (same.trans token) visible with ⟨content, depth, forward, here⟩
  have inside := offset_lt_of_drop here
  rw [content] at inside
  refine ⟨⟨content, depth, forward, Nat.le_of_lt inside⟩, ?_⟩
  rw [here, token]
  rfl

/-- Behind a value: the next token. -/
theorem next_token {buffer : ParseBuffer} {middle inner tail : List UInt8} {byte : UInt8}
    (found : buffer.content.drop buffer.offset = middle ++ tail) (token : skipBlanks middle = byte :: inner)
    (visible : 32 < byte) :
    buffer.skipWhitespace.content.drop buffer.skipWhitespace.offset = byte :: (inner ++ tail) :=
  (skipWhitespace_of_token found token visible).2.2.2

theorem elementsComplete_succ {fuel : Nat} (value : ValueComplete doubles dialect fuel)
    (elements : ElementsComplete doubles dialect fuel) : ElementsComplete doubles dialect (fuel + 1) := by
  intro text ahead rest tail list buffer parseFuel read found same shallow enough
  rcases readElements_shape read with ⟨first, middle, isFirst, shape⟩
  rcases readValue_visible isFirst with ⟨byte, others, token, visible, _⟩
  rcases start_of_token found same token visible with ⟨start, here⟩
  have startLeft := start.left_lt
  have startInside := start.inside_self
  cases parseFuel with
  | zero =>
      have positive : 0 < buffer.left := Nat.lt_of_le_of_lt (Nat.zero_le _) startLeft
      omega
  | succ parseFuel =>
      have firstNesting : (itemOf doubles first).nesting ≤ nestingOfElements (itemsOf doubles list) := by
        rcases shape with ⟨_, isList⟩ | ⟨_, _, _, _, isList⟩ <;>
          · rw [isList, itemsOf, nestingOfElements]
            exact Nat.le_max_left _ _
      have ends : EndsNumber (middle ++ tail) := by
        rcases shape with ⟨token, _⟩ | ⟨_, _, token, _⟩
        · exact endsNumber_of_token token (by decide) tail
        · exact endsNumber_of_token token (by decide) tail
      have startShallow : (buffer.advance 1).skipWhitespace.depth ≤ nestingLimit := by
        rw [start.depth]
        exact shallow
      have parses := value isFirst here startShallow (fun _ _ => ends) (show 3 * _ + 1 ≤ parseFuel by omega)
      rw [start.depth] at parses
      rw [parseElements]
      rcases parses.ok_or_refused with ⟨firstShallow, behind, parsed, there⟩ | ⟨deep, refused⟩
      case inr =>
        rw [refused]
        exact parses_of_refused (by omega) rfl
      have moved := (((meets_parts doubles parseFuel).1 _ startInside startShallow (by omega)).of_ok parsed).1
      have next := (start.trans moved).skipWhitespace
      have nextLeft := moved.skipWhitespace.left_lt
      rw [parsed, ok_bind]
      dsimp only at next nextLeft ⊢
      rcases shape with ⟨closing, isList⟩ | ⟨inner, more, comma, isMore, isList⟩
      · have bracket := next_token there closing (by decide)
        have whole : nestingOfElements (itemsOf doubles list) = (itemOf doubles first).nesting := by
          rw [isList, itemsOf, nestingOfElements]
          exact Nat.max_zero _
        rw [if_neg (by rw [sees_of_drop bracket]; decide), whole, isList]
        exact parses_of_ok firstShallow rfl bracket
      · have here := next_token there comma (by decide)
        have whole : nestingOfElements (itemsOf doubles list) =
            max (itemOf doubles first).nesting (nestingOfElements (itemsOf doubles more)) := by
          rw [isList, itemsOf, nestingOfElements]
        have others := elements isMore (drop_succ here) rfl (by rw [next.depth]; exact shallow)
          (show 3 * _ ≤ parseFuel + 1 by omega)
        rw [next.depth] at others
        rw [if_pos (by rw [sees_of_drop here]; rfl)]
        rcases others.ok_or_refused with ⟨othersShallow, last, rest, closing⟩ | ⟨deep, refused⟩
        · rw [rest, ok_bind]
          refine parses_of_ok (by omega) ?_ closing
          rw [isList]
          rfl
        · rw [refused]
          exact parses_of_refused (by omega) rfl

theorem membersComplete_succ {fuel : Nat} (value : ValueComplete doubles dialect fuel)
    (members : MembersComplete doubles dialect fuel) : MembersComplete doubles dialect (fuel + 1) := by
  intro text ahead rest tail list buffer parseFuel read found same shallow enough
  rcases readMembers_shape read with
    ⟨quoted, name, colon, behindColon, first, middle, token, isName, isColon, isFirst, shape⟩
  rcases start_of_token found same token (by decide) with ⟨start, here⟩
  rw [token, List.cons_append] at here
  have startLeft := start.left_lt
  cases parseFuel with
  | zero =>
      have positive : 0 < buffer.left := Nat.lt_of_le_of_lt (Nat.zero_le _) startLeft
      omega
  | succ parseFuel =>
      have firstNesting : (itemOf doubles first).nesting ≤
          nestingOfMembers (namedItemsOf doubles list) := by
        rcases shape with ⟨_, isList⟩ | ⟨_, _, _, _, isList⟩ <;>
          · rw [isList, namedItemsOf, nestingOfMembers]
            exact Nat.le_max_left _ _
      have ends : EndsNumber (middle ++ tail) := by
        rcases shape with ⟨token, _⟩ | ⟨_, _, token, _⟩
        · exact endsNumber_of_token token (by decide) tail
        · exact endsNumber_of_token token (by decide) tail
      have access : buffer.canAccess 1 = true := by
        have inside := offset_lt_of_drop here
        have forward := start.forward
        rw [start.content] at inside
        exact canAccess_iff.mpr (by omega)
      rcases parseString_complete isName here with ⟨behindName, parsedName, _, _, afterName⟩
      have nameMeets := (meets_parseString (offset_lt_of_drop here)).of_ok parsedName
      have named : MovedOn (buffer.advance 1).skipWhitespace behindName :=
        ⟨nameMeets.1, nameMeets.2.1, Nat.lt_of_succ_lt nameMeets.2.2.1, nameMeets.2.2.2⟩
      have atColon := next_token afterName isColon (by decide)
      have before := (start.trans named).skipWhitespace
      rcases readValue_visible isFirst with ⟨byte, others, valueToken, visible, _⟩
      rcases start_of_token (drop_succ atColon) rfl valueToken visible with ⟨valueStart, valueHere⟩
      have toValue := before.trans valueStart
      have valueLeft := toValue.left_lt
      have valueShallow := toValue.depth.trans_le shallow
      have parses := value isFirst valueHere valueShallow (fun _ _ => ends)
        (show 3 * _ + 1 ≤ parseFuel by omega)
      rw [toValue.depth] at parses
      rw [parseMembers, refuseIf_bind_of_not (by rw [access]; decide), parsedName, ok_bind]
      dsimp only
      rw [sees_of_drop atColon, refuseIf_bind_of_not (by decide)]
      rcases parses.ok_or_refused with ⟨firstShallow, behind, parsed, there⟩ | ⟨deep, refused⟩
      case inr =>
        rw [refused]
        exact parses_of_refused (by omega) rfl
      have moved := (((meets_parts doubles parseFuel).1 _ toValue.inside_self valueShallow
        (by omega)).of_ok parsed).1
      have next := (toValue.trans moved).skipWhitespace
      have nextLeft := moved.skipWhitespace.left_lt
      rw [parsed, ok_bind]
      dsimp only at next nextLeft ⊢
      rcases shape with ⟨closing, isList⟩ | ⟨inner, more, comma, isMore, isList⟩
      · have brace := next_token there closing (by decide)
        have whole : nestingOfMembers (namedItemsOf doubles list) = (itemOf doubles first).nesting := by
          rw [isList, namedItemsOf, nestingOfMembers]
          exact Nat.max_zero _
        rw [if_neg (by rw [sees_of_drop brace]; decide), whole, isList]
        exact parses_of_ok firstShallow rfl brace
      · have atComma := next_token there comma (by decide)
        have whole : nestingOfMembers (namedItemsOf doubles list) =
            max (itemOf doubles first).nesting (nestingOfMembers (namedItemsOf doubles more)) := by
          rw [isList, namedItemsOf, nestingOfMembers]
        have others := members isMore (drop_succ atComma) rfl (by rw [next.depth]; exact shallow)
          (show 3 * _ ≤ parseFuel + 1 by omega)
        rw [next.depth] at others
        rw [if_pos (by rw [sees_of_drop atComma]; rfl)]
        rcases others.ok_or_refused with ⟨othersShallow, last, rest, closing⟩ | ⟨deep, refused⟩
        · rw [rest, ok_bind]
          refine parses_of_ok (by omega) ?_ closing
          rw [isList]
          rfl
        · rw [refused]
          exact parses_of_refused (by omega) rfl

/-- By induction on the fuel of the reader, whatever it reads is parsed, or refused for its depth. -/
theorem complete_parts (takes : TakesNumerals doubles) (dialect : Dialect) (fuel : Nat) :
    ValueComplete doubles dialect fuel ∧ ElementsComplete doubles dialect fuel ∧
      MembersComplete doubles dialect fuel := by
  induction fuel with
  | zero =>
      refine ⟨?_, ?_, ?_⟩
      · intro text rest tail value buffer parseFuel read
        cases read
      · intro text ahead rest tail elements buffer parseFuel read
        cases read
      · intro text ahead rest tail members buffer parseFuel read
        cases read
  | succ fuel inductionHypothesis =>
      rcases inductionHypothesis with ⟨value, elements, members⟩
      exact ⟨valueComplete_succ takes elements members, elementsComplete_succ value elements,
        membersComplete_succ value members⟩

/-- A value that is read from a C string is parsed, or refused for its depth, if no text behind
it can be taken for the rest of a number. -/
theorem parse_or_refuse (takes : TakesNumerals doubles) {memory : List UInt8} {value : Value}
    (reads : Json.parse dialect (cString memory) = some value)
    (ends : dialect.trailing = false ∨ forall number, value ≠ .number number) :
    parse doubles memory =
      if (itemOf doubles value).nesting ≤ nestingLimit then .ok (itemOf doubles value)
      else .error .refused := by
  unfold Json.parse at reads
  split at reads
  next found rest read =>
    have isValue : found = value ∧ (dialect.trailing = true ∨ skipBlanks rest = []) := by
      split_ifs at reads with accepted
      exact ⟨Option.some.inj reads, accepted⟩
    rw [isValue.1] at read
    rcases readValue_visible read with ⟨byte, others, token, visible, ascii⟩
    have stops : forall number, value = .number number -> EndsNumber (rest ++ [0]) := by
      intro number isNumber
      have blank : skipBlanks rest = [] := by
        rcases ends with whole | noNumber
        · exact isValue.2.resolve_left (by rw [whole]; exact Bool.false_ne_true)
        · exact absurd isNumber (noNumber number)
      intro first isFirst
      cases rest with
      | nil =>
          rw [← Option.some.inj isFirst]
          decide
      | cons head more =>
          rw [← Option.some.inj isFirst]
          have isBlank := List.dropWhile_eq_nil_iff.mp blank head List.mem_cons_self
          simp only [Numeral.isBlank, Bool.or_eq_true, beq_iff_eq] at isBlank
          rcases isBlank with ((rfl | rfl) | rfl) | rfl <;> decide
    have noBom : (⟨cString memory ++ [0], 0, 0⟩ : ParseBuffer).skipUtf8Bom = ⟨cString memory ++ [0], 0, 0⟩ := by
      rw [ParseBuffer.skipUtf8Bom, if_neg]
      intro bom
      cases shape : cString memory with
      | nil =>
          rw [shape] at token
          cases token
      | cons head more =>
          have notMark : head ≠ 0xEF := by
            rintro rfl
            rw [shape, skipBlanks, List.dropWhile_cons_of_neg (by decide)] at token
            rw [← (List.cons.inj token).1] at ascii
            exact absurd ascii (by decide)
          have found : (⟨cString memory ++ [0], 0, 0⟩ : ParseBuffer).content.drop 0 =
            head :: (more ++ [0]) := by
            rw [List.drop_zero, shape]
            rfl
          exact not_seesText found 0xEF rfl notMark (Bool.and_eq_true_iff.mp bom).2
    rcases @skipWhitespace_of_token ⟨cString memory ++ [0], 0, 0⟩ _ _ [0] _ List.drop_zero token visible with
      ⟨content, depth, _, here⟩
    have left : (⟨cString memory ++ [0], 0, 0⟩ : ParseBuffer).skipWhitespace.left ≤
        (cString memory ++ [0]).length := by
      rw [ParseBuffer.left, content]
      exact Nat.sub_le _ _
    have parses := (complete_parts takes dialect _).1 read (by rw [here, token]; rfl)
      (by rw [depth]; exact Nat.zero_le _) stops (Nat.succ_le_succ (Nat.mul_le_mul_left 3 left))
    rw [depth, Nat.add_zero] at parses
    rw [Cjson.parse, parseWithLengthOpts, refuseIf_bind_of_not (by simp), noBom]
    rcases parses.ok_or_refused with ⟨shallow, after, parsed, _⟩ | ⟨deep, refused⟩
    · rw [parsed, ok_bind, if_pos shallow]
      rfl
    · rw [refused, if_neg (Nat.not_le_of_lt deep)]
      rfl
  next => cases reads

theorem parse_of_reads (takes : TakesNumerals doubles) {memory : List UInt8} {value : Value}
    (reads : Json.parse dialect (cString memory) = some value)
    (shallow : (itemOf doubles value).nesting ≤ nestingLimit)
    (ends : dialect.trailing = false ∨ forall number, value ≠ .number number) :
    parse doubles memory = .ok (itemOf doubles value) := by
  rw [parse_or_refuse takes reads ends, if_pos shallow]

/-- A C library whose doubles are integers. -/
def wholeDoubles : Doubles Int where
  strtod := fun text => (strtol 10 text, (text.takeWhile isNumeralChar).length)
  atLeastIntMax := fun number => 2147483647 ≤ number
  atMostIntMin := fun number => number ≤ -2147483648
  toInt := id
  strtod_le := fun _ => (List.takeWhile_sublist _).length_le

theorem takesNumerals_wholeDoubles : TakesNumerals wholeDoubles := by
  intro text number rest read
  have chars := (readNumber_shape read).2.1
  change (number.takeWhile isNumeralChar).length = number.length
  rw [List.takeWhile_eq_self_iff.mpr chars]

/-- The nesting limit is the only reason to refuse a text that is read as a value: parsing it
succeeds if and only if the value is not nested too deep, and yields the item of the value. -/
theorem parse_iff_shallow (takes : TakesNumerals doubles) {memory : List UInt8} {value : Value}
    (reads : Json.parse dialect (cString memory) = some value)
    (ends : dialect.trailing = false ∨ forall number, value ≠ .number number) :
    ((Exists fun item => parse doubles memory = .ok item) ↔
        (itemOf doubles value).nesting ≤ nestingLimit) ∧
      forall item, parse doubles memory = .ok item -> item = itemOf doubles value := by
  rw [parse_or_refuse takes reads ends]
  by_cases shallow : (itemOf doubles value).nesting ≤ nestingLimit
  · rw [if_pos shallow]
    exact ⟨⟨fun _ => shallow, fun _ => ⟨_, rfl⟩⟩, fun item same => (Except.ok.inj same).symm⟩
  · rw [if_neg shallow]
    exact ⟨⟨fun parsed => absurd parsed.choose_spec nofun, fun deep => absurd deep shallow⟩, nofun⟩

/-- The element of ` [ 7]`, with a NUL and more behind it. -/
theorem parse_iff_shallow_sample :
    (Exists fun item => parse wholeDoubles (ascii "[ 7]" ++ [0, 93]) = .ok item) ∧
      forall item, parse wholeDoubles (ascii "[ 7]" ++ [0, 93]) = .ok item ->
        item = .array [.number 7 7] := by
  have element : Denotes (ascii "7") (.number (ascii "7")) := denotes_number rfl
  have reads : Json.parse rfc8259 (cString (ascii "[ 7]" ++ [0, 93])) = some (.array [.number (ascii "7")]) :=
    (denotes_array (denotesElements_last element blanks_space blanks_nil)).parse
  have parsed := parse_iff_shallow takesNumerals_wholeDoubles reads (Or.inl rfl)
  exact ⟨parsed.1.mpr (by decide), parsed.2⟩

end Cjson
end AdbBridge
