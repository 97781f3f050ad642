import AdbBridge.Cjson.Grammar
import AdbBridge.Cjson.PrintBuffer

namespace AdbBridge
namespace Cjson

open Library Library.Numeral Library.Checked Library.Json

/-!
# What is printed is parsed to itself

The text of an item is JSON, with blanks between its tokens or without, and denotes the
value of the item.  So the parser gets the item back from the block that the printer
returns, as far as `strtod` gets its numbers back from their texts.
-/

variable {Double : Type} {doubles : Doubles Double} {numbers : NumberFormat Double}

/-! ## The value of an item -/

mutual

/-- What an item stands for; a number that is none is printed as `null`. -/
def Item.value (numbers : NumberFormat Double) : Item Double -> Value
  | .null => .null
  | .false => .bool false
  | .true => .bool true
  | .number valuedouble valueint =>
      if numbers.isNanOrInf valuedouble then .null else .number (numberText numbers valuedouble valueint)
  | .string valuestring => .string (cString valuestring)
  | .array child => .array (valuesOf numbers child)
  | .object child => .object (namedValuesOf numbers child)

def valuesOf (numbers : NumberFormat Double) : List (Item Double) -> List Value
  | [] => []
  | item :: next => item.value numbers :: valuesOf numbers next

def namedValuesOf (numbers : NumberFormat Double) : List (List UInt8 × Item Double) -> List (List UInt8 × Value)
  | [] => []
  | (name, item) :: next => (cString name, item.value numbers) :: namedValuesOf numbers next

end

/-- A finite number is printed as a number of the grammar. -/
def NumberFormat.Numerals (numbers : NumberFormat Double) : Prop :=
  forall number, numbers.isNanOrInf number = false ->
    readNumber (numbers.general number) = some (numbers.general number, [])

/-! ## The text denotes the value -/

theorem blanks_indent (format : Bool) (depth : Nat) : Blanks (indent format depth) := by
  intro byte member
  rw [indent] at member
  split_ifs at member
  · rw [List.eq_of_mem_replicate member]
    rfl
  · cases member

theorem blanks_lineEnd (format : Bool) : Blanks (lineEnd format) := by
  cases format
  · exact blanks_nil
  · intro byte member
    rw [List.mem_singleton.mp member]
    rfl

theorem denotes_printStringPtr (input : List UInt8) : Denotes (Handler.printStringPtr input)
    (.string input) := by
  rw [Handler.printStringPtr_eq]
  exact denotes_string (spelled_flatMap Handler.spells_escapeByte input)

theorem denotes_numberText (numerals : numbers.Numerals) (valuedouble : Double) (valueint : Int) :
    Denotes (numberText numbers valuedouble valueint) (Item.value numbers (.number valuedouble valueint)) := by
  rw [Item.value]
  by_cases notNumber : numbers.isNanOrInf valuedouble = true
  · rw [if_pos notNumber, numberText, if_pos notNumber]
    exact denotes_null
  · rw [if_neg notNumber]
    apply denotes_number
    rw [numberText, if_neg notNumber]
    split_ifs
    · have read := @readNumber_formatDec [] valueint (fun _ first => by cases first)
      rw [List.append_nil] at read
      exact read
    · exact numerals valuedouble (Bool.not_eq_true _ ▸ notNumber)

mutual

/-- The text of an item denotes its value. -/
theorem denotes_itemText (numerals : numbers.Numerals) (format : Bool) (depth : Nat) (item : Item Double) :
    Denotes (itemText numbers format depth item) (item.value numbers) := by
  cases item with
  | null =>
      rw [itemText, Item.value]
      exact denotes_null
  | «false» =>
      rw [itemText, Item.value]
      exact denotes_false
  | «true» =>
      rw [itemText, Item.value]
      exact denotes_true
  | number valuedouble valueint =>
      rw [itemText]
      exact denotes_numberText numerals valuedouble valueint
  | string valuestring =>
      rw [itemText, Item.value]
      exact denotes_printStringPtr (cString valuestring)
  | array child =>
      rw [itemText, Item.value]
      by_cases none : child = []
      · rw [none, elementsText, valuesOf]
        exact denotes_emptyArray blanks_nil
      · have elements := denotes_elementsText numerals format (depth + 1) child none blanks_nil
        exact denotes_array elements
  | object child =>
      rw [itemText, Item.value]
      by_cases none : child = []
      · rw [none, membersText, namedValuesOf, List.nil_append, ← List.append_assoc]
        exact denotes_emptyObject ((blanks_lineEnd format).append (blanks_indent format depth))
      · have members := denotes_membersText numerals format (depth + 1) child none blanks_nil
          (blanks_indent format depth)
        have whole := denotes_object (blanks_lineEnd format) members
        rw [List.nil_append, List.append_assoc] at whole
        exact whole

theorem denotes_elementsText (numerals : numbers.Numerals) (format : Bool) (depth : Nat)
    (child : List (Item Double)) (some_ : child ≠ []) {front : List UInt8} (ahead : Blanks front) :
    DenotesElements (front ++ elementsText numbers format depth child) (valuesOf numbers child) := by
  cases child with
  | nil => exact absurd rfl some_
  | cons item next =>
      have first := denotes_itemText numerals format depth item
      rw [elementsText, valuesOf]
      by_cases last : next = []
      · rw [last, elementsText, valuesOf]
        exact denotesElements_last first ahead blanks_nil
      · rw [if_neg (by rw [List.isEmpty_iff]; exact last)]
        cases format with
        | «false» =>
            have others := denotes_elementsText numerals false depth next last blanks_nil
            exact denotesElements_more first ahead blanks_nil others
        | «true» =>
            have others := denotes_elementsText numerals true depth next last blanks_space
            exact denotesElements_more first ahead blanks_nil others

theorem denotes_membersText (numerals : numbers.Numerals) (format : Bool) (depth : Nat)
    (child : List (List UInt8 × Item Double)) (some_ : child ≠ []) {front back : List UInt8}
    (ahead : Blanks front) (behind : Blanks back) :
    DenotesMembers (front ++ (membersText numbers format depth child ++ back))
      (namedValuesOf numbers child) := by
  cases child with
  | nil => exact absurd rfl some_
  | cons member next =>
      rcases member with ⟨name, item⟩
      have value := denotes_itemText numerals format depth item
      have spelled := spelled_flatMap Handler.spells_escapeByte (cString name)
      have indented : Blanks (front ++ indent format depth) := ahead.append (blanks_indent format depth)
      have named : forall rest, Handler.printStringPtr (cString name) ++ (nameColon format ++ rest) =
          34 :: ((cString name).flatMap Handler.escapeByte ++
            34 :: 58 :: ((if format then [9] else []) ++ rest)) := by
        intro rest
        rw [Handler.printStringPtr_eq]
        cases format <;> simp [nameColon]
      have between : Blanks (if format then [9] else []) := by
        intro byte member
        split_ifs at member
        · rw [List.mem_singleton.mp member]
          rfl
        · cases member
      rw [membersText, namedValuesOf]
      by_cases last : next = []
      · have whole := denotesMembers_last spelled value indented between ((blanks_lineEnd format).append behind)
        rw [last, membersText, namedValuesOf, named]
        simp only [List.isEmpty_nil, if_true, List.append_assoc, List.nil_append, List.append_nil,
          List.cons_append] at whole ⊢
        exact whole
      · have others := denotes_membersText numerals format depth next last (blanks_lineEnd format) behind
        have whole := denotesMembers_more spelled value indented between blanks_nil others
        rw [if_neg (by rw [List.isEmpty_iff]; exact last), named]
        simp only [List.append_assoc, List.nil_append, List.cons_append] at whole ⊢
        exact whole

end

/-! ## The C string -/

theorem lineEnd_noZero (format : Bool) : (0 : UInt8) ∉ lineEnd format :=
  fun zero => absurd (blanks_lineEnd format 0 zero) (by decide)

mutual

theorem itemText_noZero (format : Bool) (depth : Nat) (item : Item Double) :
    (0 : UInt8) ∉ itemText numbers format depth item := by
  cases item with
  | null =>
      rw [itemText]
      decide
  | «false» =>
      rw [itemText]
      decide
  | «true» =>
      rw [itemText]
      decide
  | number valuedouble valueint =>
      rw [itemText]
      exact numberText_noZero numbers valuedouble valueint
  | string valuestring =>
      rw [itemText]
      exact printStringPtr_noZero (zero_notMem_cString valuestring)
  | array child =>
      have elements := elementsText_noZero format (depth + 1) child
      rw [itemText]
      simp only [List.mem_cons, List.mem_append, List.not_mem_nil, or_false, not_or]
      exact ⟨by decide, elements, by decide⟩
  | object child =>
      have members := membersText_noZero format (depth + 1) child
      rw [itemText]
      simp only [List.mem_cons, List.mem_append, List.not_mem_nil, or_false, not_or]
      exact ⟨by decide, lineEnd_noZero format, members, indent_noZero format depth, by decide⟩

theorem elementsText_noZero (format : Bool) (depth : Nat) (child : List (Item Double)) :
    (0 : UInt8) ∉ elementsText numbers format depth child := by
  cases child with
  | nil =>
      rw [elementsText]
      exact List.not_mem_nil
  | cons item next =>
      have first := itemText_noZero format depth item
      have others := elementsText_noZero format depth next
      rw [elementsText]
      simp only [List.mem_append, not_or]
      refine ⟨first, ?_, others⟩
      cases format <;> split_ifs <;> decide

theorem membersText_noZero (format : Bool) (depth : Nat) (child : List (List UInt8 × Item Double)) :
    (0 : UInt8) ∉ membersText numbers format depth child := by
  cases child with
  | nil =>
      rw [membersText]
      exact List.not_mem_nil
  | cons member next =>
      rcases member with ⟨name, item⟩
      have first := itemText_noZero format depth item
      have others := membersText_noZero format depth next
      rw [membersText]
      simp only [List.mem_append, not_or]
      refine ⟨indent_noZero format depth, printStringPtr_noZero (zero_notMem_cString name), ?_, first, ?_,
        lineEnd_noZero format, others⟩
      · cases format <;> decide
      · split_ifs <;> decide

end

/-- The returned block, as a C string, is the text. -/
theorem cString_itemText (numbers : NumberFormat Double) (format : Bool) (item : Item Double) :
    cString (itemText numbers format 0 item ++ [0]) = itemText numbers format 0 item :=
  cString_append_zero (fun _ member zero => itemText_noZero format 0 item (zero ▸ member))

theorem parse_itemText (numerals : numbers.Numerals) (format : Bool) (item : Item Double) :
    Json.parse rfc8259 (cString (itemText numbers format 0 item ++ [0])) = some (item.value numbers) := by
  rw [cString_itemText]
  exact (denotes_itemText numerals format 0 item).parse

/-- The printer stays inside its buffers and refuses only for want of memory, for a number that is too
long or for the nesting.  What it returns, with the format or without, is a JSON text that is read as the
value of the item. -/
theorem print_denotes (numerals : numbers.Numerals) (memory : Memory) (format : Bool) (item : Item Double) :
    Yields (Room memory ((itemText numbers format 0 item).length + 2) ∧ item.NumbersFit numbers ∧
        item.nesting ≤ nestingLimit)
      (print memory numbers format item) (fun printed => printed = itemText numbers format 0 item ++ [0] ∧
        Json.parse rfc8259 (cString printed) = some (item.value numbers)) := by
  refine (print_yields memory numbers format item).mono id ?_
  rintro printed rfl
  exact ⟨rfl, parse_itemText numerals format item⟩

/-! ## Parsing what was printed -/

mutual

/-- The strings are C strings, and the numbers are those that `strtod` gets from their texts. -/
def Item.ReadsBack (doubles : Doubles Double) (numbers : NumberFormat Double) : Item Double -> Prop
  | .null => True
  | .false => True
  | .true => True
  | .number valuedouble valueint => numbers.isNanOrInf valuedouble = false ∧
      (doubles.strtod (numberText numbers valuedouble valueint)).1 = valuedouble ∧
      doubles.valueint valuedouble = valueint
  | .string valuestring => (0 : UInt8) ∉ valuestring
  | .array child => ElementsReadBack doubles numbers child
  | .object child => MembersReadBack doubles numbers child

def ElementsReadBack (doubles : Doubles Double) (numbers : NumberFormat Double) : List (Item Double) -> Prop
  | [] => True
  | item :: next => item.ReadsBack doubles numbers ∧ ElementsReadBack doubles numbers next

def MembersReadBack (doubles : Doubles Double) (numbers : NumberFormat Double) :
    List (List UInt8 × Item Double) -> Prop
  | [] => True
  | (name, item) :: next =>
      ((0 : UInt8) ∉ name ∧ item.ReadsBack doubles numbers) ∧ MembersReadBack doubles numbers next

end

mutual

/-- The item of the value of an item is that item. -/
theorem itemOf_value (item : Item Double) (readsBack : item.ReadsBack doubles numbers) :
    itemOf doubles (item.value numbers) = item := by
  cases item with
  | null => rw [Item.value, itemOf]
  | «false» => rw [Item.value, itemOf]
  | «true» => rw [Item.value, itemOf]
  | number valuedouble valueint =>
      rw [Item.ReadsBack] at readsBack
      rw [Item.value, if_neg (by rw [readsBack.1]; exact Bool.false_ne_true), itemOf, readsBack.2.1,
        readsBack.2.2]
  | string valuestring =>
      rw [Item.ReadsBack] at readsBack
      rw [Item.value, itemOf, ← Handler.eq_cString_iff.mpr readsBack]
  | array child =>
      rw [Item.ReadsBack] at readsBack
      rw [Item.value, itemOf, itemsOf_valuesOf child readsBack]
  | object child =>
      rw [Item.ReadsBack] at readsBack
      rw [Item.value, itemOf, namedItemsOf_namedValuesOf child readsBack]

theorem itemsOf_valuesOf (child : List (Item Double)) (readBack : ElementsReadBack doubles numbers child) :
    itemsOf doubles (valuesOf numbers child) = child := by
  cases child with
  | nil => rw [valuesOf, itemsOf]
  | cons item next =>
      rw [ElementsReadBack] at readBack
      rw [valuesOf, itemsOf, itemOf_value item readBack.1, itemsOf_valuesOf next readBack.2]

theorem namedItemsOf_namedValuesOf (child : List (List UInt8 × Item Double))
    (readBack : MembersReadBack doubles numbers child) :
    namedItemsOf doubles (namedValuesOf numbers child) = child := by
  cases child with
  | nil => rw [namedValuesOf, namedItemsOf]
  | cons member next =>
      rcases member with ⟨name, item⟩
      rw [MembersReadBack] at readBack
      rw [namedValuesOf, namedItemsOf, itemOf_value item readBack.1.2,
        namedItemsOf_namedValuesOf next readBack.2,
        ← Handler.eq_cString_iff.mpr readBack.1.1]

end

/-- An item that is printed and parsed again is the same item, if the printer does not run out
of memory or of `INT_MAX`, the nesting keeps to the limit, and the numbers survive. -/
theorem parse_print (takes : TakesNumerals doubles) (numerals : numbers.Numerals) {memory : Memory}
    {format : Bool}
    {item : Item Double} (room : Room memory ((itemText numbers format 0 item).length + 2))
    (fit : item.NumbersFit numbers) (shallow : item.nesting ≤ nestingLimit)
    (readsBack : item.ReadsBack doubles numbers) :
    (print memory numbers format item >>= fun printed => parse doubles printed) = .ok item := by
  rcases (print_yields memory numbers format item).exists_ok ⟨room, fit, shallow⟩ with ⟨printed,
    isPrinted, isText⟩
  have same := itemOf_value item readsBack
  have reads := parse_itemText numerals format item
  rw [← isText] at reads
  have parsed := parse_of_reads takes reads (by rw [same]; exact shallow) (Or.inl rfl)
  rw [isPrinted, ok_bind, parsed, same]

/-! ## Integers as doubles -/

/-- A printer of integers. -/
def wholeNumbers : NumberFormat Int where
  isNanOrInf := fun _ => false
  equalsInt := fun number value => number == value
  general := formatDec
  general_noZero := fun _ zero => absurd (formatDec_bounds zero).1 (by decide)

theorem numerals_wholeNumbers : wholeNumbers.Numerals := by
  intro number _
  have read := @readNumber_formatDec [] number (fun _ first => by cases first)
  rw [List.append_nil] at read
  exact read

/-- `{"a": [7, "\n"], "b": {}}`. -/
def sampleItem : Item Int :=
  .object [([97], .array [.number 7 7, .string [10]]), ([98], .object [])]

theorem room_sampleItem (format : Bool) :
    Room ⟨fun _ => true, fun _ => 0⟩ ((itemText wholeNumbers format 0 sampleItem).length + 2) :=
  ⟨fun _ => rfl, by cases format <;> decide⟩

theorem numbersFit_sampleItem : sampleItem.NumbersFit wholeNumbers := by
  simp only [sampleItem, Item.NumbersFit, ElementsFit, MembersFit]
  decide

theorem parse_print_sample :
    (print ⟨fun _ => true, fun _ => 0⟩ wholeNumbers true sampleItem >>=
      fun printed => parse wholeDoubles printed) = .ok sampleItem :=
  parse_print takesNumerals_wholeDoubles numerals_wholeNumbers (room_sampleItem true) numbersFit_sampleItem
    (by decide) (by simp only [sampleItem, Item.ReadsBack, ElementsReadBack, MembersReadBack]; decide)

theorem print_denotes_sample : Exists fun printed =>
    print ⟨fun _ => true, fun _ => 0⟩ wholeNumbers false sampleItem = .ok printed ∧
      printed = itemText wholeNumbers false 0 sampleItem ++ [0] ∧
      Json.parse rfc8259 (cString printed) = some (sampleItem.value wholeNumbers) :=
  (print_denotes numerals_wholeNumbers _ false sampleItem).exists_ok
    ⟨room_sampleItem false, numbersFit_sampleItem, by decide⟩

end Cjson
end AdbBridge
