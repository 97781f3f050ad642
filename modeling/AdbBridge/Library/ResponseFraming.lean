import AdbBridge.Library.ChunkedCoding
import AdbBridge.Library.HeaderFields

namespace Library
namespace ResponseFraming

open Numeral Search HeaderFields ChunkedCoding

/-!
# Where a response ends

A response is a status line, fields and an empty line, and a body behind it.  One field
announces where the body ends: by its length, or by the chunked coding.  A response in
which two fields do so, or none, does not tell where it ends.

A field begins behind a line end; its name is compared without its case.
-/

/-! ## Complete responses -/

/-- The end of a head. -/
def emptyLine : List UInt8 := crlf ++ crlf

/-- The beginning of a field, with a name in lower case. -/
def fieldStart (name : List UInt8) : List UInt8 := crlf ++ name ++ [58]

/-- The beginnings of the two fields that announce the end of a body. -/
def lengthField : List UInt8 := fieldStart (ascii "content-length")

def codingField : List UInt8 := fieldStart (ascii "transfer-encoding")

/-- What stands behind the name of a field, without blanks in front. -/
def valueOf (behind : List UInt8) : List UInt8 :=
  (behind.dropWhile (fun byte => byte == 32)).takeWhile (fun byte => byte != 13)

/-- The values in a head of all fields that begin so. -/
def fieldValues (field head : List UInt8) : List (List UInt8) :=
  (occurrences field (head.map lower)).map valueOf

/-- How the end of a body is announced. -/
inductive Framing where
  | length (count : Nat)
  | chunked
deriving DecidableEq, Repr

/-- What a head announces, if it is a single field that does. -/
def framing (head : List UInt8) : Option Framing :=
  match fieldValues lengthField head, fieldValues codingField head with
  | [value], [] => if value ≠ [] ∧ value.all isDigit then some (.length (digitsValue 10 value)) else none
  | [], [value] => if value = ascii "chunked" then some .chunked else none
  | _, _ => none

/-- The body ends as it was announced: it has the length, or it consists of chunks that
are not empty and the last chunk. -/
def Framing.Ends (body : List UInt8) : Framing -> Prop
  | .length count => body.length = count
  | .chunked => (decodeChunks body).isSome = true

instance (body : List UInt8) (framing : Framing) : Decidable (framing.Ends body) := by
  cases framing
  · exact inferInstanceAs (Decidable (_ = _))
  · exact inferInstanceAs (Decidable (_ = true))

/-- The text begins as a status line does. -/
def startsStatus (text : List UInt8) : Bool :=
  (ascii "HTTP/1.1 ").isPrefixOf text && ((text.drop 9).take 3).all isDigit && text[12]? == some 32

/-- One complete response, and nothing behind it. -/
def Complete (response : List UInt8) : Prop :=
  startsStatus response = true ∧ Exists fun body => afterFirst emptyLine response = some body ∧
    Exists fun announced => framing (beforeFirst emptyLine response) = some announced ∧ announced.Ends body

/-! ## Heads -/

variable {head body lead behind : List UInt8}

theorem startsStatus_append (starts : startsStatus lead = true) (more : List UInt8) :
    startsStatus (lead ++ more) = true := by
  simp only [startsStatus, Bool.and_eq_true, beq_iff_eq] at starts
  rcases starts with ⟨⟨version, digits⟩, blank⟩
  rcases List.getElem?_eq_some_iff.mp blank with ⟨long, _⟩
  have code : ((lead ++ more).drop 9).take 3 = (lead.drop 9).take 3 := by
    rw [List.drop_append_of_le_length (by omega), List.take_append_of_le_length
      (by rw [List.length_drop]; omega)]
  simp only [startsStatus, Bool.and_eq_true, beq_iff_eq, code, List.getElem?_append_left long]
  refine ⟨⟨?_, digits⟩, blank⟩
  rw [List.isPrefixOf_iff_prefix] at version ⊢
  exact version.trans (List.prefix_append lead more)

/-- A head that ends with its only empty line decides how the body has to end. -/
theorem complete_head_iff {announced : Framing} (starts : startsStatus head = true)
    (ends : afterFirst emptyLine head = some [])
    (announces : framing (beforeFirst emptyLine head) = some announced) :
    Complete (head ++ body) ↔ announced.Ends body := by
  rw [Complete, afterFirst_append ends, beforeFirst_append ends, announces, List.nil_append]
  constructor
  · rintro ⟨_, found, isBody, other, isAnnounced, complete⟩
    rw [Option.some.inj isBody, Option.some.inj isAnnounced]
    exact complete
  · exact fun complete => ⟨startsStatus_append starts body, body, rfl, announced, rfl, complete⟩

/-! ## Announced lengths -/

/-- A head up to the colon behind which the length stands. -/
structure LengthLead (lead : List UInt8) : Prop where
  status : startsStatus lead = true
  inside : afterFirst emptyLine lead = none
  length : occurrences lengthField (lead.map lower) = [[]]
  coding : occurrences codingField (lead.map lower) = []

instance (lead : List UInt8) : Decidable (LengthLead lead) :=
  decidable_of_iff (startsStatus lead = true ∧ afterFirst emptyLine lead = none ∧
      occurrences lengthField (lead.map lower) = [[]] ∧ occurrences codingField (lead.map lower) = [])
    ⟨fun all => ⟨all.1, all.2.1, all.2.2.1, all.2.2.2⟩,
      fun all => ⟨all.status, all.inside, all.length, all.coding⟩⟩

/-- No field of the text announces where a body ends. -/
def Unframed (text : List UInt8) : Prop :=
  occurrences lengthField (text.map lower) = [] ∧ occurrences codingField (text.map lower) = []

instance (text : List UInt8) : Decidable (Unframed text) := inferInstanceAs (Decidable (_ ∧ _))

theorem lower_of_isDigit {byte : UInt8} (digit : isDigit byte = true) : lower byte = byte := by
  rw [isDigit, Bool.and_eq_true, decide_eq_true_eq, decide_eq_true_eq] at digit
  rw [lower, if_neg]
  rintro ⟨letter, _⟩
  exact absurd (UInt8.le_trans letter digit.2) (by decide)

/-- Digits have no case and end no line. -/
theorem digits_formatDec (count : Nat) :
    (formatDec (count : Int)).map lower = formatDec (count : Int) ∧ (13 : UInt8) ∉ formatDec (count : Int) := by
  constructor
  · have same : forall byte, byte ∈ formatDec (count : Int) -> lower byte = id byte := fun _ member =>
      lower_of_isDigit (isDigit_of_mem_formatDec member)
    rw [List.map_congr_left same, List.map_id]
  · intro member
    exact absurd (isDigit_of_mem_formatDec member) (by decide)

/-- A number up to the end of its line is read whole. -/
theorem valueOf_formatDec (count : Nat) {rest : List UInt8}
    (stops : forall byte, rest.head? = some byte -> byte = 13) :
    valueOf (32 :: (formatDec (count : Int) ++ rest)) = formatDec (count : Int) := by
  have digits : forall byte, byte ∈ formatDec (count : Int) -> byte ≠ 32 ∧ byte ≠ 13 := by
    intro byte member
    constructor <;> (rintro rfl; exact absurd (isDigit_of_mem_formatDec member) (by decide))
  have blanks : (32 :: (formatDec (count : Int) ++ rest)).dropWhile (fun byte => byte == 32) =
      formatDec (count : Int) ++ rest := by
    rw [List.dropWhile_cons_of_pos (by decide)]
    cases shape : formatDec (count : Int) with
    | nil => exact absurd shape (formatDec_ne_nil count)
    | cons first others =>
        have noBlank := (digits first (by rw [shape]; exact List.mem_cons_self)).1
        rw [List.cons_append, List.dropWhile_cons_of_neg (by simpa using noBlank)]
  have line : rest.takeWhile (fun byte => byte != 13) = [] := by
    cases rest with
    | nil => rfl
    | cons byte rest => rw [List.takeWhile_cons_of_neg (by simp [stops byte rfl])]
  rw [valueOf, blanks,
    List.takeWhile_append_of_pos (fun byte member => by simpa using (digits byte member).2), line,
    List.append_nil]

/-- The head of what stands before the first empty line. -/
theorem head_beforeFirst (stops : behind.head? = some 13) (byte : UInt8)
    (first : ((beforeFirst emptyLine behind).map lower).head? = some byte) : byte = 13 := by
  cases behind with
  | nil => cases stops
  | cons start rest =>
      have isReturn := Option.some.inj stops
      rw [beforeFirst] at first
      split_ifs at first
      · cases first
      · rw [← Option.some.inj first, isReturn]
        rfl

/-- What a head announces whose first part leads to a length. -/
theorem framing_length (isLead : LengthLead lead) (count : Nat) (stops : behind.head? = some 13) :
    framing (lead ++ 32 :: (formatDec (count : Int) ++ beforeFirst emptyLine behind)) =
      if Unframed (beforeFirst emptyLine behind) then some (.length count) else none := by
  have digits := digits_formatDec count
  have values : forall name : List UInt8, (32 : UInt8) ∉ fieldStart name ->
      occurrences (fieldStart name)
        ((lead ++ 32 :: (formatDec (count : Int) ++ beforeFirst emptyLine behind)).map lower) =
      (occurrences (fieldStart name) (lead.map lower)).map (fun found =>
          found ++ 32 :: (formatDec (count : Int) ++ (beforeFirst emptyLine behind).map lower)) ++
        occurrences (fieldStart name) ((beforeFirst emptyLine behind).map lower) := by
    intro name free
    have blank : lower 32 = 32 := by decide
    have pattern : fieldStart name = 13 :: (10 :: name ++ [58]) := rfl
    have some : fieldStart name ≠ [] := List.cons_ne_nil 13 _
    have behindDigits : occurrences (fieldStart name)
        (formatDec (count : Int) ++ (beforeFirst emptyLine behind).map lower) =
        occurrences (fieldStart name) ((beforeFirst emptyLine behind).map lower) := by
      rw [pattern]
      exact occurrences_append_of_absent digits.2 _
    rw [List.map_append, List.map_cons, List.map_append, digits.1, blank, occurrences_append_cons some free,
      behindDigits]
  rw [framing, fieldValues, fieldValues, lengthField, codingField, values _ (by decide), values _ (by decide)]
  rw [← lengthField, ← codingField, isLead.length, isLead.coding, List.map_singleton, List.nil_append,
    List.map_nil, List.nil_append, List.singleton_append, List.map_cons,
    valueOf_formatDec count (head_beforeFirst stops)]
  have number : formatDec (count : Int) ≠ [] ∧ (formatDec (count : Int)).all isDigit = true :=
    ⟨formatDec_ne_nil count, List.all_eq_true.mpr (fun _ member => isDigit_of_mem_formatDec member)⟩
  by_cases unframed : Unframed (beforeFirst emptyLine behind)
  · rw [if_pos unframed, unframed.1, unframed.2]
    exact (if_pos number).trans (by rw [digitsValue_formatDec])
  · rw [if_neg unframed]
    cases lengths : occurrences lengthField ((beforeFirst emptyLine behind).map lower) with
    | cons other more => rfl
    | nil =>
        cases codings : occurrences codingField ((beforeFirst emptyLine behind).map lower) with
        | cons other more => rfl
        | nil => exact absurd ⟨lengths, codings⟩ unframed

/-- The body of a response whose head leads to a length. -/
theorem afterFirst_length (isLead : LengthLead lead) (count : Nat)
    (ends : afterFirst emptyLine behind = some body) :
    afterFirst emptyLine (lead ++ 32 :: (formatDec (count : Int) ++ behind)) = some body := by
  have pattern : emptyLine = 13 :: [10, 13, 10] := rfl
  rw [afterFirst_append_cons (by decide) (by decide) isLead.inside, pattern,
    (first_append_of_absent (digits_formatDec count).2 behind).1, ← pattern, ends]

/-- A response whose head leads to a length is complete if and only if no other field
announces where it ends, and its body has this length. -/
theorem complete_length_iff (isLead : LengthLead lead) (count : Nat) (stops : behind.head? = some 13)
    (ends : afterFirst emptyLine behind = some body) :
    Complete (lead ++ 32 :: (formatDec (count : Int) ++ behind)) ↔
      Unframed (beforeFirst emptyLine behind) ∧ body.length = count := by
  have pattern : emptyLine = 13 :: [10, 13, 10] := rfl
  have digits := (digits_formatDec count).2
  have found := afterFirst_length isLead count ends
  have isHead : beforeFirst emptyLine (lead ++ 32 :: (formatDec (count : Int) ++ behind)) =
      lead ++ 32 :: (formatDec (count : Int) ++ beforeFirst emptyLine behind) := by
    rw [beforeFirst_append_cons (by decide) (by decide) isLead.inside, pattern,
      (first_append_of_absent digits behind).2]
  rw [Complete, found, isHead, framing_length isLead count stops]
  constructor
  · rintro ⟨_, other, isBody, announced, isAnnounced, complete⟩
    rcases Option.ite_none_right_eq_some.mp isAnnounced with ⟨unframed, same⟩
    rw [Option.some.inj isBody]
    rw [← Option.some.inj same] at complete
    exact ⟨unframed, complete⟩
  · rintro ⟨unframed, length⟩
    refine ⟨startsStatus_append isLead.status _, body, rfl, .length count, ?_, length⟩
    rw [if_pos unframed]

end ResponseFraming
end Library
