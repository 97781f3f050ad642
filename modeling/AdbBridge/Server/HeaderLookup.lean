import AdbBridge.Library.HeaderFields
import AdbBridge.Server.RequestLine

namespace AdbBridge
namespace Server

open Library Library.Numeral Library.HeaderFields Library.Search

/-!
# Header lookup against the header fields

`get_content_length` and `is_chunked` search the whole block for a name in one of
two spellings.  What they find is the field only if the name is spelled so and
nothing before it contains the same text; a field in lower case is also missed
if the capitalised name stands anywhere behind it.

A block can be answered right by accident, when a stray name carries the value of the
field.  A lookup follows its field if it is right for the block as it is, and stays
right when the number in the value is another, or a word is put in front of the value.
-/

/-! ## What the functions should report -/

def contentLengthName : List UInt8 := ascii "Content-Length"

def transferEncodingName : List UInt8 := ascii "Transfer-Encoding"

/-- The number the value of the field starts with, or -1 without a field. -/
def expectedLength (headers : Headers) : Int :=
  match headers.lookup contentLengthName with
  | some field => strtol 10 field.value.bytes
  | none => -1

/-- Whether the value of the field starts with `chunked`. -/
def expectedChunked (headers : Headers) : Bool :=
  match headers.lookup transferEncodingName with
  | some field => (ascii "chunked").isPrefixOf field.body
  | none => false

/-- A number that a `long` can hold. -/
structure Number where
  digits : List UInt8
  nonempty : digits ≠ []
  isDigits : forall byte, byte ∈ digits -> isDigit byte = true
  fits : (digitsValue 10 digits : Int) ≤ longMax

/-- A text without a `t`, so that no spelling of `Transfer-Encoding` begins in it. -/
structure Word where
  line : Line
  plain : forall byte, byte ∈ line.bytes -> byte ≠ 84 ∧ byte ≠ 116
  first : forall byte, line.bytes.head? = some byte -> isOws byte = false

variable {name lower : List UInt8} {headers : Headers} {field : Field}

theorem digit_plain {byte : UInt8} (digit : isDigit byte = true) :
    byte ≠ 0 ∧ byte ≠ 10 ∧ byte ≠ 13 ∧ byte ≠ 67 ∧ byte ≠ 99 := by
  refine ⟨?_, ?_, ?_, ?_, ?_⟩ <;> (rintro rfl; exact absurd digit (by decide))

theorem mem_blanks {byte : UInt8} (member : byte ∈ field.blanks) : byte = 32 ∨ byte = 9 := by
  have isBlank := List.mem_takeWhile_imp member
  rw [isOws, Bool.or_eq_true, beq_iff_eq, beq_iff_eq] at isBlank
  exact isBlank

theorem oneLine_body {byte : UInt8} (member : byte ∈ field.body) : byte ≠ 0 ∧ byte ≠ 10 ∧ byte ≠ 13 :=
  field.value.oneLine byte ((List.dropWhile_suffix _).subset member)

/-- The value with another number in the place of its own. -/
def withNumber (field : Field) (number : Number) : Line where
  bytes := field.blanks ++ (number.digits ++ field.body.dropWhile isDigit)
  oneLine := by
    intro byte member
    rcases List.mem_append.mp member with blank | later
    · exact field.value.oneLine byte ((List.takeWhile_prefix _).subset blank)
    · rcases List.mem_append.mp later with digit | behind
      · have known := digit_plain (number.isDigits byte digit)
        exact ⟨known.1, known.2.1, known.2.2.1⟩
      · exact oneLine_body ((List.dropWhile_suffix _).subset behind)

/-- The value with a word in front of what it holds. -/
def withWord (field : Field) (word : Word) : Line where
  bytes := field.blanks ++ (word.line.bytes ++ field.body)
  oneLine := by
    intro byte member
    rcases List.mem_append.mp member with blank | later
    · exact field.value.oneLine byte ((List.takeWhile_prefix _).subset blank)
    · rcases List.mem_append.mp later with inWord | behind
      · exact word.line.oneLine byte inWord
      · exact oneLine_body behind

/-- `get_content_length` reports the field of the block, and any other number in it. -/
structure LengthFollows (headers : Headers) : Prop where
  own : getContentLength headers.render = expectedLength headers
  varied : forall field, headers.lookup contentLengthName = some field -> forall number,
    getContentLength (headers.replace contentLengthName (withNumber field number)).render =
      digitsValue 10 number.digits

/-- `is_chunked` looks at the field of the block, whatever is put in front of its value. -/
structure CodingFollows (headers : Headers) : Prop where
  own : isChunked headers.render = expectedChunked headers
  varied : forall field, headers.lookup transferEncodingName = some field -> forall word,
    isChunked (headers.replace transferEncodingName (withWord field word)).render =
      (ascii "chunked").isPrefixOf (word.line.bytes ++ field.body)

/-! ## Where the search ends -/

/-- The text from the start of a value of the field on. -/
def valueOn (name : List UInt8) (headers : Headers) (value : Line) : List UInt8 :=
  value.bytes ++ 13 :: 10 :: headers.behind name

/-- A field with this spelling of its name is the first that the search for the
two spellings meets. -/
structure Finds (name lower : List UInt8) (headers : Headers) (field : Field) : Prop where
  noneBefore : afterFirst (name ++ [58]) (headers.before name) = none
  spelled : field.name.bytes = name ∨
    field.name.bytes = lower ∧ afterFirst (name ++ [58]) (valueOn name headers field.value) = none ∧
      afterFirst (lower ++ [58]) (headers.before name) = none

/-- `strstr` with the needle dropped is what stands behind the first occurrence. -/
theorem strstr_drop {needle : List UInt8} (some : needle ≠ []) (text : List UInt8) :
    (strstr needle text).map (fun found => found.drop needle.length) = afterFirst needle text := by
  induction text with
  | nil => rw [strstr, if_neg some]; rfl
  | cons byte rest inductionHypothesis =>
      rw [strstr, afterFirst]
      by_cases here : needle <+: byte :: rest
      · rw [if_pos here, if_pos (List.isPrefixOf_iff_prefix.mpr here)]
        rfl
      · rw [if_neg here, if_neg (fun found => here (List.isPrefixOf_iff_prefix.mp found))]
        exact inductionHypothesis

/-- The text a lookup reads from. -/
theorem fieldValue_eq {name lower : List UInt8} (size : lower.length = name.length) (headers : List UInt8) :
    fieldValue (name ++ [58]) (lower ++ [58]) headers =
      ((afterFirst (name ++ [58]) headers).or (afterFirst (lower ++ [58]) headers)).map
        (fun found => found.dropWhile (fun byte => byte == 32)) := by
  have sizes : (lower ++ [(58 : UInt8)]).length = (name ++ [(58 : UInt8)]).length := by
    rw [List.length_append, List.length_append, size]
  rw [fieldValue, ← strstr_drop (by simp), ← strstr_drop (by simp), sizes]
  cases strstr (name ++ [58]) headers <;> cases strstr (lower ++ [58]) headers <;> rfl

/-- A field name in its two spellings. -/
structure Spellings (name lower : List UInt8) : Prop where
  size : lower.length = name.length
  nameFree : (10 : UInt8) ∉ name ∧ (58 : UInt8) ∉ name
  lowerFree : (10 : UInt8) ∉ lower ∧ (58 : UInt8) ∉ lower

/-- A field with a name is as long as it. -/
theorem length_of_lookup (found : headers.lookup name = some field) :
    field.name.bytes.length = name.length := by
  have isNamed : field.isNamed name = true := List.find?_some found
  have length := congrArg List.length (beq_iff_eq.mp isNamed)
  rwa [List.length_map, List.length_map] at length

/-- From the value on, the names stand where they stand with the value the field has. -/
structure Alike (name lower : List UInt8) (headers : Headers) (field : Field) (value : Line) : Prop where
  capital : afterFirst (name ++ [58]) (valueOn name headers value) =
    afterFirst (name ++ [58]) (valueOn name headers field.value)
  small : afterFirst (lower ++ [58]) (valueOn name headers value) =
    afterFirst (lower ++ [58]) (valueOn name headers field.value)

/-- They do if the values differ in front only, and not by the letters the names begin with. -/
theorem alike_of_tail {letter small : UInt8} {more less front ownFront tail : List UInt8} {value : Line}
    (isName : name = letter :: more) (isLower : lower = small :: less) (isValue : value.bytes = front ++ tail)
    (isOwn : field.value.bytes = ownFront ++ tail)
    (free : forall byte, byte ∈ front ++ ownFront -> byte ≠ letter ∧ byte ≠ small) :
    Alike name lower headers field value := by
  have skips : forall {first : UInt8} {rest skipped : List UInt8}, first ∉ skipped ->
      afterFirst (first :: rest) ((skipped ++ tail) ++ 13 :: 10 :: headers.behind name) =
        afterFirst (first :: rest) (tail ++ 13 :: 10 :: headers.behind name) := by
    intro first rest skipped absent
    rw [List.append_assoc]
    exact (first_append_of_absent absent _).1
  have inFront : letter ∉ front ∧ small ∉ front :=
    ⟨fun member => (free _ (List.mem_append_left _ member)).1 rfl,
      fun member => (free _ (List.mem_append_left _ member)).2 rfl⟩
  have inOwn : letter ∉ ownFront ∧ small ∉ ownFront :=
    ⟨fun member => (free _ (List.mem_append_right _ member)).1 rfl,
      fun member => (free _ (List.mem_append_right _ member)).2 rfl⟩
  refine ⟨?_, ?_⟩
  · rw [valueOn, valueOn, isValue, isOwn, isName, List.cons_append, ← isName, skips inFront.1, skips inOwn.1]
  · rw [valueOn, valueOn, isValue, isOwn, isLower, List.cons_append, skips inFront.2, skips inOwn.2]

/-- A block with another value of the field. -/
theorem render_valueOn (found : headers.lookup name = some field) (value : Line) :
    (headers.replace name value).render =
      headers.before name ++ (field.name.bytes ++ 58 :: valueOn name headers value) :=
  render_replace found value

/-- A search that finds the field reads from its value. -/
theorem fieldValue_of_finds (spellings : Spellings name lower) (found : headers.lookup name = some field)
    (finds : Finds name lower headers field) {value : Line} (alike : Alike name lower headers field value) :
    fieldValue (name ++ [58]) (lower ++ [58]) (headers.replace name value).render =
      some ((valueOn name headers value).dropWhile (fun byte => byte == 32)) := by
  have size := length_of_lookup found
  have capital := afterFirst_block (valueOn name headers value) spellings.nameFree (before_ends name headers)
    finds.noneBefore field.noColon size
  rw [fieldValue_eq spellings.size, render_valueOn found, capital]
  by_cases isName : field.name.bytes = name
  · rw [if_pos isName]
    rfl
  · rcases finds.spelled.resolve_left isName with ⟨isLower, noneBehind, noneBefore⟩
    have small := afterFirst_block (valueOn name headers value) spellings.lowerFree
      (before_ends name headers) noneBefore field.noColon (size.trans spellings.size.symm)
    rw [if_neg isName, alike.capital, noneBehind, Option.none_or, small, if_pos isLower]
    rfl

/-- What is found before a field goes on to the end of a line at least. -/
theorem ends_of_afterFirst {sought before rest : List UInt8} (ends : Exists fun text => before = text ++ [10])
    (found : afterFirst (sought ++ [58]) before = some rest) : Exists fun text => rest = text ++ [10] := by
  rcases ends with ⟨text, isBefore⟩
  have split := split_of_afterFirst found
  rcases List.eq_nil_or_concat' rest with none | ⟨front, last, same⟩
  · rw [none, List.append_nil, ← List.append_assoc, isBefore] at split
    have impossible : (10 : UInt8) = 58 := (List.append_inj' split rfl).2 |> List.cons.inj |>.1
    exact absurd impossible (by decide)
  · refine ⟨front, ?_⟩
    rw [same, ← List.append_assoc, ← List.append_assoc, isBefore] at split
    rw [same, (List.append_inj' split rfl).2]

/-- A search that does not find the field reports the same for all values that are alike:
it reads from the middle of the value or from behind it, or nothing, or it reads from a
line before the field on. -/
theorem fieldValue_of_not_finds (spellings : Spellings name lower) (found : headers.lookup name = some field)
    (misses : ¬ Finds name lower headers field) :
    (Exists fun result => forall value, Alike name lower headers field value ->
      fieldValue (name ++ [58]) (lower ++ [58]) (headers.replace name value).render = result) ∨
    Exists fun text => forall value, Alike name lower headers field value ->
      fieldValue (name ++ [58]) (lower ++ [58]) (headers.replace name value).render =
        some ((text ++ 10 :: (field.name.bytes ++ 58 :: valueOn name headers value)).dropWhile
          (fun byte => byte == 32)) := by
  have size := length_of_lookup found
  have ends := before_ends name headers
  have capital : forall value : Line, afterFirst (name ++ [58]) (headers.before name) = none ->
      afterFirst (name ++ [58]) (headers.replace name value).render =
        if field.name.bytes = name then some (valueOn name headers value)
        else afterFirst (name ++ [58]) (valueOn name headers value) := by
    intro value absent
    rw [render_valueOn found]
    exact afterFirst_block _ spellings.nameFree ends absent field.noColon size
  have small : forall value : Line, afterFirst (lower ++ [58]) (headers.before name) = none ->
      afterFirst (lower ++ [58]) (headers.replace name value).render =
        if field.name.bytes = lower then some (valueOn name headers value)
        else afterFirst (lower ++ [58]) (valueOn name headers value) := by
    intro value absent
    rw [render_valueOn found]
    exact afterFirst_block _ spellings.lowerFree ends absent field.noColon (size.trans spellings.size.symm)
  have stray : forall sought text : List UInt8, forall value : Line,
      afterFirst (sought ++ [58]) (headers.before name) = some (text ++ [10]) ->
      afterFirst (sought ++ [58]) (headers.replace name value).render =
        some (text ++ 10 :: (field.name.bytes ++ 58 :: valueOn name headers value)) := by
    intro sought text value isBefore
    rw [render_valueOn found, afterFirst_append isBefore, List.append_assoc]
    rfl
  simp only [fieldValue_eq spellings.size]
  cases capitalBefore : afterFirst (name ++ [58]) (headers.before name) with
  | some rest =>
      rcases ends_of_afterFirst ends capitalBefore with ⟨text, isRest⟩
      rw [isRest] at capitalBefore
      refine Or.inr ⟨text, fun value _ => ?_⟩
      rw [stray name text value capitalBefore]
      rfl
  | none =>
      have notName : field.name.bytes ≠ name := fun isName => misses ⟨capitalBefore, Or.inl isName⟩
      cases capitalBehind : afterFirst (name ++ [58]) (valueOn name headers field.value) with
      | some rest =>
          refine Or.inl ⟨some (rest.dropWhile (fun byte => byte == 32)), fun value alike => ?_⟩
          rw [capital value capitalBefore, if_neg notName, alike.capital, capitalBehind]
          rfl
      | none =>
          cases smallBefore : afterFirst (lower ++ [58]) (headers.before name) with
          | some rest =>
              rcases ends_of_afterFirst ends smallBefore with ⟨text, isRest⟩
              rw [isRest] at smallBefore
              refine Or.inr ⟨text, fun value alike => ?_⟩
              rw [capital value capitalBefore, if_neg notName, alike.capital, capitalBehind, Option.none_or,
                stray lower text value smallBefore]
              rfl
          | none =>
              have notLower : field.name.bytes ≠ lower := fun isLower =>
                misses ⟨capitalBefore, Or.inr ⟨isLower, capitalBehind, smallBefore⟩⟩
              refine Or.inl ⟨(afterFirst (lower ++ [58]) (valueOn name headers field.value)).map
                (fun found => found.dropWhile (fun byte => byte == 32)), fun value alike => ?_⟩
              rw [capital value capitalBefore, if_neg notName, alike.capital, capitalBehind, Option.none_or,
                small value smallBefore, if_neg notLower, alike.small]

/-! ## What is read from the text that was found -/

theorem spellings_contentLength : Spellings contentLengthName (ascii "content-length") :=
  ⟨by decide, by decide, by decide⟩

theorem spellings_transferEncoding : Spellings transferEncodingName (ascii "transfer-encoding") :=
  ⟨by decide, by decide, by decide⟩

theorem getContentLength_eq (headers : List UInt8) :
    getContentLength headers =
      (fieldValue (contentLengthName ++ [58]) (ascii "content-length" ++ [58]) headers).elim (-1)
        (strtol 10) := by
  have spelled : ascii "Content-Length:" = contentLengthName ++ [58] := by decide
  have small : ascii "content-length:" = ascii "content-length" ++ [58] := by decide
  rw [getContentLength, spelled, small]
  cases fieldValue (contentLengthName ++ [58]) (ascii "content-length" ++ [58]) headers <;> rfl

theorem isChunked_eq (headers : List UInt8) :
    isChunked headers =
      (fieldValue (transferEncodingName ++ [58]) (ascii "transfer-encoding" ++ [58]) headers).elim false
        (fun value => (ascii "chunked").isPrefixOf value) := by
  have spelled : ascii "Transfer-Encoding:" = transferEncodingName ++ [58] := by decide
  have small : ascii "transfer-encoding:" = ascii "transfer-encoding" ++ [58] := by decide
  rw [isChunked, spelled, small]
  cases fieldValue (transferEncodingName ++ [58]) (ascii "transfer-encoding" ++ [58]) headers <;> rfl

theorem alike_own : Alike name lower headers field field.value := ⟨rfl, rfl⟩

theorem alike_withNumber (number : Number) :
    Alike contentLengthName (ascii "content-length") headers field (withNumber field number) := by
  refine alike_of_tail (rfl : contentLengthName = 67 :: ascii "ontent-Length")
    (rfl : ascii "content-length" = 99 :: ascii "ontent-length")
    (List.append_assoc field.blanks number.digits (field.body.dropWhile isDigit)).symm
    (?_ : _ = (field.blanks ++ field.body.takeWhile isDigit) ++ field.body.dropWhile isDigit) ?_
  · rw [List.append_assoc, List.takeWhile_append_dropWhile, Field.blanks_body]
  · intro byte member
    have isBlankOrDigit : byte ∈ field.blanks ∨ isDigit byte = true := by
      rcases List.mem_append.mp member with varied | own
      · exact (List.mem_append.mp varied).imp id (number.isDigits byte)
      · exact (List.mem_append.mp own).imp id List.mem_takeWhile_imp
    rcases isBlankOrDigit with blank | digit
    · rcases mem_blanks blank with rfl | rfl <;> decide
    · exact (digit_plain digit).2.2.2

theorem alike_withWord (word : Word) :
    Alike transferEncodingName (ascii "transfer-encoding") headers field (withWord field word) := by
  refine alike_of_tail (rfl : transferEncodingName = 84 :: ascii "ransfer-Encoding")
    (rfl : ascii "transfer-encoding" = 116 :: ascii "ransfer-encoding")
    (List.append_assoc field.blanks word.line.bytes field.body).symm (Field.blanks_body field).symm ?_
  intro byte member
  have isBlankOrWord : byte ∈ field.blanks ∨ byte ∈ word.line.bytes := by
    rcases List.mem_append.mp member with varied | own
    · exact List.mem_append.mp varied
    · exact Or.inl own
  rcases isBlankOrWord with blank | inWord
  · rcases mem_blanks blank with rfl | rfl <;> decide
  · exact word.plain byte inWord

theorem isSpace_of_isBlank (byte : UInt8) (isBlank : (byte == 32) = true) : isSpace byte = true := by
  rw [beq_iff_eq.mp isBlank]
  decide

/-- The number is read up to the rest of the value. -/
theorem strtol_withNumber (number : Number) :
    strtol 10 ((valueOn name headers (withNumber field number)).dropWhile (fun byte => byte == 32)) =
      digitsValue 10 number.digits := by
  have spaces : forall byte, byte ∈ field.blanks -> isSpace byte = true := by
    intro byte member
    rcases mem_blanks member with rfl | rfl <;> decide
  rw [strtol_dropWhile isSpace_of_isBlank, valueOn, withNumber, List.append_assoc,
    strtol_append_of_spaces spaces, List.append_assoc]
  refine strtol_digits number.nonempty number.isDigits ?_ number.fits
  intro byte isNext
  have ended := List.head?_dropWhile_not isDigit field.body
  cases tail : field.body.dropWhile isDigit with
  | nil =>
      rw [tail] at isNext
      rw [← Option.some.inj isNext]
      decide
  | cons first rest =>
      rw [tail] at isNext ended
      rw [← Option.some.inj isNext]
      exact ended

/-- The value itself is read to its end, and if it is blank, what stands behind it. -/
theorem strtol_own (value : Line) :
    strtol 10 ((valueOn name headers value).dropWhile (fun byte => byte == 32)) = strtol 10 value.bytes ↔
      ((forall byte, byte ∈ value.bytes -> isSpace byte = true) -> strtol 10 (headers.behind name) = 0) := by
  rw [strtol_dropWhile isSpace_of_isBlank, valueOn]
  by_cases blank : forall byte, byte ∈ value.bytes -> isSpace byte = true
  · have lineEnd : forall byte, byte ∈ [13, 10] -> isSpace byte = true := forall_mem_of_all (by decide)
    have nothing : strtol 10 value.bytes = 0 := by
      have read := strtol_append_of_spaces blank 10 []
      rw [List.append_nil] at read
      rw [read]
      decide
    have onwards : strtol 10 (13 :: 10 :: headers.behind name) = strtol 10 (headers.behind name) :=
      strtol_append_of_spaces lineEnd 10 (headers.behind name)
    rw [strtol_append_of_spaces blank, onwards, nothing]
    exact ⟨fun zero _ => zero, fun zero => zero blank⟩
  · have some : Exists fun byte => byte ∈ value.bytes ∧ isSpace byte = false := by
      by_contra none
      exact blank (fun byte member => Bool.not_eq_false _ ▸ fun other => none ⟨byte, member, other⟩)
    rw [strtol_ten_line some]
    exact iff_of_true rfl (fun all => absurd all blank)

/-- A text on a line starts with a word if the line does. -/
theorem chunked_stop {byte : UInt8} (control : byte = 10 ∨ byte = 13) (text rest : List UInt8) :
    (ascii "chunked").isPrefixOf ((text ++ byte :: rest).dropWhile (fun byte => byte == 32)) =
      (ascii "chunked").isPrefixOf (text.dropWhile (fun byte => byte == 32)) := by
  have notBlank : (byte == 32) = false := by
    rcases control with rfl | rfl <;> decide
  have free : byte ∉ ascii "chunked" := by
    rcases control with rfl | rfl <;> decide
  have stops := (@while_stop (fun byte => byte == 32) byte notBlank text rest).2
  rw [stops, Bool.eq_iff_iff, List.isPrefixOf_iff_prefix, List.isPrefixOf_iff_prefix]
  exact ⟨prefix_of_prefix_append_cons free, fun isPrefix => isPrefix.trans (List.prefix_append _ _)⟩

/-- Blanks that are no tabs are skipped. -/
theorem dropWhile_blanks (noTab : (9 : UInt8) ∉ field.blanks) {text : List UInt8}
    (first : forall byte, text.head? = some byte -> isOws byte = false) :
    (field.blanks ++ text).dropWhile (fun byte => byte == 32) = text := by
  have spaces : forall byte, byte ∈ field.blanks -> (byte == 32) = true := by
    intro byte member
    rcases mem_blanks member with rfl | rfl
    · rfl
    · exact absurd member noTab
  rw [List.dropWhile_append_of_pos spaces]
  cases text with
  | nil => rfl
  | cons byte rest =>
      refine List.dropWhile_cons_of_neg (fun space => ?_)
      have blank := first byte rfl
      rw [beq_iff_eq.mp space] at blank
      exact absurd blank (by decide)

/-- A tab is not, and so no word behind it is seen. -/
theorem not_chunked_of_tab (tab : (9 : UInt8) ∈ field.blanks) (text : List UInt8) :
    (ascii "chunked").isPrefixOf ((field.blanks ++ text).dropWhile (fun byte => byte == 32)) = false := by
  have nonempty : field.blanks.dropWhile (fun byte => byte == 32) ≠ [] := by
    intro empty
    exact absurd (List.dropWhile_eq_nil_iff.mp empty 9 tab) (by decide)
  rw [List.dropWhile_append, if_neg (by simpa using nonempty)]
  cases left : field.blanks.dropWhile (fun byte => byte == 32) with
  | nil => exact absurd left nonempty
  | cons byte rest =>
      have member : byte ∈ field.blanks :=
        (List.dropWhile_suffix _).subset (left ▸ List.mem_cons_self)
      have stops := List.head?_dropWhile_not (fun byte : UInt8 => byte == 32) field.blanks
      rw [left] at stops
      rcases mem_blanks member with rfl | rfl
      · have differs : ((32 : UInt8) == 32) = false := stops
        exact absurd differs (by decide)
      · rfl

/-- Behind its blanks a value begins with none. -/
theorem head_body (byte : UInt8) (isHead : field.body.head? = some byte) : isOws byte = false := by
  have stops := List.head?_dropWhile_not isOws field.value.bytes
  rw [Field.body] at isHead
  rw [isHead] at stops
  exact stops

theorem head_withWord (word : Word) (byte : UInt8) (isHead : (word.line.bytes ++
    field.body).head? = some byte) :
    isOws byte = false := by
  cases bytes : word.line.bytes with
  | nil =>
      rw [bytes] at isHead
      exact head_body byte isHead
  | cons first rest =>
      rw [bytes] at isHead
      exact word.first byte (bytes ▸ isHead)

/-- The number behind a stray name that is read up to a field does not depend on
the value of the field. -/
theorem strtol_stray (found : headers.lookup contentLengthName = some field) (text rest other : List UInt8) :
    strtol 10 ((text ++ 10 :: (field.name.bytes ++ 58 :: rest)).dropWhile (fun byte => byte == 32)) =
      strtol 10 ((text ++ 10 :: (field.name.bytes ++ 58 :: other)).dropWhile (fun byte => byte == 32)) := by
  have isNamed : field.isNamed contentLengthName = true := List.find?_some found
  have letters := beq_iff_eq.mp isNamed
  cases name : field.name.bytes with
  | nil =>
      rw [name] at letters
      exact absurd letters (by decide)
  | cons byte more =>
      have isC : lower byte = 99 := by
        rw [name, List.map_cons] at letters
        exact (List.cons.inj letters).1
      have known : byte = 67 ∨ byte = 99 := by
        unfold lower at isC
        split at isC
        · refine Or.inl (UInt8.toNat_inj.mp ?_)
          have value := congrArg UInt8.toNat isC
          rw [UInt8.toNat_add] at value
          have small := byte.toNat_lt
          simp only [UInt8.reduceToNat] at value ⊢
          omega
        · exact Or.inr isC
      have facts : (byte == 32) = false ∧ isSpace byte = false ∧ byte ≠ 45 ∧ byte ≠ 43 ∧
        isDigit byte = false := by
        rcases known with rfl | rfl <;> decide
      have shape : forall tail : List UInt8, text ++ 10 :: (byte :: more ++ 58 :: tail) =
          (text ++ [10]) ++ byte :: (more ++ 58 :: tail) := by
        intro tail
        rw [List.append_assoc]
        rfl
      have stops := fun tail => (@while_stop (fun byte => byte == 32) byte facts.1 (text ++ [10]) tail).2
      rw [shape, shape, stops, stops]
      exact strtol_ten_stop facts.2.1 facts.2.2.1 facts.2.2.2.1 facts.2.2.2.2 _ _ _

/-! ## When the lookups are right -/

/-- The text reads -1: behind blanks a minus sign, zeros, and a one that no digit follows. -/
def ReadsMinusOne (text : List UInt8) : Prop :=
  Exists fun zeros => Exists fun rest =>
    text.dropWhile isSpace = 45 :: (List.replicate zeros 48 ++ 49 :: rest) ∧
      forall byte, rest.head? = some byte -> isDigit byte = false

/-- The search for `Content-Length:` finds the field, and if its value is blank, no number
stands behind it.  Without a field it finds nothing, or a stray name in front of the very
number -1. -/
def FindsLength (headers : Headers) : Prop :=
  match headers.lookup contentLengthName with
  | some field => Finds contentLengthName (ascii "content-length") headers field ∧
      ((forall byte, byte ∈ field.value.bytes -> isSpace byte = true) ->
        strtol 10 (headers.behind contentLengthName) = 0)
  | none => forall value,
      fieldValue (contentLengthName ++ [58]) (ascii "content-length" ++ [58]) headers.render = some value ->
        ReadsMinusOne value

/-- The search for `Transfer-Encoding:` finds the field, and no tab stands in front of its
value.  Without a field it finds nothing, or a stray name that is not in front of `chunked`. -/
def FindsCoding (headers : Headers) : Prop :=
  match headers.lookup transferEncodingName with
  | some field => Finds transferEncodingName (ascii "transfer-encoding") headers field ∧
      (9 : UInt8) ∉ field.blanks
  | none => forall value,
      fieldValue (transferEncodingName ++ [58]) (ascii "transfer-encoding" ++
        [58]) headers.render = some value ->
        ¬ ascii "chunked" <+: value

/-- A number of one digit. -/
def singleDigit (digit : UInt8) (isDigit : isDigit digit = true) : Number where
  digits := [digit]
  nonempty := List.cons_ne_nil _ _
  isDigits := by
    intro byte member
    rw [List.mem_singleton.mp member]
    exact isDigit
  fits := by
    have value := digitValue_of_isDigit isDigit
    have small := digit.toNat_lt
    have bound : longMax = 9223372036854775807 := rfl
    rw [digitsValue_cons, value, List.length_nil, Nat.pow_zero, Nat.mul_one]
    change ((digit.toNat - 48 + 0 : Nat) : Int) ≤ longMax
    omega

theorem lengthFollows_iff (headers : Headers) : LengthFollows headers ↔ FindsLength headers := by
  unfold FindsLength
  cases found : headers.lookup contentLengthName with
  | none =>
      have expected : expectedLength headers = -1 := by rw [expectedLength, found]
      constructor
      · intro follows value isFound
        have reads := follows.own
        rw [expected, getContentLength_eq, isFound] at reads
        exact strtol_ten_eq_neg_one_iff.mp reads
      · intro harmless
        refine ⟨?_, fun field isField => absurd (found.symm.trans isField) nofun⟩
        rw [expected, getContentLength_eq]
        cases isFound : fieldValue (contentLengthName ++ [58])
          (ascii "content-length" ++ [58]) headers.render with
        | none => rfl
        | some value => exact strtol_ten_eq_neg_one_iff.mpr (harmless value isFound)
  | some field =>
      have expected : expectedLength headers = strtol 10 field.value.bytes := by rw [expectedLength, found]
      have own : Finds contentLengthName (ascii "content-length") headers field ->
          (getContentLength headers.render = expectedLength headers ↔
            ((forall byte, byte ∈ field.value.bytes -> isSpace byte = true) ->
              strtol 10 (headers.behind contentLengthName) = 0)) := by
        intro finds
        have reads := fieldValue_of_finds spellings_contentLength found finds alike_own
        rw [replace_own found] at reads
        rw [expected, getContentLength_eq, reads]
        exact strtol_own field.value
      constructor
      · intro follows
        have finds : Finds contentLengthName (ascii "content-length") headers field := by
          by_contra misses
          have zero := follows.varied field found (singleDigit 48 (by decide))
          have one := follows.varied field found (singleDigit 49 (by decide))
          rw [getContentLength_eq] at zero one
          rcases fieldValue_of_not_finds spellings_contentLength found misses with ⟨result, same⟩ |
            ⟨text, stray⟩
          · rw [same _ (alike_withNumber _)] at zero one
            exact absurd (zero.symm.trans one) (by decide)
          · rw [stray _ (alike_withNumber _)] at zero one
            have values := zero.symm.trans ((strtol_stray found text _ _).trans one)
            exact absurd values (by decide)
        exact ⟨finds, (own finds).mp follows.own⟩
      · rintro ⟨finds, behind⟩
        refine ⟨(own finds).mpr behind, fun other isField number => ?_⟩
        rw [← Option.some.inj (found.symm.trans isField), getContentLength_eq,
          fieldValue_of_finds spellings_contentLength found finds (alike_withNumber number)]
        exact strtol_withNumber number

/-- The codings `gzip` and `chunked`. -/
def gzipWord : Word where
  line := ⟨ascii "gzip", forall_mem_of_all (by decide)⟩
  plain := forall_mem_of_all (by decide)
  first := fun byte isHead => Option.some.inj isHead ▸ by decide

def chunkedWord : Word where
  line := ⟨ascii "chunked", forall_mem_of_all (by decide)⟩
  plain := forall_mem_of_all (by decide)
  first := fun byte isHead => Option.some.inj isHead ▸ by decide

theorem codingFollows_iff (headers : Headers) : CodingFollows headers ↔ FindsCoding headers := by
  unfold FindsCoding
  cases found : headers.lookup transferEncodingName with
  | none =>
      have expected : expectedChunked headers = false := by rw [expectedChunked, found]
      constructor
      · intro follows value isFound isPrefix
        have reads := follows.own
        rw [expected, isChunked_eq, isFound] at reads
        exact Bool.false_ne_true (reads.symm.trans (List.isPrefixOf_iff_prefix.mpr isPrefix))
      · intro harmless
        refine ⟨?_, fun field isField => absurd (found.symm.trans isField) nofun⟩
        rw [expected, isChunked_eq]
        cases isFound : fieldValue (transferEncodingName ++ [58]) (ascii "transfer-encoding" ++ [58])
            headers.render with
        | none => rfl
        | some value =>
            exact Bool.eq_false_iff.mpr
              (fun isPrefix => harmless value isFound (List.isPrefixOf_iff_prefix.mp isPrefix))
  | some field =>
      have chunked : (ascii "chunked").isPrefixOf (chunkedWord.line.bytes ++ field.body) = true :=
        List.isPrefixOf_iff_prefix.mpr (List.prefix_append _ _)
      constructor
      · intro follows
        have isTrue := (follows.varied field found chunkedWord).trans chunked
        have isFalse : isChunked (headers.replace transferEncodingName
          (withWord field gzipWord)).render = false :=
          follows.varied field found gzipWord
        rw [isChunked_eq] at isTrue isFalse
        have finds : Finds transferEncodingName (ascii "transfer-encoding") headers field := by
          by_contra misses
          rcases fieldValue_of_not_finds spellings_transferEncoding found misses with
            ⟨result, same⟩ | ⟨text, stray⟩
          · rw [same _ (alike_withWord _)] at isTrue isFalse
            exact absurd (isTrue.symm.trans isFalse) (by decide)
          · rw [stray _ (alike_withWord _)] at isTrue isFalse
            simp only [Option.elim_some, chunked_stop (Or.inl rfl)] at isTrue isFalse
            exact absurd (isTrue.symm.trans isFalse) (by decide)
        refine ⟨finds, fun tab => ?_⟩
        rw [fieldValue_of_finds spellings_transferEncoding found finds (alike_withWord chunkedWord),
          Option.elim_some, valueOn, chunked_stop (Or.inr rfl), withWord] at isTrue
        exact absurd ((not_chunked_of_tab tab _).symm.trans isTrue) Bool.false_ne_true
      · rintro ⟨finds, noTab⟩
        constructor
        · have reads := fieldValue_of_finds spellings_transferEncoding found finds alike_own
          rw [replace_own found] at reads
          rw [isChunked_eq, reads, Option.elim_some, valueOn, chunked_stop (Or.inr rfl), expectedChunked, found]
          dsimp only
          rw [← Field.blanks_body field, dropWhile_blanks noTab head_body]
        · intro other isField word
          rw [← Option.some.inj (found.symm.trans isField), isChunked_eq,
            fieldValue_of_finds spellings_transferEncoding found finds (alike_withWord word),
            Option.elim_some, valueOn, chunked_stop (Or.inr rfl), withWord,
            dropWhile_blanks noTab (head_withWord word)]

/-- The lookups follow the fields if and only if each search finds its field and reads
nothing else, or finds nothing that matters if there is none. -/
theorem headerLookup_iff (headers : Headers) :
    LengthFollows headers ∧ CodingFollows headers ↔ FindsLength headers ∧ FindsCoding headers :=
  and_congr (lengthFollows_iff headers) (codingFollows_iff headers)

/-- A request whose target holds the field name. -/
def strayHeaders : Headers where
  first := ⟨ascii "GET /api/health?Content-Length:9 HTTP/1.1", forall_mem_of_all (by decide)⟩
  fields := [⟨⟨contentLengthName, forall_mem_of_all (by decide)⟩, ⟨ascii " 2", forall_mem_of_all (by decide)⟩,
    by decide⟩]

/-- A request with the name of a field in capitals. -/
def capitalHeaders : Headers where
  first := ⟨ascii "POST /api/exec/pipe HTTP/1.1", forall_mem_of_all (by decide)⟩
  fields := [⟨⟨ascii "TRANSFER-ENCODING", forall_mem_of_all (by decide)⟩,
    ⟨ascii " chunked", forall_mem_of_all (by decide)⟩, by decide⟩]

/-- The length is taken from the target, and a name in capitals is not seen. -/
theorem headerLookup_misses :
    (getContentLength strayHeaders.render = 9 ∧ expectedLength strayHeaders = 2) ∧
      isChunked capitalHeaders.render = false ∧ expectedChunked capitalHeaders = true := by
  decide

end Server
end AdbBridge
