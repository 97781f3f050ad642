import AdbBridge.Library.Numeral
import AdbBridge.Library.Search

namespace Library
namespace HeaderFields

open Numeral

/-!
# Header blocks

A first line, then fields of a name and a value, each on a line of its own, then
an empty line.  Names are compared without their case.  A name with its colon is
searched for as a text: it may be found in the first line, in a field that
stands before, at the field itself, or in what stands behind.
-/

/-- Text on a single line. -/
structure Line where
  bytes : List UInt8
  oneLine : forall byte, byte ∈ bytes -> byte ≠ 0 ∧ byte ≠ 10 ∧ byte ≠ 13
deriving DecidableEq, Repr

/-- A field; its value includes the blanks behind the colon. -/
structure Field where
  name : Line
  value : Line
  noColon : (58 : UInt8) ∉ name.bytes
deriving DecidableEq, Repr

/-- A header block: the first line and the fields. -/
structure Headers where
  first : Line
  fields : List Field
deriving DecidableEq, Repr

/-- Optional white space around a value. -/
def isOws (byte : UInt8) : Bool := byte == 32 || byte == 9

/-- The white space in front of a value. -/
def Field.blanks (field : Field) : List UInt8 := field.value.bytes.takeWhile isOws

/-- The value without it. -/
def Field.body (field : Field) : List UInt8 := field.value.bytes.dropWhile isOws

/-- The field has the given name. -/
def Field.isNamed (name : List UInt8) (field : Field) : Bool :=
  field.name.bytes.map lower == name.map lower

/-- A field on its line. -/
def Field.text (field : Field) : List UInt8 :=
  field.name.bytes ++ 58 :: (field.value.bytes ++ [13, 10])

/-- The text of some fields. -/
def renderFields (fields : List Field) : List UInt8 := fields.flatMap Field.text

namespace Headers

/-- The text of a block. -/
def render (headers : Headers) : List UInt8 :=
  headers.first.bytes ++ [13, 10] ++ (renderFields headers.fields ++ [13, 10])

/-- The first field with a name. -/
def lookup (name : List UInt8) (headers : Headers) : Option Field :=
  headers.fields.find? (Field.isNamed name)

end Headers

/-- The first field with the name gets another value. -/
def replaceFirst (name : List UInt8) (value : Line) : List Field -> List Field
  | [] => []
  | field :: rest =>
      if field.isNamed name then { field with value := value } :: rest
      else field :: replaceFirst name value rest

namespace Headers

/-- The block with another value of the first field with the name. -/
def replace (name : List UInt8) (value : Line) (headers : Headers) : Headers :=
  { headers with fields := replaceFirst name value headers.fields }

/-- The text before the first field with the name. -/
def before (name : List UInt8) (headers : Headers) : List UInt8 :=
  headers.first.bytes ++ [13, 10] ++
    renderFields (headers.fields.takeWhile (fun field => !field.isNamed name))

/-- The text behind the line of the first field with the name. -/
def behind (name : List UInt8) (headers : Headers) : List UInt8 :=
  renderFields ((headers.fields.dropWhile (fun field => !field.isNamed name)).drop 1) ++ [13, 10]

end Headers

variable {name value : List UInt8} {headers : Headers} {field : Field}

/-- A block is the text before a field, the field, and the text behind it. -/
theorem render_replace (found : headers.lookup name = some field) (value : Line) :
    (headers.replace name value).render =
      headers.before name ++ (field.name.bytes ++ 58 :: (value.bytes ++ 13 :: 10 :: headers.behind name)) := by
  rcases headers with ⟨first, fields⟩
  have split : renderFields (replaceFirst name value fields) =
      renderFields (fields.takeWhile (fun field => !field.isNamed name)) ++
        (field.name.bytes ++ 58 :: (value.bytes ++ 13 :: 10 ::
          renderFields ((fields.dropWhile (fun field => !field.isNamed name)).drop 1))) := by
    unfold Headers.lookup at found
    dsimp only at found
    clear first
    induction fields with
    | nil => cases found
    | cons other rest inductionHypothesis =>
        by_cases here : other.isNamed name = true
        · rw [List.find?_cons_of_pos here] at found
          have isField := Option.some.inj found
          subst isField
          rw [replaceFirst, if_pos here, List.takeWhile_cons_of_neg (by rw [here]; decide),
            List.dropWhile_cons_of_neg (by rw [here]; decide)]
          simp [renderFields, Field.text]
        · rw [List.find?_cons_of_neg here] at found
          have later := inductionHypothesis found
          have passes : (!other.isNamed name) = true := by
            rw [(Bool.not_eq_true _).mp here]
            rfl
          rw [replaceFirst, if_neg here,
            List.takeWhile_cons_of_pos (p := fun field : Field => !field.isNamed name) passes,
            List.dropWhile_cons_of_pos (p := fun field : Field => !field.isNamed name) passes]
          change other.text ++ renderFields _ = (other.text ++ renderFields _) ++ _
          rw [later, List.append_assoc]
  simp only [Headers.render, Headers.replace, Headers.before, Headers.behind]
  rw [split]
  simp [List.append_assoc]

/-- Without the field there is nothing to replace. -/
theorem replace_eq_self (absent : headers.lookup name = none) (value : Line) :
    headers.replace name value = headers := by
  rcases headers with ⟨first, fields⟩
  have same : replaceFirst name value fields = fields := by
    unfold Headers.lookup at absent
    dsimp only at absent
    clear first
    induction fields with
    | nil => rfl
    | cons other rest inductionHypothesis =>
        have none := List.find?_eq_none.mp absent
        rw [replaceFirst, if_neg (none other List.mem_cons_self),
          inductionHypothesis (List.find?_eq_none.mpr fun later member =>
            none later (List.mem_cons_of_mem _ member))]
  rw [Headers.replace, same]

/-- Nor does the value a field has already change anything. -/
theorem replace_own (found : headers.lookup name = some field) :
    headers.replace name field.value = headers := by
  rcases headers with ⟨first, fields⟩
  have same : replaceFirst name field.value fields = fields := by
    unfold Headers.lookup at found
    dsimp only at found
    clear first
    induction fields with
    | nil => rfl
    | cons other rest inductionHypothesis =>
        by_cases here : other.isNamed name = true
        · rw [List.find?_cons_of_pos here] at found
          rw [replaceFirst, if_pos here, Option.some.inj found]
        · rw [List.find?_cons_of_neg here] at found
          rw [replaceFirst, if_neg here, inductionHypothesis found]
  rw [Headers.replace, same]

/-- A value is its blanks and what stands behind them. -/
theorem Field.blanks_body (field : Field) : field.blanks ++ field.body = field.value.bytes :=
  List.takeWhile_append_dropWhile

/-- The text before a field ends a line. -/
theorem before_ends (name : List UInt8) (headers : Headers) :
    Exists fun text => headers.before name = text ++ [10] := by
  have fieldEnds : forall fields : List Field, fields ≠ [] ->
      Exists fun text => renderFields fields = text ++ [10] := by
    intro fields some
    rcases List.eq_nil_or_concat' fields with none | ⟨others, last, same⟩
    · exact absurd none some
    · refine ⟨renderFields others ++ (last.name.bytes ++ 58 :: (last.value.bytes ++ [13])), ?_⟩
      rw [same]
      simp [renderFields, Field.text]
  by_cases none : headers.fields.takeWhile (fun field => !field.isNamed name) = []
  · refine ⟨headers.first.bytes ++ [13], ?_⟩
    rw [Headers.before, none, renderFields, List.flatMap_nil, List.append_nil, List.append_assoc]
    rfl
  · rcases fieldEnds _ none with ⟨text, ends⟩
    refine ⟨headers.first.bytes ++ [13, 10] ++ text, ?_⟩
    rw [Headers.before, ends, ← List.append_assoc]

/-! ## A name searched for as a text -/

open Search

/-- A shorter name in front of a colon is passed over. -/
theorem afterFirst_shorter {sought : List UInt8} (soughtFree : (58 : UInt8) ∉ sought)
    (nameFree : (58 : UInt8) ∉ name) (shorter : name.length ≤ sought.length) (other : name ≠ sought)
    (rest : List UInt8) :
    afterFirst (sought ++ [58]) (name ++ 58 :: rest) = afterFirst (sought ++ [58]) rest := by
  have notHere : forall text : List UInt8, (58 : UInt8) ∉ text -> text ≠ sought ->
      ¬ sought ++ [58] <+: text ++ 58 :: rest := by
    rintro text free differs ⟨more, split⟩
    rw [List.append_assoc, List.singleton_append] at split
    exact differs (split_inj split soughtFree free).1.symm
  induction name with
  | nil =>
      have absent : ¬ sought ++ [58] <+: 58 :: rest := notHere [] List.not_mem_nil other
      rw [List.nil_append, afterFirst, if_neg absent]
  | cons byte name inductionHypothesis =>
      rw [List.length_cons] at shorter
      have free : (58 : UInt8) ∉ name := fun member => nameFree (List.mem_cons_of_mem byte member)
      have differs : name ≠ sought := by
        rintro rfl
        omega
      have absent : ¬ sought ++ [58] <+: byte :: (name ++ 58 :: rest) :=
        notHere (byte :: name) nameFree other
      rw [List.cons_append, afterFirst, if_neg absent, inductionHypothesis free (by omega) differs]

/-- Where the search for a name ends that is not found before the field: at the
field itself if that is its name, and otherwise behind its colon. -/
theorem afterFirst_block {sought before : List UInt8} (rest : List UInt8)
    (soughtFree : (10 : UInt8) ∉ sought ∧ (58 : UInt8) ∉ sought)
    (ends : Exists fun text => before = text ++ [10])
    (absent : afterFirst (sought ++ [58]) before = none)
    (nameFree : (58 : UInt8) ∉ name) (size : name.length = sought.length) :
    afterFirst (sought ++ [58]) (before ++ (name ++ 58 :: rest)) =
      if name = sought then some rest else afterFirst (sought ++ [58]) rest := by
  rcases ends with ⟨text, isBefore⟩
  have some : sought ++ [58] ≠ [] := by simp
  have noFeed : (10 : UInt8) ∉ sought ++ [58] := by
    rw [List.mem_append]
    rintro (member | member)
    · exact soughtFree.1 member
    · exact absurd (List.mem_singleton.mp member) (by decide)
  have absentText : afterFirst (sought ++ [58]) text = none := by
    cases found : afterFirst (sought ++ [58]) text with
    | none => rfl
    | some rest =>
        rw [isBefore, afterFirst_append found] at absent
        cases absent
  rw [isBefore, List.append_assoc, List.singleton_append, afterFirst_append_cons some noFeed absentText]
  by_cases same : name = sought
  · subst same
    have here : afterFirst (name ++ [58]) (name ++ [58] ++ rest) = Option.some rest := by
      cases shape : name ++ [58] with
      | nil => exact absurd shape some
      | cons byte more =>
          have starts : byte :: more <+: byte :: (more ++ rest) := List.prefix_append (byte :: more) rest
          rw [List.cons_append, afterFirst, if_pos starts, ← List.cons_append, List.drop_left]
    rw [List.append_assoc, List.singleton_append] at here
    rw [if_pos rfl, here]
  · rw [if_neg same, afterFirst_shorter soughtFree.2 nameFree (Nat.le_of_eq size) same]

end HeaderFields
end Library
