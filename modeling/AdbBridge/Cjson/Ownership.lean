import AdbBridge.Cjson.Grammar
import AdbBridge.Cjson.Pointers

namespace AdbBridge
namespace Cjson

open Library Library.Numeral Library.Blocks
open Library.Checked (Stop Meets read refuseIf bind_eq_ok_iff)

/-!
# What the parser owns

A `Node` is a structure in memory with the strings and the children it owns, and `segment` lists the
blocks of some siblings with the pointers between them.  Whichever calls of `malloc` fail,
`cJSON_Parse` gives back what it allocated or returns the item that the parser over the buffer finds,
and `cJSON_Delete` gives back exactly the blocks of that.
-/

variable {Double : Type}

/-! ## Nodes -/

/-- What a structure holds besides its links: its strings have blocks of their own. -/
structure Content (Double : Type) where
  kind : Kind
  valuedouble : Option Double
  valueint : Int
  name : Option (Nat × List UInt8)
  value : Option (Nat × List UInt8)

/-- A structure at its address, and its children. -/
inductive Node (Double : Type) where
  | mk (address : Nat) (content : Content Double) (children : List (Node Double))

namespace Node

def address : Node Double -> Nat
  | .mk address _ _ => address

def content : Node Double -> Content Double
  | .mk _ content _ => content

def children : Node Double -> List (Node Double)
  | .mk _ _ children => children

end Node

/-- The structure with the given links. -/
def Content.record (content : Content Double) (prev next child : Option Nat) : Record Double where
  next := next
  prev := prev
  child := child
  kind := content.kind
  isReference := Bool.false
  stringIsConst := Bool.false
  valuestring := content.value.map Prod.fst
  valueint := content.valueint
  valuedouble := content.valuedouble
  string := content.name.map Prod.fst

/-- A new structure. -/
def Content.zero : Content Double := ⟨.invalid, none, 0, none, none⟩

/-- A pointer to the first of some siblings, or to what is behind them. -/
def firstOr (nodes : List (Node Double)) (behind : Option Nat) : Option Nat :=
  match nodes with
  | [] => behind
  | node :: _ => some node.address

/-- A pointer to the last of some siblings, or to what is in front of them. -/
def lastOr (before : Option Nat) : List (Node Double) -> Option Nat
  | [] => before
  | node :: rest => lastOr (some node.address) rest

/-- The block of a string. -/
def textBlocks : Option (Nat × List UInt8) -> List (Nat × Cell Double)
  | none => []
  | some (block, bytes) => [(block, .text bytes)]

mutual

/-- The blocks of a structure between its siblings: its children are linked in both directions, and
`prev` of the first one points to the last one. -/
def Node.blocks (prev next : Option Nat) : Node Double -> List (Nat × Cell Double)
  | .mk address content children =>
      (address, .item (content.record prev next (firstOr children none))) ::
        (textBlocks content.value ++ (textBlocks content.name ++ segment (lastOr none children) children none))

/-- The blocks of some siblings. -/
def segment (prev : Option Nat) : List (Node Double) -> Option Nat -> List (Nat × Cell Double)
  | [], _ => []
  | node :: rest, next => node.blocks prev (firstOr rest next) ++ segment (some node.address) rest next

end

section Segments

variable {prev next : Option Nat} {front back : List (Node Double)}

theorem firstOr_append : firstOr (front ++ back) next = firstOr front (firstOr back next) := by
  cases front <;> rfl

theorem lastOr_append : lastOr prev (front ++ back) = lastOr (lastOr prev front) back := by
  induction front generalizing prev with
  | nil => rfl
  | cons node front inductionHypothesis => exact inductionHypothesis

theorem segment_append : segment prev (front ++ back) next =
    segment prev front (firstOr back next) ++ segment (lastOr prev front) back next := by
  induction front generalizing prev with
  | nil => rfl
  | cons node front inductionHypothesis =>
      rw [List.cons_append, segment, segment, inductionHypothesis, firstOr_append, List.append_assoc]
      rfl

end Segments

/-! ## The item of a node -/

mutual

/-- The structure is an item as the parser over the buffer builds it. -/
inductive Depicts : Node Double -> Item Double -> Prop
  | null {address content} (kind : content.kind = .null) (value : content.value = none) :
      Depicts (.mk address content []) .null
  | false {address content} (kind : content.kind = .false) (value : content.value = none) :
      Depicts (.mk address content []) .false
  | true {address content} (kind : content.kind = .true) (value : content.value = none) :
      Depicts (.mk address content []) .true
  | number {address content valuedouble valueint} (kind : content.kind = .number) (value : content.value = none)
      (isDouble : content.valuedouble = some valuedouble) (isInt : content.valueint = valueint) :
      Depicts (.mk address content []) (.number valuedouble valueint)
  | string {address content block text} (kind : content.kind = .string)
    (value : content.value = some (block, text)) :
      Depicts (.mk address content []) (.string text)
  | array {address content children elements} (kind : content.kind = .array) (value : content.value = none)
      (depict : DepictElements children elements) : Depicts (.mk address content children) (.array elements)
  | object {address content children members} (kind : content.kind = .object) (value : content.value = none)
      (depict : DepictMembers children members) : Depicts (.mk address content children) (.object members)

/-- The structures are the elements, and have no names. -/
inductive DepictElements : List (Node Double) -> List (Item Double) -> Prop
  | nil : DepictElements [] []
  | cons {node element nodes elements} (name : node.content.name = none) (depicts : Depicts node element)
      (rest : DepictElements nodes elements) : DepictElements (node :: nodes) (element :: elements)

/-- The structures are the members with their names. -/
inductive DepictMembers : List (Node Double) -> List (List UInt8 × Item Double) -> Prop
  | nil : DepictMembers [] []
  | cons {node block name value nodes members} (named : node.content.name = some (block, name))
      (depicts : Depicts node value) (rest : DepictMembers nodes members) :
      DepictMembers (node :: nodes) ((name, value) :: members)

end

/-! ## Single steps -/

section Steps

variable {β : Type} {memory : Heap (Cell Double)} {rest : List (Nat × Cell Double)}
  {result : β -> Heap (Cell Double) -> Prop} {item : Nat} {record : Record Double}

theorem performs_loadItem {next : Record Double -> Program (Cell Double) β}
    (holds : Holds memory ((item, .item record) :: rest)) (later : Performs (next record) memory result) :
    Performs (loadItem item >>= next) memory result := by
  rw [loadItem, bind_assoc]
  exact performs_load holds later

theorem performs_modifyItem {change : Record Double -> Record Double} {next : Unit -> Program (Cell Double) β}
    (holds : Holds memory ((item, .item record) :: rest))
    (later : forall after, Becomes memory after ((item, .item (change record)) :: rest) ->
      Performs (next ()) after result) :
    Performs (modifyItem item change >>= next) memory result := by
  rw [modifyItem, bind_assoc]
  apply performs_loadItem holds
  exact performs_store holds later

/-- The string of an item is given back. -/
theorem performs_freeText {text : Option (Nat × List UInt8)} {next : Unit -> Program (Cell Double) β}
    (holds : Holds memory (textBlocks text ++ rest))
    (later : forall after, Becomes memory after rest -> Performs (next ()) after result) :
    Performs (freeIfAny (text.map Prod.fst) >>= next) memory result := by
  cases text with
  | none => exact later memory ⟨holds, rfl⟩
  | some text => exact performs_free holds later

end Steps

/-! ## Deleting -/

/-- `cJSON_Delete` gives back the blocks of the siblings and no others. -/
theorem performs_deleteItems : forall (fuel : Nat) {prev : Option Nat} {nodes : List (Node Double)}
    {rest : List (Nat × Cell Double)} {memory : Heap (Cell Double)},
    Holds memory (segment prev nodes none ++ rest) -> (segment prev nodes none).length < fuel ->
      Performs (deleteItems fuel (firstOr nodes none)) memory (fun _ after => Becomes memory after rest) := by
  intro fuel
  induction fuel with
  | zero => exact fun _ enough => absurd enough (Nat.not_lt_zero _)
  | succ fuel inductionHypothesis =>
      intro prev nodes rest memory holds enough
      cases nodes with
      | nil => exact performs_pure ⟨holds, rfl⟩
      | cons node others =>
          rcases node with ⟨item, content, children⟩
          rw [segment, Node.blocks] at holds enough
          simp only [List.cons_append, List.append_assoc, Node.address] at holds
          simp only [List.cons_append, List.length_cons, List.length_append, Node.address] at enough
          change Performs (deleteItems (fuel + 1) (some item)) memory _
          rw [deleteItems]
          apply performs_loadItem holds
          -- the children stand behind the structure and its strings
          have children_ := holds.perm ((List.Perm.of_eq (by
            simp only [List.cons_append, List.append_assoc])).trans (List.perm_append_comm_assoc
              ((item, .item (content.record prev (firstOr others none) (firstOr children none))) ::
                (textBlocks content.value ++ textBlocks content.name))
              (segment (lastOr none children) children none)
              (segment (some item) others none ++ rest)))
          apply (inductionHypothesis children_ (by omega)).bind
          intro _ second childless
          have value := childless.holds
          simp only [List.cons_append, List.append_assoc] at value
          apply performs_freeText (value.perm List.perm_middle.symm)
          intro third valueless
          apply performs_freeText (valueless.holds.perm List.perm_middle.symm)
          intro fourth nameless
          apply performs_free nameless.holds
          intro fifth gone
          apply (inductionHypothesis gone.holds (by omega)).mono
          intro _ last becomes
          exact (((childless.trans valueless).trans nameless).trans gone).trans becomes

/-- There are blocks enough for `cJSON_Delete` to reach its end. -/
theorem performs_cJSONDelete {prev : Option Nat} {nodes : List (Node Double)} {rest : List (Nat × Cell Double)}
    {memory : Heap (Cell Double)} (holds : Holds memory (segment prev nodes none ++ rest)) :
    Performs (cJSONDelete (firstOr nodes none)) memory (fun _ after => Becomes memory after rest) := by
  have lengths := holds.length_eq
  rw [List.length_append] at lengths
  exact performs_deleteItems _ holds (by omega)

section Alone

variable {memory : Heap (Cell Double)} {rest : List (Nat × Cell Double)} {node : Node Double}

theorem holds_alone (holds : Holds memory (node.blocks none none ++ rest)) :
    Holds memory (segment none [node] none ++ rest) := by
  rw [segment, segment, List.append_nil]
  exact holds

/-- An item that stands alone is deleted. -/
theorem performs_deleteNode {β : Type} {program : Unit -> Program (Cell Double) β}
    {result : β -> Heap (Cell Double) -> Prop} (holds : Holds memory (node.blocks none none ++ rest))
    (later : forall after, Becomes memory after rest -> Performs (program ()) after result) :
    Performs (cJSONDelete (some node.address) >>= program) memory result :=
  (performs_cJSONDelete (holds_alone holds)).bind (fun _ after becomes => later after becomes)

/-- The run that deletes it gives back its blocks. -/
theorem delete_of_holds (holds : Holds memory (node.blocks none none ++ rest)) :
    Exists fun last => cJSONDelete (some node.address) memory = .ok ((), last) ∧ last.blocks.Perm rest := by
  rcases (performs_cJSONDelete (holds_alone holds)).exists_ok with ⟨_, last, deleted, gone⟩
  exact ⟨last, deleted, gone.holds.same⟩

end Alone

/-! ## Texts and numbers -/

/-- A parser over pointers did what the parser over the buffer does, without a refusal of the allocator; or
it did not, because one of the two refused. -/
def Follows {Value : Type} (computation : Except Stop (Value × ParseBuffer)) (memory after : Heap (Cell Double))
    (kept : Prop) (made : Value -> Prop) (result : Option ParseBuffer) : Prop :=
  (Exists fun behind => Exists fun value => result = some behind ∧ computation = .ok (value, behind) ∧
      after.refusals = memory.refusals ∧ made value) ∨
    (result = none ∧ (computation = .error .refused ∨ memory.refusals < after.refusals) ∧ kept)

/-- If the allocator had not refused until then, what follows a memory follows the one before. -/
theorem Follows.since {Value : Type} {computation : Except Stop (Value × ParseBuffer)}
    {before memory after : Heap (Cell Double)} {kept : Prop} {made : Value -> Prop}
    {result : Option ParseBuffer}
    (follows : Follows computation memory after kept made result) (same : memory.refusals = before.refusals) :
    Follows computation before after kept made result := by
  rw [Follows, ← same]
  exact follows

theorem parseString_eq (buffer : ParseBuffer) : parseString buffer =
    stringExtent buffer >>= fun found => stringOutput buffer found >>= fun output =>
      pure (output, { buffer with offset := found.1 + 1 }) := by
  simp only [parseString, stringExtent, stringOutput, bind_assoc, pure_bind]

section Leaves

variable {memory : Heap (Cell Double)} {rest : List (Nat × Cell Double)} {item : Nat} {record : Record Double}
  {buffer : ParseBuffer}

theorem performs_parseStringAt (holds : Holds memory ((item, .item record) :: rest))
    (safe : Meets (parseString buffer) (fun _ => True)) :
    Performs (parseStringAt item buffer) memory (fun result after =>
      Follows (parseString buffer) memory after (Holds after ((item, .item record) :: rest))
        (fun text => Exists fun block => Holds after
          ((item, .item { record with kind := .string, valuestring := some block }) :: (block,
              .text text) :: rest))
        result) := by
  rw [parseString_eq] at safe ⊢
  rw [parseStringAt]
  apply performs_attempt safe.before
  · intro found isFound
    apply performs_malloc holds
    · intro after stays more
      exact performs_pure (Or.inr ⟨rfl, Or.inr more, stays⟩)
    · intro block second allocated
      have inner := safe.behind isFound
      apply performs_attempt inner.before
      · intro output isOutput
        apply performs_store allocated.holds
        intro third stored
        apply performs_modifyItem (stored.holds.perm (List.Perm.swap _ _ _))
        intro fourth written
        refine performs_pure (Or.inl ⟨_, output, rfl, ?_, ?_, block, written.holds⟩)
        · rw [isFound, Checked.ok_bind, isOutput]
          rfl
        · exact ((allocated.trans stored).trans written).refusals
      · intro refused
        apply performs_free allocated.holds
        intro third freed
        refine performs_pure (Or.inr ⟨rfl, Or.inl ?_, freed.holds⟩)
        rw [isFound, Checked.ok_bind, refused]
        rfl
  · intro refused
    refine performs_pure (Or.inr ⟨rfl, Or.inl ?_, holds⟩)
    rw [refused]
    rfl

theorem performs_parseNumberAt (doubles : Doubles Double) (holds : Holds memory ((item, .item record) :: rest))
    (safe : Meets (parseNumber doubles buffer) (fun _ => True)) :
    Performs (parseNumberAt doubles item buffer) memory (fun result after =>
      Follows (parseNumber doubles buffer) memory after (Holds after ((item, .item record) :: rest))
        (fun number => Holds after ((item, .item (record.setNumber number)) :: rest)) result) := by
  rw [parseNumberAt]
  apply performs_malloc holds
  · intro after stays more
    exact performs_pure (Or.inr ⟨rfl, Or.inr more, stays⟩)
  · intro block second allocated
    apply performs_attempt safe
    · intro number isNumber
      apply performs_modifyItem (allocated.holds.perm (List.Perm.swap _ _ _))
      intro third written
      apply performs_free (written.holds.perm (List.Perm.swap _ _ _))
      intro fourth freed
      exact performs_pure (Or.inl ⟨number.2, number.1, rfl, isNumber,
        ((allocated.trans written).trans freed).refusals, freed.holds⟩)
    · intro refused
      apply performs_free allocated.holds
      intro third freed
      exact performs_pure (Or.inr ⟨rfl, Or.inl refused, freed.holds⟩)

end Leaves

/-! ## Linking -/

section Links

variable {β : Type} {memory : Heap (Cell Double)} {front nodes : List (Node Double)}
  {rest : List (Nat × Cell Double)} {item : Nat} {content : Content Double} {prev next : Option Nat}
  {program : Unit -> Program (Cell Double) β} {result : β -> Heap (Cell Double) -> Prop}

/-- An item without a value of its own and without children. -/
theorem blocks_childless (noValue : content.value = none) : (Node.mk item content []).blocks prev next =
    (item, .item (content.record prev next none)) :: textBlocks content.name := by
  rw [Node.blocks, segment, noValue, List.append_nil]
  rfl

/-- Siblings with one more behind them. -/
theorem segment_concat (node : Node Double) : segment prev (front ++ [node]) next =
    segment prev front (some node.address) ++ node.blocks (lastOr prev front) next := by
  rw [segment_append, segment, segment, List.append_nil]
  rfl

/-- The sibling is put behind the others, wherever its blocks stand. -/
theorem Holds.concat {node : Node Double} (holds : Holds memory
    (node.blocks (lastOr none front) none ++ (segment none front (some node.address) ++ rest))) :
    Holds memory (segment none (front ++ [node]) none ++ rest) := by
  rw [segment_concat, List.append_assoc]
  exact holds.perm (List.perm_append_comm_assoc _ _ _)

/-- An item is linked behind some siblings. -/
theorem performs_suffixObject {ahead : List (Node Double)} {last : Node Double} {record : Record Double}
    (holds : Holds memory ((item, .item record) :: (segment prev (ahead ++ [last]) none ++ rest)))
    (later : forall after, Becomes memory after ((item, .item { record with prev := some last.address }) ::
      (segment prev (ahead ++ [last]) (some item) ++ rest)) -> Performs (program ()) after result) :
    Performs (suffixObject last.address item >>= program) memory result := by
  rcases last with ⟨current, lastContent, children⟩
  rw [segment_concat, Node.blocks] at holds
  rw [segment_concat, Node.blocks] at later
  rw [suffixObject, bind_assoc]
  -- the last of the siblings is brought to the front and put back
  have first := holds.perm ((List.Perm.cons _ ((List.perm_append_comm.append_right rest).trans
    (List.Perm.of_eq (List.append_assoc _ _ _)))).trans (List.Perm.swap _ _ _))
  apply performs_modifyItem first
  intro second linked
  apply performs_modifyItem (linked.holds.perm (List.Perm.swap _ _ _))
  intro third becomes
  refine later third ⟨becomes.holds.perm (List.Perm.cons _ ?_), (linked.trans becomes).refusals⟩
  exact (List.perm_append_comm_assoc
    ((current, .item (lastContent.record (lastOr prev ahead) (some item) (firstOr children none))) ::
      (textBlocks lastContent.value ++ (textBlocks lastContent.name ++
          segment (lastOr none children) children none)))
    (segment prev ahead (some current)) rest).trans (List.Perm.of_eq (List.append_assoc _ _ _).symm)

/-- A new item is linked behind the siblings. -/
theorem performs_attach (holds : Holds memory ((item, .item Record.zero) :: (segment none front none ++ rest)))
    (later : forall after, Becomes memory after ((Node.mk item Content.zero []).blocks
        (lastOr none front) none ++
      (segment none front (some item) ++ rest)) -> Performs (program ()) after result) :
    Performs (attach (lastOr none front) item >>= program) memory result := by
  rcases List.eq_nil_or_concat front with none_ | ⟨ahead, last, isFront⟩
  · subst none_
    exact later memory ⟨holds, rfl⟩
  · rw [List.concat_eq_append] at isFront
    subst isFront
    have isLast : lastOr none (ahead ++ [last]) = some last.address := lastOr_append
    rw [isLast] at later ⊢
    exact performs_suffixObject holds later

/-- `prev` of the first sibling points to the last one. -/
theorem performs_closeRing (holds : Holds memory (segment none nodes none ++ rest))
    (later : forall after, Becomes memory after (segment (lastOr none nodes) nodes none ++ rest) ->
      Performs (program ()) after result) :
    Performs (closeRing (firstOr nodes none) (lastOr none nodes) >>= program) memory result := by
  cases nodes with
  | nil => exact later memory ⟨holds, rfl⟩
  | cons node others =>
      rcases node with ⟨first, firstContent, children⟩
      exact performs_modifyItem holds later

end Links

/-! ## Values -/

/-- The program builds what the computation finds at an item, between any siblings and beside any blocks. -/
def Builds (computation : Except Stop (Item Double × ParseBuffer))
    (program : Nat -> Program (Cell Double) (Option ParseBuffer)) : Prop :=
  forall {item : Nat} {memory : Heap (Cell Double)} {content : Content Double} {prev next : Option Nat}
    {rest : List (Nat × Cell Double)}, content.value = none ->
      Holds memory ((Node.mk item content []).blocks prev next ++ rest) -> Meets computation (fun _ => True) ->
        Performs (program item) memory (fun result after =>
          Follows computation memory after (Holds after ((Node.mk item content []).blocks prev next ++ rest))
            (fun value => Exists fun node => node.address = item ∧ node.content.name = content.name ∧
              Depicts node value ∧ Holds after (node.blocks prev next ++ rest)) result)

/-- What a loop over children does, from some siblings on. -/
def LoopFollows {Children : Type} (depict : List (Node Double) -> Children -> Prop)
    (computation : Except Stop (Children × ParseBuffer)) (front : List (Node Double))
    (rest : List (Nat × Cell Double)) (memory : Heap (Cell Double))
    (result : Option ParseBuffer × Option Nat × Option Nat) (after : Heap (Cell Double)) : Prop :=
  Exists fun nodes => result.2 = (firstOr nodes none, lastOr none nodes) ∧
    Holds after (segment none nodes none ++ rest) ∧
    Follows computation memory after True
      (fun children => Exists fun new => nodes = front ++ new ∧ depict new children) result.1

/-- The program builds the children that the computation finds, behind those there are. -/
def LoopBuilds {Children : Type} (depict : List (Node Double) -> Children -> Prop)
    (computation : Except Stop (Children × ParseBuffer))
    (program : Option Nat -> Option Nat -> Program (Cell Double)
        (Option ParseBuffer × Option Nat × Option Nat)) :
    Prop :=
  forall (memory : Heap (Cell Double)) (front : List (Node Double)) (rest : List (Nat × Cell Double)),
    Holds memory (segment none front none ++ rest) -> Meets computation (fun _ => True) ->
      Performs (program (firstOr front none) (lastOr none front)) memory
        (LoopFollows depict computation front rest memory)

section Values

variable {memory : Heap (Cell Double)} {rest : List (Nat × Cell Double)} {item : Nat} {content : Content Double}
  {prev next : Option Nat} {nodes : List (Node Double)} {doubles : Doubles Double} {fuel : Nat}

theorem builds_setItem (change : Record Double -> Record Double) (become : Content Double -> Content Double)
    {value : Item Double} {behind : ParseBuffer}
    (changes : forall (content : Content Double) prev next, change (content.record prev next none) =
      (become content).record prev next none)
    (name : forall content : Content Double, (become content).name = content.name)
    (noValue : forall content : Content Double, content.value = none -> (become content).value = none)
    (depicts : forall (item : Nat) (content : Content Double), content.value = none ->
      Depicts (.mk item (become content) []) value) :
    Builds (pure (value, behind)) (fun item => setItem item change behind) := by
  intro item memory content prev next rest empty holds _
  rw [blocks_childless empty] at holds
  change Performs (setItem item change behind) memory _
  rw [setItem]
  apply performs_modifyItem holds
  intro after written
  refine performs_pure (Or.inl ⟨behind, value, rfl, rfl, written.refusals, .mk item (become content) [],
    rfl, name content,
    depicts item content empty, ?_⟩)
  rw [blocks_childless (noValue content empty), name content, ← changes]
  exact written.holds

theorem builds_string {buffer : ParseBuffer} : @Builds Double (do
      let string ← parseString buffer
      pure (.string string.1, string.2)) (fun item => parseStringAt item buffer) := by
  intro item memory content prev next rest empty holds safe
  have before := holds
  rw [blocks_childless empty] at before
  apply (performs_parseStringAt before safe.before).mono
  rintro result after (⟨behind, text, rfl, isText, same, block, built⟩ | ⟨rfl, refused, kept⟩)
  · refine Or.inl ⟨behind, .string text, rfl, by rw [isText]; rfl, same,
      .mk item { content with kind := .string, value := some (block, text) } [], rfl, rfl, .string rfl rfl, ?_⟩
    rw [Node.blocks]
    exact built.perm (List.Perm.of_eq (by rw [segment, List.append_nil]; rfl))
  · refine Or.inr ⟨rfl, refused.imp (fun stops => by rw [stops]; rfl) id, ?_⟩
    rw [blocks_childless empty]
    exact kept

theorem builds_number (doubles : Doubles Double) {buffer : ParseBuffer} :
    Builds (parseNumber doubles buffer) (fun item => parseNumberAt doubles item buffer) := by
  intro item memory content prev next rest empty holds safe
  rw [blocks_childless empty] at holds
  apply (performs_parseNumberAt doubles holds safe).mono
  rintro result after (⟨behind, value, rfl, isValue, same, built⟩ | ⟨rfl, refused, kept⟩)
  · have shape : Exists fun valuedouble => Exists fun valueint => value = .number valuedouble valueint := by
      have isNumber := isValue
      rw [parseNumber] at isNumber
      split_ifs at isNumber
      exact ⟨_, _, (Prod.mk.inj (Except.ok.inj isNumber)).1.symm⟩
    rcases shape with ⟨valuedouble, valueint, rfl⟩
    let number : Content Double :=
      { content with kind := .number, valuedouble := some valuedouble, valueint := valueint }
    have noValue : number.value = none := empty
    refine Or.inl ⟨behind, _, rfl, isValue, same, .mk item number [], rfl, rfl, .number rfl empty rfl rfl, ?_⟩
    rw [blocks_childless noValue]
    exact built
  · refine Or.inr ⟨rfl, refused, ?_⟩
    rw [blocks_childless empty]
    exact kept

/-- Behind the loop the children are put under the item, or given back. -/
theorem performs_finishContainer {kind : Kind} {close : UInt8}
    {parsed : Option ParseBuffer × Option Nat × Option Nat} (empty : content.value = none)
    (pointers : parsed.2 = (firstOr nodes none, lastOr none nodes))
    (holds : Holds memory (segment none nodes none ++ ((Node.mk item content []).blocks prev next ++ rest))) :
    Performs (finishContainer item kind close parsed) memory (fun result after =>
      (Exists fun last => parsed.1 = some last ∧ last.sees close = Bool.true ∧ result = some last.leave ∧
          Becomes memory after ((Node.mk item { content with kind := kind } nodes).blocks prev next ++ rest)) ∨
        ((forall last, parsed.1 = some last -> last.sees close = Bool.false) ∧ result = none ∧
          Becomes memory after ((Node.mk item content []).blocks prev next ++ rest))) := by
  rcases parsed with ⟨behind, head, current⟩
  rw [Prod.mk.injEq] at pointers
  rcases pointers with ⟨rfl, rfl⟩
  rw [finishContainer]
  cases closes : behind.filter (fun next => next.sees close) with
  | some last =>
      rcases Option.filter_eq_some_iff.mp closes with ⟨isLast, sees⟩
      apply performs_closeRing holds
      intro second closed
      have here := closed.holds
      rw [blocks_childless empty] at here
      apply performs_modifyItem (here.perm List.perm_middle)
      intro third written
      refine performs_pure (Or.inl ⟨last, isLast, sees, rfl, ?_, (closed.trans written).refusals⟩)
      have noValue : (textBlocks content.value : List (Nat × Cell Double)) = [] := by
        rw [empty]
        rfl
      rw [Node.blocks, noValue, List.nil_append]
      refine written.holds.perm (List.Perm.cons _ ?_)
      exact (List.perm_append_comm_assoc (segment (lastOr none nodes) nodes none)
        (textBlocks content.name) rest).trans
        (List.Perm.of_eq (List.append_assoc _ _ _).symm)
  | none =>
      have open_ : forall last, behind = some last -> last.sees close = Bool.false := by
        intro last isLast
        rw [isLast] at closes
        exact Bool.eq_false_iff.mpr (Option.filter_eq_none_iff.mp closes last rfl)
      apply (performs_cJSONDelete holds).bind
      intro _ after gone
      exact performs_pure (Or.inr ⟨open_, rfl, gone⟩)

/-- An array or an object, from inside its bracket on. -/
theorem builds_container {Child : Type} {depict : List (Node Double) -> List Child -> Prop}
    {toItem : List Child -> Item Double} {kind : Kind} {close : UInt8} {inside : ParseBuffer}
    {children : Except Stop (List Child × ParseBuffer)}
    {childrenAt : Option Nat -> Option Nat ->
      Program (Cell Double) (Option ParseBuffer × Option Nat × Option Nat)}
    (loop : LoopBuilds depict children childrenAt) (none_ : depict [] [])
    (depicts : forall {item : Nat} {content : Content Double} {nodes value}, content.kind = kind ->
      content.value = none -> depict nodes value -> Depicts (.mk item content nodes) (toItem value)) :
    Builds (if inside.sees close = Bool.true then pure (toItem [], inside.leave)
      else do
        refuseIf (inside.canAccess 0 = Bool.false)
        let children ← children
        refuseIf (children.2.sees close = Bool.false)
        pure (toItem children.1, children.2.leave))
      (fun item =>
        if inside.sees close = Bool.true then finishContainer item kind close (some inside, none, none)
        else if inside.canAccess 0 = Bool.false then pure none
        else do
          let parsed ← childrenAt none none
          finishContainer item kind close parsed) := by
  intro item memory content prev next rest empty holds safe
  dsimp only
  split_ifs at safe ⊢ with closes cannot
  · -- without children
    have before : Holds memory (segment none ([] : List (Node Double)) none ++
      ((Node.mk item content []).blocks prev next ++ rest)) := holds
    apply (performs_finishContainer empty rfl before).mono
    rintro result after (⟨last, isLast, _, rfl, becomes⟩ | ⟨stays, _⟩)
    · cases isLast
      exact Or.inl ⟨_, _, rfl, rfl, becomes.refusals, .mk item { content with kind := kind } [], rfl, rfl,
        depicts rfl empty none_, becomes.holds⟩
    · exact absurd closes (Bool.eq_false_iff.mp (stays inside rfl))
  · refine performs_pure (Or.inr ⟨rfl, Or.inl ?_, holds⟩)
    rw [refuseIf, if_pos cannot]
    rfl
  · rw [Checked.refuseIf_bind_of_not cannot] at safe ⊢
    have before : Holds memory (segment none ([] : List (Node Double)) none ++
      ((Node.mk item content []).blocks prev next ++ rest)) := holds
    apply (loop _ _ _ before safe.before).bind
    rintro ⟨behind, pointers⟩ middle ⟨nodes, isPointers, built, follows⟩
    apply (performs_finishContainer empty isPointers built).mono
    rintro result after (⟨last, isLast, sees, rfl, becomes⟩ | ⟨stays, rfl, becomes⟩)
    · rcases follows with ⟨_, value, isBehind, isValue, same, new, isNodes, depict_⟩ | ⟨isNone, _⟩
      · cases isBehind.symm.trans isLast
        rw [List.nil_append] at isNodes
        subst isNodes
        refine Or.inl ⟨_, toItem value, rfl, ?_, becomes.refusals.trans same,
          .mk item { content with kind := kind } nodes, rfl, rfl, depicts rfl empty depict_, becomes.holds⟩
        rw [isValue, Checked.ok_bind, Checked.refuseIf_bind_of_not (ne_of_eq_of_ne sees Bool.noConfusion)]
        rfl
      · cases isNone.symm.trans isLast
    · refine Or.inr ⟨rfl, ?_, becomes.holds⟩
      rw [becomes.refusals]
      rcases follows with ⟨last, value, isBehind, isValue, same, _⟩ | ⟨_, refused, _⟩
      · refine Or.inl ?_
        rw [isValue, Checked.ok_bind, refuseIf, if_pos (stays last isBehind)]
        rfl
      · exact refused.imp (fun stops => by rw [stops]; rfl) id

/-! ## The loops -/

theorem pointers_concat {front : List (Node Double)} {node : Node Double} :
    ((firstOr front none).or (some node.address), some node.address) =
      (firstOr (front ++ [node]) none, lastOr none (front ++ [node])) := by
  have last : lastOr none (front ++ [node]) = some node.address := lastOr_append
  rw [last]
  cases front <;> rfl

/-- The loop is left at a child that was attached but not built. -/
theorem performs_loopFails {Children : Type} {depict : List (Node Double) -> Children -> Prop}
    {computation : Except Stop (Children × ParseBuffer)} {front : List (Node Double)} {node : Node Double}
    {before : Heap (Cell Double)} (isItem : node.address = item)
    (holds : Holds memory (node.blocks (lastOr none front) none ++ (segment none front (some item) ++ rest)))
    (refused : computation = .error .refused ∨ before.refusals < memory.refusals) :
    Performs (pure (none, (firstOr front none).or (some item), some item)) memory
      (LoopFollows depict computation front rest before) := by
  subst isItem
  exact performs_pure ⟨front ++ [node], pointers_concat, Holds.concat holds, Or.inr ⟨rfl, refused, trivial⟩⟩

/-- Behind a child that was built the loop goes on at a comma. -/
theorem performs_loopGoesOn {Child : Type} {depict : List (Node Double) -> List Child -> Prop} {child : Child}
    {buffer : ParseBuffer} {children : Except Stop (List Child × ParseBuffer)}
    {childrenAt : Option Nat -> Option Nat ->
      Program (Cell Double) (Option ParseBuffer × Option Nat × Option Nat)}
    {front : List (Node Double)} {node : Node Double} (loop : LoopBuilds depict children childrenAt)
    (none_ : depict [] []) (cons : forall {nodes list}, depict nodes list ->
        depict (node :: nodes) (child :: list))
    (isItem : node.address = item)
    (holds : Holds memory (node.blocks (lastOr none front) none ++ (segment none front (some item) ++ rest)))
    (safe : Meets (if buffer.sees 44 = Bool.true then do
        let others ← children
        pure (child :: others.1, others.2)
      else pure ([child], buffer)) (fun _ => True)) :
    Performs (if buffer.sees 44 = Bool.true then childrenAt ((firstOr front none).or (some item)) (some item)
      else pure (some buffer, (firstOr front none).or (some item), some item)) memory
      (LoopFollows depict (if buffer.sees 44 = Bool.true then do
          let others ← children
          pure (child :: others.1, others.2)
        else pure ([child], buffer)) front rest memory) := by
  subst isItem
  have extended := Holds.concat holds
  have pointers := Prod.mk.inj (@pointers_concat Double front node)
  split_ifs at safe ⊢ with comma
  · rw [pointers.1, pointers.2]
    apply (loop _ _ _ extended safe.before).mono
    rintro ⟨ending, ends⟩ after ⟨nodes, isPointers, built, follows⟩
    refine ⟨nodes, isPointers, built, ?_⟩
    rcases follows with ⟨_, others, isEnding, isOthers, same, new, isNodes, depicts⟩ | ⟨isNone, refused, _⟩
    · refine Or.inl ⟨_, child :: others, isEnding, ?_, same, node :: new, ?_, cons depicts⟩
      · rw [isOthers]
        rfl
      · rw [isNodes, List.append_assoc]
        rfl
    · exact Or.inr ⟨isNone, refused.imp (fun stops => by rw [stops]; rfl) id, trivial⟩
  · exact performs_pure ⟨front ++ [node], pointers_concat, extended,
      Or.inl ⟨_, [child], rfl, rfl, rfl, [node], rfl, cons none_⟩⟩

theorem elementsBuild_succ {buffer : ParseBuffer}
    (value : forall buffer, Builds (parseValue doubles fuel buffer) (fun item =>
        parseValueAt doubles fuel item buffer))
    (elements : forall buffer, LoopBuilds DepictElements (parseElements doubles fuel buffer)
      (fun head current => parseElementsAt doubles fuel head current buffer)) :
    LoopBuilds DepictElements (parseElements doubles (fuel + 1) buffer)
      (fun head current => parseElementsAt doubles (fuel + 1) head current buffer) := by
  intro memory front rest holds safe
  rw [parseElements] at safe ⊢
  dsimp only
  rw [parseElementsAt]
  apply performs_malloc holds
  · intro after stays more
    exact performs_pure ⟨front, rfl, stays, Or.inr ⟨rfl, Or.inr more, trivial⟩⟩
  · intro item second allocated
    apply performs_attach allocated.holds
    intro third attached
    have fresh := (allocated.trans attached).refusals
    apply (value _ rfl attached.holds safe.before).bind
    rintro result fourth (⟨behind, element, rfl, isElement, same, node, isItem, noName, depicts,
      built⟩ | ⟨rfl, refused, kept⟩)
    · have later := safe.behind isElement
      rw [isElement, Checked.ok_bind]
      have loop := elements behind.skipWhitespace
      apply (performs_loopGoesOn loop .nil (DepictElements.cons noName depicts) isItem built later).mono
      rintro result after ⟨nodes, isPointers, whole, follows⟩
      exact ⟨nodes, isPointers, whole, follows.since (same.trans fresh)⟩
    · rw [fresh] at refused
      exact performs_loopFails rfl kept (refused.imp (fun stops => by rw [stops]; rfl) id)

theorem membersBuild_succ {buffer : ParseBuffer}
    (value : forall buffer, Builds (parseValue doubles fuel buffer) (fun item =>
        parseValueAt doubles fuel item buffer))
    (members : forall buffer, LoopBuilds DepictMembers (parseMembers doubles fuel buffer)
      (fun head current => parseMembersAt doubles fuel head current buffer)) :
    LoopBuilds DepictMembers (parseMembers doubles (fuel + 1) buffer)
      (fun head current => parseMembersAt doubles (fuel + 1) head current buffer) := by
  intro memory front rest holds safe
  rw [parseMembers] at safe ⊢
  dsimp only
  rw [parseMembersAt]
  apply performs_malloc holds
  · intro after stays more
    exact performs_pure ⟨front, rfl, stays, Or.inr ⟨rfl, Or.inr more, trivial⟩⟩
  · intro item second allocated
    apply performs_attach allocated.holds
    intro third attached
    have fresh := (allocated.trans attached).refusals
    dsimp only
    by_cases cannot : buffer.canAccess 1 = Bool.false
    · rw [if_pos cannot]
      exact performs_loopFails rfl attached.holds (Or.inl (by rw [refuseIf, if_pos cannot]; rfl))
    · rw [if_neg cannot]
      rw [Checked.refuseIf_bind_of_not cannot] at safe ⊢
      apply (performs_parseStringAt attached.holds safe.before).bind
      rintro result fourth (⟨behindName, name, rfl, isName, sameName, block, named⟩ | ⟨rfl, refused, kept⟩)
      · have afterName := safe.behind isName
        rw [isName, Checked.ok_bind]
        dsimp only at afterName ⊢
        apply performs_modifyItem named
        intro fifth swapped
        -- the item holds its name, and nothing else
        let content : Content Double := { Content.zero with kind := .string, name := some (block, name) }
        have holdsName : Holds fifth ((Node.mk item content []).blocks (lastOr none front) none ++
            (segment none front (some item) ++ rest)) := swapped.holds
        have still := (swapped.refusals.trans sameName).trans fresh
        by_cases noColon : behindName.skipWhitespace.sees 58 = Bool.false
        · rw [if_pos noColon]
          exact performs_loopFails rfl holdsName (Or.inl (by rw [refuseIf, if_pos noColon]; rfl))
        · rw [if_neg noColon]
          rw [Checked.refuseIf_bind_of_not noColon] at afterName ⊢
          apply (value _ rfl holdsName afterName.before).bind
          rintro result sixth (⟨behind, member, rfl, isMember, same, node, isItem, sameNamed, depicts, built⟩ |
            ⟨rfl, refused, kept⟩)
          · have later := afterName.behind isMember
            rw [isMember, Checked.ok_bind]
            have loop := members behind.skipWhitespace
            apply (performs_loopGoesOn loop .nil (DepictMembers.cons sameNamed depicts) isItem built later).mono
            rintro result after ⟨nodes, isPointers, whole, follows⟩
            exact ⟨nodes, isPointers, whole, follows.since (same.trans still)⟩
          · rw [still] at refused
            exact performs_loopFails rfl kept (refused.imp (fun stops => by rw [stops]; rfl) id)
      · have unnamed : Holds fourth ((Node.mk item Content.zero []).blocks (lastOr none front) none ++
            (segment none front (some item) ++ rest)) := kept
        rw [fresh] at refused
        exact performs_loopFails rfl unnamed (refused.imp (fun stops => by rw [stops]; rfl) id)

/-! ## The parser -/

theorem builds_refused {program : Nat -> Program (Cell Double) (Option ParseBuffer)}
    (fails : forall item, program item = pure none) : Builds (.error .refused) program := by
  intro item memory content prev next rest empty holds _
  rw [fails]
  exact performs_pure (Or.inr ⟨rfl, Or.inl rfl, holds⟩)

theorem builds_ite {condition : Prop} [Decidable condition]
    {computation other : Except Stop (Item Double × ParseBuffer)}
    {program otherProgram : Nat -> Program (Cell Double) (Option ParseBuffer)}
    (positive : Builds computation program) (negative : Builds other otherProgram) :
    Builds (if condition then computation else other)
      (fun item => if condition then program item else otherProgram item) := by
  by_cases holds : condition
  · simp only [if_pos holds]
    exact positive
  · simp only [if_neg holds]
    exact negative

theorem builds_refuseIf {condition : Prop} [Decidable condition]
    {computation : Except Stop (Item Double × ParseBuffer)}
    {program : Nat -> Program (Cell Double) (Option ParseBuffer)} (otherwise : Builds computation program) :
    Builds (refuseIf condition >>= fun _ => computation)
      (fun item => if condition then pure none else program item) := by
  by_cases holds : condition
  · rw [refuseIf, if_pos holds]
    exact builds_refused (fun _ => if_pos holds)
  · rw [Checked.refuseIf_bind_of_not holds]
    simp only [if_neg holds]
    exact otherwise

theorem builds_read {content : List UInt8} {offset : Nat}
    {computation : UInt8 -> Except Stop (Item Double × ParseBuffer)}
    {program : UInt8 -> Nat -> Program (Cell Double) (Option ParseBuffer)}
    (behind : forall byte, Builds (computation byte) (program byte)) :
    Builds (read content offset >>= computation)
      (fun item => Blocks.lift (read content offset) >>= fun byte => program byte item) := by
  cases isByte : read content offset with
  | ok byte => exact behind byte
  | error reason =>
      intro item memory content prev next rest _ _ safe
      have isOutside : reason = .outside := by
        unfold Checked.read at isByte
        split at isByte
        · cases isByte
        · exact (Except.error.inj isByte).symm
      rw [isOutside] at safe
      cases safe

theorem valueBuilds_succ {buffer : ParseBuffer}
    (array : forall buffer, Builds (parseArray doubles fuel buffer) (fun item =>
        parseArrayAt doubles fuel item buffer))
    (object : forall buffer,
      Builds (parseObject doubles fuel buffer) (fun item => parseObjectAt doubles fuel item buffer)) :
    Builds (parseValue doubles (fuel + 1) buffer) (fun item =>
      parseValueAt doubles (fuel + 1) item buffer) := by
  have simple : forall (kind : Kind) (valueint : Int -> Int) {value : Item Double} {behind : ParseBuffer},
      (forall (item : Nat) (content : Content Double), content.kind = kind -> content.value = none ->
        Depicts (.mk item content []) value) ->
      Builds (pure (value, behind)) (fun item => setItem item
        (fun record => { record with kind := kind, valueint := valueint record.valueint }) behind) := by
    intro kind valueint value behind depicts
    apply builds_setItem _ (fun content => { content with kind := kind, valueint := valueint content.valueint })
    · exact fun _ _ _ => rfl
    · exact fun _ => rfl
    · exact fun _ empty => empty
    · exact fun item content empty => depicts item _ rfl empty
  simp only [parseValue, parseValueAt]
  apply builds_ite (simple .null id (fun _ _ => .null))
  apply builds_ite (simple .false id (fun _ _ => .false))
  apply builds_ite (simple .true (fun _ => 1) (fun _ _ => .true))
  apply builds_ite builds_string
  apply builds_ite (builds_number doubles)
  apply builds_ite (array buffer)
  apply builds_ite (object buffer)
  exact builds_refused (fun _ => rfl)

theorem arrayBuilds_succ {buffer : ParseBuffer}
    (elements : forall buffer, LoopBuilds DepictElements (parseElements doubles fuel buffer)
      (fun head current => parseElementsAt doubles fuel head current buffer)) :
    Builds (parseArray doubles (fuel + 1) buffer) (fun item =>
      parseArrayAt doubles (fuel + 1) item buffer) := by
  simp only [parseArray, parseArrayAt]
  apply builds_refuseIf
  apply builds_read
  intro bracket
  apply builds_refuseIf
  exact builds_container (elements _) .nil .array

theorem objectBuilds_succ {buffer : ParseBuffer}
    (members : forall buffer, LoopBuilds DepictMembers (parseMembers doubles fuel buffer)
      (fun head current => parseMembersAt doubles fuel head current buffer)) :
    Builds (parseObject doubles (fuel + 1) buffer) (fun item =>
      parseObjectAt doubles (fuel + 1) item buffer) := by
  simp only [parseObject, parseObjectAt]
  apply builds_refuseIf
  apply builds_refuseIf
  exact builds_container (members _) .nil .object

/-- Every part of the parser, whatever fuel it has. -/
theorem parts_build (doubles : Doubles Double) (fuel : Nat) :
    (forall buffer, Builds (parseValue doubles fuel buffer) (fun item =>
        parseValueAt doubles fuel item buffer)) ∧
      ((forall buffer, Builds (parseArray doubles fuel buffer) (fun item =>
          parseArrayAt doubles fuel item buffer)) ∧
        forall buffer, Builds (parseObject doubles fuel buffer)
          (fun item => parseObjectAt doubles fuel item buffer)) ∧
      (forall buffer, LoopBuilds DepictElements (parseElements doubles fuel buffer)
        (fun head current => parseElementsAt doubles fuel head current buffer)) ∧
      forall buffer, LoopBuilds DepictMembers (parseMembers doubles fuel buffer)
        (fun head current => parseMembersAt doubles fuel head current buffer) := by
  induction fuel with
  | zero =>
      have notSafe : forall {Result : Type}, ¬ Meets (.error .unfinished : Except Stop Result)
        (fun _ => True) :=
        fun safe => absurd safe Stop.noConfusion
      exact ⟨fun _ _ _ _ _ _ _ _ _ safe => absurd safe notSafe,
        ⟨fun _ _ _ _ _ _ _ _ _ safe => absurd safe notSafe,
        fun _ _ _ _ _ _ _ _ _ safe => absurd safe notSafe⟩, fun _ _ _ _ _ safe => absurd safe notSafe,
        fun _ _ _ _ _ safe => absurd safe notSafe⟩
  | succ fuel inductionHypothesis =>
      rcases inductionHypothesis with ⟨value, ⟨array, object⟩, elements, members⟩
      exact ⟨fun _ => valueBuilds_succ array object,
        ⟨fun _ => arrayBuilds_succ elements, fun _ => objectBuilds_succ members⟩,
        fun _ => elementsBuild_succ value elements, fun _ => membersBuild_succ value members⟩

end Values

/-- Whichever calls of `malloc` fail, the parser ends, and uses and frees only what is allocated.
It returns an item that owns every block it allocated, as the parser over the buffer finds it,
and `cJSON_Delete` gives back these blocks and no others; or it has given back everything
itself, and then the text was refused or an allocation was. -/
theorem parse_owns (doubles : Doubles Double) (content : List UInt8) (memory : Heap (Cell Double))
    (distinct : (addresses memory.blocks).Nodup) :
    Exists fun root => Exists fun after => parseWithLengthOptsAt doubles content memory = .ok (root, after) ∧
      ((root = none ∧ after.blocks.Perm memory.blocks ∧
          (parseWithLengthOpts doubles content = .error .refused ∨ memory.refusals < after.refusals)) ∨
        Exists fun node => Exists fun item => root = some node.address ∧ Depicts node item ∧
          parseWithLengthOpts doubles content = .ok item ∧ after.refusals = memory.refusals ∧
          after.blocks.Perm (node.blocks none none ++ memory.blocks) ∧
          Exists fun last => cJSONDelete root after = .ok ((), last) ∧ last.blocks.Perm memory.blocks) := by
  have start : Holds memory memory.blocks := ⟨List.Perm.refl _, distinct⟩
  -- what the program does, with the blocks of the caller aside
  have performs : Performs (parseWithLengthOptsAt doubles content) memory (fun root after =>
      (root = none ∧ Holds after memory.blocks ∧
          (parseWithLengthOpts doubles content = .error .refused ∨ memory.refusals < after.refusals)) ∨
        Exists fun node => Exists fun item => root = some node.address ∧ Depicts node item ∧
          parseWithLengthOpts doubles content = .ok item ∧ after.refusals = memory.refusals ∧
          Holds after (node.blocks none none ++ memory.blocks)) := by
    rw [parseWithLengthOptsAt, parseWithLengthOpts]
    by_cases empty : content = []
    · rw [if_pos empty]
      exact performs_pure (Or.inl ⟨rfl, start, Or.inl (by rw [refuseIf, if_pos empty]; rfl)⟩)
    · rw [if_neg empty, Checked.refuseIf_bind_of_not empty]
      apply performs_malloc start
      · intro after stays more
        exact performs_pure (Or.inl ⟨rfl, stays, Or.inr more⟩)
      · intro root second allocated
        have before : Holds second ((Node.mk root Content.zero []).blocks none none ++ memory.blocks) :=
          allocated.holds
        have safe := (meets_start doubles content).mono (fun _ _ => trivial)
        apply ((parts_build doubles _).1 _ rfl before safe).bind
        rintro result third (⟨behind, item, rfl, isItem, same, node, rfl, _, depicts, built⟩ |
          ⟨rfl, refused, kept⟩)
        · refine performs_pure (Or.inr ⟨node, item, rfl, depicts, ?_, same.trans allocated.refusals, built⟩)
          rw [isItem]
          rfl
        · apply performs_deleteNode kept
          intro last gone
          refine performs_pure (Or.inl ⟨rfl, gone.holds, ?_⟩)
          rw [gone.refusals, ← allocated.refusals]
          exact refused.imp (fun stops => by rw [stops]; rfl) id
  rcases performs.exists_ok with ⟨root, after, run, ⟨isNone, stays, refused⟩ |
    ⟨node, item, isRoot, depicts, isItem, same, built⟩⟩
  · exact ⟨root, after, run, Or.inl ⟨isNone, stays.same, refused⟩⟩
  · refine ⟨root, after, run, Or.inr ⟨node, item, isRoot, depicts, isItem, same, built.same, ?_⟩⟩
    rw [isRoot]
    exact delete_of_holds built

/-- `[null]` where the allocator refuses the element. -/
theorem parse_owns_refused : Exists fun root => Exists fun after =>
    parseWithLengthOptsAt wholeDoubles (ascii "[null]") ⟨[(9, .text [])], [some 1, none], 0⟩ =
      .ok (root, after) ∧
      (root = none ∨ Exists fun last => cJSONDelete root after = .ok ((), last) ∧
          last.blocks.Perm [(9, .text [])]) := by
  rcases parse_owns wholeDoubles (ascii "[null]") ⟨[(9, .text [])], [some 1, none], 0⟩
    (by simp [addresses]) with
    ⟨root, after, run, ⟨isNone, _⟩ | ⟨_, _, _, _, _, _, _, deleted⟩⟩
  · exact ⟨root, after, run, Or.inl isNone⟩
  · exact ⟨root, after, run, Or.inr deleted⟩

end Cjson
end AdbBridge
