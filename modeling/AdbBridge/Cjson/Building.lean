import AdbBridge.Cjson.Ownership

namespace AdbBridge
namespace Cjson

open Library Library.Numeral Library.Blocks
open Library.Checked (Stop)

/-!
# Building an object in memory

`cJSON_CreateObject` and the functions that add a string or a number to it.  The last member is
found through `prev` of the first one.  An allocation that fails in the middle costs the one member, or
the object, but no memory.
-/

variable {Double : Type}

/-! ## Items -/

/-- `cJSON_strdup` -/
def strdup (string : List UInt8) : Program (Cell Double) (Option Nat) := malloc (.text string)

/-- `cJSON_CreateObject` -/
def createObjectAt : Program (Cell Double) (Option Nat) := do
  let allocated ← newItem
  match allocated with
  | none => pure none
  | some item =>
      modifyItem item (fun record => { record with kind := .object })
      pure (some item)

/-- `cJSON_CreateString` -/
def createStringAt (string : List UInt8) : Program (Cell Double) (Option Nat) := do
  let allocated ← newItem
  match allocated with
  | none => pure none
  | some item =>
      modifyItem item (fun record => { record with kind := .string })
      let valuestring ← strdup string
      match valuestring with
      | none =>
          cJSONDelete (some item)
          pure none
      | some block =>
          modifyItem item (fun record => { record with valuestring := some block })
          pure (some item)

/-- `cJSON_CreateNumber` -/
def createNumberAt (doubles : Doubles Double) (num : Double) : Program (Cell Double) (Option Nat) := do
  let allocated ← newItem
  match allocated with
  | none => pure none
  | some item =>
      modifyItem item (Record.setNumber (.number num (doubles.valueint num)))
      pure (some item)

/-! ## Members -/

/-- `add_item_to_array` for an item that is not the array. -/
def addItemToArray (array item : Nat) : Program (Cell Double) Unit := do
  let record ← loadItem array
  match record.child with
  | none =>
      modifyItem array (fun record => { record with child := some item })
      modifyItem item (fun record => { record with prev := some item, next := none })
  | some child =>
      let first ← loadItem child
      match first.prev with
      | none => pure ()
      | some last =>
          suffixObject last item
          modifyItem child (fun record => { record with prev := some item })

/-- `add_item_to_object` with a key that is copied. -/
def addItemToObject (object : Option Nat) (string : List UInt8) (item : Option Nat) :
    Program (Cell Double) Bool :=
  match object, item with
  | some object, some item =>
      if object = item then pure Bool.false
      else do
        let newKey ← strdup string
        match newKey with
        | none => pure Bool.false
        | some newKey =>
            let record ← loadItem item
            freeIfAny (if record.stringIsConst then none else record.string)
            modifyItem item (fun record => { record with string := some newKey, stringIsConst := Bool.false })
            addItemToArray object item
            pure Bool.true
  | _, _ => pure Bool.false

/-- A member of an object that is built. -/
inductive Scalar (Double : Type) where
  | string (text : List UInt8)
  | number (num : Double)

/-- The item of a member. -/
def Scalar.item (doubles : Doubles Double) : Scalar Double -> Item Double
  | .string text => .string text
  | .number num => .number num (doubles.valueint num)

/-- `cJSON_CreateString` or `cJSON_CreateNumber`. -/
def Scalar.create (doubles : Doubles Double) : Scalar Double -> Program (Cell Double) (Option Nat)
  | .string text => createStringAt text
  | .number num => createNumberAt doubles num

/-- `cJSON_AddStringToObject` or `cJSON_AddNumberToObject`; what is not added is deleted. -/
def addToObject (doubles : Doubles Double) (object : Option Nat) (name : List UInt8) (scalar : Scalar Double) :
    Program (Cell Double) (Option Nat) := do
  let item ← scalar.create doubles
  let added ← addItemToObject object name item
  if added then pure item
  else
    cJSONDelete item
    pure none

/-- The members are added one after the other, whether the ones before were added or not. -/
def addAll (doubles : Doubles Double) (object : Option Nat) :
    List (List UInt8 × Scalar Double) -> Program (Cell Double) Unit
  | [] => pure ()
  | (name, scalar) :: members => do
      let _added ← addToObject doubles object name scalar
      addAll doubles object members

/-- An object with some members, as the handlers build their responses. -/
def buildObject (doubles : Doubles Double) (members : List (List UInt8 × Scalar Double)) :
    Program (Cell Double) (Option Nat) := do
  let object ← createObjectAt
  addAll doubles object members
  pure object

/-! ## Creating -/

section Steps

variable {β : Type} {memory : Heap (Cell Double)} {rest : List (Nat × Cell Double)} {item : Nat}
  {result : β -> Heap (Cell Double) -> Prop}

/-- The blocks of an item without children. -/
theorem blocks_leaf {content : Content Double} {prev next : Option Nat} :
    (Node.mk item content []).blocks prev next =
    (item, .item (content.record prev next none)) :: (textBlocks content.value ++ textBlocks content.name) := by
  rw [Node.blocks, segment, List.append_nil]
  rfl

/-- The member is created on its own, or an allocation was refused and nothing remains. -/
theorem performs_create (doubles : Doubles Double) (scalar : Scalar Double) (holds : Holds memory rest) :
    Performs (scalar.create doubles) memory (fun created after =>
      (created = none ∧ Holds after rest ∧ memory.refusals < after.refusals) ∨
        Exists fun item => Exists fun content : Content Double => created = some item ∧ content.name = none ∧
          (forall name : Option (Nat × List UInt8),
            Depicts (.mk item { content with name := name } []) (scalar.item doubles)) ∧
          Becomes memory after ((item, .item (content.record none none none)) ::
            (textBlocks content.value ++ rest))) := by
  cases scalar with
  | number num =>
      rw [Scalar.create, createNumberAt]
      apply performs_malloc holds
      · exact fun after stays more => performs_pure (Or.inl ⟨rfl, stays, more⟩)
      · intro item second allocated
        apply performs_modifyItem allocated.holds
        intro third written
        let content : Content Double :=
          ⟨.number, some num, doubles.valueint num, none, none⟩
        exact performs_pure (Or.inr ⟨item, content, rfl, rfl, fun _ => .number rfl rfl rfl rfl,
          ⟨written.holds, (allocated.trans written).refusals⟩⟩)
  | string text =>
      rw [Scalar.create, createStringAt]
      apply performs_malloc holds
      · exact fun after stays more => performs_pure (Or.inl ⟨rfl, stays, more⟩)
      · intro item second allocated
        apply performs_modifyItem allocated.holds
        intro third written
        apply performs_malloc written.holds
        · intro fourth stays more
          let content : Content Double := { Content.zero with kind := .string }
          have alone : Holds fourth ((Node.mk item content []).blocks none none ++ rest) := stays
          apply performs_deleteNode alone
          intro fifth gone
          refine performs_pure (Or.inl ⟨rfl, gone.holds, ?_⟩)
          rw [gone.refusals, ← (allocated.trans written).refusals]
          exact more
        · intro block fourth copied
          apply performs_modifyItem (copied.holds.perm (List.Perm.swap _ _ _))
          intro fifth set
          let content : Content Double := ⟨.string, none, 0, none, some (block, text)⟩
          exact performs_pure (Or.inr ⟨item, content, rfl, rfl, fun _ => .string rfl rfl,
            ⟨set.holds, (((allocated.trans written).trans copied).trans set).refusals⟩⟩)

/-! ## Adding -/

/-- The item becomes the last child, and `prev` of the first child points to it. -/
theorem performs_addItemToArray {array : Nat} {record : Record Double} {children : List (Node Double)}
    {content : Content Double} {program : Unit -> Program (Cell Double) β}
    (isChild : record.child = firstOr children none)
    (holds : Holds memory ((array, .item record) :: (segment (lastOr none children) children none ++
      ((item, .item (content.record none none none)) :: rest))))
    (later : forall after, Becomes memory after ((array, .item
        { record with child := firstOr children (some item) }) ::
      (segment (some item) children (some item) ++
        ((item, .item (content.record (lastOr (some item) children) none none)) :: rest))) ->
      Performs (program ()) after result) :
    Performs (addItemToArray array item >>= program) memory result := by
  rw [addItemToArray, bind_assoc]
  apply performs_loadItem holds
  cases children with
  | nil =>
      rw [isChild]
      dsimp only [firstOr]
      rw [bind_assoc]
      apply performs_modifyItem holds
      intro second written
      apply performs_modifyItem (written.holds.perm (List.Perm.swap _ _ _))
      intro third linked
      exact later third ⟨linked.holds.perm (List.Perm.swap _ _ _), (written.trans linked).refusals⟩
  | cons first others =>
      rcases List.eq_nil_or_concat (first :: others) with none_ | ⟨ahead, last, split⟩
      · cases none_
      · rw [List.concat_eq_append] at split
        have isLast : forall before, lastOr before (first :: others) = some last.address := by
          intro before
          rw [split]
          exact lastOr_append
        have sameRecord : { record with child := firstOr (first :: others) (some item) } = record := by
          rcases record with ⟨next, prev, child, kind, isReference, stringIsConst, valuestring,
            valueint, valuedouble, string⟩
          rw [show child = firstOr (first :: others) none from isChild]
          rfl
        rw [isLast] at holds
        rw [isLast, sameRecord] at later
        rw [isChild]
        dsimp only [firstOr]
        have children_ := holds.perm List.perm_middle.symm
        have linking := holds.perm ((List.perm_middle.symm.trans ((List.Perm.swap _ _ _).append_left _)).trans
          List.perm_middle)
        rw [split] at linking
        -- the first child is read: its `prev` is the last one
        rcases first with ⟨child, childContent, grandchildren⟩
        rw [bind_assoc]
        apply performs_loadItem children_
        dsimp only [Content.record]
        rw [bind_assoc]
        apply performs_suffixObject linking
        intro second linked
        have closing := linked.holds.perm List.perm_middle.symm
        rw [← split] at closing
        apply performs_modifyItem closing
        intro third closed
        refine later third ⟨closed.holds.perm ?_, (linked.trans closed).refusals⟩
        exact ((List.Perm.swap _ _ _).append_left (segment (some item)
          (.mk child childContent grandchildren :: others)
          (some item))).trans List.perm_middle

/-- The structure of the object and that of the item are brought to the front, with the
children between them. -/
theorem perm_open {α : Type} (item key object : α) (value name text children rest : List α) :
    (item :: key :: (value ++ (object :: (text ++ (name ++ children)) ++ rest))).Perm
      (object :: (children ++ (item :: key :: (value ++ (text ++ (name ++ rest)))))) := by
  classical
  rw [List.perm_iff_count]
  intro element
  simp only [List.count_append, List.count_cons]
  ring

/-- And they are put back, where the item is the last child. -/
theorem perm_close {α : Type} (item key object : α) (value name text children rest : List α) :
    (object :: (children ++ (item :: key :: (value ++ (text ++ (name ++ rest)))))).Perm
      (object :: (text ++ (name ++ (children ++ item :: (value ++ [key])))) ++ rest) := by
  classical
  rw [List.perm_iff_count]
  intro element
  simp only [List.count_append, List.count_cons, List.count_nil]
  ring

/-- A member is added behind the others, or the object is what it was because an allocation was refused. -/
theorem performs_addToObject (doubles : Doubles Double) {object : Nat} {content : Content Double}
    {children : List (Node Double)} (name : List UInt8) (scalar : Scalar Double)
    (holds : Holds memory ((Node.mk object content children).blocks none none ++ rest)) :
    Performs (addToObject doubles (some object) name scalar) memory (fun _ after =>
      (Holds after ((Node.mk object content children).blocks none none ++ rest) ∧
          memory.refusals < after.refusals) ∨
        Exists fun node => Exists fun block => node.content.name = some (block, name) ∧
          Depicts node (scalar.item doubles) ∧
          Becomes memory after ((Node.mk object content (children ++ [node])).blocks none none ++ rest)) := by
  rw [addToObject]
  apply (performs_create doubles scalar holds).bind
  rintro created second (⟨rfl, stays, more⟩ | ⟨item, ⟨kind, valuedouble, valueint, _, value⟩, rfl, rfl,
    depicts, alone⟩)
  · change Performs (pure Bool.false >>= _) second _
    rw [pure_bind, if_neg Bool.false_ne_true]
    have nothing : Holds second (segment none ([] : List (Node Double)) none ++
      ((Node.mk object content children).blocks none none ++ rest)) := stays
    apply (performs_cJSONDelete nothing).bind
    intro _ third same
    refine performs_pure (Or.inl ⟨same.holds, ?_⟩)
    rw [same.refusals]
    exact more
  · have different : object ≠ item := by
      apply alone.holds.apart (object, .item (content.record none none (firstOr children none)))
      rw [Node.blocks]
      simp
    rw [addItemToObject, if_neg different, bind_assoc]
    apply performs_malloc alone.holds
    · intro third stays more
      dsimp only
      rw [pure_bind, if_neg Bool.false_ne_true]
      have unnamed : Holds third ((Node.mk item ⟨kind, valuedouble, valueint, none,
        value⟩ []).blocks none none ++
          ((Node.mk object content children).blocks none none ++ rest)) := by
        rw [blocks_leaf]
        exact stays.perm (List.Perm.of_eq (by simp only [textBlocks, List.append_nil, List.cons_append]))
      apply performs_deleteNode unnamed
      intro fourth gone
      refine performs_pure (Or.inl ⟨gone.holds, ?_⟩)
      rw [gone.refusals, ← alone.refusals]
      exact more
    · intro key third copied
      dsimp only
      rw [bind_assoc]
      have here := copied.holds.perm (List.Perm.swap _ _ _)
      apply performs_loadItem here
      -- the item has no key that would be freed
      change Performs ((pure () >>= fun _ => modifyItem item _ >>= fun _ =>
        addItemToArray object item >>= fun _ =>
        pure Bool.true) >>= _) third _
      rw [pure_bind, bind_assoc]
      apply performs_modifyItem here
      intro fourth named
      let content' : Content Double := ⟨kind, valuedouble, valueint, some (key, name), value⟩
      let record := content.record none none (firstOr children none)
      have holdsNamed : Holds fourth ((item, .item (content'.record none none none)) :: (key, .text name) ::
          (textBlocks value ++ ((Node.mk object content children).blocks none none ++ rest))) := named.holds
      rw [Node.blocks] at holdsNamed
      have opened := holdsNamed.perm (perm_open (item, .item (content'.record none none none)) (key, .text name)
        (object, .item record) (textBlocks value) (textBlocks content.name) (textBlocks content.value)
        (segment (lastOr none children) children none) rest)
      rw [bind_assoc]
      apply performs_addItemToArray rfl opened
      intro fifth added
      rw [pure_bind, if_pos rfl]
      refine performs_pure (Or.inr ⟨.mk item content' [], key, rfl, depicts (some (key, name)), ?_,
        (((alone.trans copied).trans named).trans added).refusals⟩)
      have closed := added.holds.perm (perm_close (item, .item
        (content'.record (lastOr (some item) children) none none))
        (key, .text name) (object, .item { record with child := firstOr children (some item) })
        (textBlocks value)
        (textBlocks content.name) (textBlocks content.value) (segment (some item) children (some item)) rest)
      rw [Node.blocks, segment_concat, firstOr_append, lastOr_append, blocks_leaf]
      exact closed

/-- Without an object there is nothing to add to, and what was created is given back. -/
theorem performs_addToNull (doubles : Doubles Double) (name : List UInt8) (scalar : Scalar Double)
    (holds : Holds memory rest) :
    Performs (addToObject doubles none name scalar) memory (fun _ after =>
      Holds after rest ∧ memory.refusals ≤ after.refusals) := by
  rw [addToObject]
  apply (performs_create doubles scalar holds).bind
  rintro created second (⟨rfl, stays, more⟩ | ⟨item, content, rfl, unnamed, depicts, alone⟩)
  · change Performs (pure Bool.false >>= _) second _
    rw [pure_bind, if_neg Bool.false_ne_true]
    have nothing : Holds second (segment none ([] : List (Node Double)) none ++ rest) := stays
    apply (performs_cJSONDelete nothing).bind
    intro _ third same
    exact performs_pure ⟨same.holds, same.refusals ▸ Nat.le_of_lt more⟩
  · change Performs (pure Bool.false >>= _) second _
    rw [pure_bind, if_neg Bool.false_ne_true]
    have single : Holds second ((Node.mk item content []).blocks none none ++ rest) := by
      rw [blocks_leaf, unnamed]
      exact alone.holds.perm (List.Perm.of_eq (by simp only [textBlocks, List.append_nil, List.cons_append]))
    apply performs_deleteNode single
    intro third gone
    exact performs_pure ⟨gone.holds, Nat.le_of_eq (gone.refusals.trans alone.refusals).symm⟩

theorem performs_addAllToNull (doubles : Doubles Double) (members : List (List UInt8 × Scalar Double))
    (holds : Holds memory rest) :
    Performs (addAll doubles none members) memory (fun _ after =>
      Holds after rest ∧ memory.refusals ≤ after.refusals) := by
  induction members generalizing memory with
  | nil => exact performs_pure ⟨holds, Nat.le_refl _⟩
  | cons member members inductionHypothesis =>
      rcases member with ⟨name, scalar⟩
      rw [addAll]
      apply (performs_addToNull doubles name scalar holds).bind
      rintro _ second ⟨stays, more⟩
      apply (inductionHypothesis stays).mono
      rintro _ after ⟨remains, later⟩
      exact ⟨remains, Nat.le_trans more later⟩

/-- The items of some members. -/
def memberItems (doubles : Doubles Double) (members : List (List UInt8 × Scalar Double)) :
    List (List UInt8 × Item Double) :=
  members.map (fun member => (member.1, member.2.item doubles))

/-- Of the members those are added for which there was memory, in their order. -/
theorem performs_addAll (doubles : Doubles Double) {object : Nat} {content : Content Double}
    {children : List (Node Double)} (members : List (List UInt8 × Scalar Double))
    (holds : Holds memory ((Node.mk object content children).blocks none none ++ rest)) :
    Performs (addAll doubles (some object) members) memory (fun _ after =>
      Exists fun new => Exists fun added : List (List UInt8 × Scalar Double) => added.Sublist members ∧
        members.length + memory.refusals ≤ added.length + after.refusals ∧
        DepictMembers new (memberItems doubles added) ∧
        Holds after ((Node.mk object content (children ++ new)).blocks none none ++ rest)) := by
  induction members generalizing memory children with
  | nil =>
      refine performs_pure ⟨[], [], List.Sublist.refl [], Nat.le_refl _, .nil, ?_⟩
      rw [List.append_nil]
      exact holds
  | cons member members inductionHypothesis =>
      rcases member with ⟨name, scalar⟩
      rw [addAll]
      apply (performs_addToObject doubles name scalar holds).bind
      rintro _ second (⟨stays, more⟩ | ⟨node, block, named, depicts, becomes⟩)
      · apply (inductionHypothesis stays).mono
        rintro _ after ⟨new, added, sublist, count, depict, built⟩
        refine ⟨new, added, sublist.cons (name, scalar), ?_, depict, built⟩
        rw [List.length_cons]
        omega
      · apply (inductionHypothesis becomes.holds).mono
        rintro _ after ⟨new, added, sublist, count, depict, built⟩
        refine ⟨node :: new, (name, scalar) :: added, sublist.cons_cons (name, scalar), ?_,
          .cons named depicts depict, ?_⟩
        · rw [List.length_cons, List.length_cons]
          have same := becomes.refusals
          omega
        · rw [List.append_assoc] at built
          exact built

end Steps

/-- Whichever calls of `malloc` fail, an object is built without an access to memory that is not allocated:
its members are some of those that were to be added, in their order, and each that is missing cost
a refusal.  `cJSON_Delete` gives back the object with all that was allocated for it; and
if there is no object, nothing remains allocated. -/
theorem buildObject_owns (doubles : Doubles Double) (members : List (List UInt8 × Scalar Double))
    (memory : Heap (Cell Double)) (distinct : (addresses memory.blocks).Nodup) :
    Exists fun root => Exists fun after => buildObject doubles members memory = .ok (root, after) ∧
      ((root = none ∧ after.blocks.Perm memory.blocks ∧ memory.refusals < after.refusals) ∨
        Exists fun node => Exists fun added : List (List UInt8 × Scalar Double) => root = some node.address ∧
          Depicts node (.object (memberItems doubles added)) ∧ added.Sublist members ∧
          members.length + memory.refusals ≤ added.length + after.refusals ∧
          after.blocks.Perm (node.blocks none none ++ memory.blocks) ∧
          Exists fun last => cJSONDelete root after = .ok ((), last) ∧ last.blocks.Perm memory.blocks) := by
  have start : Holds memory memory.blocks := ⟨List.Perm.refl _, distinct⟩
  have performs : Performs (buildObject doubles members) memory (fun root after =>
      (root = none ∧ Holds after memory.blocks ∧ memory.refusals < after.refusals) ∨
        Exists fun node => Exists fun added : List (List UInt8 × Scalar Double) => root = some node.address ∧
          Depicts node (.object (memberItems doubles added)) ∧ added.Sublist members ∧
          members.length + memory.refusals ≤ added.length + after.refusals ∧
          Holds after (node.blocks none none ++ memory.blocks)) := by
    rw [buildObject, createObjectAt, bind_assoc]
    apply performs_malloc start
    · intro second stays more
      dsimp only
      rw [pure_bind]
      apply (performs_addAllToNull doubles members stays).bind
      rintro _ third ⟨remains, later⟩
      exact performs_pure (Or.inl ⟨rfl, remains, Nat.lt_of_lt_of_le more later⟩)
    · intro item second allocated
      dsimp only
      rw [bind_assoc]
      apply performs_modifyItem allocated.holds
      intro third written
      rw [pure_bind]
      let content : Content Double := { Content.zero with kind := .object }
      have object : Holds third ((Node.mk item content []).blocks none none ++ memory.blocks) := written.holds
      apply (performs_addAll doubles members object).bind
      rintro _ fourth ⟨new, added, sublist, count, depict, built⟩
      rw [(allocated.trans written).refusals] at count
      exact performs_pure (Or.inr ⟨.mk item content new, added, rfl, .object rfl rfl depict, sublist,
        count, built⟩)
  rcases performs.exists_ok with ⟨root, after, run, ⟨isNone, stays, refused⟩ |
    ⟨node, added, isRoot, depicts, sublist, count, built⟩⟩
  · exact ⟨root, after, run, Or.inl ⟨isNone, stays.same, refused⟩⟩
  · refine ⟨root, after, run, Or.inr ⟨node, added, isRoot, depicts, sublist, count, built.same, ?_⟩⟩
    rw [isRoot]
    exact delete_of_holds built

/-- `{"a":"b","n":7}` where the allocator refuses the copy of `a`. -/
theorem buildObject_owns_refused : Exists fun root => Exists fun after =>
    buildObject wholeDoubles [(ascii "a", .string (ascii "b")), (ascii "n", .number 7)]
        ⟨[(9, .text [])], [some 1, some 2, some 3, none, some 2, some 3], 0⟩ = .ok (root, after) ∧
      (root = none ∨ Exists fun last => cJSONDelete root after = .ok ((), last) ∧
          last.blocks.Perm [(9, .text [])]) := by
  rcases buildObject_owns wholeDoubles [(ascii "a", .string (ascii "b")), (ascii "n", .number 7)]
      ⟨[(9, .text [])], [some 1, some 2, some 3, none, some 2, some 3], 0⟩ (by simp [addresses]) with
    ⟨root, after, run, ⟨isNone, _⟩ | ⟨_, _, _, _, _, _, _, deleted⟩⟩
  · exact ⟨root, after, run, Or.inl isNone⟩
  · exact ⟨root, after, run, Or.inr deleted⟩

end Cjson
end AdbBridge
