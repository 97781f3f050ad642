import AdbBridge.Library.Checked
import Mathlib.Logic.Function.Basic
import Mathlib.Data.List.Nodup

namespace Library
namespace LinkedList

open Checked

/-!
# Linked lists in memory

A heap maps the addresses of allocated nodes to them, and a node has a pointer to the next
one.  Following a pointer that leads nowhere is an access outside of the heap, and so is freeing
a node that is not allocated.  A loop along the pointers is then a loop over a list, as long as the heap
represents that list, and the usual operations keep it represented.
-/

variable {α β σ : Type}

/-- A node: what it holds, and a pointer to the next one or a null pointer. -/
structure Node (α : Type) where
  value : α
  next : Option Nat

/-- The nodes that are allocated. -/
abbrev Heap (α : Type) := Nat -> Option (Node α)

namespace Heap

/-- A node is read. -/
def deref (heap : Heap α) (address : Nat) : Except Stop (Node α) :=
  match heap address with
  | some node => .ok node
  | none => .error .outside

/-- A node is overwritten. -/
def store (heap : Heap α) (address : Nat) (node : Node α) : Except Stop (Heap α) :=
  if (heap address).isSome then .ok (Function.update heap address (some node)) else .error .outside

/-- A node is allocated at an address that the allocator picks. -/
def allocate (heap : Heap α) (address : Nat)
    (node : Node α) : Heap α := Function.update heap address (some node)

/-- A node is given back. -/
def free (heap : Heap α) (address : Nat) : Except Stop (Heap α) :=
  if (heap address).isSome then .ok (Function.update heap address none) else .error .outside

variable {heap : Heap α} {address : Nat} {node : Node α}

theorem deref_of_some (found : heap address = some node) : heap.deref address = .ok node := by
  rw [deref, found]

theorem store_of_some (found : heap address = some node) (other : Node α) :
    heap.store address other = .ok (Function.update heap address (some other)) := by
  rw [store, if_pos (by rw [found]; rfl)]

theorem free_of_some (found : heap address = some node) :
    heap.free address = .ok (Function.update heap address none) := by
  rw [free, if_pos (by rw [found]; rfl)]

end Heap

/-! ## Segments -/

/-- From `head` the pointers lead through the entries, in their order, to `stop`. -/
def Linked (heap : Heap α) : Option Nat -> Option Nat -> List (Nat × α) -> Prop
  | head, stop, [] => head = stop
  | head, stop, (address, value) :: rest =>
      head = some address ∧ Exists fun next => heap address = some ⟨value, next⟩ ∧ Linked heap next stop rest

/-- The addresses of the entries. -/
def addresses (entries : List (Nat × α)) : List Nat := entries.map Prod.fst

/-- The values of the entries. -/
def values (entries : List (Nat × α)) : List α := entries.map Prod.snd

section Segments

variable {heap other : Heap α} {head middle stop : Option Nat} {entries front back : List (Nat × α)}
  {address : Nat} {value : α}

theorem linked_append :
    Linked heap head stop (front ++ back) ↔
      Exists fun middle => Linked heap head middle front ∧ Linked heap middle stop back := by
  induction front generalizing head with
  | nil =>
      constructor
      · exact fun linked => ⟨head, rfl, linked⟩
      · rintro ⟨middle, here, linked⟩
        cases here
        exact linked
  | cons first front inductionHypothesis =>
      rcases first with ⟨address, value⟩
      constructor
      · rintro ⟨isHead, next, found, linked⟩
        rcases inductionHypothesis.mp linked with ⟨middle, before, behind⟩
        exact ⟨middle, ⟨isHead, next, found, before⟩, behind⟩
      · rintro ⟨middle, ⟨isHead, next, found, before⟩, behind⟩
        exact ⟨isHead, next, found, inductionHypothesis.mpr ⟨middle, before, behind⟩⟩

/-- Two lists up to the null pointer are the same. -/
theorem Linked.unique (first : Linked heap head none entries) {others : List (Nat × α)}
    (second : Linked heap head none others) : entries = others := by
  induction entries generalizing head others with
  | nil =>
      cases others with
      | nil => rfl
      | cons entry others => exact absurd (first.symm.trans second.1) (by simp)
  | cons entry entries inductionHypothesis =>
      rcases entry with ⟨address, value⟩
      rcases first with ⟨isHead, next, found, linked⟩
      cases others with
      | nil => exact absurd (isHead.symm.trans second) (by simp)
      | cons entry others =>
          rcases entry with ⟨otherAddress, otherValue⟩
          rcases second with ⟨isOther, otherNext, otherFound, otherLinked⟩
          have sameAddress := Option.some.inj (isHead.symm.trans isOther)
          subst sameAddress
          have sameNode := Node.mk.inj (Option.some.inj (found.symm.trans otherFound))
          rw [sameNode.1, inductionHypothesis linked (sameNode.2 ▸ otherLinked)]

/-- No node stands twice in a list that ends. -/
theorem Linked.nodup (linked : Linked heap head none entries) : (addresses entries).Nodup := by
  induction entries generalizing head with
  | nil => exact List.nodup_nil
  | cons entry entries inductionHypothesis =>
      rcases entry with ⟨address, value⟩
      rcases linked with ⟨isHead, next, found, linked⟩
      refine List.nodup_cons.mpr ⟨fun again => ?_, inductionHypothesis linked⟩
      -- the node would begin both a list and a proper part of it
      rcases List.mem_map.mp again with ⟨⟨same, other⟩, member, isSame⟩
      rcases List.append_of_mem member with ⟨front, back, split⟩
      have isAddress : same = address := isSame
      subst isAddress
      have later := linked
      rw [split] at later
      rcases linked_append.mp later with ⟨middle, _, isMiddle, rest⟩
      have whole : Linked heap (some same) none ((same, value) :: entries) := ⟨rfl, next, found, linked⟩
      have part : Linked heap (some same) none ((same, other) :: back) := ⟨rfl, rest⟩
      have lengths := congrArg List.length (whole.unique part)
      rw [split] at lengths
      simp only [List.length_cons, List.length_append] at lengths
      omega

/-- Only the nodes of a segment matter to it. -/
theorem Linked.congr (linked : Linked heap head stop entries)
    (same : forall address, address ∈ addresses entries -> other address = heap address) :
    Linked other head stop entries := by
  induction entries generalizing head with
  | nil => exact linked
  | cons entry entries inductionHypothesis =>
      rcases entry with ⟨address, value⟩
      rcases linked with ⟨isHead, next, found, linked⟩
      refine ⟨isHead, next, (same address List.mem_cons_self).trans found, ?_⟩
      exact inductionHypothesis linked (fun later member => same later (List.mem_cons_of_mem _ member))

theorem Linked.update (linked : Linked heap head stop entries) (elsewhere : address ∉ addresses entries)
    (node : Option (Node α)) : Linked (Function.update heap address node) head stop entries := by
  refine linked.congr (fun later member => ?_)
  have differs : later ≠ address := by
    rintro rfl
    exact elsewhere member
  exact Function.update_of_ne differs node heap

/-- The nodes of a segment are allocated. -/
theorem Linked.found (linked : Linked heap head stop entries) (member : address ∈ addresses entries) :
    (heap address).isSome = true := by
  induction entries generalizing head with
  | nil => exact absurd member List.not_mem_nil
  | cons entry entries inductionHypothesis =>
      rcases entry with ⟨here, value⟩
      rcases linked with ⟨_, next, found, linked⟩
      rcases List.mem_cons.mp member with isHere | later
      · have isAddress : address = here := isHere
        rw [isAddress, found]
        rfl
      · exact inductionHypothesis linked later

end Segments

/-! ## Lists -/

/-- The heap consists of the list that begins at the head. -/
structure Represents (heap : Heap α) (head : Option Nat) (entries : List (Nat × α)) : Prop where
  linked : Linked heap head none entries
  owned : forall address, (heap address).isSome = true -> address ∈ addresses entries

theorem represents_nil : Represents (fun _ => none : Heap α) none [] :=
  ⟨rfl, fun _ found => absurd found Bool.false_ne_true⟩

/-- The addresses of the list are those that are allocated. -/
theorem Represents.mem_addresses_iff {heap : Heap α} {head : Option Nat} {entries : List (Nat × α)}
    (represents : Represents heap head entries) (address : Nat) :
    address ∈ addresses entries ↔ (heap address).isSome = true :=
  ⟨represents.linked.found, represents.owned address⟩

/-- A node that is allocated is put in front. -/
theorem Represents.push {heap : Heap α} {head : Option Nat} {entries : List (Nat × α)} {address : Nat}
    (represents : Represents heap head entries) (fresh : heap address = none) (value : α) :
    Represents (heap.allocate address ⟨value, head⟩) (some address) ((address, value) :: entries) := by
  have elsewhere : address ∉ addresses entries := by
    rw [represents.mem_addresses_iff, fresh]
    exact Bool.false_ne_true
  refine ⟨⟨rfl, head, Function.update_self address _ heap, represents.linked.update elsewhere _⟩, ?_⟩
  intro other found
  by_cases same : other = address
  · exact same ▸ List.mem_cons_self
  · rw [Heap.allocate, Function.update_of_ne same] at found
    exact List.mem_cons_of_mem _ (represents.owned other found)

/-! ## Loops -/

/-- How a loop along the pointers ends: behind the last node, or by leaving it at one. -/
inductive Walked (σ β : Type) where
  | ended (state : σ)
  | left (result : β)

/-- A loop that reads the nodes one after the other. -/
def walk (heap : Heap α) (body : σ -> Nat -> α -> Walked σ β) :
    Nat -> σ -> Option Nat -> Except Stop (Walked σ β)
  | 0, _, _ => .error .unfinished
  | _ + 1, state, none => pure (.ended state)
  | fuel + 1, state, some address => do
      let node ← heap.deref address
      match body state address node.value with
      | .left result => pure (.left result)
      | .ended state => walk heap body fuel state node.next

/-- The same loop over a list. -/
def walkList (body : σ -> Nat -> α -> Walked σ β) : σ -> List (Nat × α) -> Walked σ β
  | state, [] => .ended state
  | state, (address, value) :: rest =>
      match body state address value with
      | .left result => .left result
      | .ended state => walkList body state rest

/-- A loop along the pointers is the loop over the list. -/
theorem walk_eq {heap : Heap α} (body : σ -> Nat -> α -> Walked σ β) {head : Option Nat}
    {entries : List (Nat × α)} (linked : Linked heap head none entries) {fuel : Nat}
    (enough : entries.length < fuel) (state : σ) :
    walk heap body fuel state head = .ok (walkList body state entries) := by
  induction entries generalizing head fuel state with
  | nil =>
      rcases Nat.exists_eq_add_of_lt enough with ⟨spare, rfl⟩
      rw [show head = none from linked, walk, walkList]
      rfl
  | cons entry entries inductionHypothesis =>
      rcases entry with ⟨address, value⟩
      rcases linked with ⟨isHead, next, found, linked⟩
      rcases Nat.exists_eq_add_of_lt enough with ⟨spare, rfl⟩
      rw [isHead, walk, walkList, Heap.deref_of_some found, ok_bind]
      dsimp only
      cases body state address value with
      | left result => rfl
      | ended state =>
          exact inductionHypothesis linked (by rw [List.length_cons]; omega) state

/-- A loop that overwrites what the nodes hold, and goes on from each as it is then. -/
def overwrite (account : σ -> α -> σ) (change : α -> α) :
    Nat -> Heap α -> σ -> Option Nat -> Except Stop (Heap α × σ)
  | 0, _, _, _ => .error .unfinished
  | _ + 1, heap, state, none => pure (heap, state)
  | fuel + 1, heap, state, some address => do
      let node ← heap.deref address
      let heap ← heap.store address ⟨change node.value, node.next⟩
      let node' ← heap.deref address
      overwrite account change fuel heap (account state node.value) node'.next

/-- The entries with the changed values. -/
def changed (change : α -> α) (entries : List (Nat × α)) : List (Nat × α) :=
  entries.map (fun entry => (entry.1, change entry.2))

theorem addresses_changed (change : α -> α) (entries : List (Nat × α)) :
    addresses (changed change entries) = addresses entries := by
  rw [addresses, changed, List.map_map]
  rfl

theorem values_changed (change : α -> α) (entries : List (Nat × α)) :
    values (changed change entries) = (values entries).map change := by
  rw [values, changed, List.map_map, values, List.map_map]
  rfl

/-- The loop changes the values of the list, and accounts for them in their order. -/
theorem overwrite_eq (account : σ -> α -> σ) (change : α -> α) {heap : Heap α} {head : Option Nat}
    {entries : List (Nat × α)} (linked : Linked heap head none entries) {fuel : Nat}
    (enough : entries.length < fuel) (state : σ) :
    Exists fun after => overwrite account change fuel heap state head =
        .ok (after, (values entries).foldl account state) ∧
      Linked after head none (changed change entries) ∧
      (forall address, (after address).isSome = (heap address).isSome) ∧
      forall address, address ∉ addresses entries -> after address = heap address := by
  induction entries generalizing heap head fuel state with
  | nil =>
      rcases Nat.exists_eq_add_of_lt enough with ⟨spare, rfl⟩
      refine ⟨heap, ?_, linked, fun _ => rfl, fun _ _ => rfl⟩
      rw [show head = none from linked, overwrite]
      rfl
  | cons entry entries inductionHypothesis =>
      have distinct := linked.nodup
      rcases entry with ⟨address, value⟩
      rcases linked with ⟨isHead, next, found, linked⟩
      rcases Nat.exists_eq_add_of_lt enough with ⟨spare, rfl⟩
      have elsewhere : address ∉ addresses entries := (List.nodup_cons.mp distinct).1
      have rest := linked.update elsewhere (some ⟨change value, next⟩)
      have remaining : entries.length < entries.length + 1 + spare := by omega
      rcases inductionHypothesis rest remaining (account state value) with
        ⟨after, performed, changes, live, same⟩
      have here : after address = some ⟨change value, next⟩ :=
        (same address elsewhere).trans (Function.update_self address _ heap)
      refine ⟨after, ?_, ⟨isHead, next, here, changes⟩, fun other => ?_, fun other absent => ?_⟩
      · have again : (Function.update heap address (some ⟨change value, next⟩)) address =
            some ⟨change value, next⟩ := Function.update_self address _ heap
        rw [isHead, List.length_cons, overwrite, Heap.deref_of_some found, ok_bind,
          Heap.store_of_some found, ok_bind,
          Heap.deref_of_some again, ok_bind]
        exact performed
      · rw [live other]
        by_cases isHere : other = address
        · rw [isHere, Function.update_self, found]
          rfl
        · rw [Function.update_of_ne isHere]
      · have notRest : other ∉ addresses entries := fun member => absent (List.mem_cons_of_mem _ member)
        have notHere : other ≠ address := fun isHere => absent (isHere ▸ List.mem_cons_self)
        rw [same other notRest, Function.update_of_ne notHere]

/-- So the heap consists of the list with the changed values. -/
theorem Represents.overwrite {heap : Heap α} {head : Option Nat} {entries : List (Nat × α)}
    (represents : Represents heap head entries) (account : σ -> α -> σ) (change : α -> α) {fuel : Nat}
    (enough : entries.length < fuel) (state : σ) :
    Exists fun after => overwrite account change fuel heap state head =
        .ok (after, (values entries).foldl account state) ∧
      Represents after head (changed change entries) := by
  rcases overwrite_eq account change represents.linked enough state with ⟨after, performed, linked, live, _⟩
  refine ⟨after, performed, linked, fun address found => ?_⟩
  rw [addresses_changed]
  exact represents.owned address (live address ▸ found)

/-! ## Taking out a node -/

/-- Looks for the first node of a kind, and keeps the one before it. -/
def lookFor (found : α -> Bool) (prev : Option Nat) (address : Nat) (value : α) :
    Walked (Option Nat) (Option Nat × Nat) :=
  if found value then .left (prev, address) else .ended (some address)

/-- A node is taken out behind its predecessor, or at the head, and freed. -/
def unlink (heap : Heap α) (head prev : Option Nat) (address : Nat) : Except Stop (Heap α × Option Nat) := do
  let node ← heap.deref address
  match prev with
  | some prev =>
      let before ← heap.deref prev
      let heap ← heap.store prev ⟨before.value, node.next⟩
      let heap ← heap.free address
      pure (heap, head)
  | none =>
      let heap ← heap.free address
      pure (heap, node.next)

/-- The address in front. -/
def lastOf (prev : Option Nat) (front : List (Nat × α)) : Option Nat :=
  (front.getLast?.map Prod.fst).or prev

/-- The search passes what is not of the kind. -/
theorem walkList_lookFor (found : α -> Bool) {front : List (Nat × α)}
    (others : forall entry, entry ∈ front -> found entry.2 = false) (prev : Option Nat)
    (back : List (Nat × α)) :
    walkList (lookFor found) prev (front ++ back) = walkList (lookFor found) (lastOf prev front) back := by
  induction front generalizing prev with
  | nil => rfl
  | cons entry front inductionHypothesis =>
      rcases entry with ⟨address, value⟩
      have notThis : found value = false := others (address, value) List.mem_cons_self
      have ahead : lastOf prev ((address, value) :: front) = lastOf (some address) front := by
        cases front with
        | nil => rfl
        | cons next front =>
            rw [lastOf, lastOf, List.getLast?_cons_cons, List.getLast?_cons]
            rfl
      rw [List.cons_append, walkList, lookFor, notThis, if_neg Bool.false_ne_true, ahead]
      exact inductionHypothesis (fun other member => others other (List.mem_cons_of_mem _ member))
        (some address)

/-- The search finds nothing, or the first node of the kind with the one before it. -/
theorem walkList_lookFor_cases (found : α -> Bool) (entries : List (Nat × α)) :
    ((forall value, value ∈ values entries -> found value = false) ∧
        Exists fun last => walkList (lookFor found) none entries = .ended last) ∨
      Exists fun front => Exists fun address => Exists fun value => Exists fun back =>
        entries = front ++ (address, value) :: back ∧
          (forall other, other ∈ values front -> found other = false) ∧ found value = true ∧
          walkList (lookFor found) none entries = .left (lastOf none front, address) := by
  have passes : forall {list : List (Nat × α)}, (forall entry, entry ∈ list -> found entry.2 = false) ->
      forall value, value ∈ values list -> found value = false := by
    intro list others value member
    rcases List.mem_map.mp member with ⟨entry, isEntry, rfl⟩
    exact others entry isEntry
  cases search : entries.find? (fun entry => found entry.2) with
  | none =>
      have others : forall entry, entry ∈ entries -> found entry.2 = false := fun entry member =>
        Bool.eq_false_iff.mpr (List.find?_eq_none.mp search entry member)
      refine Or.inl ⟨passes others, lastOf none entries, ?_⟩
      have whole := walkList_lookFor found others none []
      rwa [List.append_nil] at whole
  | some entry =>
      rcases List.find?_eq_some_iff_append.mp search with ⟨isFound, front, back, split, others⟩
      rcases entry with ⟨address, value⟩
      have notFound : forall entry, entry ∈ front -> found entry.2 = false := by
        intro entry member
        simpa using others entry member
      refine Or.inr ⟨front, address, value, back, split, passes notFound, isFound, ?_⟩
      rw [split, walkList_lookFor found notFound, walkList, lookFor, if_pos isFound]

section Unlinking

variable {heap : Heap α} {head : Option Nat} {front back : List (Nat × α)} {address : Nat} {value : α}

theorem addresses_append (front back : List (Nat × α)) :
    addresses (front ++ back) = addresses front ++ addresses back := List.map_append

/-- The value of a node is overwritten where it stands. -/
theorem Represents.store (represents : Represents heap head (front ++ (address, value) :: back)) (other : α) :
    Exists fun next => heap.deref address = .ok ⟨value, next⟩ ∧
      heap.store address ⟨other, next⟩ = .ok (Function.update heap address (some ⟨other, next⟩)) ∧
      Represents (Function.update heap address (some ⟨other, next⟩)) head
        (front ++ (address, other) :: back) := by
  rcases linked_append.mp represents.linked with ⟨middle, before, isMiddle, next, found, behind⟩
  have distinct := represents.linked.nodup
  rw [addresses_append] at distinct
  have parts := List.nodup_append.mp distinct
  have notBehind : address ∉ addresses back := (List.nodup_cons.mp parts.2.1).1
  have notBefore : address ∉ addresses front := fun member =>
    parts.2.2 address member address List.mem_cons_self rfl
  refine ⟨next, Heap.deref_of_some found, Heap.store_of_some found _, ?_, fun here isLive => ?_⟩
  · exact linked_append.mpr ⟨middle, before.update notBefore _, isMiddle, next,
      Function.update_self address _ heap,
      behind.update notBehind _⟩
  · have same : addresses (front ++ (address, other) :: back) =
    addresses (front ++ (address, value) :: back) := by
      rw [addresses_append, addresses_append]
      rfl
    rw [same]
    by_cases isAddress : here = address
    · rw [isAddress, addresses_append]
      exact List.mem_append_right _ List.mem_cons_self
    · rw [Function.update_of_ne isAddress] at isLive
      exact represents.owned here isLive

/-- The node behind some others is taken out: the list is what remains, and so is the heap. -/
theorem Represents.unlink (represents : Represents heap head (front ++ (address, value) :: back)) :
    Exists fun after => Exists fun first =>
      LinkedList.unlink heap head (lastOf none front) address = .ok (after, first) ∧
        Represents after first (front ++ back) := by
  rcases linked_append.mp represents.linked with ⟨middle, before, isMiddle, next, found, behind⟩
  subst isMiddle
  have distinct := represents.linked.nodup
  rw [addresses_append] at distinct
  have parts := List.nodup_append.mp distinct
  have notBehind : address ∉ addresses back := (List.nodup_cons.mp parts.2.1).1
  have notBefore : address ∉ addresses front := fun member =>
    parts.2.2 address member address List.mem_cons_self rfl
  -- what is owned afterwards, whichever way the node was taken out
  have owned : forall after : Heap α, (forall other, other ≠ address ->
    (after other).isSome = (heap other).isSome) ->
      after address = none -> forall other, (after other).isSome = true ->
        other ∈ addresses (front ++ back) := by
    intro after live freed other isLive
    have differs : other ≠ address := by
      rintro rfl
      rw [freed] at isLive
      exact absurd isLive Bool.false_ne_true
    rw [live other differs] at isLive
    have member := represents.owned other isLive
    rw [addresses_append] at member ⊢
    rcases List.mem_append.mp member with inFront | inBack
    · exact List.mem_append_left _ inFront
    · exact List.mem_append_right _ ((List.mem_cons.mp inBack).resolve_left differs)
  rcases List.eq_nil_or_concat front with none | ⟨ahead, ⟨prev, held⟩, isFront⟩
  · subst none
    have isHead : head = some address := before
    refine ⟨Function.update heap address Option.none, next, ?_, behind.update notBehind _,
      owned _ (fun other differs => ?_)
      (Function.update_self address _ heap)⟩
    · rw [LinkedList.unlink, Heap.deref_of_some found, ok_bind]
      dsimp only [lastOf, List.getLast?_nil, Option.map_none, Option.or]
      rw [Heap.free_of_some found, ok_bind]
      rfl
    · rw [Function.update_of_ne differs]
  · rw [List.concat_eq_append] at isFront
    subst isFront
    rcases linked_append.mp before with ⟨entry, start, isEntry, link, foundPrev, isLink⟩
    subst isEntry
    have isNext : link = some address := isLink
    subst isNext
    have last : lastOf none (ahead ++ [(prev, held)]) = some prev := by
      rw [lastOf, List.getLast?_concat]
      rfl
    have frontNodup := parts.1
    rw [addresses_append] at frontNodup notBefore
    have aheadParts := List.nodup_append.mp frontNodup
    have prevAhead : prev ∉ addresses ahead := fun member =>
      aheadParts.2.2 prev member prev List.mem_cons_self rfl
    have differs : prev ≠ address := by
      rintro rfl
      exact notBefore (List.mem_append_right _ List.mem_cons_self)
    have prevBehind : prev ∉ addresses back := fun member =>
      parts.2.2 prev (by rw [addresses_append]; exact List.mem_append_right _ List.mem_cons_self) prev
        (List.mem_cons_of_mem _ member) rfl
    have addressAhead : address ∉ addresses ahead := fun member => notBefore (List.mem_append_left _ member)
    have stillThere : (Function.update heap prev (some ⟨held, next⟩)) address = some ⟨value, next⟩ := by
      rw [Function.update_of_ne differs.symm, found]
    refine ⟨Function.update (Function.update heap prev (some ⟨held, next⟩)) address Option.none, head, ?_, ?_,
      owned _ (fun other isOther => ?_) (Function.update_self address _ _)⟩
    · rw [LinkedList.unlink, Heap.deref_of_some found, ok_bind, last]
      dsimp only
      rw [Heap.deref_of_some foundPrev, ok_bind, Heap.store_of_some foundPrev, ok_bind,
        Heap.free_of_some stillThere,
        ok_bind]
      rfl
    · refine linked_append.mpr ⟨next, linked_append.mpr ⟨some prev, ?_, rfl, next, ?_, rfl⟩, ?_⟩
      · exact (start.update prevAhead _).update addressAhead _
      · rw [Function.update_of_ne differs, Function.update_self]
      · exact (behind.update prevBehind _).update notBehind _
    · by_cases isPrev : other = prev
      · rw [isPrev, Function.update_of_ne differs, Function.update_self, foundPrev]
        rfl
      · rw [Function.update_of_ne isOther, Function.update_of_ne isPrev]

end Unlinking

end LinkedList
end Library
