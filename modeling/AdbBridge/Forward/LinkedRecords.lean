import AdbBridge.Forward.Lifetime
import AdbBridge.Forward.Listing
import AdbBridge.Library.LinkedList

namespace AdbBridge
namespace Forward

open Library Library.Numeral Library.Checked Library.LinkedList

/-!
# The records in memory

`g_forwards` is a pointer to the first record, and each record points to the next.  The four
functions that take `g_forward_mutex` follow these pointers, and one of them frees a record.
However they are called, no pointer is followed to a record that is not allocated, no record is
lost, and everything that is returned and printed is what the list of the records says.
-/

/-- The globals in memory. -/
structure Registry where
  heap : Heap Tcpforward
  gForwards : Option Nat
  nextId : Int
  descriptors : List (Nat × Option SockAddr)

namespace Registry

/-- When the server starts. -/
def initial : Registry := ⟨fun _ => none, none, 1, []⟩

/-- `close` -/
def close (registry : Registry) (fd : Nat) : Registry :=
  { registry with descriptors := registry.descriptors.filter (fun entry => entry.1 != fd) }

/-- `socket`, or `bind`. -/
def setDescriptor (registry : Registry) (fd : Nat) (bound : Option SockAddr) : Registry :=
  { registry with descriptors := (fd, bound) :: (registry.close fd).descriptors }

/-- A record that `calloc` placed at an address becomes the first one. -/
def link (registry : Registry) (address : Nat) (f : Tcpforward) : Registry :=
  { registry with
    heap := registry.heap.allocate address ⟨f, registry.gForwards⟩
    gForwards := some address
    nextId := registry.nextId + 1 }

/-! ## The four functions -/

/-- The loop of `forward_add` at one record. -/
def checkRecord (unixPath host : List UInt8) (port : Int) (count : Nat) (_ : Nat) (f : Tcpforward) :
    Walked Nat Int :=
  match clash unixPath host port f with
  | some code => .left code
  | none => .ended (count + 1)

/-- `forward_add`, where `calloc` would place the record at the given address. -/
def forwardAdd (fuel : Nat) (inetPton : InetPton) (registry : Registry) (unixPath host : List UInt8)
    (port : Int)
    (secure : Bool) (outcomes : AddOutcomes) (address : Nat) : Except Stop (Registry × Int) := do
  let walked ← walk registry.heap (checkRecord unixPath host port) fuel 0 registry.gForwards
  match walked with
  | .left code => pure (registry, code)
  | .ended count =>
      if maxForwards ≤ count then pure (registry, -3)
      else
        match outcomes.socket with
        | none => pure (registry, -4)
        | some fd =>
            let opened := registry.setDescriptor fd none
            if outcomes.bind = false then pure (opened.close fd, -5)
            else
              let bound := opened.setDescriptor fd
                (some (outcomes.boundAddr (requestedAddr inetPton host port)))
              if outcomes.listen = false then pure (bound.close fd, -6)
              else if outcomes.calloc = false then pure (bound.close fd, -7)
              else pure (bound.link address (newForward registry.nextId unixPath host port secure fd),
                registry.nextId)

/-- A record that is stopped, with its listener closed. -/
def stopped (f : Tcpforward) : Tcpforward :=
  { f with running := false, listenFd := if 0 ≤ f.listenFd then -1 else f.listenFd }

/-- The descriptors once the listener of a record is closed. -/
def closeListener (descriptors : List (Nat × Option SockAddr)) (f : Tcpforward) : List
    (Nat × Option SockAddr) :=
  if 0 ≤ f.listenFd then descriptors.filter (fun entry => entry.1 != f.listenFd.toNat) else descriptors

/-- `forward_remove` -/
def forwardRemove (fuel : Nat) (registry : Registry) (id : Int) : Except Stop (Registry × Int) := do
  let walked ← walk registry.heap (lookFor (fun f => f.id == id)) fuel none registry.gForwards
  match walked with
  | .ended _ => pure (registry, -1)
  | .left (prev, address) =>
      let node ← registry.heap.deref address
      let heap ← registry.heap.store address ⟨stopped node.value, node.next⟩
      let after ← unlink heap registry.gForwards prev address
      pure (⟨after.1, after.2, registry.nextId, closeListener registry.descriptors node.value⟩, 0)

/-- The loop of `forward_list_json` at one record: whether it is the first one, and the buffer with `pos`
unless a byte was stored outside. -/
def printRecord {size : Nat} (state : Bool × Option (Region size × Nat)) (_ : Nat) (f : Tcpforward) :
    Walked (Bool × Option (Region size × Nat)) Empty :=
  .ended (false, state.2.bind (fun (buf, pos) =>
    Region.print ((if state.1 then [] else [ascii ","]) ++ [f.text]) buf pos))

/-- `forward_list_json` -/
def forwardListJson {size : Nat} (fuel : Nat) (registry : Registry) (buf : Region size) :
    Except Stop (Option (Region size × Nat)) := do
  let walked ← walk registry.heap printRecord fuel
    (true, Region.print [ascii "\x7b\"forwards\":["] buf 0) registry.gForwards
  match walked with
  | .ended state =>
      pure (state.2.bind (fun (buf, pos) =>
        (buf.snprintf pos (Region.roomAt size pos) (ascii "]\x7d")).map (fun buf => (buf, pos))))

/-- `forward_shutdown_all` -/
def forwardShutdownAll (fuel : Nat) (registry : Registry) : Except Stop Registry := do
  let after ← overwrite closeListener stopped fuel registry.heap registry.descriptors registry.gForwards
  pure { registry with heap := after.1, descriptors := after.2 }

end Registry

/-! ## What the memory stands for -/

/-- The memory consists of the records of the table, in their order. -/
def Registry.Stores (registry : Registry) (table : ForwardTable) : Prop :=
  Exists fun entries => Represents registry.heap registry.gForwards entries ∧ values entries = table.forwards ∧
    registry.nextId = table.nextId ∧ registry.descriptors = table.descriptors

theorem stores_initial : Registry.initial.Stores ForwardTable.initial := ⟨[], represents_nil, rfl, rfl, rfl⟩

section Simulation

variable {registry : Registry} {table : ForwardTable} {fuel : Nat}

theorem descriptors_close (same : registry.descriptors = table.descriptors) (fd : Nat) :
    (registry.close fd).descriptors = (table.close fd).descriptors :=
  congrArg (List.filter _) same

theorem descriptors_setDescriptor (same : registry.descriptors = table.descriptors) (fd : Nat)
    (bound : Option SockAddr) :
    (registry.setDescriptor fd bound).descriptors = (table.setDescriptor fd bound).descriptors :=
  congrArg (List.cons _) (descriptors_close same fd)

/-- The records that are counted are those of the list. -/
theorem walkList_checkRecord (unixPath host : List UInt8) (port : Int) (entries : List (Nat × Tcpforward))
    (count : Nat) :
    walkList (Registry.checkRecord unixPath host port) count entries =
      match (values entries).findSome? (clash unixPath host port) with
      | some code => .left code
      | none => .ended (count + entries.length) := by
  induction entries generalizing count with
  | nil => rfl
  | cons entry entries inductionHypothesis =>
      rcases entry with ⟨address, f⟩
      have isValues : values ((address, f) :: entries) = f :: values entries := rfl
      rw [walkList, Registry.checkRecord, isValues, List.findSome?_cons]
      cases clash unixPath host port f with
      | some code => rfl
      | none =>
          dsimp only
          rw [inductionHypothesis, List.length_cons]
          cases (values entries).findSome? (clash unixPath host port) with
          | some code => rfl
          | none =>
              dsimp only
              congr 1
              omega

theorem length_values {α : Type} (entries : List (Nat × α)) : (values entries).length = entries.length :=
  List.length_map _

/-- `forward_add` in memory does what it does to the table. -/
theorem forwardAdd_stores (stores : registry.Stores table) (enough : table.forwards.length < fuel)
    (inetPton : InetPton) (unixPath host : List UInt8) (port : Int) (secure : Bool) (outcomes : AddOutcomes)
    {address : Nat} (fresh : registry.heap address = none) :
    Exists fun after =>
      registry.forwardAdd fuel inetPton unixPath host port secure outcomes address =
        .ok (after, (forwardAdd inetPton table unixPath host port secure outcomes).2) ∧
      after.Stores (forwardAdd inetPton table unixPath host port secure outcomes).1 := by
  have unchanged := stores
  rcases stores with ⟨entries, represents, isValues, isNext, isDescriptors⟩
  have lengths := length_values entries
  rw [isValues] at lengths
  have walked := walk_eq (Registry.checkRecord unixPath host port) represents.linked
    (by omega : entries.length < fuel) 0
  rw [walkList_checkRecord, isValues, Nat.zero_add] at walked
  rw [Registry.forwardAdd, walked, ok_bind, forwardAdd]
  cases table.forwards.findSome? (clash unixPath host port) with
  | some code => exact ⟨registry, rfl, unchanged⟩
  | none =>
      dsimp only
      rw [lengths]
      by_cases full : maxForwards ≤ entries.length
      · rw [if_pos full, if_pos full]
        exact ⟨registry, rfl, unchanged⟩
      · rw [if_neg full, if_neg full]
        cases outcomes.socket with
        | none => exact ⟨registry, rfl, unchanged⟩
        | some fd =>
            have opened := descriptors_setDescriptor isDescriptors fd none
            have bound := fun address => descriptors_setDescriptor opened fd (some address)
            dsimp only
            by_cases bindFails : outcomes.bind = false
            · rw [if_pos bindFails, if_pos bindFails]
              exact ⟨_, rfl, entries, represents, isValues, isNext, descriptors_close opened fd⟩
            · rw [if_neg bindFails, if_neg bindFails]
              by_cases listenFails : outcomes.listen = false
              · rw [if_pos listenFails, if_pos listenFails]
                exact ⟨_, rfl, entries, represents, isValues, isNext, descriptors_close (bound _) fd⟩
              · rw [if_neg listenFails, if_neg listenFails]
                by_cases callocFails : outcomes.calloc = false
                · rw [if_pos callocFails, if_pos callocFails]
                  exact ⟨_, rfl, entries, represents, isValues, isNext, descriptors_close (bound _) fd⟩
                · rw [if_neg callocFails, if_neg callocFails, isNext]
                  refine ⟨_, rfl, (address, newForward table.nextId unixPath host port secure fd) :: entries,
                    represents.push fresh _, ?_, congrArg (· + 1) isNext, bound _⟩
                  rw [values, List.map_cons]
                  exact congrArg _ isValues

/-- `forward_remove` in memory does what it does to the table. -/
theorem forwardRemove_stores (stores : registry.Stores table) (enough : table.forwards.length < fuel)
    (id : Int) :
    Exists fun after => registry.forwardRemove fuel id = .ok (after, (forwardRemove table id).2) ∧
      after.Stores (forwardRemove table id).1 := by
  have unchanged := stores
  rcases stores with ⟨entries, represents, isValues, isNext, isDescriptors⟩
  have lengths := length_values entries
  rw [isValues] at lengths
  have walked := walk_eq (lookFor (fun f => f.id == id)) represents.linked
    (by omega : entries.length < fuel) none
  rw [Registry.forwardRemove, walked, ok_bind, forwardRemove, ForwardTable.find]
  rcases walkList_lookFor_cases (fun f : Tcpforward => f.id == id) entries with
    ⟨others, last, ended⟩ | ⟨front, address, f, back, split, others, isFound, left⟩
  · have notFound : table.forwards.find? (fun f => f.id == id) = none := by
      rw [← isValues]
      exact List.find?_eq_none.mpr (fun f member => by rw [others f member]; exact Bool.false_ne_true)
    rw [ended, notFound]
    exact ⟨registry, rfl, unchanged⟩
  · subst split
    have isList : table.forwards = values front ++ f :: values back := by
      rw [← isValues, values, List.map_append, List.map_cons]
      rfl
    have passed : forall other, other ∈ values front -> ¬ (other.id == id) = true := by
      intro other member
      rw [others other member]
      exact Bool.false_ne_true
    have found : table.forwards.find? (fun f => f.id == id) = some f := by
      rw [isList, List.find?_append, List.find?_eq_none.mpr passed,
        List.find?_cons_of_pos (p := fun f : Tcpforward => f.id == id) isFound]
      rfl
    have erased : table.forwards.eraseP (fun f => f.id == id) = values front ++ values back := by
      rw [isList, List.eraseP_append_right _ passed,
        List.eraseP_cons_of_pos (p := fun f : Tcpforward => f.id == id) isFound]
    rcases represents.store (Registry.stopped f) with ⟨next, isNode, stored, still⟩
    rcases still.unlink with ⟨after, first, unlinked, remains⟩
    refine ⟨⟨after, first, registry.nextId, Registry.closeListener registry.descriptors f⟩, ?_, front ++
      back, remains,
      ?_, ?_, ?_⟩
    · rw [left]
      dsimp only
      rw [isNode, ok_bind, stored, ok_bind, unlinked, ok_bind, found]
      rfl
    · rw [found]
      dsimp only
      rw [erased, values, List.map_append]
      rfl
    · rw [found]
      dsimp only
      split <;> exact isNext
    · rw [found]
      dsimp only
      rw [Registry.closeListener, isDescriptors]
      split <;> rfl

/-- Pieces are printed behind each other. -/
theorem print_append {size : Nat} (front back : List (List UInt8)) (buf : Region size) (pos : Nat) :
    Region.print (front ++ back) buf pos =
      (Region.print front buf pos).bind (fun (buf, pos) => Region.print back buf pos) := by
  induction front generalizing buf pos with
  | nil => rfl
  | cons text front inductionHypothesis =>
      rw [List.cons_append, Region.print, Region.print, Option.bind_assoc]
      congr 1
      funext after
      exact inductionHypothesis after _

/-- The loop prints the pieces of the list. -/
theorem walkList_printRecord {size : Nat} (entries : List (Nat × Tcpforward)) (first : Bool)
    (printed : Option (Region size × Nat)) :
    Exists fun stillFirst => walkList Registry.printRecord (first, printed) entries =
      .ended (stillFirst, printed.bind (fun (buf, pos) =>
        Region.print (forwardPieces first (values entries)) buf pos)) := by
  induction entries generalizing first printed with
  | nil =>
      refine ⟨first, ?_⟩
      cases printed <;> rfl
  | cons entry entries inductionHypothesis =>
      rcases entry with ⟨address, f⟩
      have isValues : values ((address, f) :: entries) = f :: values entries := rfl
      rcases inductionHypothesis false (printed.bind (fun (buf, pos) =>
        Region.print ((if first then [] else [ascii ","]) ++ [f.text]) buf pos)) with ⟨stillFirst, walked⟩
      refine ⟨stillFirst, ?_⟩
      rw [walkList, Registry.printRecord]
      dsimp only
      rw [walked, Option.bind_assoc, isValues, forwardPieces]
      congr 3
      funext state
      rw [← print_append, List.append_assoc, List.singleton_append]

/-- `forward_list_json` in memory prints the list of the table. -/
theorem forwardListJson_stores (stores : registry.Stores table) (enough : table.forwards.length < fuel)
    {size : Nat}
    (buf : Region size) : registry.forwardListJson fuel buf = .ok (forwardListJson buf table.forwards) := by
  rcases stores with ⟨entries, represents, isValues, _, _⟩
  have lengths := length_values entries
  rw [isValues] at lengths
  rcases walkList_printRecord entries true
    (Region.print [ascii "\x7b\"forwards\":["] buf 0) with ⟨stillFirst, printed⟩
  have pieces : Region.print (listPieces table.forwards) buf 0 =
      (Region.print [ascii "\x7b\"forwards\":["] buf 0).bind (fun (buf, pos) =>
        Region.print (forwardPieces true table.forwards) buf pos) :=
    print_append [ascii "\x7b\"forwards\":["] _ buf 0
  rw [Registry.forwardListJson, walk_eq Registry.printRecord represents.linked
    (by omega : entries.length < fuel),
    printed, ok_bind, isValues, forwardListJson, pieces]
  rfl

/-- `forward_shutdown_all` in memory stops every record of the table. -/
theorem forwardShutdownAll_stores (stores : registry.Stores table) (enough : table.forwards.length < fuel) :
    Exists fun after => registry.forwardShutdownAll fuel = .ok after ∧
      after.Stores (Lifetime.shutdownAll table) := by
  rcases stores with ⟨entries, represents, isValues, isNext, isDescriptors⟩
  have lengths := length_values entries
  rw [isValues] at lengths
  rcases represents.overwrite Registry.closeListener Registry.stopped (by omega : entries.length < fuel)
    registry.descriptors with ⟨heap, performed, remains⟩
  -- the listeners that are closed, one after the other
  have closes : forall (forwards : List Tcpforward) (closing : ForwardTable),
      ((forwards.filter (fun f => 0 ≤ f.listenFd)).foldl (fun closing f => closing.close f.listenFd.toNat)
        closing).descriptors = forwards.foldl Registry.closeListener closing.descriptors ∧
      ((forwards.filter (fun f => 0 ≤ f.listenFd)).foldl (fun closing f => closing.close f.listenFd.toNat)
        closing).nextId = closing.nextId := by
    intro forwards
    induction forwards with
    | nil => exact fun _ => ⟨rfl, rfl⟩
    | cons f forwards inductionHypothesis =>
        intro closing
        rw [List.foldl_cons, Registry.closeListener]
        by_cases listens : 0 ≤ f.listenFd
        · rw [List.filter_cons_of_pos (by rw [decide_eq_true listens]), List.foldl_cons, if_pos listens]
          exact inductionHypothesis (closing.close f.listenFd.toNat)
        · rw [List.filter_cons_of_neg (by rw [decide_eq_true_eq]; exact listens), if_neg listens]
          exact inductionHypothesis closing
  refine ⟨⟨heap, registry.gForwards, registry.nextId,
    table.forwards.foldl Registry.closeListener registry.descriptors⟩,
    ?_, _, remains, ?_, ?_, ?_⟩
  · rw [Registry.forwardShutdownAll, performed, isValues]
    rfl
  · rw [values_changed, isValues]
    rfl
  · exact isNext.trans (closes table.forwards table).2.symm
  · exact (congrArg (fun descriptors =>
      table.forwards.foldl Registry.closeListener descriptors) isDescriptors).trans
      (closes table.forwards table).1.symm

end Simulation

/-! ## Any order of calls -/

/-- A call under the mutex.  `add` comes with what the kernel answers and where `calloc` would place the
record, `list` with the buffer. -/
inductive RegistryCall where
  | add (unixPath host : List UInt8) (port : Int) (secure : Bool) (outcomes : AddOutcomes) (address : Nat)
  | remove (id : Int)
  | list (buf : Region listBuf)
  | shutdownAll

/-- What a call returns, or prints with the final `pos`. -/
inductive Reply where
  | code (value : Int)
  | printed (result : Option (Region listBuf × Nat))
  | done

/-- A call on the table. -/
def ForwardTable.answer (inetPton : InetPton) (table : ForwardTable) : RegistryCall -> ForwardTable × Reply
  | .add unixPath host port secure outcomes _ =>
      let added := forwardAdd inetPton table unixPath host port secure outcomes
      (added.1, .code added.2)
  | .remove id => ((forwardRemove table id).1, .code (forwardRemove table id).2)
  | .list buf => (table, .printed (forwardListJson buf table.forwards))
  | .shutdownAll => (Lifetime.shutdownAll table, .done)

/-- The same call in memory. -/
def Registry.answer (fuel : Nat) (inetPton : InetPton) (registry : Registry) :
    RegistryCall -> Except Stop (Registry × Reply)
  | .add unixPath host port secure outcomes address => do
      let added ← registry.forwardAdd fuel inetPton unixPath host port secure outcomes address
      pure (added.1, .code added.2)
  | .remove id => do
      let removed ← registry.forwardRemove fuel id
      pure (removed.1, .code removed.2)
  | .list buf => do
      let printed ← registry.forwardListJson fuel buf
      pure (registry, .printed printed)
  | .shutdownAll => do
      let after ← registry.forwardShutdownAll fuel
      pure (after, .done)

/-- Calls one after the other. -/
def ForwardTable.answers (inetPton : InetPton) : ForwardTable -> List RegistryCall -> ForwardTable × List Reply
  | table, [] => (table, [])
  | table, call :: calls =>
      let answered := table.answer inetPton call
      let later := answered.1.answers inetPton calls
      (later.1, answered.2 :: later.2)

def Registry.answers (fuel : Nat) (inetPton : InetPton) :
    Registry -> List RegistryCall -> Except Stop (Registry × List Reply)
  | registry, [] => pure (registry, [])
  | registry, call :: calls => do
      let answered ← registry.answer fuel inetPton call
      let later ← answered.1.answers fuel inetPton calls
      pure (later.1, answered.2 :: later.2)

/-- `calloc` places a record where nothing is allocated. -/
def RegistryCall.allocates (registry : Registry) : RegistryCall -> Bool
  | .add _ _ _ _ _ address => (registry.heap address).isNone
  | _ => true

/-- So do all calls of the run. -/
def Registry.allocating (fuel : Nat) (inetPton : InetPton) : Registry -> List RegistryCall -> Bool
  | _, [] => true
  | registry, call :: calls =>
      call.allocates registry &&
        match registry.answer fuel inetPton call with
        | .ok answered => answered.1.allocating fuel inetPton calls
        | .error _ => true

section Runs

variable {registry : Registry} {table : ForwardTable} {fuel : Nat} {inetPton : InetPton} {call : RegistryCall}

/-- One call in memory is the call on the table. -/
theorem answer_stores (inetPton : InetPton) (stores : registry.Stores table)
    (enough : table.forwards.length < fuel)
    (fresh : call.allocates registry = true) :
    Exists fun after => registry.answer fuel inetPton call = .ok (after, (table.answer inetPton call).2) ∧
      after.Stores (table.answer inetPton call).1 := by
  cases call with
  | add unixPath host port secure outcomes address =>
      rcases forwardAdd_stores stores enough inetPton unixPath host port secure outcomes
        (Option.isNone_iff_eq_none.mp fresh)
        with ⟨after, added, remains⟩
      refine ⟨after, ?_, remains⟩
      rw [Registry.answer, added, ok_bind]
      rfl
  | remove id =>
      rcases forwardRemove_stores stores enough id with ⟨after, removed, remains⟩
      refine ⟨after, ?_, remains⟩
      rw [Registry.answer, removed, ok_bind]
      rfl
  | list buf =>
      refine ⟨registry, ?_, stores⟩
      rw [Registry.answer, forwardListJson_stores stores enough, ok_bind]
      rfl
  | shutdownAll =>
      rcases forwardShutdownAll_stores stores enough with ⟨after, performed, remains⟩
      refine ⟨after, ?_, remains⟩
      rw [Registry.answer, performed, ok_bind]
      rfl

/-- No call makes the table outgrow its capacity. -/
theorem length_answer_le (within : table.forwards.length ≤ maxForwards) (call : RegistryCall) :
    (table.answer inetPton call).1.forwards.length ≤ maxForwards := by
  cases call with
  | add unixPath host port secure outcomes address =>
      rw [ForwardTable.answer]
      dsimp only
      unfold forwardAdd
      split
      · exact within
      · by_cases full : maxForwards ≤ table.forwards.length
        · rw [if_pos full]
          exact within
        · rw [if_neg full]
          split
          · exact within
          · dsimp only
            split_ifs
            · exact within
            · exact within
            · exact within
            · exact Nat.lt_of_not_le full
  | remove id =>
      rcases forwardRemove_cases table id with ⟨_, unchanged⟩ | ⟨_, _, removed, _⟩
      · rw [ForwardTable.answer, unchanged]
        exact within
      · rw [ForwardTable.answer, removed]
        exact Nat.le_trans List.eraseP_sublist.length_le within
  | list buf => exact within
  | shutdownAll =>
      rw [ForwardTable.answer, Lifetime.shutdownAll, List.length_map]
      exact within

theorem answers_stores (stores : registry.Stores table) (within : table.forwards.length ≤ maxForwards)
    (enough : maxForwards < fuel) {calls : List RegistryCall}
    (allocating : registry.allocating fuel inetPton calls = true) :
    Exists fun after => registry.answers fuel inetPton calls = .ok (after, (table.answers inetPton calls).2) ∧
      after.Stores (table.answers inetPton calls).1 := by
  induction calls generalizing registry table with
  | nil => exact ⟨registry, rfl, stores⟩
  | cons call calls inductionHypothesis =>
      rw [Registry.allocating, Bool.and_eq_true] at allocating
      rcases answer_stores inetPton stores (Nat.lt_of_le_of_lt within enough) allocating.1 with
        ⟨after, answered, remains⟩
      rw [answered] at allocating
      rcases inductionHypothesis remains (length_answer_le within call) allocating.2 with ⟨last, later, final⟩
      refine ⟨last, ?_, final⟩
      rw [Registry.answers, answered, ok_bind, later, ok_bind]
      rfl

end Runs

/-- Whatever is called in whatever order, the loops over the records end after 33 visits, no pointer
leads to memory that is not allocated, nothing is freed twice, every call returns and prints what the
list of the records says, and the records that are allocated are exactly those on the list. -/
theorem registry_answers (inetPton : InetPton) {calls : List RegistryCall}
    (allocating : Registry.initial.allocating (maxForwards + 1) inetPton calls = true) :
    Exists fun after =>
      Registry.initial.answers (maxForwards + 1) inetPton calls =
        .ok (after, (ForwardTable.initial.answers inetPton calls).2) ∧
      after.Stores (ForwardTable.initial.answers inetPton calls).1 :=
  answers_stores stores_initial (Nat.zero_le _) (Nat.lt_succ_self _) allocating

/-- Two forwards are added, and the one behind the other is removed and its memory used again. -/
def reusingCalls : List RegistryCall :=
  [.add (ascii "/a") (ascii "127.0.0.1") 8000 false (succeedingWith 5) 100,
    .add (ascii "/b") (ascii "127.0.0.1") 8001 true (succeedingWith 6) 200, .remove 1,
    .add (ascii "/c") (ascii "127.0.0.1") 8002 false (succeedingWith 5) 100]

theorem registry_answers_reusing : Exists fun after =>
    Registry.initial.answers (maxForwards + 1) dottedQuad reusingCalls =
      .ok (after, [.code 1, .code 2, .code 0, .code 3]) ∧
      after.Stores (ForwardTable.initial.answers dottedQuad reusingCalls).1 :=
  registry_answers dottedQuad (by decide)

end Forward
end AdbBridge
