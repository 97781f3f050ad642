import AdbBridge.Forward.Table
import AdbBridge.Library.Machine

namespace AdbBridge
namespace Forward

open Library Library.Numeral

/-!
# Any sequence of calls on the forward table

`forward_add` and `forward_remove` are called in any order with any arguments,
and the kernel answers each call as it likes.  The only thing the kernel
promises is that `socket` hands out a descriptor that is not open.

`g_next_id` counts the forwards that were ever created, so ids fall from the
head of the list to its end and no id is given out twice.
-/

/-! ## Calls -/

/-- A call on the table with what the kernel answers to it. -/
inductive Call where
  | add (unixPath host : List UInt8) (port : Int) (secure : Bool) (outcomes : AddOutcomes)
  | remove (id : Int)

/-- The descriptor `socket` hands out, if any, is not open. -/
def AddOutcomes.freshIn (outcomes : AddOutcomes) (table : ForwardTable) : Bool :=
  match outcomes.socket with
  | none => true
  | some fd => table.descriptors.all (fun entry => entry.1 != fd)

/-- The kernel can answer the call in this way. -/
def Call.possible (table : ForwardTable) : Call -> Bool
  | .add _ _ _ _ outcomes => outcomes.freshIn table
  | .remove _ => true

/-- The table after a call, and what the call returns. -/
def perform (inetPton : InetPton) (table : ForwardTable) : Call -> ForwardTable × Int
  | .add unixPath host port secure outcomes =>
      forwardAdd inetPton table unixPath host port secure outcomes
  | .remove id => forwardRemove table id

/-- The table after a call. -/
def tableStep (inetPton : InetPton) (table : ForwardTable) (call : Call) : Option ForwardTable :=
  if call.possible table = true then some (perform inetPton table call).1 else none

/-- How many calls of the sequence create a forward. -/
def successfulAdds (inetPton : InetPton) : ForwardTable -> List Call -> Nat
  | _, [] => 0
  | table, .add unixPath host port secure outcomes :: rest =>
      let added := forwardAdd inetPton table unixPath host port secure outcomes
      (if 0 < added.2 then 1 else 0) + successfulAdds inetPton added.1 rest
  | table, .remove id :: rest => successfulAdds inetPton (forwardRemove table id).1 rest

/-! ## What one call does -/

variable {inetPton : InetPton} {table after final : ForwardTable} {unixPath host : List UInt8}
  {port id code : Int} {secure : Bool} {outcomes : AddOutcomes} {call : Call} {calls : List Call}

theorem ForwardTable.close_setDescriptor (fd : Nat) (bound : Option SockAddr) :
    (table.setDescriptor fd bound).close fd = table.close fd := by
  simp [ForwardTable.setDescriptor, ForwardTable.close]

/-- Closing a descriptor that is not open changes nothing. -/
theorem ForwardTable.close_eq_self {fd : Nat}
    (unused : table.descriptors.all (fun entry => entry.1 != fd) = true) : table.close fd = table := by
  unfold ForwardTable.close
  rw [List.filter_eq_self.mpr (List.all_eq_true.mp unused)]

theorem clash_bounds {f : Tcpforward} (refused : clash unixPath host port f = some code) :
    -7 ≤ code ∧ code < 0 := by
  unfold clash at refused
  split_ifs at refused <;> (have value := Option.some.inj refused; omega)

/-- A call of `forward_add` either fails with one of its codes and leaves no
trace, or it had room for the record it links at the head. -/
theorem forwardAdd_exact (fresh : outcomes.freshIn table = true)
    (added : forwardAdd inetPton table unixPath host port secure outcomes = (after, code)) :
    (-7 ≤ code ∧ code < 0 ∧ after = table) ∨
      (code = table.nextId ∧ after.nextId = table.nextId + 1 ∧
        table.forwards.length < maxForwards ∧
        Exists fun fd => after.forwards = newForward code unixPath host port secure fd :: table.forwards) := by
  rcases forwardAdd_cases added with ⟨negative, _, _⟩ | ⟨fd, isNext, next, linked, _⟩
  · have failed : forall other : ForwardTable, forall failure : Int, (other, failure) = (after, code) ->
        other = table -> -7 ≤ failure -> -7 ≤ code ∧ code < 0 ∧ after = table := by
      intro other failure same unchanged bound
      have parts := Prod.mk.inj same
      exact ⟨parts.2 ▸ bound, negative, parts.1 ▸ unchanged⟩
    apply Or.inl
    unfold forwardAdd at added
    split at added
    next refusal found =>
      rcases List.exists_of_findSome?_eq_some found with ⟨f, _, refused⟩
      exact failed _ _ added rfl (clash_bounds refused).1
    · split at added
      · exact failed _ _ added rfl (by decide)
      · cases opened : outcomes.socket with
        | none =>
            rw [opened] at added
            exact failed _ _ added rfl (by decide)
        | some fd =>
            rw [AddOutcomes.freshIn, opened] at fresh
            rw [opened] at added
            have closed : forall bound : Option SockAddr,
                (table.setDescriptor fd bound).close fd = table := by
              intro bound
              rw [ForwardTable.close_setDescriptor, ForwardTable.close_eq_self fresh]
            dsimp only at added
            split_ifs at added
            · exact failed _ _ added (closed none) (by decide)
            · refine failed _ _ added ?_ (by decide)
              rw [ForwardTable.close_setDescriptor, closed]
            · refine failed _ _ added ?_ (by decide)
              rw [ForwardTable.close_setDescriptor, closed]
            · have isNext := (Prod.mk.inj added).2
              have positive := table.nextPositive
              omega
  · refine Or.inr ⟨isNext, next, ?_, fd, linked⟩
    by_contra full
    unfold forwardAdd at added
    split at added
    next refusal found =>
      rcases List.exists_of_findSome?_eq_some found with ⟨f, _, refused⟩
      have negative := (clash_bounds refused).2
      have same := (Prod.mk.inj added).2
      have positive := table.nextPositive
      omega
    · rw [if_pos (Nat.not_lt.mp full)] at added
      have same := (Prod.mk.inj added).2
      have positive := table.nextPositive
      omega

/-- `g_next_id` grows by one with every forward created, and not otherwise. -/
theorem nextId_of_exec (run : Machine.exec (tableStep inetPton) table calls = some final) :
    final.nextId = table.nextId + successfulAdds inetPton table calls := by
  induction calls generalizing table with
  | nil =>
      rw [← Option.some.inj run]
      exact (Int.add_zero _).symm
  | cons call rest inductionHypothesis =>
      rcases Machine.exec_cons_eq_some_iff.mp run with ⟨next, taken, tail⟩
      rcases Option.ite_none_right_eq_some.mp taken with ⟨_, performed⟩
      have reached := inductionHypothesis tail
      cases call with
      | add unixPath host port secure outcomes =>
          rw [perform] at performed
          have one : next.nextId = table.nextId +
              (if 0 < (forwardAdd inetPton table unixPath host port secure outcomes).2 then 1 else 0) := by
            rcases forwardAdd_cases (Prod.mk.eta (p :=
              forwardAdd inetPton table unixPath host port secure outcomes)).symm with
              ⟨negative, _, same⟩ | ⟨_, isNext, grown, _⟩
            · rw [if_neg (by omega), ← Option.some.inj performed, same, Int.add_zero]
            · have positive := table.nextPositive
              rw [if_pos (by omega), ← Option.some.inj performed, grown]
          rw [reached, one, successfulAdds, ← Option.some.inj performed]
          split <;> push_cast <;> omega
      | remove id =>
          rw [perform] at performed
          rw [reached, successfulAdds, ← Option.some.inj performed]
          rcases forwardRemove_cases table id with ⟨_, unchanged⟩ | ⟨_, _, _, same⟩
          · rw [unchanged]
          · rw [same]

/-! ## The invariant -/

/-- Ids fall from the head, are positive and below the next one, and the table
has not outgrown its capacity. -/
structure ForwardTable.Consistent (table : ForwardTable) : Prop where
  positive : forall id, id ∈ table.ids -> 0 < id
  below : forall id, id ∈ table.ids -> id < table.nextId
  decreasing : table.ids.Pairwise (fun first second => second < first)
  capacity : table.forwards.length ≤ maxForwards

/-- Every call leaves the table consistent. -/
theorem consistent_step (inetPton : InetPton) (table : ForwardTable) (call : Call) (next : ForwardTable)
    (taken : tableStep inetPton table call = some next) (consistent : table.Consistent) :
    next.Consistent := by
  rcases Option.ite_none_right_eq_some.mp taken with ⟨possible, performed⟩
  have performed := Option.some.inj performed
  cases call with
  | add unixPath host port secure outcomes =>
      rcases forwardAdd_exact possible (Prod.mk.eta (p :=
        forwardAdd inetPton table unixPath host port secure outcomes)).symm with
        ⟨_, _, unchanged⟩ | ⟨isNext, grown, room, fd, linked⟩
      · rw [← performed, perform, unchanged]
        exact consistent
      · rw [perform] at performed
        rw [performed] at grown linked
        rw [isNext] at linked
        have ids : next.ids = table.nextId :: table.ids := by
          rw [ForwardTable.ids, linked]
          rfl
        constructor
        · rw [ids]
          intro id member
          rcases List.mem_cons.mp member with isHead | inTail
          · exact isHead ▸ table.nextPositive
          · exact consistent.positive id inTail
        · rw [ids, grown]
          intro id member
          rcases List.mem_cons.mp member with isHead | inTail
          · omega
          · have old := consistent.below id inTail
            omega
        · rw [ids]
          exact List.Pairwise.cons consistent.below consistent.decreasing
        · rw [linked, List.length_cons]
          omega
  | remove id =>
      rw [perform] at performed
      rcases forwardRemove_cases table id with ⟨_, unchanged⟩ | ⟨_, _, erased, same⟩
      · rw [← performed, unchanged]
        exact consistent
      · rw [performed] at erased same
        have kept : next.ids.Sublist table.ids := by
          rw [ForwardTable.ids, erased]
          exact List.eraseP_sublist.map Tcpforward.id
        constructor
        · exact fun other member => consistent.positive other (kept.subset member)
        · rw [same]
          exact fun other member => consistent.below other (kept.subset member)
        · exact consistent.decreasing.sublist kept
        · rw [erased]
          exact Nat.le_trans List.length_eraseP_le consistent.capacity

theorem consistent_initial : ForwardTable.initial.Consistent := by
  constructor
  · exact nofun
  · exact nofun
  · exact List.Pairwise.nil
  · exact Nat.zero_le _

/-! ## Ids are never used twice -/

/-- An id that was given out and is not in the table never comes back. -/
theorem id_stays_unused (run : Machine.exec (tableStep inetPton) table calls = some final)
    (given : id < table.nextId) (absent : id ∉ table.ids) : id ∉ final.ids := by
  have preserved : forall table call next, tableStep inetPton table call = some next ->
      (id < table.nextId ∧ id ∉ table.ids) -> (id < next.nextId ∧ id ∉ next.ids) := by
    intro table call next taken unused
    rcases Option.ite_none_right_eq_some.mp taken with ⟨possible, performed⟩
    have performed := Option.some.inj performed
    cases call with
    | add unixPath host port secure outcomes =>
        rw [perform] at performed
        rcases forwardAdd_cases (Prod.mk.eta (p :=
          forwardAdd inetPton table unixPath host port secure outcomes)).symm with
          ⟨_, same, sameNext⟩ | ⟨_, isNext, grown, linked, _⟩
        · rw [performed] at same sameNext
          rw [ForwardTable.ids, same, sameNext]
          exact unused
        · rw [performed] at grown linked
          rw [ForwardTable.ids, linked, grown, List.map_cons, List.mem_cons, not_or]
          refine ⟨by omega, ?_, unused.2⟩
          intro isNew
          rw [isNew, newForward, isNext] at unused
          exact absurd unused.1 (Int.lt_irrefl _)
    | remove other =>
        rw [perform] at performed
        rcases forwardRemove_cases table other with ⟨_, unchanged⟩ | ⟨_, _, erased, same⟩
        · rw [← performed, unchanged]
          exact unused
        · rw [performed] at erased same
          rw [ForwardTable.ids, erased, same]
          exact ⟨unused.1, fun member =>
            unused.2 ((List.eraseP_sublist.map Tcpforward.id).subset member)⟩
  exact (Machine.invariant_exec preserved run ⟨given, absent⟩).2

/-! ## The table in every reachable state -/

/-- A failing `forward_add` changes neither the list nor the next id nor the
open descriptors, and a successful one returns the id of exactly one new head. -/
def AddIsAtomic (inetPton : InetPton) (table : ForwardTable) : Prop :=
  forall unixPath host port secure outcomes after code, outcomes.freshIn table = true ->
    forwardAdd inetPton table unixPath host port secure outcomes = (after, code) ->
      (code < 0 -> -7 ≤ code ∧ after = table) ∧
      (0 ≤ code -> code ∉ table.ids ∧
        Exists fun f => f.id = code ∧ after.forwards = f :: table.forwards)

/-- `forward_remove` deletes the one entry with the id and keeps the order of
the others; it returns -1, and changes nothing, if and only if there is none. -/
def RemoveIsExact (table : ForwardTable) : Prop :=
  forall id after code, forwardRemove table id = (after, code) ->
    (code = -1 ↔ id ∉ table.ids) ∧
    (code = -1 -> after = table) ∧
    (code ≠ -1 -> code = 0 ∧ Exists fun front => Exists fun f => Exists fun back =>
      table.forwards = front ++ f :: back ∧ f.id = id ∧ after.forwards = front ++ back ∧
        id ∉ after.ids)

/-- Whatever is called after the removal of an id, no forward has that id. -/
def RemovedIdIsGone (inetPton : InetPton) (table : ForwardTable) : Prop :=
  forall id calls final, id ∈ table.ids ->
    Machine.exec (tableStep inetPton) (forwardRemove table id).1 calls = some final -> id ∉ final.ids

theorem addIsAtomic_of_consistent (consistent : table.Consistent) : AddIsAtomic inetPton table := by
  intro unixPath host port secure outcomes after code fresh added
  have positive := table.nextPositive
  rcases forwardAdd_exact fresh added with ⟨bound, negative, unchanged⟩ | ⟨isNext, _, _, fd, linked⟩
  · exact ⟨fun _ => ⟨bound, unchanged⟩, fun success => absurd negative (Int.not_lt.mpr success)⟩
  · refine ⟨fun failed => absurd failed (by omega), fun _ => ⟨?_, _, rfl, linked⟩⟩
    intro member
    exact absurd (consistent.below code member) (by omega)

/-- Erasing the first record with an id leaves none with it: ids are distinct. -/
theorem erased_of_consistent (consistent : table.Consistent) (member : id ∈ table.ids) :
    Exists fun front => Exists fun f => Exists fun back =>
      table.forwards = front ++ f :: back ∧ f.id = id ∧
        table.forwards.eraseP (fun f => f.id == id) = front ++ back ∧
        id ∉ (front ++ back).map Tcpforward.id := by
  rcases List.mem_map.mp member with ⟨f, inTable, named⟩
  rcases List.exists_of_eraseP (p := fun f => f.id == id) inTable (beq_iff_eq.mpr named) with
    ⟨found, front, back, others, isId, split, erased⟩
  refine ⟨front, found, back, split, beq_iff_eq.mp isId, erased, ?_⟩
  have decreasing := consistent.decreasing
  rw [ForwardTable.ids, split, List.map_append, List.map_cons, List.pairwise_append,
    List.pairwise_cons, beq_iff_eq.mp isId] at decreasing
  rw [List.map_append, List.mem_append, not_or]
  constructor
  · intro before
    exact Int.lt_irrefl _ (decreasing.2.2 id before id List.mem_cons_self)
  · intro behind
    exact Int.lt_irrefl _ (decreasing.2.1.1 id behind)

theorem removeIsExact_of_consistent (consistent : table.Consistent) : RemoveIsExact table := by
  intro id after code removed
  have isMember := table.find_isSome_iff id
  rcases forwardRemove_cases table id with ⟨missing, unchanged⟩ | ⟨found, zero, erased, _⟩
  · rw [missing] at isMember
    have parts := Prod.mk.inj (unchanged.symm.trans removed)
    refine ⟨⟨fun _ member => ?_, fun _ => parts.2.symm⟩, fun _ => parts.1.symm, fun other => ?_⟩
    · exact absurd (isMember.mpr member) nofun
    · exact absurd parts.2.symm other
  · rw [removed] at zero erased
    rcases erased_of_consistent consistent (isMember.mp found) with
      ⟨front, f, back, split, named, remaining, gone⟩
    have success : code = 0 := zero
    refine ⟨⟨fun failed => absurd failed (by omega), fun absent => absurd (isMember.mp found) absent⟩,
      fun failed => absurd failed (by omega), fun _ => ⟨success, front, f, back, split, named, ?_, ?_⟩⟩
    · exact erased.trans remaining
    · rw [ForwardTable.ids, erased, remaining]
      exact gone

theorem removedIdIsGone_of_consistent (consistent : table.Consistent) :
    RemovedIdIsGone inetPton table := by
  intro id calls final member run
  rcases forwardRemove_cases table id with ⟨missing, _⟩ | ⟨_, _, erased, sameNext⟩
  · have found := (table.find_isSome_iff id).mpr member
    rw [missing] at found
    exact absurd found nofun
  · rcases erased_of_consistent consistent member with ⟨front, f, back, _, _, remaining, gone⟩
    apply id_stays_unused run
    · rw [sameNext]
      exact consistent.below id member
    · rw [ForwardTable.ids, erased, remaining]
      exact gone

/-- After any sequence of calls that creates fewer than `INT_MAX` forwards the
table is consistent, its counter has not overflowed, and the next call of either
kind does what it says. -/
theorem forward_table_invariant (run : Machine.exec (tableStep inetPton) .initial calls = some table)
    (few : successfulAdds inetPton .initial calls < 2147483647) :
    table.Consistent ∧ table.nextId ≤ 2147483647 ∧ AddIsAtomic inetPton table ∧ RemoveIsExact table ∧
      RemovedIdIsGone inetPton table := by
  have consistent : table.Consistent :=
    Machine.invariant_exec (consistent_step inetPton) run consistent_initial
  have counted := nextId_of_exec run
  have first : ForwardTable.initial.nextId = 1 := rfl
  refine ⟨consistent, by omega, ?_, ?_, ?_⟩
  · exact addIsAtomic_of_consistent consistent
  · exact removeIsExact_of_consistent consistent
  · exact removedIdIsGone_of_consistent consistent

/-- Two forwards are created, a third meets a busy port and the first is removed. -/
def fourCalls : List Call :=
  [.add (ascii "/tmp/a") (ascii "127.0.0.1") 8080 false succeeding,
    .add (ascii "/tmp/b") (ascii "127.0.0.1") 8081 false { succeeding with socket := some 6 },
    .add (ascii "/tmp/c") (ascii "127.0.0.1") 8080 false { succeeding with socket := some 7 },
    .remove 1]

theorem forward_table_invariant_four_calls :
    ((Machine.exec (tableStep dottedQuad) .initial fourCalls).get (by decide)).Consistent ∧
      ((Machine.exec (tableStep dottedQuad) .initial fourCalls).get (by decide)).ids = [2] :=
  ⟨(forward_table_invariant (Option.some_get (by decide)).symm (by decide)).1, by decide⟩

end Forward
end AdbBridge
