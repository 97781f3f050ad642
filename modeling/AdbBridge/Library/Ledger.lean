import Mathlib.Data.List.Basic
import Mathlib.Data.List.Nodup
import Mathlib.Data.List.Perm.Basic

namespace Library

/-!
# Handles that are opened and closed

A ledger keeps the handles that are open together with the history of what was
opened and closed.  `Holds` says which of the open handles somebody answers for: a
handle opened since the start is either closed, once, or held.
-/

universe u

/-- The open handles, and those opened and closed since the start, in their order. -/
structure Ledger (α : Type u) where
  present : List α
  opened : List α
  closed : List α
deriving DecidableEq, Repr

namespace Ledger

variable {α : Type u}

/-- Some handles are open, and nothing has happened. -/
def start (before : List α) : Ledger α := ⟨before, [], []⟩

/-- Handles are opened. -/
def add (ledger : Ledger α) (handles : List α) : Ledger α where
  present := handles ++ ledger.present
  opened := ledger.opened ++ handles
  closed := ledger.closed

section Closing

variable [DecidableEq α]

/-- A handle is closed; if it is not open, nothing but the history changes. -/
def close (ledger : Ledger α) (handle : α) : Ledger α where
  present := ledger.present.erase handle
  opened := ledger.opened
  closed := ledger.closed ++ [handle]

/-- Handles are closed one after the other. -/
def closeAll (ledger : Ledger α) (handles : List α) : Ledger α := handles.foldl close ledger

end Closing

/-- Besides the handles that were open before, exactly `held` are open, and each handle
that was opened is closed once or among them. -/
structure Holds (before held : List α) (ledger : Ledger α) : Prop where
  present : ledger.present.Perm (held ++ before)
  unique : (held ++ before).Nodup
  history : ledger.opened.Perm (ledger.closed ++ held)

/-- What is open is what was open at the start, and every handle that was opened was
closed exactly once. -/
structure Balanced (before : List α) (ledger : Ledger α) : Prop where
  present : ledger.present.Perm before
  closed : ledger.closed.Perm ledger.opened

variable {before held handles : List α} {ledger : Ledger α} {handle : α}

theorem holds_start (unique : before.Nodup) : Holds before [] (start before) :=
  ⟨List.Perm.refl _, unique, List.Perm.refl _⟩

/-- The order of the handles held does not matter. -/
theorem Holds.perm {other : List α} (holds : Holds before held ledger) (same : held.Perm other) :
    Holds before other ledger :=
  ⟨holds.present.trans (same.append_right before), (same.append_right before).nodup_iff.mp holds.unique,
    holds.history.trans (same.append_left ledger.closed)⟩

/-- New handles are held. -/
theorem Holds.add (holds : Holds before held ledger) (distinct : handles.Nodup)
    (fresh : forall handle, handle ∈ handles -> handle ∉ ledger.present) :
    Holds before (handles ++ held) (ledger.add handles) := by
  refine ⟨?_, ?_, ?_⟩
  · rw [List.append_assoc]
    exact holds.present.append_left handles
  · rw [List.append_assoc]
    refine distinct.append holds.unique (fun handle isNew isOld => ?_)
    exact fresh handle isNew (holds.present.mem_iff.mpr isOld)
  · change (ledger.opened ++ handles).Perm (ledger.closed ++ (handles ++ held))
    rw [← List.append_assoc]
    refine (holds.history.append_right handles).trans ?_
    rw [List.append_assoc, List.append_assoc]
    exact List.perm_append_comm.append_left ledger.closed

/-- Nothing is left open if and only if nothing is held. -/
theorem Holds.balanced_iff (holds : Holds before held ledger) : Balanced before ledger ↔ held = [] := by
  constructor
  · intro balanced
    have lengths := (balanced.closed.trans holds.history).length_eq
    rw [List.length_append] at lengths
    exact List.length_eq_zero_iff.mp (by omega)
  · rintro rfl
    have history := holds.history
    rw [List.append_nil] at history
    exact ⟨holds.present, history.symm⟩

variable [DecidableEq α]

/-- A handle that is held is closed and no longer held. -/
theorem Holds.close (holds : Holds before (handle :: held) ledger) : Holds before held
    (ledger.close handle) := by
  refine ⟨?_, (List.nodup_cons.mp holds.unique).2, ?_⟩
  · have erased := holds.present.erase handle
    rw [List.cons_append, List.erase_cons_head] at erased
    exact erased
  · change ledger.opened.Perm (ledger.closed ++ [handle] ++ held)
    rw [List.append_assoc]
    exact holds.history

/-- Of the handles held the first ones are closed. -/
theorem Holds.closeAll (holds : Holds before (handles ++ held) ledger) :
    Holds before held (ledger.closeAll handles) := by
  induction handles generalizing ledger with
  | nil => exact holds
  | cons handle handles inductionHypothesis => exact inductionHypothesis holds.close

end Ledger
end Library
