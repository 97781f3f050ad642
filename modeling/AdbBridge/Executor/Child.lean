import AdbBridge.Library.Machine
import AdbBridge.Library.Numeral

namespace AdbBridge
namespace Executor

/-!
# The child process as its parent sees it

All three executors fork a shell and read its output through pipes.  The
parent observes a pipe only through `read`: the bytes come out in the order
they were written, in pieces of any size, and a read of zero bytes means that
every write end is closed.  `OutputPipe.written` is the history of what was
written and is read by no modelled function; it is what the properties speak about.

A child runs, then is a zombie holding its wait status, then is reaped by
exactly one successful `waitpid`.
-/

/-- The status a terminated child leaves for `waitpid`. -/
inductive WaitStatus where
  | exited (code : UInt8)
  | signaled (signal : Nat)
deriving DecidableEq, Repr

/-- `WEXITSTATUS` of a child that exited, and `-WTERMSIG` of one that was killed. -/
def WaitStatus.code : WaitStatus -> Int
  | .exited code => code.toNat
  | .signaled signal => -(signal : Int)

/-- The child as the parent can find it through `waitpid`. -/
inductive ChildState where
  | running
  | zombie (status : WaitStatus)
  | reaped
deriving DecidableEq, Repr

/-- The parent's read end of an output pipe of the child. -/
structure OutputPipe where
  unread : List UInt8
  written : List UInt8
  closed : Bool
deriving DecidableEq, Repr

namespace OutputPipe

/-- A pipe just created, with the child holding its write end. -/
def fresh : OutputPipe := ⟨[], [], false⟩

/-- Something is to be read: data, or the end of file. -/
def Readable (pipe : OutputPipe) : Prop := pipe.unread ≠ [] ∨ pipe.closed = true

instance (pipe : OutputPipe) : Decidable pipe.Readable := inferInstanceAs (Decidable (_ ∨ _))

/-- A write of the child, impossible once the last write end is closed. -/
def write (pipe : OutputPipe) (block : List UInt8) : Option OutputPipe :=
  if pipe.closed then none
  else some { pipe with unread := pipe.unread ++ block, written := pipe.written ++ block }

/-- The last write end is closed. -/
def close (pipe : OutputPipe) : OutputPipe := { pipe with closed := true }

/-- `read(fd, buf, cap)` returning `count` bytes.  A result of zero stands for
every result the executors treat alike: end of file, and the failure of a
non-blocking read that finds nothing. -/
def read (pipe : OutputPipe) (cap count : Nat) : Option (List UInt8 × OutputPipe) :=
  if count = 0 then
    if pipe.unread = [] then some ([], pipe) else none
  else if count ≤ cap ∧ count ≤ pipe.unread.length then
    some (pipe.unread.take count, { pipe with unread := pipe.unread.drop count })
  else none

/-- What a pipe has delivered so far: the history without the unread bytes. -/
def Delivered (pipe : OutputPipe) (taken : List UInt8) : Prop :=
  pipe.written = taken ++ pipe.unread

theorem delivered_fresh : fresh.Delivered [] := rfl

theorem Delivered.write {pipe next : OutputPipe} {taken block : List UInt8}
    (delivered : pipe.Delivered taken) (wrote : pipe.write block = some next) :
    next.Delivered taken := by
  unfold OutputPipe.write at wrote
  split at wrote
  · exact absurd wrote (by simp)
  · have same := Option.some.inj wrote
    subst same
    simp only [Delivered] at delivered ⊢
    rw [delivered, List.append_assoc]

/-- What one read can do: it takes a nonempty prefix of the unread bytes that
fits the buffer, or nothing when there is none. -/
theorem read_eq_some {pipe next : OutputPipe} {cap count : Nat} {bytes : List UInt8}
    (got : pipe.read cap count = some (bytes, next)) :
    (bytes = [] ∧ count = 0 ∧ pipe.unread = [] ∧ next = pipe) ∨
      (bytes.length = count ∧ 0 < count ∧ count ≤ cap ∧ pipe.unread = bytes ++ next.unread ∧
        next.written = pipe.written ∧ next.closed = pipe.closed) := by
  unfold read at got
  by_cases zero : count = 0
  · rw [if_pos zero] at got
    by_cases empty : pipe.unread = []
    · rw [if_pos empty] at got
      have same := Prod.mk.inj (Option.some.inj got)
      exact Or.inl ⟨same.1.symm, zero, empty, same.2.symm⟩
    · rw [if_neg empty] at got
      exact absurd got (by simp)
  · rw [if_neg zero] at got
    by_cases fits : count ≤ cap ∧ count ≤ pipe.unread.length
    · rw [if_pos fits] at got
      have same := Prod.mk.inj (Option.some.inj got)
      refine Or.inr ⟨?_, Nat.pos_of_ne_zero zero, fits.1, ?_, ?_, ?_⟩
      · rw [← same.1, List.length_take, Nat.min_eq_left fits.2]
      · rw [← same.1, ← same.2, List.take_append_drop]
      · rw [← same.2]
      · rw [← same.2]
    · rw [if_neg fits] at got
      exact absurd got (by simp)

/-- A read moves its bytes from the unread to the delivered ones. -/
theorem Delivered.read {pipe next : OutputPipe} {taken bytes : List UInt8} {cap count : Nat}
    (delivered : pipe.Delivered taken) (got : pipe.read cap count = some (bytes, next)) :
    next.Delivered (taken ++ bytes) := by
  rcases read_eq_some got with ⟨noBytes, _, _, same⟩ | ⟨_, _, _, split, history, _⟩
  · subst same
    rw [noBytes, List.append_nil]
    exact delivered
  · simp only [Delivered] at delivered ⊢
    rw [history, delivered, split, List.append_assoc]

/-- Without unread bytes everything written has been delivered. -/
theorem Delivered.eq_written {pipe : OutputPipe} {taken : List UInt8}
    (delivered : pipe.Delivered taken) (empty : pipe.unread = []) : pipe.written = taken := by
  rw [delivered, empty, List.append_nil]

end OutputPipe

end Executor
end AdbBridge
