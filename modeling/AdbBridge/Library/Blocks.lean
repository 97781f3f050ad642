import AdbBridge.Library.Checked
import Mathlib.Data.List.Nodup
import Mathlib.Data.List.Perm.Basic

namespace Library
namespace Blocks

open Checked

/-!
# Programs over blocks of memory

A memory is a list of blocks by their addresses, together with the answers that the allocator
will give.  A program that reads, overwrites or gives back a block that is not allocated stops.
`Holds` lists the blocks of a memory in any order, so that the blocks that a program does not
use stand aside, and `Performs` says what a program does.
-/

variable {Block α β : Type}

/-- The blocks that are allocated, what `malloc` will answer, and how often it did not allocate. -/
structure Heap (Block : Type) where
  blocks : List (Nat × Block)
  answers : List (Option Nat)
  refusals : Nat
deriving DecidableEq, Repr

/-- A program, which may stop. -/
abbrev Program (Block α : Type) := StateT (Heap Block) (Except Stop) α

/-! ## Operations -/

/-- The program stops. -/
def stop (reason : Stop) : Program Block α := fun _ => .error reason

/-- A computation that does not use the memory. -/
def lift (computation : Except Stop α) : Program Block α := fun memory =>
  match computation with
  | .ok value => .ok (value, memory)
  | .error reason => .error reason

/-- A computation that does not use the memory and may refuse, which the program goes on with. -/
def attempt (computation : Except Stop α) : Program Block (Option α) := fun memory =>
  match computation with
  | .ok value => .ok (some value, memory)
  | .error .refused => .ok (none, memory)
  | .error reason => .error reason

/-- A block is read. -/
def load (address : Nat) : Program Block Block := fun memory =>
  match memory.blocks.lookup address with
  | some block => .ok (block, memory)
  | none => .error .outside

/-- A block is overwritten. -/
def store (address : Nat) (block : Block) : Program Block Unit := fun memory =>
  if (memory.blocks.lookup address).isSome then
    .ok ((), { memory with
      blocks := memory.blocks.map (fun entry => if entry.1 = address then (address, block) else entry) })
  else .error .outside

/-- A block is given back. -/
def free (address : Nat) : Program Block Unit := fun memory =>
  if (memory.blocks.lookup address).isSome then
    .ok ((), { memory with blocks := memory.blocks.filter (fun entry => decide (entry.1 ≠ address)) })
  else .error .outside

/-- `free` of a pointer that may be null. -/
def freeIfAny (pointer : Option Nat) : Program Block Unit := pointer.elim (pure ()) free

/-- A block is allocated, at any address that is free, or it is not. -/
def malloc (block : Block) : Program Block (Option Nat) := fun memory =>
  let refused := .ok (none, ⟨memory.blocks, memory.answers.tail, memory.refusals + 1⟩)
  memory.answers.head?.join.elim refused (fun address =>
    if (memory.blocks.lookup address).isSome then refused
    else .ok (some address, ⟨(address, block) :: memory.blocks, memory.answers.tail, memory.refusals⟩))

/-! ## The blocks of a memory -/

/-- The addresses of some blocks. -/
def addresses (blocks : List (Nat × Block)) : List Nat := blocks.map Prod.fst

/-- The memory consists of the blocks, at different addresses. -/
structure Holds (memory : Heap Block) (blocks : List (Nat × Block)) : Prop where
  same : memory.blocks.Perm blocks
  distinct : (addresses blocks).Nodup

section Holds

variable {memory : Heap Block} {blocks others rest : List (Nat × Block)} {address : Nat} {block : Block}

theorem Holds.perm (holds : Holds memory blocks) (same : blocks.Perm others) : Holds memory others :=
  ⟨holds.same.trans same, (same.map Prod.fst).nodup_iff.mp holds.distinct⟩

/-- The addresses in the memory itself differ as well. -/
theorem Holds.nodup (holds : Holds memory blocks) : (addresses memory.blocks).Nodup :=
  (holds.same.map Prod.fst).nodup_iff.mpr holds.distinct

theorem lookup_of_mem (distinct : (addresses blocks).Nodup) (member : (address, block) ∈ blocks) :
    blocks.lookup address = some block := by
  induction blocks with
  | nil => exact absurd member List.not_mem_nil
  | cons entry blocks inductionHypothesis =>
      rcases entry with ⟨first, held⟩
      rcases List.nodup_cons.mp distinct with ⟨notLater, later⟩
      rcases List.mem_cons.mp member with isFirst | inRest
      · rw [Prod.mk.injEq] at isFirst
        rw [isFirst.1, isFirst.2, List.lookup_cons_self]
      · have differs : (address == first) = false := by
          rw [beq_eq_false_iff_ne]
          rintro rfl
          exact notLater (List.mem_map.mpr ⟨_, inRest, rfl⟩)
        rw [List.lookup_cons, differs]
        exact inductionHypothesis later inRest

theorem not_mem_of_lookup (absent : blocks.lookup address = none) : address ∉ addresses blocks := by
  intro member
  rcases List.mem_map.mp member with ⟨⟨found, block⟩, inBlocks, rfl⟩
  have present := List.lookup_eq_none_iff.mp absent (found, block) inBlocks
  simp at present

/-- The block in front is found. -/
theorem Holds.lookup (holds : Holds memory ((address, block) :: rest)) :
    memory.blocks.lookup address = some block :=
  lookup_of_mem holds.nodup (holds.same.mem_iff.mpr List.mem_cons_self)

theorem Holds.fresh (holds : Holds memory blocks) (absent : memory.blocks.lookup address = none) :
    address ∉ addresses blocks :=
  fun member => not_mem_of_lookup absent ((holds.same.map Prod.fst).mem_iff.mpr member)

/-- The others are not at the address of the first. -/
theorem Holds.apart (holds : Holds memory ((address, block) :: rest)) :
    forall entry, entry ∈ rest -> entry.1 ≠ address := by
  intro entry member same
  exact (List.nodup_cons.mp holds.distinct).1 (List.mem_map.mpr ⟨entry, member, same⟩)

theorem Holds.length_eq (holds : Holds memory blocks) : memory.blocks.length = blocks.length :=
  holds.same.length_eq

end Holds

/-! ## What programs do -/

/-- From the memory the program ends, with such a value and such a memory. -/
def Performs (program : Program Block α) (memory : Heap Block) (result : α -> Heap Block -> Prop) : Prop :=
  match program memory with
  | .ok (value, after) => result value after
  | .error _ => False

/-- The memory that consists of other blocks, where the allocator has refused as often. -/
structure Becomes (memory after : Heap Block) (blocks : List (Nat × Block)) : Prop where
  holds : Holds after blocks
  refusals : after.refusals = memory.refusals

theorem Becomes.trans {first second third : Heap Block} {blocks others : List (Nat × Block)}
    (before : Becomes first second blocks) (after : Becomes second third others) : Becomes first third others :=
  ⟨after.holds, after.refusals.trans before.refusals⟩

section Performs

variable {program : Program Block α} {next : α -> Program Block β} {memory : Heap Block}
  {first : α -> Heap Block -> Prop} {result : β -> Heap Block -> Prop}
  {blocks rest : List (Nat × Block)} {address : Nat} {block : Block}

theorem performs_pure {value : β} (holds : result value memory) :
    Performs (pure value : Program Block β) memory result := holds

/-- One program behind another. -/
theorem Performs.bind (performs : Performs program memory first)
    (later : forall value after, first value after -> Performs (next value) after result) :
    Performs (program >>= next) memory result := by
  unfold Performs at performs ⊢
  change match (program memory >>= fun both => next both.1 both.2) with
    | .ok (value, after) => result value after
    | .error _ => False
  cases yields : program memory with
  | ok both =>
      rw [yields] at performs
      exact later both.1 both.2 performs
  | error reason =>
      rw [yields] at performs
      exact performs.elim

theorem Performs.mono {second : α -> Heap Block -> Prop} (performs : Performs program memory first)
    (weaker : forall value after, first value after ->
        second value after) : Performs program memory second := by
  unfold Performs at performs ⊢
  cases yields : program memory with
  | ok both =>
      rw [yields] at performs
      exact weaker both.1 both.2 performs
  | error reason =>
      rw [yields] at performs
      exact performs.elim

/-- The run of a program that ends. -/
theorem Performs.exists_ok (performs : Performs program memory first) :
    Exists fun value => Exists fun after => program memory = .ok (value, after) ∧ first value after := by
  unfold Performs at performs
  cases yields : program memory with
  | ok both =>
      rw [yields] at performs
      exact ⟨both.1, both.2, rfl, performs⟩
  | error reason =>
      rw [yields] at performs
      exact performs.elim

/-- What is attempted succeeds or is refused. -/
theorem performs_attempt {computation : Except Stop α} {next : Option α -> Program Block β} {kind : α -> Prop}
    (meets : Meets computation kind)
    (succeeds : forall value, computation = .ok value -> Performs (next (some value)) memory result)
    (refuses : computation = .error .refused -> Performs (next none) memory result) :
    Performs (attempt computation >>= next) memory result := by
  cases computation with
  | ok value => exact succeeds value rfl
  | error reason =>
      have isRefused : reason = .refused := meets
      subst isRefused
      exact refuses rfl

theorem performs_load {next : Block -> Program Block β} (holds : Holds memory ((address, block) :: rest))
    (later : Performs (next block) memory result) : Performs (load address >>= next) memory result := by
  have loads : Performs (load address) memory (fun value after => value = block ∧ after = memory) := by
    rw [Performs, load, holds.lookup]
    exact ⟨rfl, rfl⟩
  apply loads.bind
  rintro value after ⟨rfl, rfl⟩
  exact later

theorem performs_store {other : Block} {next : Unit -> Program Block β}
    (holds : Holds memory ((address, block) :: rest))
    (later : forall after, Becomes memory after ((address, other) :: rest) -> Performs (next ()) after result) :
    Performs (store address other >>= next) memory result := by
  have stores : Performs (store address other) memory
      (fun _ after => Becomes memory after ((address, other) :: rest)) := by
    rw [Performs, store, if_pos (by rw [holds.lookup]; rfl)]
    refine ⟨⟨(holds.same.map _).trans ?_, holds.distinct⟩, rfl⟩
    rw [List.map_cons, if_pos rfl]
    have untouched : rest.map (fun entry => if entry.1 = address then (address, other) else entry) =
      rest.map id :=
      List.map_congr_left (fun entry member => if_neg (holds.apart entry member))
    rw [untouched, List.map_id]
  exact stores.bind (fun _ after becomes => later after becomes)

theorem performs_free {next : Unit -> Program Block β} (holds : Holds memory ((address, block) :: rest))
    (later : forall after, Becomes memory after rest -> Performs (next ()) after result) :
    Performs (free address >>= next) memory result := by
  have frees : Performs (free address) memory (fun _ after => Becomes memory after rest) := by
    rw [Performs, free, if_pos (by rw [holds.lookup]; rfl)]
    refine ⟨⟨(holds.same.filter _).trans ?_, (List.nodup_cons.mp holds.distinct).2⟩, rfl⟩
    rw [List.filter_cons_of_neg (by simp), List.filter_eq_self.mpr]
    intro entry member
    exact decide_eq_true (holds.apart entry member)
  exact frees.bind (fun _ after becomes => later after becomes)

/-- A block is allocated apart from those there are, or the refusal is counted. -/
theorem performs_malloc {next : Option Nat -> Program Block β} (holds : Holds memory blocks)
    (refused : forall after, Holds after blocks -> memory.refusals < after.refusals ->
      Performs (next none) after result)
    (allocated : forall address after, Becomes memory after ((address, block) :: blocks) ->
      Performs (next (some address)) after result) :
    Performs (malloc block >>= next) memory result := by
  have allocates : Performs (malloc block) memory (fun value after =>
      (value = none ∧ Holds after blocks ∧ memory.refusals < after.refusals) ∨
        Exists fun address => value = some address ∧ Becomes memory after ((address, block) :: blocks)) := by
    unfold Performs malloc
    cases memory.answers.head?.join with
    | none => exact Or.inl ⟨rfl, ⟨holds.same, holds.distinct⟩, Nat.lt_succ_self _⟩
    | some address =>
        dsimp only [Option.elim]
        by_cases taken : (memory.blocks.lookup address).isSome = true
        · rw [if_pos taken]
          exact Or.inl ⟨rfl, ⟨holds.same, holds.distinct⟩, Nat.lt_succ_self _⟩
        · rw [if_neg taken]
          have absent : memory.blocks.lookup address = none := Option.not_isSome_iff_eq_none.mp taken
          refine Or.inr ⟨address, rfl, ⟨holds.same.cons (address, block), ?_⟩, rfl⟩
          exact List.nodup_cons.mpr ⟨holds.fresh absent, holds.distinct⟩
  apply allocates.bind
  rintro value after (⟨rfl, stays, more⟩ | ⟨address, rfl, becomes⟩)
  · exact refused after stays more
  · exact allocated address after becomes

end Performs

end Blocks
end Library
