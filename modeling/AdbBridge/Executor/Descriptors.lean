import AdbBridge.Library.Machine
import Mathlib.Logic.Function.Basic

namespace AdbBridge
namespace Executor

open Library

/-!
# Pipe ends across concurrent calls

Every call of `exec_run`, `exec_run_stream` and `exec_run_pipe` creates its pipes in
the descriptor table that all threads of the server share, forks a child that
starts with a copy of this table, and closes the ends it does not need.  The
child closes only the ends of its own call before it runs the shell, and no pipe
is created with `O_CLOEXEC`.

A table maps a descriptor to what it refers to.  Descriptors that are no pipe
ends, among them the three standard ones of the server, play no part and are
all `other`.  Each `pipe`, `fork`, `close`, `dup2` and `exec` is a step; the kernel
may return any unused descriptors.
-/

namespace Descriptors

/-! ## Tables and programs -/

/-- What a pipe is for. -/
inductive Role where
  | stdin
  | out
  | err
deriving DecidableEq, Repr

/-- One end of the pipe a call created for a role. -/
structure PipeEnd where
  call : Nat
  role : Role
  writes : Bool
deriving DecidableEq, Repr

/-- What a descriptor refers to. -/
inductive File where
  | other
  | pipe (end_ : PipeEnd)
deriving DecidableEq, Repr

/-- A descriptor table. -/
abbrev Table := Nat -> Option File

/-- The table without a descriptor. -/
def Table.close (table : Table) (fd : Nat) : Table := Function.update table fd none

@[simp] theorem Table.close_self (table : Table) (fd : Nat) : table.close fd fd = none :=
  Function.update_self ..

@[simp] theorem Table.close_of_ne (table : Table) {fd other : Nat} (different : other ≠ fd) :
    table.close fd other = table other :=
  Function.update_of_ne different ..

/-- The three entry points.  The first two treat descriptors alike. -/
inductive Kind where
  | run
  | stream
  | pipe
deriving DecidableEq, Repr

/-- The pipes of a call in the order of their creation. -/
def Kind.roles : Kind -> List Role
  | .run | .stream => [.out, .err]
  | .pipe => [.stdin, .out, .err]

/-- The standard descriptor a role becomes in the child. -/
def Role.target : Role -> Nat
  | .stdin => 0
  | .out => 1
  | .err => 2

/-- A created pipe: `fds[0]` and `fds[1]` of `pipe()`. -/
structure Pipe where
  role : Role
  readFd : Nat
  writeFd : Nat
deriving DecidableEq, Repr

/-- The child writes to stdout and stderr and reads stdin; the server does the opposite. -/
def Role.childWrites : Role -> Bool
  | .stdin => false
  | _ => true

/-- The descriptor the child uses, and the one the server uses. -/
def Pipe.childFd (pipe : Pipe) : Nat :=
  if pipe.role.childWrites then pipe.writeFd else pipe.readFd

def Pipe.parentFd (pipe : Pipe) : Nat :=
  if pipe.role.childWrites then pipe.readFd else pipe.writeFd

/-- These descriptors with the ends they refer to. -/
def Pipe.childEnd (call : Nat) (pipe : Pipe) : Nat × PipeEnd :=
  (pipe.childFd, ⟨call, pipe.role, pipe.role.childWrites⟩)

def Pipe.parentEnd (call : Nat) (pipe : Pipe) : Nat × PipeEnd :=
  (pipe.parentFd, ⟨call, pipe.role, !pipe.role.childWrites⟩)

/-- An end for the server. -/
def PipeEnd.isParent (end_ : PipeEnd) : Bool := end_.writes != end_.role.childWrites

/-- A system call of the child. -/
inductive Instr where
  | close (fd : Nat)
  | dup2 (fd target : Nat)
deriving DecidableEq, Repr

/-- What the child does before `execl`. -/
def childProgram (pipes : List Pipe) : List Instr :=
  pipes.map (fun pipe => .close pipe.parentFd) ++
    pipes.map (fun pipe => .dup2 pipe.childFd pipe.role.target) ++
      pipes.map (fun pipe => .close pipe.childFd)

/-- The effect of one system call of the child. -/
def Instr.run (table : Table) : Instr -> Table
  | .close fd => table.close fd
  | .dup2 fd target => if table fd = none then table else Function.update table target (table fd)

/-! ## The server -/

/-- Where a call stands.  While its pipes are created, `pipes` are those that
exist; after the fork `dropping` are the child's ends it still has to close and
`kept` the ends it uses; `closing` are the last closes before it returns. -/
inductive Stage where
  | creating (todo : List Role) (pipes : List Pipe)
  | forked (dropping kept : List (Nat × PipeEnd))
  | closing (ends : List (Nat × PipeEnd))
deriving DecidableEq, Repr

/-- A child: `inherited` is the server's table at its fork. -/
structure Child where
  inherited : Table
  table : Table
  program : List Instr
  execed : Bool

/-- The server's table, its calls and their children. -/
structure State where
  table : Table
  calls : Nat -> Option Stage
  children : Nat -> Option Child

/-- The server before the first call: only the standard descriptors are open. -/
def initial : State where
  table := fun fd => if fd < 3 then some .other else none
  calls := fun _ => none
  children := fun _ => none

/-- One step of a thread of the server, or of a child. -/
inductive Event where
  | enter (call : Nat) (kind : Kind)
  | pipe (call : Nat) (fds : Option (Nat × Nat))
  | fork (call : Nat) (ok : Bool)
  | close (call : Nat)
  | closeStdin (call : Nat)
  | finish (call : Nat)
  | child (call : Nat)
  | childExit (call : Nat)
deriving DecidableEq, Repr

/-- A call moves to another stage. -/
def State.setStage (state : State) (call : Nat) (stage : Stage) : State :=
  { state with calls := Function.update state.calls call (some stage) }

/-- A call closes a descriptor and moves to another stage. -/
def State.closeFd (state : State) (call fd : Nat) (stage : Stage) : State :=
  { state.setStage call stage with table := state.table.close fd }

/-- A child takes its next step. -/
def Child.step (child : Child) : Child :=
  match child.program with
  | [] => { child with execed := true }
  | instr :: rest => { child with table := instr.run child.table, program := rest }

/-- All ends of the pipes of a call that is still creating them. -/
def allEnds (call : Nat) (pipes : List Pipe) : List (Nat × PipeEnd) :=
  pipes.flatMap (fun pipe =>
    [(pipe.readFd, ⟨call, pipe.role, false⟩), (pipe.writeFd, ⟨call, pipe.role, true⟩)])

/-- One step.  A `pipe` that fails makes the call return at once, whatever pipes
it created before; a `fork` that fails makes it close them all. -/
def step (state : State) : Event -> Option State
  | .enter call kind =>
      match state.calls call with
      | none => some (state.setStage call (.creating kind.roles []))
      | some _ => none
  | .pipe call fds =>
      match state.calls call with
      | some (.creating (role :: todo) pipes) =>
          match fds with
          | none => some (state.setStage call (.closing []))
          | some (readFd, writeFd) =>
              if state.table readFd = none ∧ state.table writeFd = none ∧ readFd ≠ writeFd then
                some
                  { state.setStage call (.creating todo (pipes ++ [⟨role, readFd, writeFd⟩])) with
                    table :=
                      Function.update
                        (Function.update state.table readFd (some (.pipe ⟨call, role, false⟩)))
                        writeFd (some (.pipe ⟨call, role, true⟩)) }
              else none
      | _ => none
  | .fork call ok =>
      match state.calls call with
      | some (.creating [] pipes) =>
          if ok = true then
            some
              { state.setStage call
                  (.forked (pipes.map (Pipe.childEnd call)) (pipes.map (Pipe.parentEnd call))) with
                children := Function.update state.children call
                  (some ⟨state.table, state.table, childProgram pipes, false⟩) }
          else some (state.setStage call (.closing (allEnds call pipes)))
      | _ => none
  | .close call =>
      match state.calls call with
      | some (.forked ((fd, _) :: dropping) kept) => some (state.closeFd call fd (.forked dropping kept))
      | some (.closing ((fd, _) :: ends)) => some (state.closeFd call fd (.closing ends))
      | _ => none
  | .closeStdin call =>
      match state.calls call with
      | some (.forked [] ((fd, ⟨_, .stdin, _⟩) :: kept)) => some (state.closeFd call fd (.forked [] kept))
      | _ => none
  | .finish call =>
      match state.calls call with
      | some (.forked [] kept) => some (state.setStage call (.closing kept))
      | _ => none
  | .child call =>
      match state.children call with
      | some child =>
          if child.execed = true then none
          else some { state with children := Function.update state.children call (some child.step) }
      | none => none
  | .childExit call =>
      match state.children call with
      | some _ => some { state with children := Function.update state.children call none }
      | none => none

/-! ## Ownership in the server's table -/

/-- The descriptors a call is still going to close, with their ends. -/
def Stage.owned (call : Nat) : Stage -> List (Nat × PipeEnd)
  | .creating _ pipes => allEnds call pipes
  | .forked dropping kept => dropping ++ kept
  | .closing ends => ends

/-- The server's table and its calls agree: what a call owns is in the table,
and what is in the table for a call that creates its pipes is owned by it. -/
structure ServerInv (state : State) : Prop where
  std : forall fd, fd < 3 -> state.table fd = some .other
  owned : forall call stage, state.calls call = some stage -> forall entry, entry ∈ stage.owned call ->
    state.table entry.1 = some (.pipe entry.2) ∧ entry.2.call = call
  nodup : forall call stage, state.calls call = some stage ->
    ((stage.owned call).map Prod.fst).Nodup
  whole : forall fd end_, state.table fd = some (.pipe end_) -> Exists fun stage =>
    state.calls end_.call = some stage ∧ forall todo pipes, stage = .creating todo pipes ->
      (fd, end_) ∈ allEnds end_.call pipes

theorem initial_serverInv : ServerInv initial where
  std := fun _ small => if_pos small
  owned := nofun
  nodup := nofun
  whole := by
    intro fd end_ held
    simp only [initial] at held
    split at held
    · exact absurd (Option.some.inj held) nofun
    · exact absurd held nofun

variable {state next : State} {call : Nat}

/-- A call moves on without touching the table. -/
theorem ServerInv.setStage (inv : ServerInv state) {stage : Stage}
    (owned : forall entry, entry ∈ stage.owned call ->
      state.table entry.1 = some (.pipe entry.2) ∧ entry.2.call = call)
    (nodup : ((stage.owned call).map Prod.fst).Nodup)
    (whole : forall fd end_ todo pipes, state.table fd = some (.pipe end_) -> end_.call = call ->
      stage = .creating todo pipes -> (fd, end_) ∈ allEnds call pipes) :
    ServerInv (state.setStage call stage) := by
  refine ⟨inv.std, ?_, ?_, ?_⟩
  · intro other stage' present entry member
    by_cases same : other = call
    · subst same
      simp only [State.setStage, Function.update_self, Option.some.injEq] at present
      subst present
      exact owned entry member
    · simp only [State.setStage, Function.update_of_ne same] at present
      exact inv.owned other stage' present entry member
  · intro other stage' present
    by_cases same : other = call
    · subst same
      simp only [State.setStage, Function.update_self, Option.some.injEq] at present
      subst present
      exact nodup
    · simp only [State.setStage, Function.update_of_ne same] at present
      exact inv.nodup other stage' present
  · intro fd end_ held
    by_cases same : end_.call = call
    · refine ⟨stage, ?_, ?_⟩
      · simp only [State.setStage, same, Function.update_self]
      · intro todo pipes creating
        exact same ▸ whole fd end_ todo pipes held same creating
    · rcases inv.whole fd end_ held with ⟨stage', present, all⟩
      refine ⟨stage', ?_, all⟩
      simp only [State.setStage, Function.update_of_ne same]
      exact present

/-- A call closes the first descriptor it owns. -/
theorem ServerInv.closeFd (inv : ServerInv state) {old stage : Stage} {fd : Nat} {end_ : PipeEnd}
    (present : state.calls call = some old)
    (first : old.owned call = (fd, end_) :: stage.owned call)
    (notCreating : forall todo pipes, stage ≠ .creating todo pipes) :
    ServerInv (state.closeFd call fd stage) := by
  have held := inv.owned call old present (fd, end_) (first ▸ List.mem_cons_self)
  have distinct := inv.nodup call old present
  rw [first, List.map_cons, List.nodup_cons] at distinct
  have high : forall other, other < 3 -> other ≠ fd := by
    rintro other small rfl
    exact absurd ((inv.std other small).symm.trans held.1) (by simp)
  refine ⟨?_, ?_, ?_, ?_⟩
  · intro other small
    exact (Table.close_of_ne _ (high other small)).trans (inv.std other small)
  · intro other stage' at_ entry member
    by_cases same : other = call
    · subst same
      simp only [State.closeFd, State.setStage, Function.update_self, Option.some.injEq] at at_
      subst at_
      have different : entry.1 ≠ fd := by
        intro equal
        have listed : entry.1 ∈ (stage.owned other).map Prod.fst := List.mem_map_of_mem member
        exact distinct.1 (equal ▸ listed)
      have before := inv.owned other old present entry (first ▸ List.mem_cons_of_mem _ member)
      exact ⟨(Table.close_of_ne _ different).trans before.1, before.2⟩
    · simp only [State.closeFd, State.setStage, Function.update_of_ne same] at at_
      have before := inv.owned other stage' at_ entry member
      have different : entry.1 ≠ fd := by
        intro equal
        have ends := before.1.symm.trans (equal ▸ held.1)
        have sameEnd : entry.2 = end_ := by simpa using ends
        exact same (before.2.symm.trans (sameEnd ▸ held.2))
      exact ⟨(Table.close_of_ne _ different).trans before.1, before.2⟩
  · intro other stage' at_
    by_cases same : other = call
    · subst same
      simp only [State.closeFd, State.setStage, Function.update_self, Option.some.injEq] at at_
      subst at_
      exact distinct.2
    · simp only [State.closeFd, State.setStage, Function.update_of_ne same] at at_
      exact inv.nodup other stage' at_
  · intro other end' open_
    have different : other ≠ fd := by
      rintro rfl
      exact absurd (open_.symm.trans (Table.close_self state.table other)).symm nofun
    have before : state.table other = some (.pipe end') :=
      (Table.close_of_ne state.table different).symm.trans open_
    by_cases same : end'.call = call
    · refine ⟨stage, ?_, fun todo pipes creating => absurd creating (notCreating todo pipes)⟩
      simp only [State.closeFd, State.setStage, same, Function.update_self]
    · rcases inv.whole other end' before with ⟨stage', at_, all⟩
      refine ⟨stage', ?_, all⟩
      simp only [State.closeFd, State.setStage, Function.update_of_ne same]
      exact at_

/-- The ends of the created pipes are the child's ends and the server's ends. -/
theorem allEnds_perm (call : Nat) (pipes : List Pipe) :
    (allEnds call pipes).Perm (pipes.map (Pipe.childEnd call) ++ pipes.map (Pipe.parentEnd call)) := by
  induction pipes with
  | nil => exact List.Perm.refl _
  | cons pipe rest inductionHypothesis =>
      have two : List.Perm
          [(pipe.readFd, (⟨call, pipe.role, false⟩ : PipeEnd)), (pipe.writeFd, ⟨call, pipe.role, true⟩)]
          [pipe.childEnd call, pipe.parentEnd call] := by
        rcases pipe with ⟨role, readFd, writeFd⟩
        cases role with
        | stdin => exact List.Perm.refl _
        | out => exact List.Perm.swap _ _ _
        | err => exact List.Perm.swap _ _ _
      have later : List.Perm
          ([pipe.childEnd call, pipe.parentEnd call] ++
            (rest.map (Pipe.childEnd call) ++ rest.map (Pipe.parentEnd call)))
          ((pipe :: rest).map (Pipe.childEnd call) ++ (pipe :: rest).map (Pipe.parentEnd call)) := by
        simp only [List.map_cons, List.cons_append, List.nil_append]
        exact List.Perm.cons _ List.perm_middle.symm
      exact (two.append inductionHypothesis).trans later

/-- Two descriptors that were unused are opened: all others stay as they are. -/
theorem Table.open_of_used {table : Table} {readFd writeFd fd : Nat} (first second : Option File)
    (readUnused : table readFd = none) (writeUnused : table writeFd = none) (used : table fd ≠ none) :
    Function.update (Function.update table readFd first) writeFd second fd = table fd := by
  have notRead : fd ≠ readFd := fun same => used (same ▸ readUnused)
  have notWrite : fd ≠ writeFd := fun same => used (same ▸ writeUnused)
  rw [Function.update_of_ne notWrite, Function.update_of_ne notRead]

/-- What is open afterwards is one of the two, or was open before. -/
theorem Table.open_sources {table : Table} {readFd writeFd fd : Nat} {first second end_ : PipeEnd}
    (held : Function.update (Function.update table readFd (some (.pipe first))) writeFd
      (some (.pipe second)) fd = some (.pipe end_)) :
    (fd, end_) ∈ [(readFd, first), (writeFd, second)] ∨ table fd = some (.pipe end_) := by
  by_cases isWrite : fd = writeFd
  · rw [isWrite, Function.update_self] at held
    have same : second = end_ := File.pipe.inj (Option.some.inj held)
    exact Or.inl (by rw [isWrite, same]; exact List.mem_cons_of_mem _ (List.mem_singleton_self _))
  · rw [Function.update_of_ne isWrite] at held
    by_cases isRead : fd = readFd
    · rw [isRead, Function.update_self] at held
      have same : first = end_ := File.pipe.inj (Option.some.inj held)
      exact Or.inl (by rw [isRead, same]; exact List.mem_cons_self)
    · rw [Function.update_of_ne isRead] at held
      exact Or.inr held

/-- A call creates a pipe at two unused descriptors. -/
theorem ServerInv.pipe (inv : ServerInv state) {role : Role} {todo : List Role} {pipes : List Pipe}
    {readFd writeFd : Nat} (present : state.calls call = some (.creating (role :: todo) pipes))
    (readUnused : state.table readFd = none) (writeUnused : state.table writeFd = none)
    (different : readFd ≠ writeFd) :
    ServerInv
      { state.setStage call (.creating todo (pipes ++ [⟨role, readFd, writeFd⟩])) with
        table :=
          Function.update
            (Function.update state.table readFd (some (.pipe ⟨call, role, false⟩)))
            writeFd (some (.pipe ⟨call, role, true⟩)) } := by
  let table : Table :=
    Function.update
      (Function.update state.table readFd (some (.pipe ⟨call, role, false⟩)))
      writeFd (some (.pipe ⟨call, role, true⟩))
  have ends : allEnds call (pipes ++ [⟨role, readFd, writeFd⟩]) =
      allEnds call pipes ++ [(readFd, ⟨call, role, false⟩), (writeFd, ⟨call, role, true⟩)] := by
    simp only [allEnds, List.flatMap_append, List.flatMap_cons, List.flatMap_nil, List.append_nil]
  have atRead : table readFd = some (.pipe ⟨call, role, false⟩) := by
    simp only [table, Function.update_of_ne different, Function.update_self]
  have atWrite : table writeFd = some (.pipe ⟨call, role, true⟩) := by
    simp only [table, Function.update_self]
  have kept : forall fd, state.table fd ≠ none -> table fd = state.table fd :=
    fun fd used => Table.open_of_used _ _ readUnused writeUnused used
  have ownedBefore := inv.owned call _ present
  have notOwned : forall fd, state.table fd = none -> fd ∉ (allEnds call pipes).map Prod.fst := by
    intro fd unused member
    rcases List.mem_map.mp member with ⟨entry, listed, rfl⟩
    exact absurd ((ownedBefore entry listed).1.symm.trans unused) nofun
  refine ⟨?_, ?_, ?_, ?_⟩
  · intro fd small
    have before := inv.std fd small
    exact (kept fd (by rw [before]; nofun)).trans before
  · intro other stage at_ entry member
    by_cases same : other = call
    · subst same
      simp only [State.setStage, Function.update_self, Option.some.injEq] at at_
      subst at_
      simp only [Stage.owned, ends, List.mem_append, List.mem_cons, List.not_mem_nil, or_false] at member
      rcases member with old | rfl | rfl
      · have before := ownedBefore entry old
        exact ⟨(kept _ (by rw [before.1]; nofun)).trans before.1, before.2⟩
      · exact ⟨atRead, rfl⟩
      · exact ⟨atWrite, rfl⟩
    · simp only [State.setStage, Function.update_of_ne same] at at_
      have before := inv.owned other stage at_ entry member
      exact ⟨(kept _ (by rw [before.1]; nofun)).trans before.1, before.2⟩
  · intro other stage at_
    by_cases same : other = call
    · subst same
      simp only [State.setStage, Function.update_self, Option.some.injEq] at at_
      subst at_
      simp only [Stage.owned, ends, List.map_append, List.map_cons, List.map_nil]
      have before : ((allEnds other pipes).map Prod.fst).Nodup := inv.nodup other _ present
      refine List.nodup_append.mpr ⟨before, by simp [different], ?_⟩
      rintro fd old _ new rfl
      simp only [List.mem_cons, List.not_mem_nil, or_false] at new
      rcases new with rfl | rfl
      · exact notOwned _ readUnused old
      · exact notOwned _ writeUnused old
    · simp only [State.setStage, Function.update_of_ne same] at at_
      exact inv.nodup other stage at_
  · intro fd end_ held
    have sources := Table.open_sources held
    by_cases same : end_.call = call
    · refine ⟨.creating todo (pipes ++ [⟨role, readFd, writeFd⟩]), ?_, ?_⟩
      · simp only [State.setStage, same, Function.update_self]
      · intro todo' pipes' creating
        cases creating
        rw [same, ends]
        rcases sources with new | old
        · exact List.mem_append_right _ new
        · rcases inv.whole fd end_ old with ⟨stage, at_, all⟩
          rw [same] at at_ all
          exact List.mem_append_left _ (all _ _ (Option.some.inj (at_.symm.trans present)))
    · have old : state.table fd = some (.pipe end_) := by
        rcases sources with new | old
        · simp only [List.mem_cons, List.not_mem_nil, or_false, Prod.mk.injEq] at new
          rcases new with ⟨_, rfl⟩ | ⟨_, rfl⟩ <;> exact absurd rfl same
        · exact old
      rcases inv.whole fd end_ old with ⟨stage, at_, all⟩
      refine ⟨stage, ?_, all⟩
      simp only [State.setStage, Function.update_of_ne same]
      exact at_

/-- One step of the server keeps the agreement of its table and its calls. -/
theorem step_serverInv {event : Event} (stepped : step state event = some next)
    (inv : ServerInv state) : ServerInv next := by
  have children : forall other : State, other.table = state.table -> other.calls = state.calls ->
      ServerInv other := by
    intro other table calls
    exact ⟨table ▸ inv.std, by rw [table, calls]; exact inv.owned, by rw [calls]; exact inv.nodup,
      by rw [table, calls]; exact inv.whole⟩
  cases event with
  | enter call kind =>
      simp only [step] at stepped
      split at stepped
      next absent =>
        refine Option.some.inj stepped ▸ inv.setStage nofun (List.Pairwise.nil) ?_
        intro fd end_ todo pipes held same _
        rcases inv.whole fd end_ held with ⟨stage, present, _⟩
        rw [same, absent] at present
        exact absurd present nofun
      · exact absurd stepped nofun
  | pipe call fds =>
      simp only [step] at stepped
      split at stepped
      next role todo pipes present =>
        cases fds with
        | none =>
            exact Option.some.inj stepped ▸ inv.setStage nofun List.Pairwise.nil (fun _ _ _ _ _ _ => nofun)
        | some fds =>
            dsimp only at stepped
            split at stepped
            next unused =>
              exact Option.some.inj stepped ▸ inv.pipe present unused.1 unused.2.1 unused.2.2
            · exact absurd stepped nofun
      · exact absurd stepped nofun
  | fork call ok =>
      simp only [step] at stepped
      split at stepped
      next pipes present =>
        have owned := inv.owned call _ present
        have nodup := inv.nodup call _ present
        have perm := allEnds_perm call pipes
        split at stepped
        · have moved : ServerInv (state.setStage call
              (.forked (pipes.map (Pipe.childEnd call)) (pipes.map (Pipe.parentEnd call)))) :=
            inv.setStage (fun entry member => owned entry (perm.mem_iff.mpr member))
              ((perm.map Prod.fst).nodup_iff.mp nodup) (fun _ _ _ _ _ _ => nofun)
          exact Option.some.inj stepped ▸ ⟨moved.std, moved.owned, moved.nodup, moved.whole⟩
        · exact Option.some.inj stepped ▸ inv.setStage owned nodup (fun _ _ _ _ _ _ => nofun)
      · exact absurd stepped nofun
  | close call =>
      simp only [step] at stepped
      split at stepped
      next fd end_ dropping kept present =>
        exact Option.some.inj stepped ▸ inv.closeFd present rfl (fun _ _ => nofun)
      next fd end_ ends present =>
        exact Option.some.inj stepped ▸ inv.closeFd present rfl (fun _ _ => nofun)
      · exact absurd stepped nofun
  | closeStdin call =>
      simp only [step] at stepped
      split at stepped
      next present =>
        exact Option.some.inj stepped ▸ inv.closeFd present rfl (fun _ _ => nofun)
      · exact absurd stepped nofun
  | finish call =>
      simp only [step] at stepped
      split at stepped
      next kept present =>
        have owned := inv.owned call _ present
        have nodup := inv.nodup call _ present
        exact Option.some.inj stepped ▸ inv.setStage owned nodup (fun _ _ _ _ _ _ => nofun)
      · exact absurd stepped nofun
  | child call =>
      simp only [step] at stepped
      split at stepped
      · split at stepped
        · exact absurd stepped nofun
        · exact Option.some.inj stepped ▸ children _ rfl rfl
      · exact absurd stepped nofun
  | childExit call =>
      simp only [step] at stepped
      split at stepped
      · exact Option.some.inj stepped ▸ children _ rfl rfl
      · exact absurd stepped nofun

/-! ## What a child holds -/

/-- An instruction of a call's child touches no end of another call. -/
def Instr.Own (call : Nat) (table : Table) : Instr -> Prop
  | .close fd => 3 ≤ fd ∧ forall end_, table fd = some (.pipe end_) -> end_.call = call
  | .dup2 fd target => 3 ≤ fd ∧ target < 3 ∧
      forall end_, table fd = some (.pipe end_) -> end_.call = call ∧ end_.isParent = false

/-- The table of a child with the program it still has to run: the ends of other
calls are those it inherited, and the server's ends of its own call are about to
be closed. -/
structure TableInv (call : Nat) (inherited table : Table) (program : List Instr) : Prop where
  std : forall fd end_, fd < 3 -> table fd = some (.pipe end_) ->
    end_.call = call ∧ end_.isParent = false
  own : forall instr, instr ∈ program -> instr.Own call table
  others : forall fd end_, end_.call ≠ call ->
    (table fd = some (.pipe end_) ↔ inherited fd = some (.pipe end_))
  parents : forall fd end_, table fd = some (.pipe end_) -> end_.call = call ->
    end_.isParent = true -> Instr.close fd ∈ program

/-- A child that has run its program may have executed the shell. -/
structure ChildInv (call : Nat) (child : Child) : Prop where
  table : TableInv call child.inherited child.table child.program
  finished : child.execed = true -> child.program = []

/-- The child of a fork. -/
theorem forked_tableInv (inv : ServerInv state) {pipes : List Pipe}
    (present : state.calls call = some (.creating [] pipes)) :
    TableInv call state.table state.table (childProgram pipes) := by
  have ends : forall pipe, pipe ∈ pipes -> pipe.childEnd call ∈ allEnds call pipes ∧
      pipe.parentEnd call ∈ allEnds call pipes := by
    intro pipe member
    rw [(allEnds_perm call pipes).mem_iff, (allEnds_perm call pipes).mem_iff]
    exact ⟨List.mem_append_left _ (List.mem_map_of_mem member),
      List.mem_append_right _ (List.mem_map_of_mem member)⟩
  have owned := inv.owned call _ present
  have high : forall entry, entry ∈ allEnds call pipes -> 3 ≤ entry.1 := by
    intro entry member
    by_contra small
    have held := (owned entry member).1
    rw [inv.std entry.1 (Nat.lt_of_not_le small)] at held
    exact absurd (Option.some.inj held) nofun
  have only : forall entry, entry ∈ allEnds call pipes -> forall end_,
      state.table entry.1 = some (.pipe end_) -> end_ = entry.2 := by
    intro entry member end_ held
    have same := held.symm.trans (owned entry member).1
    simpa using same
  refine ⟨?_, ?_, fun _ _ _ => Iff.rfl, ?_⟩
  · intro fd end_ small held
    exact absurd (Option.some.inj ((inv.std fd small).symm.trans held)) nofun
  · intro instr member
    simp only [childProgram, List.mem_append, List.mem_map] at member
    rcases member with (⟨pipe, listed, rfl⟩ | ⟨pipe, listed, rfl⟩) | ⟨pipe, listed, rfl⟩
    · have entry := (ends pipe listed).2
      exact ⟨high _ entry, fun end_ held => only _ entry end_ held ▸ rfl⟩
    · have entry := (ends pipe listed).1
      refine ⟨high _ entry, ?_, fun end_ held => ?_⟩
      · cases pipe.role <;> decide
      · rw [only _ entry end_ held]
        exact ⟨rfl, bne_self_eq_false _⟩
    · have entry := (ends pipe listed).1
      exact ⟨high _ entry, fun end_ held => only _ entry end_ held ▸ rfl⟩
  · intro fd end_ held same isParent
    rcases inv.whole fd end_ held with ⟨stage, at_, all⟩
    rw [same] at at_ all
    have listed := all _ _ (Option.some.inj (at_.symm.trans present))
    rw [(allEnds_perm call pipes).mem_iff, List.mem_append, List.mem_map, List.mem_map] at listed
    rcases listed with ⟨pipe, member, entry⟩ | ⟨pipe, member, entry⟩
    · rw [← (Prod.mk.inj entry).2] at isParent
      exact absurd isParent (by simp [PipeEnd.isParent])
    · rw [← (Prod.mk.inj entry).1]
      exact List.mem_append_left _ (List.mem_append_left _ (List.mem_map_of_mem member))

/-- The child closes a descriptor. -/
theorem TableInv.close {inherited table : Table} {fd : Nat} {rest : List Instr}
    (inv : TableInv call inherited table (.close fd :: rest)) :
    TableInv call inherited (table.close fd) rest := by
  have now := inv.own _ List.mem_cons_self
  have open_ : forall other file, table.close fd other = some file ->
      other ≠ fd ∧ table other = some file := by
    intro other file held
    have different : other ≠ fd := by
      rintro rfl
      exact absurd (held.symm.trans (Table.close_self _ _)) nofun
    exact ⟨different, (Table.close_of_ne _ different).symm.trans held⟩
  refine ⟨fun other end_ small held => inv.std other end_ small (open_ _ _ held).2, ?_, ?_, ?_⟩
  · intro other member
    have own := inv.own other (List.mem_cons_of_mem _ member)
    cases other with
    | close fd' => exact ⟨own.1, fun end_ held => own.2 end_ (open_ _ _ held).2⟩
    | dup2 fd' target => exact ⟨own.1, own.2.1, fun end_ held => own.2.2 end_ (open_ _ _ held).2⟩
  · intro other end_ foreign
    rw [← inv.others other end_ foreign]
    constructor
    · exact fun held => (open_ _ _ held).2
    · intro held
      have different : other ≠ fd := by
        rintro rfl
        exact foreign (now.2 end_ held)
      exact (Table.close_of_ne _ different).trans held
  · intro other end_ held same isParent
    have before := open_ _ _ held
    rcases List.mem_cons.mp (inv.parents other end_ before.2 same isParent) with equal | member
    · exact absurd (Instr.close.inj equal) before.1
    · exact member

/-- The child duplicates a descriptor onto a standard one. -/
theorem TableInv.dup2 {inherited table : Table} {fd target : Nat} {rest : List Instr}
    (inv : TableInv call inherited table (.dup2 fd target :: rest)) :
    TableInv call inherited ((Instr.dup2 fd target).run table) rest := by
  have now := inv.own _ List.mem_cons_self
  have later : forall other, other ∈ rest -> other.Own call table := fun other member =>
    inv.own other (List.mem_cons_of_mem _ member)
  have parents : forall other end_, table other = some (.pipe end_) -> end_.call = call ->
      end_.isParent = true -> Instr.close other ∈ rest := by
    intro other end_ held same isParent
    exact (List.mem_cons.mp (inv.parents other end_ held same isParent)).resolve_left nofun
  by_cases unused : table fd = none
  · simp only [Instr.run, if_pos unused]
    exact ⟨inv.std, later, inv.others, parents⟩
  · simp only [Instr.run, if_neg unused]
    have high : forall other, 3 ≤ other -> other ≠ target := by
      intro other large equal
      have small := now.2.1
      omega
    refine ⟨?_, ?_, ?_, ?_⟩
    · intro other end_ small held
      by_cases same : other = target
      · rw [same, Function.update_self] at held
        exact now.2.2 end_ held
      · rw [Function.update_of_ne same] at held
        exact inv.std other end_ small held
    · intro other member
      have own := later other member
      cases other with
      | close fd' =>
          refine ⟨own.1, fun end_ held => own.2 end_ ?_⟩
          rwa [Function.update_of_ne (high fd' own.1)] at held
      | dup2 fd' target' =>
          refine ⟨own.1, own.2.1, fun end_ held => own.2.2 end_ ?_⟩
          rwa [Function.update_of_ne (high fd' own.1)] at held
    · intro other end_ foreign
      rw [← inv.others other end_ foreign]
      by_cases same : other = target
      · -- neither the old nor the new file at a standard descriptor is foreign
        rw [same, Function.update_self]
        constructor
        · exact fun held => absurd (now.2.2 end_ held).1 foreign
        · exact fun held => absurd (inv.std target end_ now.2.1 held).1 foreign
      · rw [Function.update_of_ne same]
    · intro other end_ held mine isParent
      have notTarget : other ≠ target := by
        rintro rfl
        rw [Function.update_self] at held
        rw [(now.2.2 end_ held).2] at isParent
        exact absurd isParent nofun
      rw [Function.update_of_ne notTarget] at held
      exact parents other end_ held mine isParent

/-- A step of the child keeps what is said of its table. -/
theorem step_childInv {child : Child} (inv : ChildInv call child) : ChildInv call child.step := by
  have table := inv.table
  unfold Child.step
  split
  next empty => exact ⟨inv.table, fun _ => empty⟩
  next instr rest program =>
    rw [program] at table
    refine ⟨?_, fun execed => absurd ((inv.finished execed).symm.trans program) nofun⟩
    cases instr with
    | close fd => exact table.close
    | dup2 fd target => exact table.dup2

/-- The server and all its children. -/
structure Inv (state : State) : Prop where
  server : ServerInv state
  child : forall call child, state.children call = some child -> ChildInv call child

theorem initial_inv : Inv initial := ⟨initial_serverInv, nofun⟩

/-- One step keeps what is said of every child. -/
theorem step_inv {event : Event} (stepped : step state event = some next) (inv : Inv state) :
    Inv next := by
  refine ⟨step_serverInv stepped inv.server, ?_⟩
  have same : forall other : State, other = next -> other.children = state.children ->
      forall call child, next.children call = some child -> ChildInv call child := by
    intro other equal children call child present
    rw [← equal, children] at present
    exact inv.child call child present
  have updated : forall other : State, forall target replaced, other = next ->
      other.children = Function.update state.children target replaced ->
      (forall child, replaced = some child -> ChildInv target child) ->
      forall call child, next.children call = some child -> ChildInv call child := by
    intro other target replaced equal children holds call child present
    rw [← equal, children] at present
    by_cases here : call = target
    · subst here
      rw [Function.update_self] at present
      exact holds child present
    · rw [Function.update_of_ne here] at present
      exact inv.child call child present
  cases event with
  | fork call ok =>
      simp only [step] at stepped
      split at stepped
      next pipes present =>
        split at stepped
        · refine updated _ call _ (Option.some.inj stepped) rfl ?_
          intro child equal
          exact Option.some.inj equal ▸ ⟨forked_tableInv inv.server present, nofun⟩
        · exact same _ (Option.some.inj stepped) rfl
      · exact absurd stepped nofun
  | child call =>
      simp only [step] at stepped
      split at stepped
      next child present =>
        split at stepped
        · exact absurd stepped nofun
        · refine updated _ call _ (Option.some.inj stepped) rfl ?_
          intro moved equal
          exact Option.some.inj equal ▸ step_childInv (inv.child call child present)
      · exact absurd stepped nofun
  | childExit call =>
      simp only [step] at stepped
      split at stepped
      · exact updated _ call none (Option.some.inj stepped) rfl nofun
      · exact absurd stepped nofun
  | enter call kind =>
      simp only [step] at stepped
      split at stepped
      · exact same _ (Option.some.inj stepped) rfl
      · exact absurd stepped nofun
  | pipe call fds =>
      simp only [step] at stepped
      split at stepped
      · split at stepped
        · exact same _ (Option.some.inj stepped) rfl
        · split at stepped
          · exact same _ (Option.some.inj stepped) rfl
          · exact absurd stepped nofun
      · exact absurd stepped nofun
  | close call =>
      simp only [step] at stepped
      split at stepped
      · exact same _ (Option.some.inj stepped) rfl
      · exact same _ (Option.some.inj stepped) rfl
      · exact absurd stepped nofun
  | closeStdin call =>
      simp only [step] at stepped
      split at stepped
      · exact same _ (Option.some.inj stepped) rfl
      · exact absurd stepped nofun
  | finish call =>
      simp only [step] at stepped
      split at stepped
      · exact same _ (Option.some.inj stepped) rfl
      · exact absurd stepped nofun

/-! ## Whole runs -/

/-- Every pipe end in a table belongs to the call. -/
def OnlyOf (call : Nat) (table : Table) : Prop :=
  forall fd end_, table fd = some (.pipe end_) -> end_.call = call

/-- No descriptor of a table refers to the end. -/
def Lacks (table : Table) (end_ : PipeEnd) : Prop :=
  forall fd, table fd ≠ some (.pipe end_)

/-- No process holds the write end of the stdin pipe of the call, so a read of
this pipe ends. -/
def StdinEnds (state : State) (call : Nat) : Prop :=
  Lacks state.table ⟨call, .stdin, true⟩ ∧
    forall other child, state.children other = some child -> Lacks child.table ⟨call, .stdin, true⟩

/-- A child holds ends of its own call only if and only if it inherited no
others; steps of its own never close or add an end of another call. -/
theorem ChildInv.onlyOf_iff {child : Child} (inv : ChildInv call child) :
    OnlyOf call child.table ↔ OnlyOf call child.inherited := by
  constructor
  · intro only fd end_ held
    by_contra foreign
    exact foreign (only fd end_ ((inv.table.others fd end_ foreign).mpr held))
  · intro only fd end_ held
    by_contra foreign
    exact foreign (only fd end_ ((inv.table.others fd end_ foreign).mp held))

/-- Once it has executed the shell, a child holds no end meant for the server. -/
theorem ChildInv.lacks_parent {child : Child} (inv : ChildInv call child) (execed : child.execed = true)
    {end_ : PipeEnd} (mine : end_.call = call) (isParent : end_.isParent = true) :
    Lacks child.table end_ := by
  intro fd held
  have listed := inv.table.parents fd end_ held mine isParent
  rw [inv.finished execed] at listed
  exact absurd listed List.not_mem_nil

/-- The children that have executed the shell hold ends of their own calls only
if and only if each was forked while the server held no end of another call.
If this is so of every child, then the stdin of a child that has executed the
shell ends as soon as the server has closed its write end. -/
theorem children_hold_own_ends_iff {events : List Event} {final : State}
    (run : Machine.exec step initial events = some final) :
    ((forall call child, final.children call = some child -> child.execed = true ->
        OnlyOf call child.table) ↔
      forall call child, final.children call = some child -> child.execed = true ->
        OnlyOf call child.inherited) ∧
    ((forall call child, final.children call = some child -> OnlyOf call child.inherited) ->
      forall call child, final.children call = some child -> child.execed = true ->
        Lacks final.table ⟨call, .stdin, true⟩ -> StdinEnds final call) := by
  have inv : Inv final :=
    Machine.invariant_exec (fun _ _ _ stepped holds => step_inv stepped holds) run initial_inv
  refine ⟨⟨?_, ?_⟩, ?_⟩
  · intro only call child present execed
    exact (inv.child call child present).onlyOf_iff.mp (only call child present execed)
  · intro alone call child present execed
    exact (inv.child call child present).onlyOf_iff.mpr (alone call child present execed)
  · intro alone call child present execed closed
    refine ⟨closed, fun other holder held => ?_⟩
    by_cases same : other = call
    · subst same
      have equal := Option.some.inj (present.symm.trans held)
      subst equal
      exact (inv.child other child present).lacks_parent execed rfl rfl
    · intro fd open_
      have only := (inv.child other holder held).onlyOf_iff.mpr (alone other holder held)
      exact same (only fd _ open_).symm

/-- A second call forks while the first one's pipes are open.  Its child runs the
shell with the write end of the first call's stdin, which the server then closes. -/
def overlappingRun : List Event :=
  [.enter 1 .pipe, .pipe 1 (some (3, 4)), .pipe 1 (some (5, 6)), .pipe 1 (some (7, 8)), .fork 1 true,
    .close 1, .close 1, .close 1, .enter 2 .run, .pipe 2 (some (3, 6)), .pipe 2 (some (8, 9)),
    .fork 2 true] ++ List.replicate 7 (.child 2) ++ [.closeStdin 1]

/-- The state behind these steps. -/
def overlappingState : State := (Machine.exec step initial overlappingRun).get (by decide)

/-- The child of the second call, whose shell holds an end of the first. -/
theorem children_hold_own_ends_iff_overlapping :
    (¬ forall call child, overlappingState.children call = some child -> child.execed = true ->
        OnlyOf call child.table) ∧
      ((forall call child, overlappingState.children call = some child -> OnlyOf call child.inherited) ->
        forall call child, overlappingState.children call = some child -> child.execed = true ->
          Lacks overlappingState.table ⟨call, .stdin, true⟩ -> StdinEnds overlappingState call) := by
  have both := children_hold_own_ends_iff (Option.some_get (by decide :
    (Machine.exec step initial overlappingRun).isSome)).symm
  refine ⟨fun own => ?_, both.2⟩
  have found : (overlappingState.children 2).map (fun child => (child.execed, child.inherited 4)) =
      some (true, some (.pipe ⟨1, .stdin, true⟩)) := by decide
  rcases Option.map_eq_some_iff.mp found with ⟨child, isChild, shape⟩
  have parts := Prod.mk.inj shape
  exact absurd (both.1.mp own 2 child isChild parts.1 4 _ parts.2) (by decide)

theorem overlapping_calls_leak_stdin :
    (Machine.exec step initial overlappingRun).map (fun state =>
        (state.table 4, (state.children 2).map (fun child => (child.execed, child.table 4)))) =
      some (none, some (true, some (.pipe ⟨1, .stdin, true⟩))) := by
  decide

end Descriptors
end Executor
end AdbBridge
