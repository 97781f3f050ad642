import AdbBridge.Executor.Child
import AdbBridge.Executor.Descriptors
import AdbBridge.Library.Ledger

namespace AdbBridge
namespace Executor

open Library

/-!
# What a call of an executor leaves behind

The three executors create their pipes one by one in the condition of a single `if`,
fork, close the ends of the child, run their loop and close their own ends.  Only the
loops differ: `Body` is what the rest of the call needs to know of one.  The write end
of the stdin pipe may be closed within the loop already.

A call leaves something behind in two ways.  If `pipe` fails for a later pipe, the ones
created before stay open.  If the loop is left without a successful `waitpid`, the child
stays a zombie.
-/

namespace Resources

open Descriptors (Role Kind Pipe)

universe u v

/-! ## Calls -/

/-- A loop between the fork and the last closes.  `holdsStdin` tells whether the write
end of the stdin pipe is still open, `abandons` which steps give up the child. -/
structure Body (Loop : Type u) (Event : Type v) where
  kind : Kind
  start : Loop
  step : Loop -> Event -> Option Loop
  returned : Loop -> Bool
  child : Loop -> ChildState
  holdsStdin : Loop -> Bool
  abandons : Loop -> Event -> Bool

/-- Where a call stands: with the pipes created so far, in its loop, or back with the
child it forked. -/
inductive Stage (Loop : Type u) where
  | creating (todo : List Role) (pipes : List Pipe)
  | inside (pipes : List Pipe) (loop : Loop)
  | returned (child : Option ChildState)

/-- A call with the descriptors of the server. -/
structure State (Loop : Type u) where
  stage : Stage Loop
  ledger : Ledger Nat

/-- The next call of the executor with its result. -/
inductive Event (Inner : Type v) where
  | pipe (ends : Option (Nat × Nat))
  | fork (succeeds : Bool)
  | inside (event : Inner)

/-- The ends of the pipes that the server closes last, without the write end of the
stdin pipe. -/
def outputEnds (pipes : List Pipe) : List Nat :=
  (pipes.filter (fun pipe => pipe.role.childWrites)).map Pipe.parentFd

/-- The write end of the stdin pipe. -/
def stdinEnds (pipes : List Pipe) : List Nat :=
  (pipes.filter (fun pipe => !pipe.role.childWrites)).map Pipe.parentFd

/-- The ends of the child. -/
def childEnds (pipes : List Pipe) : List Nat := pipes.map Pipe.childFd

/-- Both ends of every pipe. -/
def bothEnds (pipes : List Pipe) : List Nat := pipes.flatMap (fun pipe => [pipe.readFd, pipe.writeFd])

section Steps

variable {Loop : Type u} {Inner : Type v} (body : Body Loop Inner)

/-- Before the first pipe, with the descriptors that are open. -/
def initial (before : List Nat) : State Loop := ⟨.creating body.kind.roles [], .start before⟩

/-- The loop has gone on: the stdin pipe may have been closed, and the call may return. -/
def settle (pipes : List Pipe) (held : Bool) (loop : Loop) (ledger : Ledger Nat) : State Loop :=
  let drained := if held && !body.holdsStdin loop then ledger.closeAll (stdinEnds pipes) else ledger
  if body.returned loop then ⟨.returned (some (body.child loop)), drained.closeAll (outputEnds pipes)⟩
  else ⟨.inside pipes loop, drained⟩

/-- One step of a call. -/
def step (state : State Loop) (event : Event Inner) : Option (State Loop) :=
  match state.stage, event with
  | .creating (_ :: _) _, .pipe none => some { state with stage := .returned none }
  | .creating (role :: todo) pipes, .pipe (some (readFd, writeFd)) =>
      if readFd ≠ writeFd ∧ readFd ∉ state.ledger.present ∧ writeFd ∉ state.ledger.present then
        some ⟨.creating todo (pipes ++ [⟨role, readFd, writeFd⟩]), state.ledger.add [readFd, writeFd]⟩
      else none
  | .creating [] pipes, .fork false => some ⟨.returned none, state.ledger.closeAll (bothEnds pipes)⟩
  | .creating [] pipes, .fork true =>
      some (settle body pipes true body.start (state.ledger.closeAll (childEnds pipes)))
  | .inside pipes loop, .inside event =>
      (body.step loop event).map (fun next =>
        settle body pipes (body.holdsStdin loop) next state.ledger)
  | _, _ => none

/-- Neither a pipe is created in vain nor the child given up. -/
def Keeps (state : State Loop) (event : Event Inner) : Prop :=
  match state.stage, event with
  | .creating _ pipes, .pipe none => pipes = []
  | .inside _ loop, .inside event => body.abandons loop event = false
  | _, _ => True

instance (state : State Loop) (event : Event Inner) : Decidable (Keeps body state event) :=
  match state with
  | ⟨.creating _ pipes, _⟩ =>
      match event with
      | .pipe none => inferInstanceAs (Decidable (pipes = []))
      | .pipe (some _) | .fork _ | .inside _ => isTrue trivial
  | ⟨.inside _ loop, _⟩ =>
      match event with
      | .inside event => inferInstanceAs (Decidable (body.abandons loop event = false))
      | .pipe _ | .fork _ => isTrue trivial
  | ⟨.returned _, _⟩ => isTrue trivial

end Steps

/-- The server has the descriptors it had, each end it created was closed once, and a
child that was forked was reaped. -/
structure LeavesNothing {Loop : Type u} (before : List Nat) (state : State Loop) : Prop where
  descriptors : state.ledger.Balanced before
  child : state.stage = .returned none ∨ state.stage = .returned (some .reaped)

/-! ## What a loop has to satisfy -/

/-- A step stays on one side of the point where the child is left, `left` telling which,
or it crosses it, and then the child has been reaped unless the step gives it up. -/
def Body.Moves {Loop : Type u} {Inner : Type v} (body : Body Loop Inner) (left : Loop -> Bool) (loop : Loop)
    (event : Inner) (next : Loop) : Prop :=
  (left next = left loop ∧ body.abandons loop event = false ∧
      (left loop = true -> (body.child next = .reaped ↔ body.child loop = .reaped))) ∨
    (left loop = false ∧ left next = true ∧ (body.child next = .reaped ↔ body.abandons loop event = false))

/-- The laws of a loop. -/
structure Body.Lawful {Loop : Type u} {Inner : Type v} (body : Body Loop Inner) where
  inv : Loop -> Prop
  left : Loop -> Bool
  inside : left body.start = false
  inv_start : inv body.start
  inv_step : forall loop event next, body.step loop event = some next -> inv loop -> inv next
  moves : forall loop event next, body.step loop event = some next -> inv loop ->
    body.Moves left loop event next
  left_of_returned : forall loop, body.returned loop = true -> left loop = true
  closed : forall loop, inv loop -> body.returned loop = true -> body.holdsStdin loop = false
  stays_closed : forall loop event next, body.step loop event = some next ->
    body.holdsStdin next = true -> body.holdsStdin loop = true

section Laws

variable {Loop : Type u} {Inner : Type v} {body : Body Loop Inner} (lawful : body.Lawful) {loop next : Loop}
  {event : Inner}

/-- The child has not been given up. -/
def Body.Lawful.whole (loop : Loop) : Prop := lawful.left loop = true -> body.child loop = .reaped

/-- The child has been given up. -/
def Body.Lawful.lost (loop : Loop) : Prop := lawful.left loop = true ∧ body.child loop ≠ .reaped

theorem Body.Lawful.whole_start : lawful.whole body.start := fun impossible =>
  absurd (lawful.inside.symm.trans impossible) Bool.false_ne_true

theorem Body.Lawful.whole_step (stepped : body.step loop event = some next) (inv : lawful.inv loop)
    (whole : lawful.whole loop) (keeps : body.abandons loop event = false) : lawful.whole next := by
  intro isLeft
  rcases lawful.moves loop event next stepped inv with ⟨same, _, child⟩ | ⟨_, _, child⟩
  · rw [same] at isLeft
    exact (child isLeft).mpr (whole isLeft)
  · exact child.mpr keeps

theorem Body.Lawful.lost_step (stepped : body.step loop event = some next) (inv : lawful.inv loop)
    (lost : lawful.lost loop) : lawful.lost next := by
  rcases lawful.moves loop event next stepped inv with ⟨same, _, child⟩ | ⟨inside, _, _⟩
  · exact ⟨same.trans lost.1, fun reaped => lost.2 ((child lost.1).mp reaped)⟩
  · exact absurd (inside.symm.trans lost.1) Bool.false_ne_true

theorem Body.Lawful.lost_of_abandons (stepped : body.step loop event = some next) (inv : lawful.inv loop)
    (abandons : body.abandons loop event = true) : lawful.lost next := by
  rcases lawful.moves loop event next stepped inv with ⟨_, keeps, _⟩ | ⟨_, isLeft, child⟩
  · exact absurd (keeps.symm.trans abandons) Bool.false_ne_true
  · refine ⟨isLeft, fun reaped => ?_⟩
    exact Bool.false_ne_true ((child.mp reaped).symm.trans abandons)

/-- A step that does not leave the child keeps what `waitpid` finds.  One that leaves
the child reaps it or gives it up. -/
def Body.Reaps (body : Body Loop Inner) (left : Loop -> Bool) (loop : Loop) (event : Inner)
    (next : Loop) : Prop :=
  (left next = left loop ∧ body.abandons loop event = false ∧
      (body.child next = .reaped ↔ body.child loop = .reaped)) ∨
    (left loop = false ∧ left next = true ∧
      ((body.child next = .reaped ∧ body.abandons loop event = false) ∨
        (body.child next = body.child loop ∧ body.abandons loop event = true)))

/-- A loop without a stdin pipe that is over once the child is reaped. -/
def Body.lawfulOfReaps (body : Body Loop Inner) (left : Loop -> Bool) (inside : left body.start = false)
    (child : body.child body.start ≠ .reaped)
    (left_of_returned : forall loop, body.returned loop = true -> left loop = true)
    (noStdin : forall loop, body.holdsStdin loop = false)
    (reaps : forall loop event next, body.step loop event = some next -> body.Reaps left loop event next) :
    body.Lawful where
  inv := fun loop => body.child loop = .reaped -> left loop = true
  left := left
  inside := inside
  inv_start := fun gone => absurd gone child
  inv_step := by
    intro loop event next stepped inv gone
    rcases reaps loop event next stepped with ⟨same, _, child⟩ | ⟨_, isLeft, _⟩
    · exact same.trans (inv (child.mp gone))
    · exact isLeft
  moves := by
    intro loop event next stepped inv
    rcases reaps loop event next stepped with
      ⟨same, keeps, child⟩ | ⟨inside, isLeft, ⟨reaped, keeps⟩ | ⟨same, abandons⟩⟩
    · exact Or.inl ⟨same, keeps, fun _ => child⟩
    · exact Or.inr ⟨inside, isLeft, iff_of_true reaped keeps⟩
    · refine Or.inr ⟨inside, isLeft, iff_of_false (fun reaped => ?_) (by rw [abandons]; decide)⟩
      rw [same] at reaped
      exact absurd (inside.symm.trans (inv reaped)) Bool.false_ne_true
  left_of_returned := left_of_returned
  closed := fun loop _ _ => noStdin loop
  stays_closed := by
    intro loop event next _ held
    rw [noStdin next] at held
    cases held

end Laws

section Calls

variable {Loop : Type u} {Inner : Type v} {body : Body Loop Inner} (lawful : body.Lawful)
  {before : List Nat} {state next final : State Loop} {event : Event Inner} {events : List (Event Inner)}
  {pipes : List Pipe} {ledger : Ledger Nat}

/-- Every pipe has an end for the child and one for the server. -/
theorem bothEnds_perm (pipes : List Pipe) :
    (bothEnds pipes).Perm (childEnds pipes ++ (stdinEnds pipes ++ outputEnds pipes)) := by
  induction pipes with
  | nil => exact List.Perm.refl _
  | cons pipe pipes inductionHypothesis =>
      have both : [pipe.readFd, pipe.writeFd].Perm [pipe.childFd, pipe.parentFd] := by
        unfold Pipe.childFd Pipe.parentFd
        cases pipe.role.childWrites
        · exact List.Perm.refl _
        · exact List.Perm.swap _ _ _
      have front : (bothEnds (pipe :: pipes)).Perm
          ([pipe.childFd, pipe.parentFd] ++ (childEnds pipes ++ (stdinEnds pipes ++ outputEnds pipes))) :=
        both.append inductionHypothesis
      have server : (pipe.parentFd :: (stdinEnds pipes ++ outputEnds pipes)).Perm
          (stdinEnds (pipe :: pipes) ++ outputEnds (pipe :: pipes)) := by
        unfold stdinEnds outputEnds
        cases writes : pipe.role.childWrites
        · rw [List.filter_cons_of_pos (by rw [writes]; rfl), List.filter_cons_of_neg (by rw [writes]; decide)]
          exact List.Perm.refl _
        · rw [List.filter_cons_of_neg (by rw [writes]; decide),
            List.filter_cons_of_pos (by rw [writes])]
          exact List.perm_middle.symm
      have regrouped : (pipe.parentFd :: (childEnds pipes ++ (stdinEnds pipes ++ outputEnds pipes))).Perm
          (childEnds pipes ++ (stdinEnds (pipe :: pipes) ++ outputEnds (pipe :: pipes))) :=
        List.perm_middle.symm.trans (server.append_left (childEnds pipes))
      exact front.trans (List.Perm.cons pipe.childFd regrouped)

/-- The ends of the server that are still open in the loop. -/
def heldEnds (pipes : List Pipe) (holdsStdin : Bool) : List Nat :=
  (if holdsStdin then stdinEnds pipes else []) ++ outputEnds pipes

/-- What holds between two steps: it is known which descriptors the call still has. -/
def Sound (before : List Nat) (state : State Loop) : Prop :=
  match state.stage with
  | .creating _ pipes => state.ledger.Holds before (bothEnds pipes)
  | .inside pipes loop =>
      state.ledger.Holds before (heldEnds pipes (body.holdsStdin loop)) ∧ lawful.inv loop ∧
        body.returned loop = false
  | .returned _ => Exists fun left => state.ledger.Holds before left

/-- What holds while nothing has been left behind. -/
def Whole (before : List Nat) (state : State Loop) : Prop :=
  match state.stage with
  | .creating _ _ => True
  | .inside _ loop => lawful.whole loop
  | .returned _ => LeavesNothing before state

/-- What holds once something has been left behind. -/
def Lost (before : List Nat) (state : State Loop) : Prop :=
  match state.stage with
  | .creating _ _ => False
  | .inside _ loop => lawful.lost loop
  | .returned _ => ¬ LeavesNothing before state

/-- The loop goes on, or the call returns without a descriptor. -/
theorem settle_cases {held : Bool} {loop : Loop} (inv : lawful.inv loop)
    (holds : ledger.Holds before (heldEnds pipes held))
    (stays : body.holdsStdin loop = true -> held = true) :
    (body.returned loop = false ∧ Exists fun drained =>
        settle body pipes held loop ledger = ⟨.inside pipes loop, drained⟩ ∧
          drained.Holds before (heldEnds pipes (body.holdsStdin loop))) ∨
      (body.returned loop = true ∧ Exists fun drained =>
        settle body pipes held loop ledger = ⟨.returned (some (body.child loop)), drained⟩ ∧
          drained.Holds before []) := by
  have drained : Ledger.Holds before (heldEnds pipes (body.holdsStdin loop))
      (if held && !body.holdsStdin loop then ledger.closeAll (stdinEnds pipes) else ledger) := by
    cases still : body.holdsStdin loop with
    | true =>
        rw [stays still] at holds ⊢
        exact holds
    | false =>
        cases held with
        | true => exact holds.closeAll
        | false => exact holds
  unfold settle
  by_cases returned : body.returned loop = true
  · have closed := lawful.closed loop inv returned
    rw [closed] at drained
    have outputs : heldEnds pipes false = outputEnds pipes ++ [] := (List.append_nil _).symm
    rw [outputs] at drained
    refine Or.inr ⟨returned, _, if_pos returned, ?_⟩
    rw [closed]
    exact drained.closeAll
  · exact Or.inl ⟨Bool.eq_false_iff.mpr returned, _, if_neg returned, drained⟩

/-- A call that is back has left nothing behind if and only if no descriptor is left
and its child, if there is one, is reaped. -/
theorem leavesNothing_iff {left : List Nat} {child : Option ChildState} (holds : ledger.Holds before left) :
    LeavesNothing before (⟨.returned child, ledger⟩ : State Loop) ↔
      left = [] ∧ (child = none ∨ child = some .reaped) := by
  constructor
  · intro nothing
    exact ⟨holds.balanced_iff.mp nothing.descriptors,
      nothing.child.imp (fun none => Stage.returned.inj none) (fun reaped => Stage.returned.inj reaped)⟩
  · rintro ⟨empty, child⟩
    exact ⟨holds.balanced_iff.mpr empty,
      child.imp (fun none => congrArg Stage.returned none) (fun reaped => congrArg Stage.returned reaped)⟩

/-- What a step of the loop does to the call. -/
theorem settle_spec {held : Bool} {loop : Loop} (inv : lawful.inv loop)
    (holds : ledger.Holds before (heldEnds pipes held))
    (stays : body.holdsStdin loop = true -> held = true) :
    Sound lawful before (settle body pipes held loop ledger) ∧
      (lawful.whole loop -> Whole lawful before (settle body pipes held loop ledger)) ∧
      (lawful.lost loop -> Lost lawful before (settle body pipes held loop ledger)) := by
  rcases settle_cases lawful inv holds stays with
    ⟨goesOn, drained, settled, still⟩ | ⟨returned, drained, settled, nothing⟩
  · rw [settled]
    exact ⟨⟨still, inv, goesOn⟩, id, id⟩
  · rw [settled]
    refine ⟨⟨[], nothing⟩, fun whole => ?_, fun lost leaves => ?_⟩
    · exact (leavesNothing_iff nothing).mpr
        ⟨rfl, Or.inr (congrArg some (whole (lawful.left_of_returned loop returned)))⟩
    · rcases ((leavesNothing_iff nothing).mp leaves).2 with impossible | reaped
      · exact absurd impossible (Option.some_ne_none _)
      · exact lost.2 (Option.some.inj reaped)

/-- The ends of the child are closed behind the fork. -/
theorem forked_holds (holds : ledger.Holds before (bothEnds pipes)) :
    (ledger.closeAll (childEnds pipes)).Holds before (heldEnds pipes true) :=
  (holds.perm (bothEnds_perm pipes)).closeAll

theorem sound_initial (distinct : before.Nodup) : Sound lawful before (initial body before) :=
  Ledger.holds_start distinct

/-- A step keeps account of the descriptors. -/
theorem sound_step (moved : step body state event = some next) (sound : Sound lawful before state) :
    Sound lawful before next := by
  rcases state with ⟨stage, ledger⟩
  unfold step at moved
  dsimp only at moved
  split at moved
  next role todo pipes =>
    rw [← Option.some.inj moved]
    exact ⟨_, sound⟩
  next role todo pipes readFd writeFd =>
    rcases Option.ite_none_right_eq_some.mp moved with ⟨fresh, created⟩
    rw [← Option.some.inj created]
    have distinct : [readFd, writeFd].Nodup := List.nodup_cons.mpr
      ⟨fun member => fresh.1 (List.mem_singleton.mp member), List.nodup_singleton writeFd⟩
    have unused : forall fd, fd ∈ [readFd, writeFd] -> fd ∉ ledger.present := by
      intro fd member
      rcases List.mem_cons.mp member with isRead | isWrite
      · exact isRead ▸ fresh.2.1
      · exact List.mem_singleton.mp isWrite ▸ fresh.2.2
    have grown := Ledger.Holds.add sound distinct unused
    refine grown.perm ?_
    have ends : bothEnds (pipes ++ [⟨role, readFd, writeFd⟩]) = bothEnds pipes ++ [readFd, writeFd] := by
      rw [bothEnds, List.flatMap_append, List.flatMap_singleton]
      rfl
    rw [ends]
    exact List.perm_append_comm
  next pipes =>
    rw [← Option.some.inj moved]
    have all : ledger.Holds before (bothEnds pipes ++ []) := by
      rw [List.append_nil]
      exact sound
    exact ⟨[], all.closeAll⟩
  next pipes =>
    rw [← Option.some.inj moved]
    exact (settle_spec lawful lawful.inv_start (forked_holds sound) (fun _ => rfl)).1
  next pipes loop inner =>
    rcases Option.map_eq_some_iff.mp moved with ⟨after, taken, settled⟩
    rw [← settled]
    exact (settle_spec lawful (lawful.inv_step loop inner after taken sound.2.1) sound.1
      (lawful.stays_closed loop inner after taken)).1
  · cases moved

/-- A step that keeps everything leaves nothing behind. -/
theorem whole_step (keeps : Keeps body state event) (moved : step body state event = some next)
    (sound : Sound lawful before state) (whole : Whole lawful before state) : Whole lawful before next := by
  rcases state with ⟨stage, ledger⟩
  unfold step at moved
  dsimp only at moved
  split at moved
  next role todo pipes =>
    rw [← Option.some.inj moved]
    have none : pipes = [] := keeps
    subst none
    exact (leavesNothing_iff sound).mpr ⟨rfl, Or.inl rfl⟩
  next role todo pipes readFd writeFd =>
    rcases Option.ite_none_right_eq_some.mp moved with ⟨_, created⟩
    rw [← Option.some.inj created]
    trivial
  next pipes =>
    rw [← Option.some.inj moved]
    have all : ledger.Holds before (bothEnds pipes ++ []) := by
      rw [List.append_nil]
      exact sound
    exact (leavesNothing_iff all.closeAll).mpr ⟨rfl, Or.inl rfl⟩
  next pipes =>
    rw [← Option.some.inj moved]
    exact (settle_spec lawful lawful.inv_start (forked_holds sound) (fun _ => rfl)).2.1 lawful.whole_start
  next pipes loop inner =>
    rcases Option.map_eq_some_iff.mp moved with ⟨after, taken, settled⟩
    rw [← settled]
    exact (settle_spec lawful (lawful.inv_step loop inner after taken sound.2.1) sound.1
      (lawful.stays_closed loop inner after taken)).2.1
      (lawful.whole_step taken sound.2.1 whole keeps)
  · cases moved

/-- What is left behind stays behind. -/
theorem lost_step (moved : step body state event = some next) (sound : Sound lawful before state)
    (lost : Lost lawful before state) : Lost lawful before next := by
  rcases state with ⟨stage, ledger⟩
  unfold step at moved
  dsimp only at moved
  split at moved
  next => exact absurd lost id
  next => exact absurd lost id
  next => exact absurd lost id
  next => exact absurd lost id
  next pipes loop inner =>
    rcases Option.map_eq_some_iff.mp moved with ⟨after, taken, settled⟩
    rw [← settled]
    exact (settle_spec lawful (lawful.inv_step loop inner after taken sound.2.1) sound.1
      (lawful.stays_closed loop inner after taken)).2.2
      (lawful.lost_step taken sound.2.1 lost)
  · cases moved

/-- A step that does not keep everything leaves something behind. -/
theorem lost_of_not_keeps (moved : step body state event = some next) (sound : Sound lawful before state)
    (loses : ¬ Keeps body state event) : Lost lawful before next := by
  rcases state with ⟨stage, ledger⟩
  unfold step at moved
  unfold Keeps at loses
  dsimp only at moved loses
  split at moved
  next role todo pipes =>
    rw [← Option.some.inj moved]
    have isSome : pipes ≠ [] := loses
    intro nothing
    have empty := ((leavesNothing_iff sound).mp nothing).1
    cases pipes with
    | nil => exact isSome rfl
    | cons pipe pipes => cases empty
  next role todo pipes readFd writeFd => exact absurd trivial loses
  next pipes => exact absurd trivial loses
  next pipes => exact absurd trivial loses
  next pipes loop inner =>
    rcases Option.map_eq_some_iff.mp moved with ⟨after, taken, settled⟩
    rw [← settled]
    have abandons : body.abandons loop inner = true := Bool.eq_true_of_not_eq_false loses
    exact (settle_spec lawful (lawful.inv_step loop inner after taken sound.2.1) sound.1
      (lawful.stays_closed loop inner after taken)).2.2
      (lawful.lost_of_abandons taken sound.2.1 abandons)
  · cases moved

/-- A call that is back has left nothing behind if and only if each of its steps keeps
everything. -/
theorem leaves_nothing_iff (lawful : body.Lawful) (distinct : before.Nodup)
    (run : Machine.exec (step body) (initial body before) events = some final)
    {child : Option ChildState} (returned : final.stage = .returned child) :
    LeavesNothing before final ↔ Machine.AllSteps (step body) (Keeps body) (initial body before) events := by
  rcases final with ⟨stage, ledger⟩
  dsimp only at returned
  subst returned
  constructor
  · intro nothing
    by_contra missed
    rcases Machine.exists_step_of_not_allSteps run missed with
      ⟨_, event, _, middle, next, _, reached, loses, moved, ending⟩
    have preserved : forall state event next, step body state event = some next ->
        Sound lawful before state -> Sound lawful before next :=
      fun state event next moved sound => sound_step lawful moved sound
    have sound := Machine.invariant_exec preserved reached (sound_initial lawful distinct)
    have stays : forall state event next, step body state event = some next ->
        (Sound lawful before state ∧ Lost lawful before state) ->
        (Sound lawful before next ∧ Lost lawful before next) :=
      fun state event next moved held => ⟨sound_step lawful moved held.1, lost_step lawful moved held.1 held.2⟩
    have lost := Machine.invariant_exec stays ending
      ⟨sound_step lawful moved sound, lost_of_not_keeps lawful moved sound loses⟩
    exact lost.2 nothing
  · intro kept
    have preserved : forall state event next, Keeps body state event -> step body state event = some next ->
        (Sound lawful before state ∧ Whole lawful before state) ->
        (Sound lawful before next ∧ Whole lawful before next) :=
      fun state event next keeps moved held =>
        ⟨sound_step lawful moved held.1, whole_step lawful keeps moved held.1 held.2⟩
    exact (Machine.invariant_exec_of_allSteps preserved run kept
      ⟨sound_initial lawful distinct, trivial⟩).2

end Calls

end Resources
end Executor
end AdbBridge
