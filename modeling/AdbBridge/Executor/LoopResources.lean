import AdbBridge.Executor.ExitCode
import AdbBridge.Executor.Resources

namespace AdbBridge
namespace Executor

open Library

/-!
# What the three executors leave behind

The loops of `exec_run`, `exec_run_stream` and `exec_run_pipe` satisfy the laws of a loop.
Besides the steps of their models a `read` may fail while there is something to read.
-/

namespace Resources

universe u v

/-! ## The loops -/

/-- The events of a loop, and a `read` that fails although there is something to read. -/
inductive LoopEvent (Event : Type v) where
  | event (event : Event)
  | readFails

/-- The loop of `exec_run`.  A `read` that fails does nothing. -/
def runStep (loop : Capture.State) : LoopEvent Capture.Event -> Option Capture.State
  | .event event => Capture.step loop event
  | .readFails =>
      match loop.pc with
      | .readOut errReady => some { loop with pc := if errReady then .readErr else .wait }
      | .readErr => some { loop with pc := .wait }
      | _ => none

/-- `exec_run`: a failure of `select` ends the loop. -/
def runBody : Body Capture.State (LoopEvent Capture.Event) where
  kind := .run
  start := Capture.start
  step := runStep
  returned := fun loop => loop.pc = .done
  child := fun loop => loop.child
  holdsStdin := fun _ => false
  abandons := fun _ event =>
    match event with
    | .event .selectError => true
    | _ => false

/-- The loop of `exec_run_stream`.  A `read` that fails does nothing. -/
def streamStep (loop : Streaming.State) : LoopEvent Streaming.Event -> Option Streaming.State
  | .event event => Streaming.step loop event
  | .readFails =>
      match loop.pc with
      | .readOut errReady => some (loop.afterOut errReady)
      | .readErr => some loop.afterReads
      | _ => none

/-- `exec_run_stream`: a failure of `poll`, of `waitpid` or of the callback ends the loop. -/
def streamBody : Body Streaming.State (LoopEvent Streaming.Event) where
  kind := .stream
  start := Streaming.start
  step := streamStep
  returned := fun loop => loop.pc = .done
  child := fun loop => loop.child
  holdsStdin := fun _ => false
  abandons := fun _ event =>
    match event with
    | .event (.poll .failed) | .event (.waitpid .failed) | .event (.callback false) => true
    | _ => false

/-- The loop of `exec_run_pipe`.  A `read` that fails ends its stream. -/
def pipeStep (call : PipeLoop.Call) (loop : PipeLoop.State) :
    LoopEvent PipeLoop.Event -> Option PipeLoop.State
  | .event event => PipeLoop.step call loop event
  | .readFails =>
      match loop.pc with
      | .readOut errIn =>
          let read : PipeLoop.State := { loop with loop := loop.loop.output call false [] }
          some (if errIn then { read with pc := .readErr } else read.afterReads)
      | .readErr => some (PipeLoop.State.afterReads { loop with loop := loop.loop.output call true [] })
      | _ => none

/-- `exec_run_pipe`: a child that still runs behind the loop is killed and waited for. -/
def pipeBody (call : PipeLoop.Call) (incoming : List UInt8) :
    Body PipeLoop.State (LoopEvent PipeLoop.Event) where
  kind := .pipe
  start := call.start incoming
  step := pipeStep call
  returned := fun loop => loop.pc = .returned
  child := fun loop => loop.child
  holdsStdin := fun loop => loop.loop.stdinFd
  abandons := fun loop event =>
    match event with
    | .event (.waitpid false) => loop.pc = .kill
    | _ => false

/-! ### `exec_run` and `exec_run_stream` -/

section Run

variable {loop next : Capture.State} {event : LoopEvent Capture.Event}

private theorem run_goesOn {before after : Capture.State} (running : before.pc ≠ .done)
    (goesOn : after.pc ≠ .done) : runBody.returned after = runBody.returned before :=
  (decide_eq_false goesOn).trans (decide_eq_false running).symm

private theorem run_inRound {pc : Capture.Pc} (inRound : pc.inRound = true) : pc ≠ .done := by
  rintro rfl
  cases inRound

/-- A `read` that fails leaves the child alone and goes on with the round. -/
theorem runStep_readFails (stepped : runStep loop .readFails = some next) :
    loop.pc ≠ .done ∧ next.pc ≠ .done ∧ next.child = loop.child := by
  unfold runStep at stepped
  dsimp only at stepped
  split at stepped
  next errReady reading =>
    rw [← Option.some.inj stepped, reading]
    cases errReady <;> exact ⟨nofun, nofun, rfl⟩
  next reading =>
    rw [← Option.some.inj stepped, reading]
    exact ⟨nofun, nofun, rfl⟩
  · cases stepped

/-- `exec_run` reaps the child where it returns, unless `select` fails. -/
theorem runBody_reaps (stepped : runStep loop event = some next) :
    runBody.Reaps runBody.returned loop event next := by
  cases event with
  | readFails =>
      rcases runStep_readFails stepped with ⟨running, goesOn, child⟩
      exact Or.inl ⟨run_goesOn running goesOn, rfl, iff_of_eq (congrArg (· = ChildState.reaped) child)⟩
  | event event =>
      have left : forall {pc : Capture.Pc}, loop.pc = pc -> pc ≠ .done -> loop.pc ≠ .done :=
        fun at_ running => at_ ▸ running
      cases Capture.transition_of_step stepped with
      | writeOut block pipe running wrote => exact Or.inl ⟨rfl, rfl, Iff.rfl⟩
      | writeErr block pipe running wrote => exact Or.inl ⟨rfl, rfl, Iff.rfl⟩
      | exit status running =>
          refine Or.inl ⟨rfl, rfl, iff_of_false nofun (fun gone => ?_)⟩
          exact absurd (running.symm.trans gone) nofun
      | selected outReady errReady pc selecting inRound =>
          exact Or.inl ⟨run_goesOn (left selecting nofun) (run_inRound inRound), rfl, Iff.rfl⟩
      | timedOut selecting => exact Or.inl ⟨run_goesOn (left selecting nofun) nofun, rfl, Iff.rfl⟩
      | selectFailed selecting =>
          exact Or.inr ⟨decide_eq_false (left selecting nofun), rfl, Or.inr ⟨rfl, rfl⟩⟩
      | readOut errReady count bytes pipe pc reading got inRound =>
          exact Or.inl ⟨run_goesOn (left reading nofun) (run_inRound inRound), rfl, Iff.rfl⟩
      | readErr count bytes pipe reading got =>
          exact Or.inl ⟨run_goesOn (left reading nofun) nofun, rfl, Iff.rfl⟩
      | reaps status waiting zombie =>
          exact Or.inr ⟨decide_eq_false (left waiting nofun), rfl, Or.inl ⟨rfl, rfl⟩⟩
      | notReaped waiting => exact Or.inl ⟨run_goesOn (left waiting nofun) nofun, rfl, Iff.rfl⟩

/-- The laws of the loop of `exec_run`. -/
def runLawful : runBody.Lawful :=
  runBody.lawfulOfReaps runBody.returned rfl nofun (fun _ returned => returned) (fun _ => rfl)
    (fun _ _ _ stepped => runBody_reaps stepped)

end Run

section Stream

variable {loop next : Streaming.State} {event : LoopEvent Streaming.Event}

/-- The parent does not wait for the child any more. -/
def streamLeft (loop : Streaming.State) : Bool :=
  match loop.pc with
  | .kill | .done => true
  | _ => false

private theorem stream_inside_of_inRound {loop : Streaming.State} (inRound : loop.pc.inRound = true) :
    streamLeft loop = false := by
  unfold streamLeft
  cases pc : loop.pc <;> rw [pc] at inRound <;> first | rfl | cases inRound

/-- A `read` that fails leaves the child alone and goes on with the round. -/
theorem streamStep_readFails (stepped : streamStep loop .readFails = some next) :
    streamLeft loop = false ∧ streamLeft next = false ∧ next.child = loop.child := by
  unfold streamStep at stepped
  dsimp only at stepped
  split at stepped
  next errReady reading =>
    rcases Streaming.afterOut_inRound errReady loop with ⟨pc, inRound, after⟩
    rw [← Option.some.inj stepped, after]
    exact ⟨stream_inside_of_inRound (by rw [reading]; rfl), stream_inside_of_inRound inRound, rfl⟩
  next reading =>
    rcases Streaming.afterReads_inRound loop with ⟨pc, inRound, after⟩
    rw [← Option.some.inj stepped, after]
    exact ⟨stream_inside_of_inRound (by rw [reading]; rfl), stream_inside_of_inRound inRound, rfl⟩
  · cases stepped

/-- `exec_run_stream` reaps the child where it stops waiting for it, unless a call fails. -/
theorem streamBody_reaps (stepped : streamStep loop event = some next) :
    streamBody.Reaps streamLeft loop event next := by
  have inside : forall {pc : Streaming.Pc}, loop.pc = pc -> pc ≠ .kill -> pc ≠ .done ->
      streamLeft loop = false := by
    intro pc at_ notKill notDone
    unfold streamLeft
    rw [at_]
    cases pc <;> first | rfl | exact absurd rfl notKill | exact absurd rfl notDone
  cases event with
  | readFails =>
      rcases streamStep_readFails stepped with ⟨running, goesOn, child⟩
      exact Or.inl ⟨goesOn.trans running.symm, rfl, iff_of_eq (congrArg (· = ChildState.reaped) child)⟩
  | event event =>
      cases Streaming.transition_of_step stepped with
      | writeOut block pipe running wrote => exact Or.inl ⟨rfl, rfl, Iff.rfl⟩
      | writeErr block pipe running wrote => exact Or.inl ⟨rfl, rfl, Iff.rfl⟩
      | closeOut running => exact Or.inl ⟨rfl, rfl, Iff.rfl⟩
      | closeErr running => exact Or.inl ⟨rfl, rfl, Iff.rfl⟩
      | exit status running =>
          refine Or.inl ⟨rfl, rfl, iff_of_false nofun (fun gone => ?_)⟩
          exact absurd (running.symm.trans gone) nofun
      | pollFailed polling => exact Or.inr ⟨inside polling nofun nofun, rfl, Or.inr ⟨rfl, rfl⟩⟩
      | polled outIn errIn pc polling inRound =>
          exact Or.inl ⟨(stream_inside_of_inRound inRound).trans (inside polling nofun nofun).symm, rfl,
            Iff.rfl⟩
      | readOut errReady count bytes pipe reading got isSome =>
          exact Or.inl ⟨(inside reading nofun nofun).symm, rfl, Iff.rfl⟩
      | readErr count bytes pipe reading got isSome =>
          exact Or.inl ⟨(inside reading nofun nofun).symm, rfl, Iff.rfl⟩
      | readNothing count pc reading inRound =>
          have running : streamLeft loop = false := by
            unfold streamLeft
            cases at_ : loop.pc <;> rw [at_] at reading <;> first | rfl | cases reading
          exact Or.inl ⟨(stream_inside_of_inRound inRound).trans running.symm, rfl, Iff.rfl⟩
      | accepted pc calling inRound =>
          have running : streamLeft loop = false := by
            unfold streamLeft
            cases at_ : loop.pc <;> rw [at_] at calling <;> first | rfl | cases calling
          exact Or.inl ⟨(stream_inside_of_inRound inRound).trans running.symm, rfl, Iff.rfl⟩
      | refused calling =>
          have running : streamLeft loop = false := by
            unfold streamLeft
            cases at_ : loop.pc <;> rw [at_] at calling <;> first | rfl | cases calling
          exact Or.inr ⟨running, rfl, Or.inr ⟨rfl, rfl⟩⟩
      | reaps status waiting zombie =>
          exact Or.inr ⟨inside waiting nofun nofun, rfl, Or.inl ⟨rfl, rfl⟩⟩
      | notReaped waiting running => exact Or.inl ⟨(inside waiting nofun nofun).symm, rfl, Iff.rfl⟩
      | waitFailed waiting => exact Or.inr ⟨inside waiting nofun nofun, rfl, Or.inr ⟨rfl, rfl⟩⟩
      | killed killing =>
          have already : streamLeft loop = true := by
            unfold streamLeft
            rw [killing]
          exact Or.inl ⟨already.symm, rfl, Iff.rfl⟩

/-- The laws of the loop of `exec_run_stream`. -/
def streamLawful : streamBody.Lawful := by
  refine streamBody.lawfulOfReaps streamLeft rfl nofun (fun loop returned => ?_) (fun _ => rfl)
    (fun _ _ _ stepped => streamBody_reaps stepped)
  unfold streamLeft
  rw [of_decide_eq_true returned]

end Stream

/-! ### `exec_run_pipe` -/

section Piped

open PipeLoop (Rest Pc)

variable {call : PipeLoop.Call} {incoming : List UInt8} {loop after next : PipeLoop.State}
  {event : LoopEvent PipeLoop.Event}

/-- The parent does not wait for the child any more. -/
def pipeLeft (loop : PipeLoop.State) : Bool :=
  match loop.pc with
  | .flush | .terminate | .returned => true
  | _ => false

/-- The flag tells whether the child is reaped. -/
def Watched (loop : PipeLoop.State) : Prop := loop.child = .reaped ↔ loop.loop.childExited = true

/-- What holds in the loop and behind it. -/
structure PipeInv (loop : PipeLoop.State) : Prop where
  watched : pipeLeft loop = false -> Watched loop
  killing : loop.pc = .kill -> loop.loop.childExited = false
  closed : loop.pc = .returned -> loop.loop.stdinFd = false

theorem pipeLeft_of_pc {pc : Pc} (at_ : loop.pc = pc) (goesOn : pc.leaving = false) :
    pipeLeft loop = false := by
  unfold pipeLeft
  rw [at_]
  cases pc <;> first | rfl | cases goesOn

/-- The parent is in the loop, and knows whether the child is reaped. -/
theorem PipeInv.of_inside (goesOn : next.pc.leaving = false) (watched : Watched next) : PipeInv next := by
  refine ⟨fun _ => watched, fun killing => ?_, fun returned => ?_⟩
  · rw [killing] at goesOn
    cases goesOn
  · rw [returned] at goesOn
    cases goesOn

/-- The rest of an iteration stays in the loop. -/
theorem PipeInv.of_rest {ready : PipeLoop.Ready} (rest : Rest ready after next) (watched : Watched after) :
    PipeInv next ∧ pipeLeft next = false := by
  cases rest with
  | next pc wantRead wantWrite within =>
      have goesOn := PipeLoop.not_leaving_of_inIteration within
      exact ⟨.of_inside goesOn watched, pipeLeft_of_pc rfl goesOn⟩
  | last pc wantRead wantWrite ends =>
      have goesOn : pc.leaving = false := by rcases ends with rfl | rfl <;> rfl
      have exited := (PipeLoop.closeStdin_child after.loop).1
      refine ⟨.of_inside goesOn ?_, pipeLeft_of_pc rfl goesOn⟩
      unfold Watched
      dsimp only
      rw [exited]
      exact watched

/-- Behind the loop it only matters that the stdin pipe is closed at the end. -/
theorem PipeInv.of_left (isLeft : pipeLeft next = true)
    (closed : next.pc = .returned -> next.loop.stdinFd = false) : PipeInv next := by
  refine ⟨fun inside => absurd (inside.symm.trans isLeft) Bool.false_ne_true, fun killing => ?_, closed⟩
  unfold pipeLeft at isLeft
  rw [killing] at isLeft
  cases isLeft

/-- Behind the `kill` the child is what it was. -/
theorem afterKill_spec (same : loop.afterKill = next) :
    PipeInv next ∧ pipeLeft next = true ∧ next.child = loop.child := by
  subst same
  unfold PipeLoop.State.afterKill
  split_ifs
  · exact ⟨.of_left rfl (fun _ => rfl), rfl, rfl⟩
  · exact ⟨.of_left rfl nofun, rfl, rfl⟩
  · exact ⟨.of_left rfl nofun, rfl, rfl⟩

/-- The loop is left with a reaped child, or for the `kill`. -/
theorem leaveLoop_spec (watched : Watched loop) :
    PipeInv loop.leaveLoop ∧
      ((pipeLeft loop.leaveLoop = false ∧ loop.leaveLoop.child = loop.child) ∨
        (pipeLeft loop.leaveLoop = true ∧ loop.leaveLoop.child = .reaped)) := by
  unfold PipeLoop.State.leaveLoop
  split
  next exited =>
    rcases afterKill_spec (rfl : loop.afterKill = loop.afterKill) with ⟨inv, isLeft, child⟩
    exact ⟨inv, Or.inr ⟨isLeft, child.trans (watched.mpr exited)⟩⟩
  next running =>
    refine ⟨⟨fun _ => watched, fun _ => Bool.eq_false_iff.mpr running, nofun⟩, Or.inl ⟨rfl, rfl⟩⟩

/-- What a step of the loop comes to for the child. -/
def PipeStepped (call : PipeLoop.Call) (incoming : List UInt8) (loop : PipeLoop.State)
    (event : LoopEvent PipeLoop.Event) (next : PipeLoop.State) : Prop :=
  PipeInv next ∧ (pipeBody call incoming).Moves pipeLeft loop event next

theorem keeps_of_pc {pc : Pc} (at_ : loop.pc = pc) (running : pc ≠ .kill) :
    (pipeBody call incoming).abandons loop event = false := by
  unfold pipeBody
  dsimp only
  split
  · exact decide_eq_false (at_ ▸ running)
  · rfl

/-- A step from one point of the loop to another. -/
theorem PipeStepped.of_inside {pc : Pc} (at_ : loop.pc = pc) (inside : pc.leaving = false)
    (keeps : PipeInv next ∧ pipeLeft next = false) : PipeStepped call incoming loop event next := by
  have notKill : pc ≠ .kill := by
    rintro rfl
    cases inside
  have before := pipeLeft_of_pc at_ inside
  exact ⟨keeps.1, Or.inl ⟨keeps.2.trans before.symm, keeps_of_pc at_ notKill,
    fun isLeft => absurd (before.symm.trans isLeft) Bool.false_ne_true⟩⟩

/-- A step that leaves the loop. -/
theorem PipeStepped.of_leaveLoop {pc : Pc} (at_ : loop.pc = pc) (inside : pipeLeft loop = false)
    (notKill : pc ≠ .kill) (watched : Watched after) :
    PipeStepped call incoming loop event after.leaveLoop := by
  rcases leaveLoop_spec watched with ⟨inv, ⟨stays, child⟩ | ⟨isLeft, reaped⟩⟩
  · exact ⟨inv, Or.inl ⟨stays.trans inside.symm, keeps_of_pc at_ notKill,
      fun isLeft => absurd (inside.symm.trans isLeft) Bool.false_ne_true⟩⟩
  · exact ⟨inv, Or.inr ⟨inside, isLeft, iff_of_true reaped (keeps_of_pc at_ notKill)⟩⟩

/-- What the child does leaves the parent where it is. -/
theorem PipeStepped.of_child {child : ChildState} {out err : OutputPipe} (inv : PipeInv loop)
    (keeps : (pipeBody call incoming).abandons loop event = false)
    (same : child = .reaped ↔ loop.child = .reaped) :
    PipeStepped call incoming loop event { loop with child := child, out := out, err := err } :=
  ⟨⟨fun inside => same.trans (inv.watched inside), inv.killing, inv.closed⟩,
    Or.inl ⟨rfl, keeps, fun _ => same⟩⟩

/-- The `waitpid` behind the `kill` decides. -/
theorem PipeStepped.of_kill {reaps : Bool} (killing : loop.pc = .kill) (inv : PipeInv loop)
    (stepped : PipeLoop.step call loop (.waitpid reaps) = some next) :
    PipeStepped call incoming loop (.event (.waitpid reaps)) next := by
  have inside : pipeLeft loop = false := by
    unfold pipeLeft
    rw [killing]
  have unreaped : loop.child ≠ .reaped := fun gone =>
    absurd ((inv.killing killing).symm.trans ((inv.watched inside).mp gone)) Bool.false_ne_true
  simp only [PipeLoop.step, PipeLoop.waitpidStep, killing] at stepped
  cases reaps with
  | false =>
      rcases afterKill_spec (Option.some.inj stepped) with ⟨inv, isLeft, child⟩
      refine ⟨inv, Or.inr ⟨inside, isLeft, iff_of_false (fun gone => unreaped (child.symm.trans gone)) ?_⟩⟩
      exact fun keeps => of_decide_eq_false keeps killing
  | true =>
      cases zombie : loop.child with
      | zombie status =>
          simp only [zombie] at stepped
          rcases afterKill_spec (Option.some.inj stepped) with ⟨inv, isLeft, child⟩
          exact ⟨inv, Or.inr ⟨inside, isLeft, iff_of_true child rfl⟩⟩
      | running => simp [zombie] at stepped
      | reaped => simp [zombie] at stepped

/-- A `read` that fails ends its stream and goes on with the iteration. -/
theorem pipeStepped_readFails (stepped : pipeStep call loop .readFails = some next) (inv : PipeInv loop) :
    PipeStepped call incoming loop .readFails next := by
  unfold pipeStep at stepped
  dsimp only at stepped
  have watched : forall isErr, pipeLeft loop = false ->
      Watched { loop with loop := loop.loop.output call isErr [] } := by
    intro isErr inside
    unfold Watched
    dsimp only
    rw [(PipeLoop.output_child call isErr loop.loop []).1]
    exact inv.watched inside
  split at stepped
  next errIn at_ =>
    have inside := pipeLeft_of_pc at_ rfl
    refine .of_inside at_ rfl ?_
    rw [← Option.some.inj stepped]
    cases errIn with
    | true =>
        have within : Pc.InIteration (PipeLoop.readyErr true) .readErr := rfl
        exact PipeInv.of_rest (Rest.next .readErr _ _ within) (watched false inside)
    | false =>
        exact PipeInv.of_rest (PipeLoop.afterReads_rest (PipeLoop.readyErr false) _) (watched false inside)
  next at_ =>
    refine .of_inside at_ rfl ?_
    rw [← Option.some.inj stepped]
    exact PipeInv.of_rest (PipeLoop.afterReads_rest (PipeLoop.readyErr false) _)
      (watched true (pipeLeft_of_pc at_ rfl))
  · cases stepped

/-- A `poll` that fails, and a loop that is over, end in `leaveLoop`. -/
theorem top_leaves {pollOrLeave : PipeLoop.Event} (top : loop.pc = .top)
    (ends : (Exists fun pending => pollOrLeave = .poll pending .failed) ∨
      (pollOrLeave = .leave ∧ (loop.loop.continues = false ∨ loop.loop.childExited = true)))
    (stepped : PipeLoop.step call loop pollOrLeave = some next) : loop.leaveLoop = next := by
  rcases ends with ⟨pending, rfl⟩ | ⟨rfl, stopped⟩
  · simp only [PipeLoop.step, if_pos top, PipeLoop.topStep, Option.ite_none_right_eq_some] at stepped
    exact Option.some.inj stepped.2
  · simp only [PipeLoop.step, if_pos top, PipeLoop.topStep] at stepped
    by_cases continues : loop.loop.continues = true
    · rw [if_pos continues, Option.ite_none_right_eq_some] at stepped
      have exited := stopped.resolve_left (fun ends => absurd (ends.symm.trans continues) Bool.false_ne_true)
      rw [if_pos exited] at stepped
      exact Option.some.inj stepped.2
    · rw [if_neg continues] at stepped
      exact Option.some.inj stepped

/-- One step of `exec_run_pipe` keeps what holds in its loop. -/
theorem pipeStepped_of_step (stepped : pipeStep call loop event = some next) (inv : PipeInv loop) :
    PipeStepped call incoming loop event next := by
  cases event with
  | readFails => exact pipeStepped_readFails stepped inv
  | event event =>
      -- a change of the loop that keeps the flag and the child
      have kept : forall {pc : Pc} (other : PipeLoop.State), loop.pc = pc -> pc.leaving = false ->
          other.child = loop.child -> other.loop.childExited = loop.loop.childExited -> Watched other := by
        intro pc other at_ inside child exited
        unfold Watched
        rw [child, exited]
        exact inv.watched (pipeLeft_of_pc at_ inside)
      have same : PipeLoop.step call loop event = some next := stepped
      cases PipeLoop.transition_of_step same with
      | writeOut | writeErr | closeOut | closeErr => exact .of_child inv rfl Iff.rfl
      | exit status running =>
          refine .of_child inv rfl (iff_of_false ChildState.noConfusion (fun gone => ?_))
          cases running.symm.trans gone
      | interrupted pending top =>
          exact .of_inside top rfl ⟨inv, pipeLeft_of_pc top rfl⟩
      | polled pending sslIn sslOut stdinOut outIn errIn next top outReadable errReadable rest =>
          exact .of_inside top rfl (PipeInv.of_rest rest (kept loop top rfl rfl rfl))
      | pollFailed pending next top left =>
          rw [← top_leaves top (Or.inl ⟨pending, rfl⟩) same]
          exact .of_leaveLoop top (pipeLeft_of_pc top rfl) Pc.noConfusion (kept loop top rfl rfl rfl)
      | ended next top ends left =>
          rw [← top_leaves top (Or.inr ⟨rfl, Or.inl ends⟩) same]
          exact .of_leaveLoop top (pipeLeft_of_pc top rfl) Pc.noConfusion (kept loop top rfl rfl rfl)
      | idle next top nothing exited left =>
          rw [← top_leaves top (Or.inr ⟨rfl, Or.inr exited⟩) same]
          exact .of_leaveLoop top (pipeLeft_of_pc top rfl) Pc.noConfusion (kept loop top rfl rfl rfl)
      | waits top nothing running =>
          exact .of_inside top rfl
            ⟨⟨fun _ => kept _ top rfl rfl rfl, Pc.noConfusion, Pc.noConfusion⟩, rfl⟩
      | sslGot ready count next at_ positive asked sent rest =>
          have exited := (PipeLoop.accept_child call loop.loop (loop.incoming.take count)).1
          exact .of_inside at_ rfl (PipeInv.of_rest rest (kept _ at_ rfl rfl exited))
      | sslWants ready result next at_ wants rest =>
          exact .of_inside at_ rfl (PipeInv.of_rest rest (kept loop at_ rfl rfl rfl))
      | sslReadFailed ready next at_ rest =>
          exact .of_inside at_ rfl (PipeInv.of_rest rest (kept _ at_ rfl rfl rfl))
      | sslWrote ready count next at_ positive held rest =>
          exact .of_inside at_ rfl (PipeInv.of_rest rest (kept _ at_ rfl rfl rfl))
      | sslWriteWants ready next at_ rest =>
          exact .of_inside at_ rfl (PipeInv.of_rest rest (kept loop at_ rfl rfl rfl))
      | sslWriteFailed ready next at_ left =>
          simp only [PipeLoop.step, at_, PipeLoop.sslWriteStep] at same
          rw [← Option.some.inj same]
          exact .of_leaveLoop at_ (pipeLeft_of_pc at_ rfl) Pc.noConfusion (kept _ at_ rfl rfl rfl)
      | stdinWrote ready count next at_ positive held rest =>
          exact .of_inside at_ rfl (PipeInv.of_rest rest (kept _ at_ rfl rfl rfl))
      | stdinAgain ready next at_ rest =>
          exact .of_inside at_ rfl (PipeInv.of_rest rest (kept loop at_ rfl rfl rfl))
      | stdinFailed ready next at_ rest =>
          exact .of_inside at_ rfl (PipeInv.of_rest rest (kept _ at_ rfl rfl rfl))
      | readOut errIn count bytes pipe next at_ got rest =>
          have exited := (PipeLoop.output_child call false loop.loop bytes).1
          exact .of_inside at_ rfl (PipeInv.of_rest rest (kept _ at_ rfl rfl exited))
      | readErr count bytes pipe next at_ got rest =>
          have exited := (PipeLoop.output_child call true loop.loop bytes).1
          exact .of_inside at_ rfl (PipeInv.of_rest rest (kept _ at_ rfl rfl exited))
      | notReaped at_ =>
          exact .of_inside at_ rfl ⟨.of_inside rfl (kept _ at_ rfl rfl rfl), rfl⟩
      | reaps status at_ zombie =>
          exact .of_inside at_ rfl ⟨.of_inside rfl (iff_of_true rfl rfl), rfl⟩
      | waitFailed next at_ left =>
          simp only [PipeLoop.step, PipeLoop.waitpidStep, at_] at same
          rw [← Option.some.inj same]
          have inside : pipeLeft loop = false := by rw [pipeLeft, at_]
          refine .of_leaveLoop at_ inside Pc.noConfusion ?_
          exact inv.watched inside
      | waitReaps status next at_ zombie left =>
          simp only [PipeLoop.step, PipeLoop.waitpidStep, at_, zombie] at same
          rw [← Option.some.inj same]
          have inside : pipeLeft loop = false := by rw [pipeLeft, at_]
          exact .of_leaveLoop at_ inside Pc.noConfusion (iff_of_true rfl rfl)
      | killUnreaped next at_ left => exact .of_kill at_ inv same
      | killReaps status next at_ zombie left => exact .of_kill at_ inv same
      | flushed result bytes at_ accepted =>
          have already : pipeLeft loop = true := by rw [pipeLeft, at_]
          exact ⟨.of_left rfl Pc.noConfusion, Or.inl ⟨already.symm, keeps_of_pc at_ Pc.noConfusion,
            fun _ => Iff.rfl⟩⟩
      | terminated result bytes at_ accepted =>
          have already : pipeLeft loop = true := by rw [pipeLeft, at_]
          exact ⟨.of_left rfl (fun _ => rfl),
            Or.inl ⟨already.symm, keeps_of_pc at_ Pc.noConfusion, fun _ => Iff.rfl⟩⟩

/-- The rest of an iteration opens no descriptor. -/
theorem stdinFd_of_rest {ready : PipeLoop.Ready} (rest : Rest ready after next)
    (held : next.loop.stdinFd = true) : after.loop.stdinFd = true := by
  cases rest with
  | next pc wantRead wantWrite within => exact held
  | last pc wantRead wantWrite ends =>
      unfold PipeLoop.Loop.closeStdin at held
      dsimp only at held
      split at held
      · cases held
      · exact held

/-- Leaving the loop opens no descriptor. -/
theorem stdinFd_of_left (left : PipeLoop.Left after next) (held : next.loop.stdinFd = true) :
    after.loop.stdinFd = true := by
  cases left with
  | kill | flush | terminate => exact held
  | failed => cases held

/-- Once the stdin pipe is closed, it stays closed. -/
theorem pipeStep_stdinFd (stepped : pipeStep call loop event = some next)
    (held : next.loop.stdinFd = true) : loop.loop.stdinFd = true := by
  have output : forall isErr bytes,
      (loop.loop.output call isErr bytes).stdinFd = true -> loop.loop.stdinFd = true := by
    intro isErr bytes held
    unfold PipeLoop.Loop.output at held
    split_ifs at held <;> exact held
  cases event with
  | readFails =>
      unfold pipeStep at stepped
      dsimp only at stepped
      split at stepped
      next errIn at_ =>
        rw [← Option.some.inj stepped] at held
        cases errIn with
        | true => exact output false [] held
        | false =>
            have still := stdinFd_of_rest (PipeLoop.afterReads_rest (PipeLoop.readyErr false)
              { loop with loop := loop.loop.output call false [] }) held
            exact output false [] still
      next at_ =>
        rw [← Option.some.inj stepped] at held
        have still := stdinFd_of_rest (PipeLoop.afterReads_rest (PipeLoop.readyErr false)
          { loop with loop := loop.loop.output call true [] }) held
        exact output true [] still
      · cases stepped
  | event event =>
      have same : PipeLoop.step call loop event = some next := stepped
      cases PipeLoop.transition_of_step same with
      | writeOut | writeErr | closeOut | closeErr | exit | interrupted | waits | notReaped | reaps | flushed =>
          exact held
      | polled pending sslIn sslOut stdinOut outIn errIn next top outReadable errReadable rest =>
          exact stdinFd_of_rest rest held
      | pollFailed pending next top left => exact stdinFd_of_left left held
      | ended next top ends left => exact stdinFd_of_left left held
      | idle next top nothing exited left => exact stdinFd_of_left left held
      | sslGot ready count next at_ positive asked sent rest =>
          rcases PipeLoop.accept_eq_withReader call loop.loop (loop.incoming.take count) with
            ⟨_, _, _, _, _, accepted⟩
          have still := stdinFd_of_rest rest held
          dsimp only at still
          rw [accepted] at still
          exact still
      | sslWants ready result next at_ wants rest => exact stdinFd_of_rest rest held
      | sslReadFailed ready next at_ rest =>
          have still := stdinFd_of_rest rest held
          exact still
      | sslWrote ready count next at_ positive enough rest =>
          have still := stdinFd_of_rest rest held
          exact still
      | sslWriteWants ready next at_ rest => exact stdinFd_of_rest rest held
      | sslWriteFailed ready next at_ left =>
          have still := stdinFd_of_left left held
          exact still
      | stdinWrote ready count next at_ positive enough rest =>
          have still := stdinFd_of_rest rest held
          exact still
      | stdinAgain ready next at_ rest => exact stdinFd_of_rest rest held
      | stdinFailed ready next at_ rest =>
          have still := stdinFd_of_rest rest held
          cases still
      | readOut errIn count bytes pipe next at_ got rest =>
          have still := stdinFd_of_rest rest held
          exact output false bytes still
      | readErr count bytes pipe next at_ got rest =>
          have still := stdinFd_of_rest rest held
          exact output true bytes still
      | waitFailed next at_ left => exact stdinFd_of_left left held
      | waitReaps status next at_ zombie left =>
          have still := stdinFd_of_left left held
          exact still
      | killUnreaped next at_ left =>
          have still := stdinFd_of_left left held
          exact still
      | killReaps status next at_ zombie left =>
          have still := stdinFd_of_left left held
          exact still
      | terminated result bytes at_ accepted => cases held

/-- The laws of the loop of `exec_run_pipe`. -/
def pipeLawful (call : PipeLoop.Call) (incoming : List UInt8) : (pipeBody call incoming).Lawful where
  inv := PipeInv
  left := pipeLeft
  inside := rfl
  inv_start := .of_inside rfl (iff_of_false nofun nofun)
  inv_step := fun loop event next stepped inv =>
    (show PipeStepped call incoming loop event next from pipeStepped_of_step stepped inv).1
  moves := fun _ _ _ stepped inv => (pipeStepped_of_step stepped inv).2
  left_of_returned := by
    intro loop returned
    unfold pipeLeft
    rw [of_decide_eq_true returned]
  closed := fun _ inv returned => inv.closed (of_decide_eq_true returned)
  stays_closed := fun _ _ _ stepped held => pipeStep_stdinFd stepped held

end Piped

/-! ## Calls of the three executors -/

/-- The call of an executor with the given events comes back. -/
def Returns {Loop : Type u} {Inner : Type v} (body : Body Loop Inner) (before : List Nat)
    (events : List (Event Inner)) (final : State Loop) : Prop :=
  Machine.exec (step body) (initial body before) events = some final ∧
    Exists fun child => final.stage = .returned child

/-- A call of one of the executors leaves the descriptors as they were and no child
behind if and only if no `pipe` of it fails behind one that succeeded, and the child is
not given up: by a failure of `select` in `exec_run`, by one of `poll`, `waitpid` or the
callback in `exec_run_stream`, by one of the `waitpid` behind the `kill` in `exec_run_pipe`. -/
theorem executors_leave_nothing_iff (before : List Nat) (distinct : before.Nodup) (call : PipeLoop.Call)
    (incoming : List UInt8) :
    (forall events final, Returns runBody before events final ->
        (LeavesNothing before final ↔
          Machine.AllSteps (step runBody) (Keeps runBody) (initial runBody before) events)) ∧
      (forall events final, Returns streamBody before events final ->
        (LeavesNothing before final ↔
          Machine.AllSteps (step streamBody) (Keeps streamBody) (initial streamBody before) events)) ∧
      (forall events final, Returns (pipeBody call incoming) before events final ->
        (LeavesNothing before final ↔
          Machine.AllSteps (step (pipeBody call incoming)) (Keeps (pipeBody call incoming))
            (initial (pipeBody call incoming) before) events)) := by
  refine ⟨?_, ?_, ?_⟩
  · rintro events final ⟨run, child, returned⟩
    exact leaves_nothing_iff runLawful distinct run returned
  · rintro events final ⟨run, child, returned⟩
    exact leaves_nothing_iff streamLawful distinct run returned
  · rintro events final ⟨run, child, returned⟩
    exact leaves_nothing_iff (pipeLawful call incoming) distinct run returned

/-- A call of `exec_run` whose child exits without output. -/
def quietRun : List (Event (LoopEvent Capture.Event)) :=
  [.pipe (some (3, 4)), .pipe (some (5, 6)), .fork true, .inside (.event (.childExit (.exited 0))),
    .inside (.event .selectTimeout), .inside (.event (.waitpid true))]

theorem executors_leave_nothing_iff_quiet : Exists fun final =>
    Machine.exec (step runBody) (initial runBody [0, 1, 2]) quietRun = some final ∧
      LeavesNothing [0, 1, 2] final :=
  ⟨_, rfl, ((executors_leave_nothing_iff [0, 1, 2] (by decide) ⟨0, false, false, fun _ => 0⟩ []).1
    quietRun _ ⟨rfl, _, rfl⟩).mpr (by decide)⟩

/-- The second `pipe` fails and the ends of the first one stay open; `select` fails and
the child is never waited for. -/
theorem exec_run_leaves_pipe_and_child :
    (Exists fun final => Returns runBody [0, 1, 2] [.pipe (some (3, 4)), .pipe none] final ∧
        final.ledger.present = [3, 4, 0, 1, 2] ∧ ¬ LeavesNothing [0, 1, 2] final) ∧
      (Exists fun final => Returns runBody [0, 1, 2]
          [.pipe (some (3, 4)), .pipe (some (5, 6)), .fork true, .inside (.event .selectError)] final ∧
        final.stage = .returned (some .running) ∧ ¬ LeavesNothing [0, 1, 2] final) := by
  refine ⟨⟨_, ⟨rfl, _, rfl⟩, rfl, fun nothing => ?_⟩, ⟨_, ⟨rfl, _, rfl⟩, rfl, fun nothing => ?_⟩⟩
  · exact absurd nothing.descriptors.present.length_eq (by decide)
  · rcases nothing.child with impossible | impossible <;> cases impossible

end Resources
end Executor
end AdbBridge
