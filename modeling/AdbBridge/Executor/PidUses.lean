import AdbBridge.Executor.ExitCode

namespace AdbBridge
namespace Executor

open Library

/-!
# The pid of the child

A pid names the child until `waitpid` has returned it; afterwards the kernel may give it
to another process, and the executors run with the rights to signal any.  A run of an
executor therefore emits the calls it makes on the pid, `kill` and `waitpid` with what it
returned, and the property is one of this list: a `waitpid` that returns the child is
the last use of its pid.

`exec_run` and `exec_run_stream` leave their loops with that call.  `exec_run_pipe` goes
on, and remembers in `child_exited` whether it may still use the pid.
-/

/-- A call on the child's pid; a `waitpid` that returned the pid has its status. -/
inductive PidUse where
  | kill
  | waitpid (status : Option WaitStatus)
deriving DecidableEq, Repr

/-- The status `waitpid` finds, which is that of a zombie. -/
def ChildState.status : ChildState -> Option WaitStatus
  | .zombie status => some status
  | _ => none

/-- `waitpid` returns the child at most once, and the pid is not used after that. -/
def NeverAfterReaped (uses : List PidUse) : Prop :=
  forall before status after, uses = before ++ .waitpid (some status) :: after -> after = []

/-- No call has returned the child. -/
def Unreaped (uses : List PidUse) : Prop := forall status, .waitpid (some status) ∉ uses

/-- The last call has returned the child, and no call before. -/
def ReapedLast (status : WaitStatus) (uses : List PidUse) : Prop :=
  Exists fun before => uses = before ++ [.waitpid (some status)] ∧ Unreaped before

variable {uses emitted : List PidUse} {status : WaitStatus}

theorem unreaped_nil : Unreaped [] := fun _ => List.not_mem_nil

theorem Unreaped.append (unreaped : Unreaped uses) (also : Unreaped emitted) :
    Unreaped (uses ++ emitted) := by
  intro status member
  rcases List.mem_append.mp member with before | after
  · exact unreaped status before
  · exact also status after

theorem unreaped_kill : Unreaped [.kill] := by
  intro status member
  exact PidUse.noConfusion (List.mem_singleton.mp member)

theorem unreaped_waitpid_none : Unreaped [.waitpid none] := by
  intro status member
  exact Option.some_ne_none status (PidUse.waitpid.inj (List.mem_singleton.mp member))

theorem Unreaped.reaps (unreaped : Unreaped uses) (status : WaitStatus) :
    ReapedLast status (uses ++ [.waitpid (some status)]) := ⟨uses, rfl, unreaped⟩

theorem Unreaped.neverAfterReaped (unreaped : Unreaped uses) : NeverAfterReaped uses := by
  intro before status after split
  have member : .waitpid (some status) ∈ uses := by
    rw [split]
    exact List.mem_append_right before List.mem_cons_self
  exact absurd member (unreaped status)

theorem ReapedLast.neverAfterReaped (last : ReapedLast status uses) : NeverAfterReaped uses := by
  rcases last with ⟨earlier, isLast, unreaped⟩
  intro before other after split
  rcases List.eq_nil_or_concat after with none | ⟨middle, final, isConcat⟩
  · exact none
  · rw [isLast, isConcat, List.concat_eq_append, ← List.cons_append, ← List.append_assoc] at split
    have same := (List.append_inj' split rfl).1
    have member : .waitpid (some other) ∈ earlier := by
      rw [same]
      exact List.mem_append_right before List.mem_cons_self
    exact absurd member (unreaped other)

/-! ## The executors that leave their loop with `waitpid` -/

section Leaving

variable {State : Type} {state next : State}

/-- The child was not returned yet, or the call was the last and the loop was left. -/
def Settled (left : State -> Prop) (uses : List PidUse) (state : State) : Prop :=
  Unreaped uses ∨ ((Exists fun status => ReapedLast status uses) ∧ left state)

/-- A step behind the loop uses the pid no more, and one that reaps leaves the loop. -/
theorem Settled.step {left : State -> Prop} (settled : Settled left uses state)
    (behind : left state -> emitted = [] ∧ left next)
    (here : Unreaped emitted ∨ Exists fun status => emitted = [.waitpid (some status)] ∧ left next) :
    Settled left (uses ++ emitted) next := by
  rcases settled with unreaped | ⟨last, hasLeft⟩
  · rcases here with also | ⟨status, reaps, hasLeft⟩
    · exact Or.inl (unreaped.append also)
    · rw [reaps]
      exact Or.inr ⟨⟨status, unreaped.reaps status⟩, hasLeft⟩
  · rcases behind hasLeft with ⟨none, stays⟩
    rw [none, List.append_nil]
    exact Or.inr ⟨last, stays⟩

theorem Settled.neverAfterReaped {left : State -> Prop} (settled : Settled left uses state) :
    NeverAfterReaped uses := by
  rcases settled with unreaped | ⟨⟨status, last⟩, _⟩
  · exact unreaped.neverAfterReaped
  · exact last.neverAfterReaped

end Leaving

namespace Capture

/-- The calls a step of `exec_run` makes on the pid. -/
def pidUses (state : State) : Event -> List PidUse
  | .waitpid true => [.waitpid state.child.status]
  | .waitpid false => [.waitpid none]
  | _ => []

/-- `exec_run` has left its loop. -/
def LoopLeft (state : State) : Prop := state.pc = .done

variable {state next : State} {event : Event} {events : List Event}

theorem settled_step (uses : List PidUse) (taken : step state event = some next)
    (settled : Settled LoopLeft uses state) : Settled LoopLeft (uses ++ pidUses state event) next := by
  have behind : forall pc, state.pc = pc -> pc ≠ .done -> forall emitted : List PidUse,
      LoopLeft state -> emitted = [] ∧ LoopLeft next :=
    fun pc at_ running _ left => absurd (at_.symm.trans left) running
  cases transition_of_step taken with
  | writeOut | writeErr | exit => exact settled.step (fun left => ⟨rfl, left⟩) (Or.inl unreaped_nil)
  | selected outReady errReady pc selecting goesOn =>
      exact settled.step (behind _ selecting Pc.noConfusion _) (Or.inl unreaped_nil)
  | timedOut selecting => exact settled.step (behind _ selecting Pc.noConfusion _) (Or.inl unreaped_nil)
  | selectFailed selecting => exact settled.step (fun _ => ⟨rfl, rfl⟩) (Or.inl unreaped_nil)
  | readOut errReady count bytes pipe pc reading got goesOn =>
      exact settled.step (behind _ reading Pc.noConfusion _) (Or.inl unreaped_nil)
  | readErr count bytes pipe reading got =>
      exact settled.step (behind _ reading Pc.noConfusion _) (Or.inl unreaped_nil)
  | reaps status waiting zombie =>
      have emits : pidUses state (.waitpid true) = [.waitpid (some status)] := by
        rw [pidUses, zombie]
        rfl
      exact settled.step (behind _ waiting Pc.noConfusion _) (Or.inr ⟨status, emits, rfl⟩)
  | notReaped waiting =>
      exact settled.step (behind _ waiting Pc.noConfusion _) (Or.inl unreaped_waitpid_none)

theorem settled_of_exec (run : Machine.exec step start events = some state) :
    Settled LoopLeft (Machine.trace step pidUses start events) state := by
  have preserved : forall uses state event next, True -> step state event = some next ->
      Settled LoopLeft uses state -> Settled LoopLeft (uses ++ pidUses state event) next :=
    fun uses _ _ _ _ taken => settled_step uses taken
  have begins : Settled LoopLeft [] start := Or.inl unreaped_nil
  exact Machine.trace_exec preserved run (Machine.allSteps_of_forall _ (fun _ _ => trivial)) begins

end Capture

namespace Streaming

/-- The calls a step of `exec_run_stream` makes on the pid. -/
def pidUses (state : State) : Event -> List PidUse
  | .waitpid .reaped => [.waitpid state.child.status]
  | .waitpid _ => [.waitpid none]
  | .kill => [.kill]
  | _ => []

/-- `exec_run_stream` has left its loop. -/
def LoopLeft (state : State) : Prop := state.pc = .done

variable {state next : State} {event : Event} {events : List Event}

theorem settled_step (uses : List PidUse) (taken : step state event = some next)
    (settled : Settled LoopLeft uses state) : Settled LoopLeft (uses ++ pidUses state event) next := by
  have behind : forall pc, state.pc = pc -> pc ≠ .done -> forall emitted : List PidUse,
      LoopLeft state -> emitted = [] ∧ LoopLeft next :=
    fun pc at_ running _ left => absurd (at_.symm.trans left) running
  cases transition_of_step taken with
  | writeOut | writeErr | closeOut | closeErr | exit =>
      exact settled.step (fun left => ⟨rfl, left⟩) (Or.inl unreaped_nil)
  | pollFailed polling => exact settled.step (fun _ => ⟨rfl, rfl⟩) (Or.inl unreaped_nil)
  | polled outIn errIn pc polling goesOn =>
      exact settled.step (behind _ polling Pc.noConfusion _) (Or.inl unreaped_nil)
  | readOut errReady count bytes pipe reading got some =>
      exact settled.step (behind _ reading Pc.noConfusion _) (Or.inl unreaped_nil)
  | readErr count bytes pipe reading got some =>
      exact settled.step (behind _ reading Pc.noConfusion _) (Or.inl unreaped_nil)
  | readNothing count pc reading goesOn =>
      refine settled.step (behind _ rfl (fun left => ?_) _) (Or.inl unreaped_nil)
      rw [left] at reading
      exact Bool.false_ne_true reading
  | accepted pc calling goesOn =>
      refine settled.step (behind _ rfl (fun left => ?_) _) (Or.inl unreaped_nil)
      rw [left] at calling
      exact Bool.false_ne_true calling
  | refused calling =>
      refine settled.step (behind _ rfl (fun left => ?_) _) (Or.inl unreaped_nil)
      rw [left] at calling
      exact Bool.false_ne_true calling
  | reaps status waiting zombie =>
      have emits : pidUses state (.waitpid .reaped) = [.waitpid (some status)] := by
        rw [pidUses, zombie]
        rfl
      exact settled.step (behind _ waiting Pc.noConfusion _) (Or.inr ⟨status, emits, rfl⟩)
  | notReaped waiting running =>
      exact settled.step (behind _ waiting Pc.noConfusion _) (Or.inl unreaped_waitpid_none)
  | waitFailed waiting =>
      exact settled.step (behind _ waiting Pc.noConfusion _) (Or.inl unreaped_waitpid_none)
  | killed killing => exact settled.step (behind _ killing Pc.noConfusion _) (Or.inl unreaped_kill)

theorem settled_of_exec (run : Machine.exec step start events = some state) :
    Settled LoopLeft (Machine.trace step pidUses start events) state := by
  have preserved : forall uses state event next, True -> step state event = some next ->
      Settled LoopLeft uses state -> Settled LoopLeft (uses ++ pidUses state event) next :=
    fun uses _ _ _ _ taken => settled_step uses taken
  have begins : Settled LoopLeft [] start := Or.inl unreaped_nil
  exact Machine.trace_exec preserved run (Machine.allSteps_of_forall _ (fun _ _ => trivial)) begins

end Streaming

/-! ## `exec_run_pipe` -/

namespace PipeLoop

/-- The calls a step of `exec_run_pipe` makes on the pid: the last `waitpid` comes with
the `kill` in front of it. -/
def pidUses (state : State) : Event -> List PidUse
  | .waitpid reaps =>
      (if state.pc = .kill then [.kill] else []) ++
        [.waitpid (if reaps then state.child.status else none)]
  | _ => []

/-- The next call uses the pid. -/
def Pc.usesPid : Pc -> Bool
  | .reap | .waitBlocking | .kill => true
  | _ => false

/-- The child was taken care of. -/
def Pc.ending : Pc -> Bool
  | .flush | .terminate | .returned => true
  | _ => false

variable {call : Call} {incoming : List UInt8} {state middle next : State} {event : Event}
  {events : List Event}

/-- How the loop goes on without `waitpid`: it uses the pid next only if the child was not
returned, and it is through with it only if the child was. -/
structure GoesOn (state next : State) : Prop where
  exited : next.loop.childExited = state.loop.childExited
  exitCode : next.loop.exitCode = state.loop.exitCode
  usesPid : next.pc.usesPid = true -> next.loop.childExited = false
  ending : next.pc.ending = true -> next.loop.childExited = true

/-- The fields of the loop that the property reads are the same. -/
theorem GoesOn.of_same (goesOn : GoesOn middle next)
    (same : middle.loop.childExited = state.loop.childExited ∧ middle.loop.exitCode = state.loop.exitCode) :
    GoesOn state next :=
  ⟨goesOn.exited.trans same.1, goesOn.exitCode.trans same.2, goesOn.usesPid, goesOn.ending⟩

/-- A position inside the loop that does not use the pid. -/
theorem goesOn_of_neither (usesPid : next.pc.usesPid = false) (ending : next.pc.ending = false)
    (same : next.loop.childExited = state.loop.childExited ∧ next.loop.exitCode = state.loop.exitCode) :
    GoesOn state next :=
  ⟨same.1, same.2, fun uses => Bool.noConfusion (usesPid.symm.trans uses),
    fun ends => Bool.noConfusion (ending.symm.trans ends)⟩

theorem afterReads_goesOn (state : State) : GoesOn state state.afterReads := by
  have same := closeStdin_child state.loop
  by_cases exited : state.loop.childExited = true
  · have top : state.afterReads.pc = .top := if_pos exited
    exact goesOn_of_neither (by rw [top]; rfl) (by rw [top]; rfl) same
  · have reap : state.afterReads.pc = .reap := if_neg exited
    refine ⟨same.1, same.2, fun _ => same.1.trans (Bool.eq_false_iff.mpr exited), fun ends => ?_⟩
    rw [reap] at ends
    exact Bool.noConfusion ends

theorem afterStdinWrite_goesOn (ready : Ready) (state : State) :
    GoesOn state (state.afterStdinWrite ready) := by
  unfold State.afterStdinWrite
  split
  · exact goesOn_of_neither rfl rfl ⟨rfl, rfl⟩
  · split
    · exact goesOn_of_neither rfl rfl ⟨rfl, rfl⟩
    · exact afterReads_goesOn state

theorem afterSslWrite_goesOn (ready : Ready) (state : State) :
    GoesOn state (state.afterSslWrite ready) := by
  unfold State.afterSslWrite
  split
  · exact goesOn_of_neither rfl rfl ⟨rfl, rfl⟩
  · exact afterStdinWrite_goesOn ready state

theorem afterSslRead_goesOn (ready : Ready) (state : State) :
    GoesOn state (state.afterSslRead ready) := by
  unfold State.afterSslRead
  split
  · exact goesOn_of_neither rfl rfl ⟨rfl, rfl⟩
  · exact afterSslWrite_goesOn ready state

theorem afterPoll_goesOn (pending : Bool) (ready : Ready) (state : State) :
    GoesOn state (state.afterPoll pending ready) := by
  unfold State.afterPoll
  split
  · dsimp only
    split
    · exact goesOn_of_neither rfl rfl ⟨rfl, rfl⟩
    · exact (afterSslRead_goesOn ready _).of_same ⟨rfl, rfl⟩
  · exact afterSslRead_goesOn ready state

/-- Behind the `kill` the child is not used any more. -/
theorem afterKill_ending (state : State) :
    state.afterKill.pc.ending = true ∧ state.afterKill.loop.childExited = state.loop.childExited ∧
      state.afterKill.loop.exitCode = state.loop.exitCode := by
  unfold State.afterKill
  split_ifs <;> exact ⟨rfl, rfl, rfl⟩

theorem leaveLoop_goesOn (state : State) : GoesOn state state.leaveLoop := by
  unfold State.leaveLoop
  by_cases exited : state.loop.childExited = true
  · rcases afterKill_ending state with ⟨ending, sameExited, sameCode⟩
    rw [if_pos exited]
    refine ⟨sameExited, sameCode, fun uses => ?_, fun _ => sameExited.trans exited⟩
    cases pc : state.afterKill.pc <;> rw [pc] at ending uses <;> first
      | exact Bool.noConfusion ending
      | exact Bool.noConfusion uses
  · rw [if_neg exited]
    exact ⟨rfl, rfl, fun _ => Bool.eq_false_iff.mpr exited, Bool.noConfusion⟩

/-! The steps of the loop, one call after the other. -/

theorem poll_goesOn {pending : Bool} {result : PollResult}
    (taken : step call state (.poll pending result) = some next) :
    state.pc.ending = false ∧ GoesOn state next := by
  simp only [step, Option.ite_none_right_eq_some, topStep] at taken
  rcases taken with ⟨top, _, taken⟩
  refine ⟨top ▸ rfl, ?_⟩
  cases result with
  | interrupted =>
      have same := Option.some.inj taken
      exact goesOn_of_neither (by rw [← same, top]; rfl) (by rw [← same, top]; rfl)
        ⟨by rw [same], by rw [same]⟩
  | failed => exact Option.some.inj taken ▸ leaveLoop_goesOn state
  | ready sslIn sslOut stdinOut outIn errIn =>
      simp only [Option.ite_none_right_eq_some] at taken
      exact Option.some.inj taken.2 ▸ afterPoll_goesOn pending _ state

/-- The loop is left for a blocking `waitpid` only while the child has not been returned. -/
theorem leave_goesOn (taken : step call state .leave = some next) :
    state.pc.ending = false ∧ GoesOn state next := by
  simp only [step, Option.ite_none_right_eq_some, topStep] at taken
  rcases taken with ⟨top, taken⟩
  refine ⟨top ▸ rfl, ?_⟩
  by_cases continues : state.loop.continues = true
  · simp only [if_pos continues, Option.ite_none_right_eq_some] at taken
    have same := Option.some.inj taken.2
    by_cases exited : state.loop.childExited = true
    · rw [if_pos exited] at same
      exact same ▸ leaveLoop_goesOn state
    · rw [if_neg exited] at same
      exact same ▸ ⟨rfl, rfl, fun _ => Bool.eq_false_iff.mpr exited, Bool.noConfusion⟩
  · simp only [if_neg continues] at taken
    exact Option.some.inj taken ▸ leaveLoop_goesOn state

theorem sslRead_goesOn {result : SslReadResult} (taken : step call state (.sslRead result) = some next) :
    state.pc.ending = false ∧ GoesOn state next := by
  cases pc : state.pc with
  | sslRead ready =>
      simp only [step, pc] at taken
      refine ⟨rfl, ?_⟩
      cases result with
      | got count =>
          simp only [sslReadStep, Option.ite_none_right_eq_some] at taken
          have kept := accept_child call state.loop (state.incoming.take count)
          exact Option.some.inj taken.2 ▸ (afterSslRead_goesOn ready _).of_same kept
      | wantRead | wantWrite | failed =>
          exact Option.some.inj taken ▸ (afterSslRead_goesOn ready _).of_same ⟨rfl, rfl⟩
  | _ => simp [step, pc] at taken

theorem sslWrite_goesOn {result : SslWriteResult} (taken : step call state (.sslWrite result) = some next) :
    state.pc.ending = false ∧ GoesOn state next := by
  cases pc : state.pc with
  | sslWrite ready =>
      simp only [step, pc] at taken
      refine ⟨rfl, ?_⟩
      cases result with
      | wrote count =>
          simp only [sslWriteStep, Option.ite_none_right_eq_some] at taken
          exact Option.some.inj taken.2 ▸ (afterSslWrite_goesOn ready _).of_same ⟨rfl, rfl⟩
      | wantWrite => exact Option.some.inj taken ▸ (afterSslWrite_goesOn ready _).of_same ⟨rfl, rfl⟩
      | failed => exact Option.some.inj taken ▸ (leaveLoop_goesOn _).of_same ⟨rfl, rfl⟩
  | _ => simp [step, pc] at taken

theorem stdinWrite_goesOn {result : WriteResult} (taken : step call state (.stdinWrite result) = some next) :
    state.pc.ending = false ∧ GoesOn state next := by
  cases pc : state.pc with
  | stdinWrite ready =>
      simp only [step, pc] at taken
      refine ⟨rfl, ?_⟩
      cases result with
      | wrote count =>
          simp only [stdinWriteStep, Option.ite_none_right_eq_some] at taken
          exact Option.some.inj taken.2 ▸ (afterStdinWrite_goesOn ready _).of_same ⟨rfl, rfl⟩
      | again | failed =>
          exact Option.some.inj taken ▸ (afterStdinWrite_goesOn ready _).of_same ⟨rfl, rfl⟩
  | _ => simp [step, pc] at taken

theorem read_goesOn {count : Nat} (taken : step call state (.read count) = some next) :
    state.pc.ending = false ∧ GoesOn state next := by
  cases pc : state.pc with
  | readOut errIn =>
      simp only [step, pc, Option.map_eq_some_iff] at taken
      rcases taken with ⟨⟨bytes, pipe⟩, got, same⟩
      have kept := output_child call false state.loop bytes
      refine ⟨rfl, ?_⟩
      cases errIn with
      | true => exact same ▸ goesOn_of_neither rfl rfl kept
      | false => exact same ▸ (afterReads_goesOn _).of_same kept
  | readErr =>
      simp only [step, pc, Option.map_eq_some_iff] at taken
      rcases taken with ⟨⟨bytes, pipe⟩, got, same⟩
      have kept := output_child call true state.loop bytes
      exact ⟨rfl, same ▸ (afterReads_goesOn _).of_same kept⟩
  | _ => simp [step, pc] at taken

/-- The steps that do not wait for the child: those of the child, those of the loop, and those
behind it. -/
theorem step_goesOn (taken : step call state event = some next)
    (noWait : forall reaps, event ≠ .waitpid reaps) :
    (next.pc = state.pc ∧ next.loop = state.loop) ∨ (state.pc.ending = false ∧ GoesOn state next) ∨
      (state.pc.ending = true ∧ next.pc.ending = true ∧ next.loop.childExited = state.loop.childExited ∧
        next.loop.exitCode = state.loop.exitCode) := by
  cases event with
  | childWrite | childClose | childExit =>
      cases transition_of_step taken <;> exact Or.inl ⟨rfl, rfl⟩
  | waitpid reaps => exact absurd rfl (noWait reaps)
  | poll pending result => exact Or.inr (Or.inl (poll_goesOn taken))
  | leave => exact Or.inr (Or.inl (leave_goesOn taken))
  | sslRead result => exact Or.inr (Or.inl (sslRead_goesOn taken))
  | sslWrite result => exact Or.inr (Or.inl (sslWrite_goesOn taken))
  | stdinWrite result => exact Or.inr (Or.inl (stdinWrite_goesOn taken))
  | read count => exact Or.inr (Or.inl (read_goesOn taken))
  | finalWrite result =>
      cases transition_of_step taken with
      | flushed result bytes at_ accepted => exact Or.inr (Or.inr ⟨at_ ▸ rfl, rfl, rfl, rfl⟩)
      | terminated result bytes at_ accepted => exact Or.inr (Or.inr ⟨at_ ▸ rfl, rfl, rfl, rfl⟩)

/-- What `exec_run_pipe` has done to its child so far. -/
inductive Phase (uses : List PidUse) (state : State) : Prop where
  | running (unreaped : Unreaped uses) (spared : .kill ∉ uses) (alive : state.loop.childExited = false)
      (inLoop : state.pc.ending = false)
  | reaped (status : WaitStatus) (last : ReapedLast status uses) (spared : .kill ∉ uses)
      (exited : state.loop.childExited = true) (decoded : state.loop.exitCode = exitCodeOf status)
      (quiet : state.pc.usesPid = false)
  | killed (once : NeverAfterReaped uses) (killed : .kill ∈ uses) (replaced : state.loop.exitCode = -1)
      (behind : state.pc.ending = true)

theorem Phase.goesOn (phase : Phase uses state) (inLoop : state.pc.ending = false)
    (goesOn : GoesOn state next) : Phase uses next := by
  cases phase with
  | running unreaped spared alive _ =>
      refine .running unreaped spared (goesOn.exited.trans alive) (Bool.eq_false_iff.mpr (fun ends => ?_))
      exact Bool.noConfusion ((goesOn.exited.trans alive).symm.trans (goesOn.ending ends))
  | reaped status last spared exited decoded quiet =>
      refine .reaped status last spared (goesOn.exited.trans exited) (goesOn.exitCode.trans decoded)
        (Bool.eq_false_iff.mpr (fun uses => ?_))
      exact Bool.noConfusion ((goesOn.usesPid uses).symm.trans (goesOn.exited.trans exited))
  | killed once killed replaced behind => exact Bool.noConfusion (inLoop.symm.trans behind)

theorem Phase.ends (phase : Phase uses state) (behind : state.pc.ending = true)
    (stays : next.pc.ending = true) (exited : next.loop.childExited = state.loop.childExited)
    (exitCode : next.loop.exitCode = state.loop.exitCode) : Phase uses next := by
  cases phase with
  | running unreaped spared alive inLoop => exact Bool.noConfusion (inLoop.symm.trans behind)
  | reaped status last spared hasExited decoded quiet =>
      refine .reaped status last spared (exited.trans hasExited) (exitCode.trans decoded) ?_
      cases pc : next.pc <;> rw [pc] at stays <;> first
        | rfl
        | exact Bool.noConfusion stays
  | killed once killed replaced _ => exact .killed once killed (exitCode.trans replaced) stays

/-- Without a call on the pid the phase is the same. -/
theorem phase_goesOn (phase : Phase uses state) (taken : step call state event = some next)
    (noWait : forall reaps, event ≠ .waitpid reaps) : Phase uses next := by
  rcases step_goesOn taken noWait with ⟨samePc, sameLoop⟩ | ⟨inLoop, goesOn⟩ |
    ⟨behind, stays, exited, exitCode⟩
  · cases phase with
    | running unreaped spared alive inLoop =>
        exact .running unreaped spared (sameLoop ▸ alive) (samePc ▸ inLoop)
    | reaped status last spared exited decoded quiet =>
        exact .reaped status last spared (sameLoop ▸ exited) (sameLoop ▸ decoded) (samePc ▸ quiet)
    | killed once killed replaced behind =>
        exact .killed once killed (sameLoop ▸ replaced) (samePc ▸ behind)
  · exact phase.goesOn inLoop goesOn
  · exact phase.ends behind stays exited exitCode

/-- Where the pid is used next, the child was not returned and not killed. -/
theorem Phase.running_of_usesPid (phase : Phase uses state) (pc : Pc) (at_ : state.pc = pc)
    (usesPid : pc.usesPid = true) :
    Unreaped uses ∧ .kill ∉ uses ∧ state.loop.childExited = false := by
  cases phase with
  | running unreaped spared alive inLoop => exact ⟨unreaped, spared, alive⟩
  | reaped status last spared exited decoded quiet =>
      rw [at_] at quiet
      exact Bool.noConfusion (quiet.symm.trans usesPid)
  | killed once killed replaced behind =>
      rw [at_] at behind
      cases pc <;> first
        | exact Bool.noConfusion behind
        | exact Bool.noConfusion usesPid

/-- A wait in the loop that did not return the child. -/
theorem Phase.waitsInVain (phase : Phase uses state) (at_ : state.pc = .reap ∨ state.pc = .waitBlocking)
    (goesOn : GoesOn state next) : Phase (uses ++ pidUses state (.waitpid false)) next := by
  have usesPid : state.pc.usesPid = true := by
    rcases at_ with at_ | at_ <;> rw [at_] <;> rfl
  have inLoop : state.pc.ending = false := by
    rcases at_ with at_ | at_ <;> rw [at_] <;> rfl
  have emits : pidUses state (.waitpid false) = [.waitpid none] := by
    rcases at_ with at_ | at_ <;> rw [pidUses, at_] <;> rfl
  rcases phase.running_of_usesPid _ rfl usesPid with ⟨unreaped, spared, alive⟩
  rw [emits]
  refine Phase.goesOn (.running (unreaped.append unreaped_waitpid_none) ?_ alive inLoop) inLoop goesOn
  intro killed
  rcases List.mem_append.mp killed with before | here
  · exact spared before
  · exact PidUse.noConfusion (List.mem_singleton.mp here)

/-- A wait in the loop that returned the child. -/
theorem Phase.reaps (phase : Phase uses state) (at_ : state.pc = .reap ∨ state.pc = .waitBlocking)
    (zombie : state.child = .zombie status) (goesOn : GoesOn (state.reaped status) next) :
    Phase (uses ++ pidUses state (.waitpid true)) next := by
  have usesPid : state.pc.usesPid = true := by
    rcases at_ with at_ | at_ <;> rw [at_] <;> rfl
  have emits : pidUses state (.waitpid true) = [.waitpid (some status)] := by
    rcases at_ with at_ | at_ <;> rw [pidUses, at_, zombie] <;> rfl
  rcases phase.running_of_usesPid _ rfl usesPid with ⟨unreaped, spared, alive⟩
  rw [emits]
  refine .reaped status (unreaped.reaps status) ?_ goesOn.exited goesOn.exitCode
    (Bool.eq_false_iff.mpr (fun uses => Bool.noConfusion ((goesOn.usesPid uses).symm.trans goesOn.exited)))
  intro killed
  rcases List.mem_append.mp killed with before | here
  · exact spared before
  · exact PidUse.noConfusion (List.mem_singleton.mp here)

/-- The child is killed and waited for. -/
theorem Phase.kills (phase : Phase uses state) (at_ : state.pc = .kill) (reaps : Bool)
    (after : middle.afterKill = next) (replaced : middle.loop.exitCode = -1) :
    Phase (uses ++ pidUses state (.waitpid reaps)) next := by
  rcases phase.running_of_usesPid _ at_ rfl with ⟨unreaped, _, _⟩
  rcases afterKill_ending middle with ⟨behind, _, sameCode⟩
  rw [after] at behind sameCode
  have emits : pidUses state (.waitpid reaps) =
      [.kill] ++ [.waitpid (if reaps then state.child.status else none)] := by
    rw [pidUses, if_pos at_]
  have member : .kill ∈ uses ++ pidUses state (.waitpid reaps) := by
    rw [emits]
    exact List.mem_append_right uses List.mem_cons_self
  refine .killed ?_ member (sameCode.trans replaced) behind
  rw [emits, ← List.append_assoc]
  have before := unreaped.append unreaped_kill
  cases result : (if reaps then state.child.status else none) with
  | none => exact (before.append unreaped_waitpid_none).neverAfterReaped
  | some status => exact (before.reaps status).neverAfterReaped

/-- A wait keeps the books. -/
theorem phase_waitpid {reaps : Bool} (phase : Phase uses state)
    (taken : step call state (.waitpid reaps) = some next) :
    Phase (uses ++ pidUses state (.waitpid reaps)) next := by
  simp only [step, waitpidStep] at taken
  cases reaps with
  | false =>
      cases pc : state.pc with
      | reap =>
          simp only [pc] at taken
          exact phase.waitsInVain (Or.inl pc)
            (Option.some.inj taken ▸ goesOn_of_neither rfl rfl ⟨rfl, rfl⟩)
      | waitBlocking =>
          simp only [pc] at taken
          exact phase.waitsInVain (Or.inr pc) (Option.some.inj taken ▸ leaveLoop_goesOn state)
      | kill =>
          simp only [pc] at taken
          exact phase.kills pc false (Option.some.inj taken) rfl
      | _ => simp [pc] at taken
  | true =>
      cases child : state.child with
      | zombie status =>
          cases pc : state.pc with
          | reap =>
              simp only [pc, child] at taken
              exact phase.reaps (Or.inl pc) child
                (Option.some.inj taken ▸ goesOn_of_neither rfl rfl ⟨rfl, rfl⟩)
          | waitBlocking =>
              simp only [pc, child] at taken
              exact phase.reaps (Or.inr pc) child (Option.some.inj taken ▸ leaveLoop_goesOn _)
          | kill =>
              simp only [pc, child] at taken
              exact phase.kills pc true (Option.some.inj taken) rfl
          | _ => simp [pc, child] at taken
      | running => simp [child] at taken
      | reaped => simp [child] at taken

theorem phase_step (uses : List PidUse) (taken : step call state event = some next)
    (phase : Phase uses state) : Phase (uses ++ pidUses state event) next := by
  cases event with
  | waitpid reaps => exact phase_waitpid phase taken
  | _ =>
      rw [pidUses, List.append_nil]
      · exact phase_goesOn phase taken (fun _ => Event.noConfusion)
      · exact fun _ => Event.noConfusion

theorem phase_start (call : Call) (incoming : List UInt8) : Phase [] (call.start incoming) :=
  .running unreaped_nil List.not_mem_nil rfl rfl

theorem phase_of_exec (run : Machine.exec (step call) (call.start incoming) events = some state) :
    Phase (Machine.trace (step call) pidUses (call.start incoming) events) state := by
  have preserved : forall uses state event next, True -> step call state event = some next ->
      Phase uses state -> Phase (uses ++ pidUses state event) next :=
    fun uses _ _ _ _ taken => phase_step uses taken
  exact Machine.trace_exec preserved run (Machine.allSteps_of_forall _ (fun _ _ => trivial))
    (phase_start call incoming)

theorem Phase.neverAfterReaped (phase : Phase uses state) : NeverAfterReaped uses := by
  cases phase with
  | running unreaped spared alive inLoop => exact unreaped.neverAfterReaped
  | reaped status last spared exited decoded quiet => exact last.neverAfterReaped
  | killed once killed replaced behind => exact once

end PipeLoop

/-! ## The three executors -/

/-- A run of one of the three executors. -/
inductive Execution where
  | execRun (events : List Capture.Event)
  | execRunStream (events : List Streaming.Event)
  | execRunPipe (call : PipeLoop.Call) (incoming : List UInt8) (events : List PipeLoop.Event)

/-- The events can happen in this order. -/
def Execution.Occurs : Execution -> Prop
  | .execRun events => (Machine.exec Capture.step Capture.start events).isSome = true
  | .execRunStream events => (Machine.exec Streaming.step Streaming.start events).isSome = true
  | .execRunPipe call incoming events =>
      (Machine.exec (PipeLoop.step call) (call.start incoming) events).isSome = true

/-- The calls on the pid of the child, in their order. -/
def Execution.pidUses : Execution -> List PidUse
  | .execRun events => Machine.trace Capture.step Capture.pidUses Capture.start events
  | .execRunStream events => Machine.trace Streaming.step Streaming.pidUses Streaming.start events
  | .execRunPipe call incoming events =>
      Machine.trace (PipeLoop.step call) PipeLoop.pidUses (call.start incoming) events

/-- The run has come to the exit event of `exec_run_pipe`, which carries the code. -/
def Execution.Announces : Execution -> Int -> Prop
  | .execRunPipe call incoming events, code =>
      Exists fun before => PipeLoop.Reports call incoming events before code
  | _, _ => False

/-- The code is that of the status with which `waitpid` returned the child, or -1 if the
child was killed. -/
def Decodes (uses : List PidUse) (code : Int) : Prop :=
  (Exists fun status => ReapedLast status uses ∧ .kill ∉ uses ∧ code = PipeLoop.exitCodeOf status) ∨
    (.kill ∈ uses ∧ code = -1)

/-- In every run of the three executors, `waitpid` returns the child at most once and its pid
is not used after that, and the exit event carries the code of that wait or, if the child
was killed, -1. -/
theorem pid_unused_after_reaped (execution : Execution) (occurs : execution.Occurs) :
    NeverAfterReaped execution.pidUses ∧
      forall code, execution.Announces code -> Decodes execution.pidUses code := by
  cases execution with
  | execRun events =>
      rcases Option.isSome_iff_exists.mp occurs with ⟨final, run⟩
      exact ⟨(Capture.settled_of_exec run).neverAfterReaped, fun _ announces => announces.elim⟩
  | execRunStream events =>
      rcases Option.isSome_iff_exists.mp occurs with ⟨final, run⟩
      exact ⟨(Streaming.settled_of_exec run).neverAfterReaped, fun _ announces => announces.elim⟩
  | execRunPipe call incoming events =>
      rcases Option.isSome_iff_exists.mp occurs with ⟨final, run⟩
      have phase := PipeLoop.phase_of_exec run
      refine ⟨phase.neverAfterReaped, ?_⟩
      rintro code ⟨before, _, reaches, terminating, isCode, _⟩
      have same := Option.some.inj (run.symm.trans reaches)
      rw [same] at phase
      cases phase with
      | running unreaped spared alive inLoop =>
          rw [terminating] at inLoop
          exact Bool.noConfusion inLoop
      | reaped status last spared exited decoded quiet =>
          exact Or.inl ⟨status, last, spared, isCode.symm.trans decoded⟩
      | killed once killed replaced behind => exact Or.inr ⟨killed, isCode.symm.trans replaced⟩

/-- The client goes away, and the child is killed and reaped; another child exits with 3. -/
theorem pid_unused_after_reaped_gone :
    NeverAfterReaped [.waitpid none, .kill, .waitpid (some (.signaled 15))] ∧
      NeverAfterReaped [.waitpid (some (.exited 3))] ∧ Decodes [.waitpid (some (.exited 3))] 3 := by
  refine ⟨?_, ?_⟩
  · exact (pid_unused_after_reaped
      (.execRunPipe bareCall [] [.poll false (.ready false false false false false), .waitpid false,
        .poll false .failed, .childExit (.signaled 15), .waitpid true]) rfl).1
  · have bare := pid_unused_after_reaped (.execRunPipe bareCall [] pipeEvents) rfl
    refine ⟨bare.1, bare.2 3 ⟨(Machine.exec (PipeLoop.step bareCall) (bareCall.start []) pipeEvents).get
      (by decide), rfl, (Option.some_get _).symm, by decide, by decide, ?_⟩⟩
    exact ⟨_, rfl, rfl⟩

end Executor
end AdbBridge
