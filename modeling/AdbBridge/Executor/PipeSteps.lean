import AdbBridge.Executor.PipeLoop

namespace AdbBridge
namespace Executor
namespace PipeLoop

open Library

/-!
# The transitions of the pipe loop

The step function of the loop is inverted once.  `Transition` lists what each
event does, with the conditions under which it can happen; the positions the
parent takes between two system calls are summarised by `Rest` (inside an
iteration) and `Left` (after the loop).  Every invariant of the loop is derived
from this list and does not unfold the step function again.
-/

/-! ## What the rest of an iteration does -/

/-- The next system call of an iteration whose `poll` reported `ready`. -/
def Pc.InIteration (ready : Ready) : Pc -> Prop
  | .sslRead given | .sslWrite given | .stdinWrite given => given = ready
  | .readOut errIn => ready.outIn = true ∧ errIn = ready.errIn
  | .readErr => ready.errIn = true
  | _ => False

/-- Between two system calls of an iteration the parent changes its position
and the two want flags only; at the end of the iteration it may also close the
stdin pipe. -/
inductive Rest (ready : Ready) (state : State) : State -> Prop where
  | next (pc : Pc) (wantRead wantWrite : Bool) (within : pc.InIteration ready) :
      Rest ready state
        { state with
          pc := pc
          loop := { state.loop with sslWantRead := wantRead, sslWantWrite := wantWrite } }
  | last (pc : Pc) (wantRead wantWrite : Bool) (ends : pc = .top ∨ pc = .reap) :
      Rest ready state
        { state with
          pc := pc
          loop := { state.loop.closeStdin with sslWantRead := wantRead, sslWantWrite := wantWrite } }

theorem afterReads_rest (ready : Ready) (state : State) : Rest ready state state.afterReads := by
  apply Rest.last
  by_cases exited : state.loop.childExited = true
  · exact Or.inl (if_pos exited)
  · exact Or.inr (if_neg exited)

theorem afterStdinWrite_rest (ready : Ready) (state : State) :
    Rest ready state (state.afterStdinWrite ready) := by
  unfold State.afterStdinWrite
  by_cases out : ready.outIn = true
  · rw [if_pos out]
    exact Rest.next _ _ _ ⟨out, rfl⟩
  · rw [if_neg out]
    by_cases err : ready.errIn = true
    · rw [if_pos err]
      exact Rest.next _ _ _ err
    · rw [if_neg err]
      exact afterReads_rest ready state

theorem afterSslWrite_rest (ready : Ready) (state : State) :
    Rest ready state (state.afterSslWrite ready) := by
  unfold State.afterSslWrite
  split
  · exact Rest.next _ _ _ rfl
  · exact afterStdinWrite_rest ready state

theorem afterSslRead_rest (ready : Ready) (state : State) :
    Rest ready state (state.afterSslRead ready) := by
  unfold State.afterSslRead
  split
  · exact Rest.next _ _ _ rfl
  · exact afterSslWrite_rest ready state

/-- The want flags set before the rest of an iteration are among the changes it makes. -/
theorem Rest.of_want {ready : Ready} {state next : State} (wantRead wantWrite : Bool)
    (rest : Rest ready
      { state with loop := { state.loop with sslWantRead := wantRead, sslWantWrite := wantWrite } }
      next) : Rest ready state next := by
  cases rest with
  | next pc read write within => exact Rest.next pc read write within
  | last pc read write ends =>
      have same : Loop.closeStdin
          { state.loop with sslWantRead := wantRead, sslWantWrite := wantWrite } =
          { state.loop.closeStdin with sslWantRead := wantRead, sslWantWrite := wantWrite } := by
        unfold Loop.closeStdin
        dsimp only
        split <;> rfl
      simp only [same]
      exact Rest.last pc read write ends

theorem afterPoll_rest (pending : Bool) (ready : Ready) (state : State) :
    Rest ready state (state.afterPoll pending ready) := by
  unfold State.afterPoll
  split
  · dsimp only
    split
    · exact Rest.next _ _ _ rfl
    · exact Rest.of_want false state.loop.sslWantWrite (afterSslRead_rest ready _)
  · exact afterSslRead_rest ready state

/-! ## The fields each part of the loop owns -/

/-- Another loop state that differs in the fields of the body reader only. -/
def Loop.withReader (loop : Loop) (brState : BrState) (brRemaining : Int) (brHdr : List UInt8)
    (bodyEof : Bool) (stdinBuf : List UInt8) : Loop :=
  { loop with
    brState := brState, brRemaining := brRemaining, brHdr := brHdr, bodyEof := bodyEof
    stdinBuf := stdinBuf }

/-- The body reader changes no other field than its own. -/
theorem accept_eq_withReader (call : Call) (loop : Loop) (bytes : List UInt8) :
    Exists fun brState => Exists fun brRemaining => Exists fun brHdr => Exists fun bodyEof =>
      Exists fun stdinBuf =>
        loop.accept call bytes = loop.withReader brState brRemaining brHdr bodyEof stdinBuf := by
  have folded : forall move : Loop -> UInt8 -> Loop,
      (forall loop byte, Exists fun brState => Exists fun brRemaining => Exists fun brHdr =>
        Exists fun bodyEof => Exists fun stdinBuf =>
          move loop byte = loop.withReader brState brRemaining brHdr bodyEof stdinBuf) ->
      Exists fun brState => Exists fun brRemaining => Exists fun brHdr => Exists fun bodyEof =>
        Exists fun stdinBuf => bytes.foldl move loop =
          loop.withReader brState brRemaining brHdr bodyEof stdinBuf := by
    intro move owned
    induction bytes generalizing loop with
    | nil => exact ⟨_, _, _, _, _, rfl⟩
    | cons byte rest inductionHypothesis =>
        rcases owned loop byte with ⟨_, _, _, _, _, first⟩
        rcases inductionHypothesis (move loop byte) with ⟨_, _, _, _, _, later⟩
        exact ⟨_, _, _, _, _, by rw [List.foldl_cons, later, first]; rfl⟩
  unfold Loop.accept
  split
  · apply folded
    intro loop byte
    unfold Loop.headerByte
    dsimp only
    split_ifs <;> exact ⟨_, _, _, _, _, rfl⟩
  · exact ⟨_, _, _, _, _, rfl⟩
  · apply folded
    intro loop byte
    unfold Loop.trailerByte
    split
    · split <;> exact ⟨_, _, _, _, _, rfl⟩
    · exact ⟨_, _, _, _, _, rfl⟩
  · apply folded
    intro loop byte
    unfold Loop.trailerByte
    split
    · split <;> exact ⟨_, _, _, _, _, rfl⟩
    · exact ⟨_, _, _, _, _, rfl⟩
  · exact ⟨_, _, _, _, _, rfl⟩

/-! ## Leaving the loop -/

/-- The positions of the parent once it has left the loop. -/
def Pc.leaving : Pc -> Bool
  | .waitBlocking | .kill | .flush | .terminate | .returned => true
  | _ => false

theorem not_leaving_of_inIteration {ready : Ready} {pc : Pc} (within : pc.InIteration ready) :
    pc.leaving = false := by
  cases pc <;> first | rfl | exact absurd within (by simp [Pc.InIteration])

theorem ne_returned_of_not_leaving {pc : Pc} (running : pc.leaving = false) : pc ≠ .returned := by
  rintro rfl
  exact absurd running (by decide)

theorem not_leaving_of_eq {state : State} {pc : Pc} (at_ : state.pc = pc)
    (running : pc.leaving = false) : state.pc.leaving = false := at_ ▸ running

/-- How the parent goes on after the loop. -/
inductive Left (state : State) : State -> Prop where
  | kill (running : state.loop.childExited = false) : Left state { state with pc := .kill }
  | flush (noError : state.loop.sslError = false) (some : state.loop.sseBuf ≠ []) :
      Left state { state with pc := .flush }
  | terminate (noError : state.loop.sslError = false) (none : state.loop.sseBuf = []) :
      Left state { state with pc := .terminate }
  | failed (error : state.loop.sslError = true) : Left state state.finish

theorem afterKill_left (state : State) : Left state state.afterKill := by
  unfold State.afterKill
  by_cases error : state.loop.sslError = true
  · rw [if_pos error]
    exact Left.failed error
  · have noError : state.loop.sslError = false := Bool.eq_false_iff.mpr error
    rw [if_neg error]
    by_cases empty : state.loop.sseBuf.isEmpty = true
    · rw [if_pos empty]
      exact Left.terminate noError (List.isEmpty_iff.mp empty)
    · rw [if_neg empty]
      exact Left.flush noError (fun none => empty (List.isEmpty_iff.mpr none))

theorem leaveLoop_left (state : State) : Left state state.leaveLoop := by
  unfold State.leaveLoop
  split
  · exact afterKill_left state
  next running => exact Left.kill (Bool.eq_false_iff.mpr running)

/-! ## The list of transitions -/

/-- The set of an iteration of which only the stderr read is left. -/
def readyErr (errIn : Bool) : Ready := ⟨false, false, false, false, false, errIn⟩

/-- What one event can do to a state. -/
inductive Transition (call : Call) (state : State) : Event -> State -> Prop where
  | writeOut (block : List UInt8) (pipe : OutputPipe) (wrote : state.out.write block = some pipe) :
      Transition call state (.childWrite false block) { state with out := pipe }
  | writeErr (block : List UInt8) (pipe : OutputPipe) (wrote : state.err.write block = some pipe) :
      Transition call state (.childWrite true block) { state with err := pipe }
  | closeOut : Transition call state (.childClose false) { state with out := state.out.close }
  | closeErr : Transition call state (.childClose true) { state with err := state.err.close }
  | exit (status : WaitStatus) (running : state.child = .running) :
      Transition call state (.childExit status) { state with child := .zombie status }
  | interrupted (pending : Bool) (top : state.pc = .top) :
      Transition call state (.poll pending .interrupted) state
  | polled (pending sslIn sslOut stdinOut outIn errIn : Bool) (next : State) (top : state.pc = .top)
      (outReadable : (state.ready pending sslIn sslOut stdinOut outIn errIn).outIn = true ->
        state.out.Readable)
      (errReadable : (state.ready pending sslIn sslOut stdinOut outIn errIn).errIn = true ->
        state.err.Readable)
      (rest : Rest (state.ready pending sslIn sslOut stdinOut outIn errIn) state next) :
      Transition call state (.poll pending (.ready sslIn sslOut stdinOut outIn errIn)) next
  | pollFailed (pending : Bool) (next : State) (top : state.pc = .top) (left : Left state next) :
      Transition call state (.poll pending .failed) next
  | ended (next : State) (top : state.pc = .top) (ends : state.loop.continues = false)
      (left : Left state next) : Transition call state .leave next
  | idle (next : State) (top : state.pc = .top) (nothing : state.loop.pollsNothing false = true)
      (exited : state.loop.childExited = true) (left : Left state next) :
      Transition call state .leave next
  | waits (top : state.pc = .top) (nothing : state.loop.pollsNothing false = true)
      (running : state.loop.childExited = false) :
      Transition call state .leave { state with pc := .waitBlocking }
  | sslGot (ready : Ready) (count : Nat) (next : State) (at_ : state.pc = .sslRead ready)
      (positive : 0 < count) (asked : count ≤ state.loop.readCap)
      (sent : count ≤ state.incoming.length)
      (rest : Rest ready
        { state with
          incoming := state.incoming.drop count
          loop := state.loop.accept call (state.incoming.take count) } next) :
      Transition call state (.sslRead (.got count)) next
  | sslWants (ready : Ready) (result : SslReadResult) (next : State) (at_ : state.pc = .sslRead ready)
      (wants : result = .wantRead ∨ result = .wantWrite) (rest : Rest ready state next) :
      Transition call state (.sslRead result) next
  | sslReadFailed (ready : Ready) (next : State) (at_ : state.pc = .sslRead ready)
      (rest : Rest ready
        { state with loop := { state.loop with bodyEof := true, brState := .done } } next) :
      Transition call state (.sslRead .failed) next
  | sslWrote (ready : Ready) (count : Nat) (next : State) (at_ : state.pc = .sslWrite ready)
      (positive : 0 < count) (held : count ≤ state.loop.sseBuf.length)
      (rest : Rest ready
        { state with
          delivered := state.delivered ++ state.loop.sseBuf.take count
          loop := { state.loop with sseBuf := state.loop.sseBuf.drop count } } next) :
      Transition call state (.sslWrite (.wrote count)) next
  | sslWriteWants (ready : Ready) (next : State) (at_ : state.pc = .sslWrite ready)
      (rest : Rest ready state next) : Transition call state (.sslWrite .wantWrite) next
  | sslWriteFailed (ready : Ready) (next : State) (at_ : state.pc = .sslWrite ready)
      (left : Left { state with loop := { state.loop with sslError := true } } next) :
      Transition call state (.sslWrite .failed) next
  | stdinWrote (ready : Ready) (count : Nat) (next : State) (at_ : state.pc = .stdinWrite ready)
      (positive : 0 < count) (held : count ≤ state.loop.stdinBuf.length)
      (rest : Rest ready
        { state with
          stdinWritten := state.stdinWritten ++ state.loop.stdinBuf.take count
          loop := { state.loop with stdinBuf := state.loop.stdinBuf.drop count } } next) :
      Transition call state (.stdinWrite (.wrote count)) next
  | stdinAgain (ready : Ready) (next : State) (at_ : state.pc = .stdinWrite ready)
      (rest : Rest ready state next) : Transition call state (.stdinWrite .again) next
  | stdinFailed (ready : Ready) (next : State) (at_ : state.pc = .stdinWrite ready)
      (rest : Rest ready
        { state with loop := { state.loop with stdinFd := false, stdinClosed := true } } next) :
      Transition call state (.stdinWrite .failed) next
  | readOut (errIn : Bool) (count : Nat) (bytes : List UInt8) (pipe : OutputPipe) (next : State)
      (at_ : state.pc = .readOut errIn)
      (got : state.out.read outBufSize count = some (bytes, pipe))
      (rest : Rest (readyErr errIn)
        { state with pc := .top, out := pipe, loop := state.loop.output call false bytes } next) :
      Transition call state (.read count) next
  | readErr (count : Nat) (bytes : List UInt8) (pipe : OutputPipe) (next : State)
      (at_ : state.pc = .readErr)
      (got : state.err.read outBufSize count = some (bytes, pipe))
      (rest : Rest (readyErr false)
        { state with pc := .top, err := pipe, loop := state.loop.output call true bytes } next) :
      Transition call state (.read count) next
  | notReaped (at_ : state.pc = .reap) :
      Transition call state (.waitpid false) { state with pc := .top }
  | reaps (status : WaitStatus) (at_ : state.pc = .reap) (zombie : state.child = .zombie status) :
      Transition call state (.waitpid true) { state.reaped status with pc := .top }
  | waitFailed (next : State) (at_ : state.pc = .waitBlocking) (left : Left state next) :
      Transition call state (.waitpid false) next
  | waitReaps (status : WaitStatus) (next : State) (at_ : state.pc = .waitBlocking)
      (zombie : state.child = .zombie status) (left : Left (state.reaped status) next) :
      Transition call state (.waitpid true) next
  | killUnreaped (next : State) (at_ : state.pc = .kill)
      (left : Left { state with loop := { state.loop with exitCode := -1 } } next) :
      Transition call state (.waitpid false) next
  | killReaps (status : WaitStatus) (next : State) (at_ : state.pc = .kill)
      (zombie : state.child = .zombie status)
      (left : Left { state with child := .reaped, loop := { state.loop with exitCode := -1 } } next) :
      Transition call state (.waitpid true) next
  | flushed (result : FinalWrite) (bytes : List UInt8) (at_ : state.pc = .flush)
      (accepted : result.accepted state.loop.sseBuf = some bytes) :
      Transition call state (.finalWrite result)
        { state with
          delivered := state.delivered ++ bytes
          loop := { state.loop with sseBuf := [] }
          pc := .terminate }
  | terminated (result : FinalWrite) (bytes : List UInt8) (at_ : state.pc = .terminate)
      (accepted : result.accepted (termination call state.loop.exitCode) = some bytes) :
      Transition call state (.finalWrite result)
        (State.finish { state with delivered := state.delivered ++ bytes })

variable {call : Call} {state next : State}

private theorem childStep_transition {event : Event} (stepped : childStep state event = some next) :
    Transition call state event next := by
  cases event with
  | childWrite isErr block =>
      cases isErr with
      | true =>
          simp only [childStep, if_true, Option.map_eq_some_iff] at stepped
          rcases stepped with ⟨pipe, wrote, same⟩
          exact same ▸ .writeErr block pipe wrote
      | false =>
          simp only [childStep, Bool.false_eq_true, if_false, Option.map_eq_some_iff] at stepped
          rcases stepped with ⟨pipe, wrote, same⟩
          exact same ▸ .writeOut block pipe wrote
  | childClose isErr =>
      cases isErr with
      | true => exact Option.some.inj stepped ▸ .closeErr
      | false => exact Option.some.inj stepped ▸ .closeOut
  | childExit status =>
      cases child : state.child with
      | running =>
          simp only [childStep, child] at stepped
          exact Option.some.inj stepped ▸ .exit status child
      | zombie status => simp [childStep, child] at stepped
      | reaped => simp [childStep, child] at stepped
  | _ => exact absurd stepped nofun

private theorem poll_transition {pending : Bool} {result : PollResult} (top : state.pc = .top)
    (stepped : topStep state (.poll pending result) = some next) :
    Transition call state (.poll pending result) next := by
  simp only [topStep, Option.ite_none_right_eq_some] at stepped
  rcases stepped with ⟨_, stepped⟩
  cases result with
  | interrupted => exact Option.some.inj stepped ▸ .interrupted pending top
  | failed =>
      have same := Option.some.inj stepped
      exact .pollFailed pending next top (same ▸ leaveLoop_left state)
  | ready sslIn sslOut stdinOut outIn errIn =>
      simp only [Option.ite_none_right_eq_some] at stepped
      rcases stepped with ⟨readable, stepped⟩
      have same := Option.some.inj stepped
      exact .polled pending sslIn sslOut stdinOut outIn errIn next top readable.1 readable.2
        (same ▸ afterPoll_rest pending _ state)

private theorem leave_transition (top : state.pc = .top) (stepped : topStep state .leave = some next) :
    Transition call state .leave next := by
  by_cases continues : state.loop.continues = true
  · simp only [topStep, if_pos continues, Option.ite_none_right_eq_some] at stepped
    rcases stepped with ⟨nothing, stepped⟩
    have same := Option.some.inj stepped
    by_cases exited : state.loop.childExited = true
    · rw [if_pos exited] at same
      exact .idle next top nothing exited (same ▸ leaveLoop_left state)
    · rw [if_neg exited] at same
      exact same ▸ .waits top nothing (Bool.eq_false_iff.mpr exited)
  · simp only [topStep, if_neg continues] at stepped
    have same := Option.some.inj stepped
    exact .ended next top (Bool.eq_false_iff.mpr continues) (same ▸ leaveLoop_left state)

private theorem sslRead_transition {ready : Ready} {result : SslReadResult}
    (pc : state.pc = .sslRead ready) (stepped : sslReadStep call ready state result = some next) :
    Transition call state (.sslRead result) next := by
  cases result with
  | got count =>
      simp only [sslReadStep, Option.ite_none_right_eq_some] at stepped
      rcases stepped with ⟨bounds, stepped⟩
      have same := Option.some.inj stepped
      exact .sslGot ready count next pc bounds.1 bounds.2.1 bounds.2.2
        (same ▸ afterSslRead_rest ready _)
  | wantRead =>
      have same := Option.some.inj stepped
      exact .sslWants ready _ next pc (Or.inl rfl)
        (same ▸ Rest.of_want true state.loop.sslWantWrite (afterSslRead_rest ready _))
  | wantWrite =>
      have same := Option.some.inj stepped
      exact .sslWants ready _ next pc (Or.inr rfl)
        (same ▸ Rest.of_want state.loop.sslWantRead true (afterSslRead_rest ready _))
  | failed =>
      have same := Option.some.inj stepped
      exact .sslReadFailed ready next pc (same ▸ afterSslRead_rest ready _)

private theorem sslWrite_transition {ready : Ready} {result : SslWriteResult}
    (pc : state.pc = .sslWrite ready) (stepped : sslWriteStep ready state result = some next) :
    Transition call state (.sslWrite result) next := by
  cases result with
  | wrote count =>
      simp only [sslWriteStep, Option.ite_none_right_eq_some] at stepped
      rcases stepped with ⟨bounds, stepped⟩
      have same := Option.some.inj stepped
      exact .sslWrote ready count next pc bounds.1 bounds.2 (same ▸ afterSslWrite_rest ready _)
  | wantWrite =>
      have same := Option.some.inj stepped
      exact .sslWriteWants ready next pc
        (same ▸ Rest.of_want state.loop.sslWantRead true (afterSslWrite_rest ready _))
  | failed =>
      have same := Option.some.inj stepped
      exact .sslWriteFailed ready next pc (same ▸ leaveLoop_left _)

private theorem stdinWrite_transition {ready : Ready} {result : WriteResult}
    (pc : state.pc = .stdinWrite ready) (stepped : stdinWriteStep ready state result = some next) :
    Transition call state (.stdinWrite result) next := by
  cases result with
  | wrote count =>
      simp only [stdinWriteStep, Option.ite_none_right_eq_some] at stepped
      rcases stepped with ⟨bounds, stepped⟩
      have same := Option.some.inj stepped
      exact .stdinWrote ready count next pc bounds.1 bounds.2
        (same ▸ afterStdinWrite_rest ready _)
  | again =>
      have same := Option.some.inj stepped
      exact .stdinAgain ready next pc (same ▸ afterStdinWrite_rest ready state)
  | failed =>
      have same := Option.some.inj stepped
      exact .stdinFailed ready next pc (same ▸ afterStdinWrite_rest ready _)

private theorem waitpid_transition {reaps : Bool} (stepped : waitpidStep state reaps = some next) :
    Transition call state (.waitpid reaps) next := by
  simp only [waitpidStep] at stepped
  cases reaps with
  | false =>
      cases pc : state.pc with
      | reap =>
          simp only [pc] at stepped
          exact Option.some.inj stepped ▸ .notReaped pc
      | waitBlocking =>
          simp only [pc] at stepped
          have same := Option.some.inj stepped
          exact .waitFailed next pc (same ▸ leaveLoop_left state)
      | kill =>
          simp only [pc] at stepped
          have same := Option.some.inj stepped
          exact .killUnreaped next pc (same ▸ afterKill_left _)
      | _ => simp [pc] at stepped
  | true =>
      cases child : state.child with
      | zombie status =>
          cases pc : state.pc with
          | reap =>
              simp only [pc, child] at stepped
              exact Option.some.inj stepped ▸ .reaps status pc child
          | waitBlocking =>
              simp only [pc, child] at stepped
              have same := Option.some.inj stepped
              exact .waitReaps status next pc child (same ▸ leaveLoop_left _)
          | kill =>
              simp only [pc, child] at stepped
              have same := Option.some.inj stepped
              exact .killReaps status next pc child (same ▸ afterKill_left _)
          | _ => simp [pc, child] at stepped
      | running => simp [child] at stepped
      | reaped => simp [child] at stepped

/-- Every step of the loop is one of the listed transitions. -/
theorem transition_of_step {event : Event} (stepped : step call state event = some next) :
    Transition call state event next := by
  cases event with
  | childWrite | childClose | childExit => exact childStep_transition stepped
  | poll pending result =>
      simp only [step, Option.ite_none_right_eq_some] at stepped
      exact poll_transition stepped.1 stepped.2
  | leave =>
      simp only [step, Option.ite_none_right_eq_some] at stepped
      exact leave_transition stepped.1 stepped.2
  | sslRead result =>
      cases pc : state.pc with
      | sslRead ready =>
          simp only [step, pc] at stepped
          exact sslRead_transition pc stepped
      | _ => simp [step, pc] at stepped
  | sslWrite result =>
      cases pc : state.pc with
      | sslWrite ready =>
          simp only [step, pc] at stepped
          exact sslWrite_transition pc stepped
      | _ => simp [step, pc] at stepped
  | stdinWrite result =>
      cases pc : state.pc with
      | stdinWrite ready =>
          simp only [step, pc] at stepped
          exact stdinWrite_transition pc stepped
      | _ => simp [step, pc] at stepped
  | read count =>
      cases pc : state.pc with
      | readOut errIn =>
          simp only [step, pc, Option.map_eq_some_iff] at stepped
          rcases stepped with ⟨⟨bytes, pipe⟩, got, same⟩
          apply Transition.readOut errIn count bytes pipe next pc got
          cases errIn with
          | true => exact same ▸ Rest.next .readErr _ _ rfl
          | false => exact same ▸ afterReads_rest _ _
      | readErr =>
          simp only [step, pc, Option.map_eq_some_iff] at stepped
          rcases stepped with ⟨⟨bytes, pipe⟩, got, same⟩
          exact .readErr count bytes pipe next pc got (same ▸ afterReads_rest _ _)
      | _ => simp [step, pc] at stepped
  | waitpid reaps => exact waitpid_transition stepped
  | finalWrite result =>
      cases pc : state.pc with
      | flush =>
          simp only [step, pc, Option.map_eq_some_iff] at stepped
          rcases stepped with ⟨bytes, accepted, same⟩
          exact same ▸ .flushed result bytes pc accepted
      | terminate =>
          simp only [step, pc, Option.map_eq_some_iff] at stepped
          rcases stepped with ⟨bytes, accepted, same⟩
          exact same ▸ .terminated result bytes pc accepted
      | _ => simp [step, pc] at stepped

end PipeLoop
end Executor
end AdbBridge
