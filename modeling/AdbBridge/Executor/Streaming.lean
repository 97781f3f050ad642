import AdbBridge.Executor.Child

namespace AdbBridge
namespace Executor

open Library

/-!
# `exec_run_stream`: passing the output on as it comes

A round of the parent's loop is `poll`, then one read of each descriptor with
`POLLIN` and a call of `fn` with what was read.  Only a round that read nothing goes
on to `waitpid(WNOHANG)`.  The child acts between any two of these steps; when it
exits, its ends of the pipes are closed, and no other process holds them.

`poll` looks at one descriptor after the other, so data can arrive behind its back:
a descriptor that it reports is readable, one that it does not report may be.
-/

namespace Streaming

/-- `sizeof(buf)` of the read buffer. -/
def bufSize : Nat := 65536

/-- Where the parent stands in its loop.  A call of `fn` for stdout still has the
stderr read of the round before it, if `poll` reported it. -/
inductive Pc where
  | poll
  | readOut (errReady : Bool)
  | callOut (errReady : Bool)
  | readErr
  | callErr
  | wait
  | kill
  | done
deriving DecidableEq, Repr

/-- The locals of `exec_run_stream`, the two pipes and the child.  `blocks` are the
calls of `fn` in their order, each with `is_stderr` and its data. -/
structure State where
  pc : Pc
  out : OutputPipe
  err : OutputPipe
  child : ChildState
  dataRead : Bool
  blocks : List (Bool × List UInt8)
  exitCode : Int
deriving DecidableEq, Repr

/-- The state after `fork`. -/
def start : State := ⟨.poll, .fresh, .fresh, .running, false, [], -1⟩

/-- The outcomes of `poll`; a timeout reports neither descriptor. -/
inductive PollResult where
  | ready (outIn errIn : Bool)
  | failed
deriving DecidableEq, Repr

/-- The outcomes of `waitpid(WNOHANG)`. -/
inductive WaitResult where
  | reaped
  | running
  | failed
deriving DecidableEq, Repr

/-- What can happen next: a step of the child, or the parent's next call with its
result. -/
inductive Event where
  | childWrite (isErr : Bool) (block : List UInt8)
  | childClose (isErr : Bool)
  | childExit (status : WaitStatus)
  | poll (result : PollResult)
  | read (count : Nat)
  | callback (succeeds : Bool)
  | waitpid (result : WaitResult)
  | kill
deriving DecidableEq, Repr

/-- `WIFEXITED(w) ? WEXITSTATUS(w) : WIFSIGNALED(w) ? -WTERMSIG(w) : -1`. -/
def exitCodeOf (status : WaitStatus) : Int := status.code

/-- The end of a round: `if (data_read) continue`. -/
def State.afterReads (state : State) : State :=
  { state with pc := if state.dataRead then .poll else .wait }

/-- The round from the second descriptor on. -/
def State.afterOut (errReady : Bool) (state : State) : State :=
  if errReady then { state with pc := .readErr } else state.afterReads

/-- A step of the child. -/
def childStep (state : State) (event : Event) : Option State :=
  if state.child = .running then
    match event with
    | .childWrite isErr block =>
        if isErr then (state.err.write block).map (fun pipe => { state with err := pipe })
        else (state.out.write block).map (fun pipe => { state with out := pipe })
    | .childClose isErr =>
        some (if isErr then { state with err := state.err.close }
          else { state with out := state.out.close })
    | .childExit status =>
        some { state with child := .zombie status, out := state.out.close, err := state.err.close }
    | _ => none
  else none

/-- `poll`, and the first descriptor. -/
def pollStep (state : State) : PollResult -> Option State
  | .failed => some { state with pc := .done }
  | .ready outIn errIn =>
      if (outIn = true -> state.out.Readable) ∧ (errIn = true -> state.err.Readable) then
        let round : State := { state with dataRead := false }
        some (if outIn then { round with pc := .readOut errIn } else round.afterOut errIn)
      else none

/-- `read`: a result of zero bytes does not reach `fn`. -/
def readStep (state : State) (count : Nat) : Option State :=
  match state.pc with
  | .readOut errReady =>
      (state.out.read bufSize count).map (fun (bytes, pipe) =>
        let read : State := { state with out := pipe }
        if bytes = [] then read.afterOut errReady
        else
          { read with
            dataRead := true, blocks := state.blocks ++ [(false, bytes)], pc := .callOut errReady })
  | .readErr =>
      (state.err.read bufSize count).map (fun (bytes, pipe) =>
        let read : State := { state with err := pipe }
        if bytes = [] then read.afterReads
        else { read with dataRead := true, blocks := state.blocks ++ [(true, bytes)], pc := .callErr })
  | _ => none

/-- The return of `fn`: a result other than zero ends the loop. -/
def callbackStep (state : State) (succeeds : Bool) : Option State :=
  match state.pc with
  | .callOut errReady => some (if succeeds then state.afterOut errReady else { state with pc := .kill })
  | .callErr => some (if succeeds then state.afterReads else { state with pc := .kill })
  | _ => none

def waitpidStep (state : State) : WaitResult -> Option State
  | .reaped =>
      match state.child with
      | .zombie status =>
          some { state with child := .reaped, exitCode := exitCodeOf status, pc := .done }
      | _ => none
  | .running => if state.child = .running then some { state with pc := .poll } else none
  | .failed => some { state with pc := .done }

/-- One step of the child or of the parent. -/
def step (state : State) : Event -> Option State
  | .poll result => if state.pc = .poll then pollStep state result else none
  | .read count => readStep state count
  | .callback succeeds => callbackStep state succeeds
  | .waitpid result => if state.pc = .wait then waitpidStep state result else none
  | .kill => if state.pc = .kill then some { state with pc := .done } else none
  | event => childStep state event

/-! ## The list of transitions -/

/-- The positions a round goes on with. -/
def Pc.inRound : Pc -> Bool
  | .poll | .readOut _ | .readErr | .wait => true
  | _ => false

/-- The parent waits for `fn` to return. -/
def Pc.calling : Pc -> Bool
  | .callOut _ | .callErr => true
  | _ => false

/-- The parent reads a pipe. -/
def Pc.reading : Pc -> Bool
  | .readOut _ | .readErr => true
  | _ => false

/-- What one event can do to a state. -/
inductive Transition (state : State) : Event -> State -> Prop where
  | writeOut (block : List UInt8) (pipe : OutputPipe) (running : state.child = .running)
      (wrote : state.out.write block = some pipe) :
      Transition state (.childWrite false block) { state with out := pipe }
  | writeErr (block : List UInt8) (pipe : OutputPipe) (running : state.child = .running)
      (wrote : state.err.write block = some pipe) :
      Transition state (.childWrite true block) { state with err := pipe }
  | closeOut (running : state.child = .running) :
      Transition state (.childClose false) { state with out := state.out.close }
  | closeErr (running : state.child = .running) :
      Transition state (.childClose true) { state with err := state.err.close }
  | exit (status : WaitStatus) (running : state.child = .running) :
      Transition state (.childExit status)
        { state with child := .zombie status, out := state.out.close, err := state.err.close }
  | pollFailed (polling : state.pc = .poll) :
      Transition state (.poll .failed) { state with pc := .done }
  | polled (outIn errIn : Bool) (pc : Pc) (polling : state.pc = .poll) (goesOn : pc.inRound = true) :
      Transition state (.poll (.ready outIn errIn)) { state with dataRead := false, pc := pc }
  | readOut (errReady : Bool) (count : Nat) (bytes : List UInt8) (pipe : OutputPipe)
      (reading : state.pc = .readOut errReady) (got : state.out.read bufSize count = some (bytes, pipe))
      (some : bytes ≠ []) :
      Transition state (.read count)
        { state with
          out := pipe, dataRead := true, blocks := state.blocks ++ [(false, bytes)]
          pc := .callOut errReady }
  | readErr (count : Nat) (bytes : List UInt8) (pipe : OutputPipe)
      (reading : state.pc = .readErr) (got : state.err.read bufSize count = some (bytes, pipe))
      (some : bytes ≠ []) :
      Transition state (.read count)
        { state with
          err := pipe, dataRead := true, blocks := state.blocks ++ [(true, bytes)], pc := .callErr }
  | readNothing (count : Nat) (pc : Pc)
      (reading : state.pc.reading = true)
      (goesOn : pc.inRound = true) : Transition state (.read count) { state with pc := pc }
  | accepted (pc : Pc) (calling : state.pc.calling = true)
      (goesOn : pc.inRound = true) : Transition state (.callback true) { state with pc := pc }
  | refused (calling : state.pc.calling = true) :
      Transition state (.callback false) { state with pc := .kill }
  | reaps (status : WaitStatus) (waiting : state.pc = .wait) (zombie : state.child = .zombie status) :
      Transition state (.waitpid .reaped)
        { state with child := .reaped, exitCode := exitCodeOf status, pc := .done }
  | notReaped (waiting : state.pc = .wait) (running : state.child = .running) :
      Transition state (.waitpid .running) { state with pc := .poll }
  | waitFailed (waiting : state.pc = .wait) :
      Transition state (.waitpid .failed) { state with pc := .done }
  | killed (killing : state.pc = .kill) : Transition state .kill { state with pc := .done }

variable {state next : State} {event : Event}

theorem afterReads_inRound (state : State) :
    Exists fun pc => pc.inRound = true ∧ state.afterReads = { state with pc := pc } := by
  unfold State.afterReads
  split
  · exact ⟨.poll, rfl, rfl⟩
  · exact ⟨.wait, rfl, rfl⟩

theorem afterOut_inRound (errReady : Bool) (state : State) :
    Exists fun pc => pc.inRound = true ∧ state.afterOut errReady = { state with pc := pc } := by
  unfold State.afterOut
  split
  · exact ⟨.readErr, rfl, rfl⟩
  · exact afterReads_inRound state

private theorem stream_childStep_transition (stepped : childStep state event = some next) :
    Transition state event next := by
  rcases Option.ite_none_right_eq_some.mp stepped with ⟨running, stepped⟩
  cases event with
  | childWrite isErr block =>
      cases isErr with
      | true =>
          rcases Option.map_eq_some_iff.mp stepped with ⟨pipe, wrote, same⟩
          exact same ▸ .writeErr block pipe running wrote
      | false =>
          rcases Option.map_eq_some_iff.mp stepped with ⟨pipe, wrote, same⟩
          exact same ▸ .writeOut block pipe running wrote
  | childClose isErr =>
      cases isErr with
      | true => exact Option.some.inj stepped ▸ .closeErr running
      | false => exact Option.some.inj stepped ▸ .closeOut running
  | childExit status => exact Option.some.inj stepped ▸ .exit status running
  | _ => exact absurd stepped nofun

private theorem stream_poll_transition {result : PollResult} (polling : state.pc = .poll)
    (stepped : pollStep state result = some next) : Transition state (.poll result) next := by
  cases result with
  | failed => exact Option.some.inj stepped ▸ .pollFailed polling
  | ready outIn errIn =>
      rcases Option.ite_none_right_eq_some.mp stepped with ⟨_, stepped⟩
      have same := Option.some.inj stepped
      cases outIn with
      | true => exact same ▸ .polled true errIn (.readOut errIn) polling rfl
      | false =>
          rcases afterOut_inRound errIn { state with dataRead := false } with ⟨pc, within, after⟩
          have result := after.symm.trans same
          exact result ▸ .polled false errIn pc polling within

private theorem stream_read_transition {count : Nat} (stepped : readStep state count = some next) :
    Transition state (.read count) next := by
  unfold readStep at stepped
  split at stepped
  next errReady reading =>
    rcases Option.map_eq_some_iff.mp stepped with ⟨⟨bytes, pipe⟩, got, same⟩
    by_cases none : bytes = []
    · have unchanged : pipe = state.out := by
        rcases OutputPipe.read_eq_some got with ⟨_, _, _, same⟩ | ⟨length, positive, _⟩
        · exact same
        · rw [none, List.length_nil] at length
          omega
      rcases afterOut_inRound errReady state with ⟨pc, within, after⟩
      simp only [if_pos none, unchanged] at same
      have result := after.symm.trans same
      exact result ▸ .readNothing count pc (by rw [reading]; rfl) within
    · simp only [if_neg none] at same
      exact same ▸ .readOut errReady count bytes pipe reading got none
  next reading =>
    rcases Option.map_eq_some_iff.mp stepped with ⟨⟨bytes, pipe⟩, got, same⟩
    by_cases none : bytes = []
    · have unchanged : pipe = state.err := by
        rcases OutputPipe.read_eq_some got with ⟨_, _, _, same⟩ | ⟨length, positive, _⟩
        · exact same
        · rw [none, List.length_nil] at length
          omega
      rcases afterReads_inRound state with ⟨pc, within, after⟩
      simp only [if_pos none, unchanged] at same
      have result := after.symm.trans same
      exact result ▸ .readNothing count pc (by rw [reading]; rfl) within
    · simp only [if_neg none] at same
      exact same ▸ .readErr count bytes pipe reading got none
  · exact absurd stepped nofun

private theorem stream_callback_transition {succeeds : Bool}
    (stepped : callbackStep state succeeds = some next) : Transition state (.callback succeeds) next := by
  unfold callbackStep at stepped
  split at stepped
  next errReady at_ =>
    have calling : state.pc.calling = true := by rw [at_]; rfl
    have same := Option.some.inj stepped
    cases succeeds with
    | true =>
        rcases afterOut_inRound errReady state with ⟨pc, within, after⟩
        have result := after.symm.trans same
        exact result ▸ .accepted pc calling within
    | false => exact same ▸ .refused calling
  next at_ =>
    have calling : state.pc.calling = true := by rw [at_]; rfl
    have same := Option.some.inj stepped
    cases succeeds with
    | true =>
        rcases afterReads_inRound state with ⟨pc, within, after⟩
        have result := after.symm.trans same
        exact result ▸ .accepted pc calling within
    | false => exact same ▸ .refused calling
  · exact absurd stepped nofun

private theorem stream_waitpid_transition {result : WaitResult} (waiting : state.pc = .wait)
    (stepped : waitpidStep state result = some next) : Transition state (.waitpid result) next := by
  cases result with
  | reaped =>
      cases child : state.child with
      | zombie status =>
          simp only [waitpidStep, child] at stepped
          exact Option.some.inj stepped ▸ .reaps status waiting child
      | running => simp [waitpidStep, child] at stepped
      | reaped => simp [waitpidStep, child] at stepped
  | running =>
      rcases Option.ite_none_right_eq_some.mp stepped with ⟨running, stepped⟩
      exact Option.some.inj stepped ▸ .notReaped waiting running
  | failed => exact Option.some.inj stepped ▸ .waitFailed waiting

/-- Every step is one of the listed transitions. -/
theorem transition_of_step (stepped : step state event = some next) : Transition state event next := by
  cases event with
  | childWrite | childClose | childExit => exact stream_childStep_transition stepped
  | poll result =>
      rcases Option.ite_none_right_eq_some.mp stepped with ⟨polling, stepped⟩
      exact stream_poll_transition polling stepped
  | read count => exact stream_read_transition stepped
  | callback succeeds => exact stream_callback_transition stepped
  | waitpid result =>
      rcases Option.ite_none_right_eq_some.mp stepped with ⟨waiting, stepped⟩
      exact stream_waitpid_transition waiting stepped
  | kill =>
      rcases Option.ite_none_right_eq_some.mp stepped with ⟨killing, stepped⟩
      exact Option.some.inj stepped ▸ .killed killing

/-! ## What `fn` was given -/

/-- The data given to `fn` for one of the streams. -/
def passed (isErr : Bool) (blocks : List (Bool × List UInt8)) : List UInt8 :=
  blocks.flatMap (fun call => if call.1 = isErr then call.2 else [])

theorem passed_append (isErr : Bool) (first second : List (Bool × List UInt8)) :
    passed isErr (first ++ second) = passed isErr first ++ passed isErr second :=
  List.flatMap_append

/-- Each pipe has delivered what was passed on, and a reaped child means the loop was left. -/
structure Inv (state : State) : Prop where
  out : state.out.Delivered (passed false state.blocks)
  err : state.err.Delivered (passed true state.blocks)
  left : state.child = .reaped -> state.pc = .done

theorem start_inv : Inv start := ⟨rfl, rfl, fun impossible => absurd impossible nofun⟩

theorem Delivered.close {pipe : OutputPipe} {taken : List UInt8} (delivered : pipe.Delivered taken) :
    pipe.close.Delivered taken := delivered

/-- One step keeps the invariant. -/
theorem step_inv (taken : step state event = some next) (inv : Inv state) : Inv next := by
  have alive : forall pc : Pc, state.pc = pc -> pc ≠ .done -> state.child ≠ .reaped := by
    intro pc at_ running gone
    exact running (at_.symm.trans (inv.left gone))
  cases transition_of_step taken with
  | writeOut block pipe running wrote => exact ⟨inv.out.write wrote, inv.err, inv.left⟩
  | writeErr block pipe running wrote => exact ⟨inv.out, inv.err.write wrote, inv.left⟩
  | closeOut running => exact ⟨Delivered.close inv.out, inv.err, inv.left⟩
  | closeErr running => exact ⟨inv.out, Delivered.close inv.err, inv.left⟩
  | exit status running =>
      exact ⟨Delivered.close inv.out, Delivered.close inv.err, fun gone => absurd gone nofun⟩
  | pollFailed polling => exact ⟨inv.out, inv.err, fun _ => rfl⟩
  | polled outIn errIn pc polling goesOn =>
      exact ⟨inv.out, inv.err, fun gone => absurd gone (alive _ polling nofun)⟩
  | readOut errReady count bytes pipe reading got some =>
      refine ⟨?_, ?_, fun gone => absurd gone (alive _ reading nofun)⟩
      · have delivered := inv.out.read got
        rw [passed_append]
        simpa [passed] using delivered
      · rw [passed_append]
        simpa [passed] using inv.err
  | readErr count bytes pipe reading got some =>
      refine ⟨?_, ?_, fun gone => absurd gone (alive _ reading nofun)⟩
      · rw [passed_append]
        simpa [passed] using inv.out
      · have delivered := inv.err.read got
        rw [passed_append]
        simpa [passed] using delivered
  | readNothing count pc reading goesOn =>
      refine ⟨inv.out, inv.err, fun gone => ?_⟩
      rw [inv.left gone] at reading
      exact absurd reading nofun
  | accepted pc calling goesOn =>
      refine ⟨inv.out, inv.err, fun gone => ?_⟩
      rw [inv.left gone] at calling
      exact absurd calling nofun
  | refused calling =>
      refine ⟨inv.out, inv.err, fun gone => ?_⟩
      rw [inv.left gone] at calling
      exact absurd calling nofun
  | reaps status waiting zombie => exact ⟨inv.out, inv.err, fun _ => rfl⟩
  | notReaped waiting running =>
      exact ⟨inv.out, inv.err, fun gone => absurd gone (alive _ waiting nofun)⟩
  | waitFailed waiting => exact ⟨inv.out, inv.err, fun _ => rfl⟩
  | killed killing => exact ⟨inv.out, inv.err, fun _ => rfl⟩

/-! ## Complete output -/

/-- All output of the child was passed on. -/
def Complete (state : State) : Prop :=
  passed false state.blocks = state.out.written ∧ passed true state.blocks = state.err.written

/-- Nothing is left in the pipes. -/
def Drained (state : State) : Prop := state.out.unread = [] ∧ state.err.unread = []

instance (state : State) : Decidable (Drained state) := inferInstanceAs (Decidable (_ ∧ _))

/-- What a pipe delivered is everything exactly when nothing is left in it. -/
theorem eq_written_iff {pipe : OutputPipe} {taken : List UInt8} (delivered : pipe.Delivered taken) :
    taken = pipe.written ↔ pipe.unread = [] := by
  constructor
  · intro complete
    have history : pipe.written = taken ++ pipe.unread := delivered
    rw [← complete] at history
    exact List.append_right_eq_self.mp history.symm
  · intro empty
    exact (delivered.eq_written empty).symm

theorem complete_iff_drained (inv : Inv state) : Complete state ↔ Drained state :=
  and_congr (eq_written_iff inv.out) (eq_written_iff inv.err)

/-- The condition on a step: when `waitpid` returns the child, the pipes are drained. -/
def DrainedWhenReaped (state : State) (event : Event) : Prop :=
  event = .waitpid .reaped -> Drained state

instance (state : State) (event : Event) : Decidable (DrainedWhenReaped state event) :=
  inferInstanceAs (Decidable (_ -> _))

/-- After the child was reaped nothing happens any more. -/
theorem no_step_after_reaped (inv : Inv state) (gone : state.child = .reaped) :
    step state event ≠ some next := by
  have left := inv.left gone
  intro taken
  cases transition_of_step taken <;> simp_all [Pc.reading, Pc.calling]

/-- The reaping step leaves the pipes alone and nothing follows it, so its condition can
be read off the final state. -/
theorem drainedWhenReaped_iff {final : State} {events : List Event} (inv : Inv state)
    (alive : state.child ≠ .reaped) (run : Machine.exec step state events = some final)
    (gone : final.child = .reaped) :
    Machine.AllSteps step DrainedWhenReaped state events ↔ Drained final := by
  have early : forall state event next, Inv state -> ¬ state.child = .reaped ->
      step state event = some next -> ¬ next.child = .reaped -> DrainedWhenReaped state event := by
    rintro state event next _ _ taken notGone rfl
    cases transition_of_step taken with
    | reaps status waiting zombie => exact absurd rfl notGone
  have crossing : forall state event next, Inv state -> ¬ state.child = .reaped ->
      step state event = some next -> next.child = .reaped ->
        (DrainedWhenReaped state event ↔ Drained next) := by
    intro state event next _ alive taken gone
    cases transition_of_step taken with
    | reaps status waiting zombie => exact ⟨fun met => met rfl, fun drained _ => drained⟩
    | exit status running => exact absurd gone nofun
    | _ => exact absurd gone alive
  exact Machine.allSteps_iff_of_crossing (fun _ _ _ => step_inv) early crossing
    (fun _ _ _ inv gone taken => absurd taken (no_step_after_reaped inv gone)) inv alive run gone

/-- A call of `exec_run_stream` that returns the child's exit status has passed on
the complete output exactly when the pipes were drained at the instant of the
successful `waitpid`. -/
theorem execRunStream_complete_iff {events : List Event} {final : State}
    (run : Machine.exec step start events = some final) (reaped : final.child = .reaped) :
    Complete final ↔ Machine.AllSteps step DrainedWhenReaped start events := by
  have inv : Inv final := Machine.invariant_exec (fun _ _ _ => step_inv) run start_inv
  rw [complete_iff_drained inv, drainedWhenReaped_iff start_inv nofun run reaped]

/-- The output is read before the child exits. -/
theorem execRunStream_complete_iff_hello :
    Complete ⟨.done, ⟨[], [104, 105], true⟩, ⟨[], [], true⟩, .reaped, false,
      [(false, [104, 105])], 0⟩ :=
  (execRunStream_complete_iff
    (by decide : Machine.exec step start
      [.childWrite false [104, 105], .poll (.ready true false), .read 2, .callback true,
        .poll (.ready false false), .waitpid .running, .childExit (.exited 0),
        .poll (.ready false false), .waitpid .reaped] = some _) rfl).mpr (by decide)

/-- The losing window: `poll` times out, then the child writes its last line and
exits before the `waitpid` of the same round. -/
theorem execRunStream_loses_tail : Exists fun final =>
    Machine.exec step start
      [.poll (.ready false false), .childWrite false [104, 105], .childExit (.exited 0),
        .waitpid .reaped] = some final ∧
      final.child = .reaped ∧ final.exitCode = 0 ∧ final.blocks = [] ∧ ¬ Complete final := by
  refine ⟨⟨.done, ⟨[104, 105], [104, 105], true⟩, ⟨[], [], true⟩, .reaped, false, [], 0⟩,
    by decide, rfl, rfl, rfl, ?_⟩
  intro complete
  have lost : ([] : List UInt8) = [104, 105] := complete.1
  exact absurd lost (by decide)

end Streaming
end Executor
end AdbBridge
