import AdbBridge.Executor.Child

namespace AdbBridge
namespace Executor

open Library

/-!
# `exec_run`: capturing the output of a command

The parent's loop is `select`, one read of each descriptor that `select`
reported, then `waitpid(WNOHANG)`; a timeout goes to `waitpid` directly.  The
child writes and exits between any two of these steps.  The loop is left as
soon as `waitpid` returns the child, and the parent then closes its read ends.

The condition under which nothing is lost is therefore a condition on the
pipes at the instant of the successful `waitpid`.
-/

namespace Capture

/-- `EXEC_MAX_OUTPUT`: captured bytes per stream. -/
def execMaxOutput : Nat := 10 * 1024 * 1024

/-- `sizeof(buf)` of the read buffer. -/
def bufSize : Nat := 65536

/-- Where the parent stands in its loop. -/
inductive Pc where
  | select
  | readOut (errReady : Bool)
  | readErr
  | wait
  | done
deriving DecidableEq, Repr

/-- The locals of `exec_run` that the loop uses, the two pipes and the child. -/
structure State where
  pc : Pc
  out : OutputPipe
  err : OutputPipe
  child : ChildState
  stdoutData : List UInt8
  stderrData : List UInt8
  exitCode : Int
deriving DecidableEq, Repr

/-- The state after `fork` with the result zeroed by `memset`. -/
def start : State := ⟨.select, .fresh, .fresh, .running, [], [], 0⟩

/-- What can happen next: a step of the child, or the parent's next system
call with its result. -/
inductive Event where
  | childWrite (isErr : Bool) (block : List UInt8)
  | childExit (status : WaitStatus)
  | selectReady (outReady errReady : Bool)
  | selectTimeout
  | selectError
  | read (count : Nat)
  | waitpid (reaps : Bool)
deriving DecidableEq, Repr

/-- The append of a read of `bytes` to captured data: what exceeds
`EXEC_MAX_OUTPUT` is cut off. -/
def capture (data bytes : List UInt8) : List UInt8 :=
  if execMaxOutput < data.length + bytes.length then
    data ++ bytes.take (execMaxOutput - data.length)
  else data ++ bytes

/-- `WIFEXITED(w) ? WEXITSTATUS(w) : -1`. -/
def exitCodeOf : WaitStatus -> Int
  | .exited code => code.toNat
  | .signaled _ => -1

/-- One step of the child or of the parent. -/
def step (state : State) : Event -> Option State
  | .childWrite isErr block =>
      match state.child with
      | .running =>
          if isErr then (state.err.write block).map (fun pipe => { state with err := pipe })
          else (state.out.write block).map (fun pipe => { state with out := pipe })
      | _ => none
  | .childExit status =>
      match state.child with
      | .running =>
          some { state with child := .zombie status, out := state.out.close, err := state.err.close }
      | _ => none
  | .selectReady outReady errReady =>
      if state.pc = .select ∧ (outReady = true -> state.out.Readable) ∧
          (errReady = true -> state.err.Readable) then
        some { state with pc := if outReady then .readOut errReady else if errReady then .readErr else .wait }
      else none
  | .selectTimeout => if state.pc = .select then some { state with pc := .wait } else none
  | .selectError => if state.pc = .select then some { state with pc := .done } else none
  | .read count =>
      match state.pc with
      | .readOut errReady =>
          (state.out.read bufSize count).map (fun (bytes, pipe) =>
            { state with
              out := pipe, stdoutData := capture state.stdoutData bytes
              pc := if errReady then .readErr else .wait })
      | .readErr =>
          (state.err.read bufSize count).map (fun (bytes, pipe) =>
            { state with err := pipe, stderrData := capture state.stderrData bytes, pc := .wait })
      | _ => none
  | .waitpid reaps =>
      if state.pc = .wait then
        match reaps, state.child with
        | true, .zombie status =>
            some { state with child := .reaped, exitCode := exitCodeOf status, pc := .done }
        | true, _ => none
        | false, _ => some { state with pc := .select }
      else none

/-! ## What a captured stream holds -/

/-- The captured data of a stream is the cut of what its pipe delivered. -/
def Holds (data : List UInt8) (pipe : OutputPipe) : Prop :=
  Exists fun taken => pipe.Delivered taken ∧ data = taken.take execMaxOutput

/-- Cutting after every read is cutting the whole. -/
theorem capture_take (taken bytes : List UInt8) :
    capture (taken.take execMaxOutput) bytes = (taken ++ bytes).take execMaxOutput := by
  have length := List.length_take (i := execMaxOutput) (l := taken)
  by_cases full : execMaxOutput ≤ taken.length
  · have data : (taken.take execMaxOutput).length = execMaxOutput := by
      rw [length, Nat.min_eq_left full]
    have noRoom : bytes.take (execMaxOutput - (taken.take execMaxOutput).length) = [] := by
      rw [data, Nat.sub_self, List.take_zero]
    have whole : (taken ++ bytes).take execMaxOutput = taken.take execMaxOutput :=
      List.take_append_of_le_length full
    rw [capture, noRoom, whole, List.append_nil]
    split
    · rfl
    next fits =>
      have empty : bytes = [] := List.length_eq_zero_iff.mp (by omega)
      rw [empty, List.append_nil]
  · have short : taken.take execMaxOutput = taken :=
      List.take_of_length_le (Nat.le_of_not_le full)
    rw [short, capture, List.take_append, short]
    split
    · rfl
    next fits => rw [List.take_of_length_le (by omega : bytes.length ≤ execMaxOutput - taken.length)]

theorem Holds.write {data block : List UInt8} {pipe next : OutputPipe} (holds : Holds data pipe)
    (wrote : pipe.write block = some next) : Holds data next := by
  rcases holds with ⟨taken, delivered, cut⟩
  exact ⟨taken, delivered.write wrote, cut⟩

theorem Holds.read {data bytes : List UInt8} {pipe next : OutputPipe} {cap count : Nat}
    (holds : Holds data pipe) (got : pipe.read cap count = some (bytes, next)) :
    Holds (capture data bytes) next := by
  rcases holds with ⟨taken, delivered, cut⟩
  exact ⟨taken ++ bytes, delivered.read got, by rw [cut, capture_take]⟩

/-- A stream is captured up to the limit exactly when no byte was left in its
pipe, or the limit had been reached without those bytes. -/
theorem Holds.eq_take_iff {data : List UInt8} {pipe : OutputPipe} (holds : Holds data pipe) :
    data = pipe.written.take execMaxOutput ↔ pipe.unread = [] ∨ data.length = execMaxOutput := by
  rcases holds with ⟨taken, delivered, cut⟩
  have history : pipe.written = taken ++ pipe.unread := delivered
  constructor
  · intro complete
    by_cases empty : pipe.unread = []
    · exact Or.inl empty
    · have left : 0 < pipe.unread.length := List.length_pos_iff.mpr empty
      have lengths := congrArg List.length complete
      rw [history, List.length_take, List.length_append] at lengths
      have dataLength := congrArg List.length cut
      rw [List.length_take] at dataLength
      exact Or.inr (by omega)
  · intro enough
    rcases enough with empty | full
    · rw [cut, delivered.eq_written empty]
    · have long : execMaxOutput ≤ taken.length := by
        rw [cut, List.length_take] at full
        omega
      rw [cut, history, List.take_append_of_le_length long]

/-! ## The invariant of the loop -/

/-- Both streams hold what was read, and a reaped child means the loop was left. -/
structure Inv (state : State) : Prop where
  out : Holds state.stdoutData state.out
  err : Holds state.stderrData state.err
  left : state.child = .reaped -> state.pc = .done

theorem start_inv : Inv start where
  out := ⟨[], OutputPipe.delivered_fresh, rfl⟩
  err := ⟨[], OutputPipe.delivered_fresh, rfl⟩
  left := fun impossible => absurd impossible (by decide)

/-! ## The list of transitions -/

/-- The positions of a round after `select`. -/
def Pc.inRound : Pc -> Bool
  | .readOut _ | .readErr | .wait => true
  | _ => false

/-- What one event can do to a state. -/
inductive Transition (state : State) : Event -> State -> Prop where
  | writeOut (block : List UInt8) (pipe : OutputPipe) (running : state.child = .running)
      (wrote : state.out.write block = some pipe) :
      Transition state (.childWrite false block) { state with out := pipe }
  | writeErr (block : List UInt8) (pipe : OutputPipe) (running : state.child = .running)
      (wrote : state.err.write block = some pipe) :
      Transition state (.childWrite true block) { state with err := pipe }
  | exit (status : WaitStatus) (running : state.child = .running) :
      Transition state (.childExit status)
        { state with child := .zombie status, out := state.out.close, err := state.err.close }
  | selected (outReady errReady : Bool) (pc : Pc) (selecting : state.pc = .select)
      (goesOn : pc.inRound = true) :
      Transition state (.selectReady outReady errReady) { state with pc := pc }
  | timedOut (selecting : state.pc = .select) :
      Transition state .selectTimeout { state with pc := .wait }
  | selectFailed (selecting : state.pc = .select) :
      Transition state .selectError { state with pc := .done }
  | readOut (errReady : Bool) (count : Nat) (bytes : List UInt8) (pipe : OutputPipe) (pc : Pc)
      (reading : state.pc = .readOut errReady) (got : state.out.read bufSize count = some (bytes, pipe))
      (goesOn : pc.inRound = true) :
      Transition state (.read count)
        { state with out := pipe, stdoutData := capture state.stdoutData bytes, pc := pc }
  | readErr (count : Nat) (bytes : List UInt8) (pipe : OutputPipe) (reading : state.pc = .readErr)
      (got : state.err.read bufSize count = some (bytes, pipe)) :
      Transition state (.read count)
        { state with err := pipe, stderrData := capture state.stderrData bytes, pc := .wait }
  | reaps (status : WaitStatus) (waiting : state.pc = .wait) (zombie : state.child = .zombie status) :
      Transition state (.waitpid true)
        { state with child := .reaped, exitCode := exitCodeOf status, pc := .done }
  | notReaped (waiting : state.pc = .wait) :
      Transition state (.waitpid false) { state with pc := .select }

/-- Every step is one of the listed transitions. -/
theorem transition_of_step {state next : State} {event : Event}
    (taken : step state event = some next) : Transition state event next := by
  cases event with
  | childWrite isErr block =>
      cases child : state.child with
      | running =>
          cases isErr with
          | true =>
              simp only [step, child, if_true, Option.map_eq_some_iff] at taken
              rcases taken with ⟨pipe, wrote, same⟩
              rw [← child] at same
              exact same ▸ .writeErr block pipe child wrote
          | false =>
              simp only [step, child, Bool.false_eq_true, if_false, Option.map_eq_some_iff] at taken
              rcases taken with ⟨pipe, wrote, same⟩
              rw [← child] at same
              exact same ▸ .writeOut block pipe child wrote
      | zombie status => simp [step, child] at taken
      | reaped => simp [step, child] at taken
  | childExit status =>
      cases child : state.child with
      | running =>
          simp only [step, child] at taken
          exact Option.some.inj taken ▸ .exit status child
      | zombie status => simp [step, child] at taken
      | reaped => simp [step, child] at taken
  | selectReady outReady errReady =>
      rcases Option.ite_none_right_eq_some.mp taken with ⟨ready, same⟩
      refine Option.some.inj same ▸ .selected outReady errReady _ ready.1 ?_
      cases outReady with
      | true => rfl
      | false => cases errReady <;> rfl
  | selectTimeout =>
      rcases Option.ite_none_right_eq_some.mp taken with ⟨selecting, same⟩
      exact Option.some.inj same ▸ .timedOut selecting
  | selectError =>
      rcases Option.ite_none_right_eq_some.mp taken with ⟨selecting, same⟩
      exact Option.some.inj same ▸ .selectFailed selecting
  | read count =>
      cases pc : state.pc with
      | readOut errReady =>
          simp only [step, pc, Option.map_eq_some_iff] at taken
          rcases taken with ⟨⟨bytes, pipe⟩, got, same⟩
          refine same ▸ .readOut errReady count bytes pipe _ pc got ?_
          cases errReady <;> rfl
      | readErr =>
          simp only [step, pc, Option.map_eq_some_iff] at taken
          rcases taken with ⟨⟨bytes, pipe⟩, got, same⟩
          exact same ▸ .readErr count bytes pipe pc got
      | select => simp [step, pc] at taken
      | wait => simp [step, pc] at taken
      | done => simp [step, pc] at taken
  | waitpid reaps =>
      rcases Option.ite_none_right_eq_some.mp taken with ⟨waiting, taken⟩
      cases reaps with
      | true =>
          cases child : state.child with
          | zombie status =>
              simp only [child] at taken
              exact Option.some.inj taken ▸ .reaps status waiting child
          | running => simp [child] at taken
          | reaped => simp [child] at taken
      | false => exact Option.some.inj taken ▸ .notReaped waiting

/-- Everything one step can do to the streams and the child. -/
theorem step_cases {state next : State} {event : Event} (taken : step state event = some next) :
    (event = .waitpid true ∧ (Exists fun status => state.child = .zombie status ∧
        next = { state with child := .reaped, exitCode := exitCodeOf status, pc := .done })) ∨
      (event ≠ .waitpid true ∧ (state.child = .reaped -> next.child = .reaped) ∧
        (next.child = .reaped -> state.child = .reaped ∧ (state.pc = .done -> next.pc = .done)) ∧
        (Inv state -> Holds next.stdoutData next.out ∧ Holds next.stderrData next.err)) := by
  have moves : forall pc other : Pc, state.pc = pc -> pc ≠ .done -> state.pc = .done -> other = .done :=
    fun pc other at_ running left => absurd (at_.symm.trans left) running
  cases transition_of_step taken with
  | writeOut block pipe running wrote =>
      exact Or.inr ⟨nofun, id, fun gone => ⟨gone, id⟩, fun inv => ⟨inv.out.write wrote, inv.err⟩⟩
  | writeErr block pipe running wrote =>
      exact Or.inr ⟨nofun, id, fun gone => ⟨gone, id⟩, fun inv => ⟨inv.out, inv.err.write wrote⟩⟩
  | exit status running =>
      refine Or.inr ⟨nofun, fun gone => ?_, fun gone => absurd gone nofun, fun inv => ⟨inv.out, inv.err⟩⟩
      exact absurd (running.symm.trans gone) nofun
  | selected outReady errReady pc selecting goesOn =>
      exact Or.inr ⟨nofun, id, fun gone => ⟨gone, moves _ _ selecting nofun⟩,
        fun inv => ⟨inv.out, inv.err⟩⟩
  | timedOut selecting =>
      exact Or.inr ⟨nofun, id, fun gone => ⟨gone, moves _ _ selecting nofun⟩,
        fun inv => ⟨inv.out, inv.err⟩⟩
  | selectFailed selecting =>
      exact Or.inr ⟨nofun, id, fun gone => ⟨gone, fun _ => rfl⟩, fun inv => ⟨inv.out, inv.err⟩⟩
  | readOut errReady count bytes pipe pc reading got goesOn =>
      exact Or.inr ⟨nofun, id, fun gone => ⟨gone, moves _ _ reading nofun⟩,
        fun inv => ⟨inv.out.read got, inv.err⟩⟩
  | readErr count bytes pipe reading got =>
      exact Or.inr ⟨nofun, id, fun gone => ⟨gone, moves _ _ reading nofun⟩,
        fun inv => ⟨inv.out, inv.err.read got⟩⟩
  | reaps status waiting zombie => exact Or.inl ⟨rfl, status, zombie, rfl⟩
  | notReaped waiting =>
      exact Or.inr ⟨nofun, id, fun gone => ⟨gone, moves _ _ waiting nofun⟩,
        fun inv => ⟨inv.out, inv.err⟩⟩

/-- One step keeps the invariant. -/
theorem step_inv {state next : State} {event : Event} (taken : step state event = some next)
    (inv : Inv state) : Inv next := by
  rcases step_cases taken with ⟨_, status, _, same⟩ | ⟨_, _, reaped, streams⟩
  · subst same
    exact ⟨inv.out, inv.err, fun _ => rfl⟩
  · have kept := streams inv
    exact ⟨kept.1, kept.2, fun gone => (reaped gone).2 (inv.left (reaped gone).1)⟩

/-- After the child was reaped nothing happens any more. -/
theorem no_step_after_reaped {state next : State} {event : Event} (inv : Inv state)
    (gone : state.child = .reaped) : step state event ≠ some next := by
  have left := inv.left gone
  intro taken
  cases transition_of_step taken <;> simp_all

/-! ## Complete capture -/

/-- The result holds the output of both streams up to the limit. -/
def Complete (state : State) : Prop :=
  state.stdoutData = state.out.written.take execMaxOutput ∧
    state.stderrData = state.err.written.take execMaxOutput

/-- Each pipe is empty, or its stream has reached the limit. -/
def Drained (state : State) : Prop :=
  (state.out.unread = [] ∨ state.stdoutData.length = execMaxOutput) ∧
    (state.err.unread = [] ∨ state.stderrData.length = execMaxOutput)

instance (state : State) : Decidable (Drained state) := inferInstanceAs (Decidable (_ ∧ _))

theorem complete_iff_drained {state : State} (inv : Inv state) : Complete state ↔ Drained state :=
  and_congr inv.out.eq_take_iff inv.err.eq_take_iff

/-- The condition on a step: when `waitpid` returns the child, the pipes are drained. -/
def DrainedWhenReaped (state : State) (event : Event) : Prop :=
  event = .waitpid true -> Drained state

instance (state : State) (event : Event) : Decidable (DrainedWhenReaped state event) :=
  inferInstanceAs (Decidable (_ -> _))

/-- The reaping step leaves the streams alone and nothing follows it, so its
condition can be read off the final state. -/
theorem drainedWhenReaped_iff {state final : State} {events : List Event} (inv : Inv state)
    (alive : state.child ≠ .reaped) (run : Machine.exec step state events = some final)
    (gone : final.child = .reaped) :
    Machine.AllSteps step DrainedWhenReaped state events ↔ Drained final := by
  have early : forall state event next, Inv state -> ¬ state.child = .reaped ->
      step state event = some next -> ¬ next.child = .reaped -> DrainedWhenReaped state event := by
    rintro state event next _ _ taken notGone rfl
    cases transition_of_step taken with
    | reaps status waiting zombie => exact absurd rfl notGone
  have crossing : forall state event next, Inv state -> ¬ state.child = .reaped ->
      step state event = some next -> next.child = .reaped ->
        (DrainedWhenReaped state event ↔ Drained next) := by
    intro state event next _ alive taken gone
    cases transition_of_step taken with
    | reaps status waiting zombie => exact ⟨fun met => met rfl, fun drained _ => drained⟩
    | exit status running => exact absurd gone nofun
    | _ => exact absurd gone alive
  exact Machine.allSteps_iff_of_crossing (fun _ _ _ => step_inv) early crossing
    (fun _ _ _ inv gone taken => absurd taken (no_step_after_reaped inv gone)) inv alive run gone

/-- A call of `exec_run` that reaped its child returns the complete output,
up to the limit, exactly when the pipes were drained at the instant of the
successful `waitpid`. -/
theorem execRun_complete_iff {events : List Event} {final : State}
    (run : Machine.exec step start events = some final) (reaped : final.child = .reaped) :
    Complete final ↔ Machine.AllSteps step DrainedWhenReaped start events := by
  have inv : Inv final := Machine.invariant_exec (fun _ _ _ => step_inv) run start_inv
  rw [complete_iff_drained inv, drainedWhenReaped_iff start_inv (by decide) run reaped]

/-- A run in which the output is read before the child exits. -/
theorem execRun_complete_iff_hello :
    Complete ⟨.done, ⟨[], [104, 105], true⟩, ⟨[], [], true⟩, .reaped, [104, 105], [], 0⟩ :=
  (execRun_complete_iff
    (by decide : Machine.exec step start
      [.childWrite false [104, 105], .selectReady true false, .read 2, .waitpid false,
        .childExit (.exited 0), .selectTimeout, .waitpid true] = some _) rfl).mpr (by decide)

/-- The losing window: `select` reports stdout only, then the child writes its
last line to stderr and exits before the `waitpid` of the same round. -/
theorem execRun_loses_tail : Exists fun final =>
    Machine.exec step start
      [.childWrite false [104, 105], .selectReady true false, .childWrite true [33],
        .childExit (.exited 3), .read 2, .waitpid true] = some final ∧
      final.child = .reaped ∧ final.pc = .done ∧ final.exitCode = 3 ∧ ¬ Complete final := by
  refine ⟨⟨.done, ⟨[], [104, 105], true⟩, ⟨[33], [33], true⟩, .reaped, [104, 105], [], 3⟩,
    by decide, rfl, rfl, rfl, ?_⟩
  intro complete
  have lost : ([] : List UInt8) = [33] := complete.2
  exact absurd lost (by decide)

/-! ## What a call returns -/

/-- A result of `exec_run`: the state in which some run leaves the loop. -/
def Produced (result : State) : Prop :=
  Exists fun events => Machine.exec step start events = some result ∧ result.pc = .done

/-- What was read from a pipe, up to the limit. -/
def captured (pipe : OutputPipe) : List UInt8 :=
  (pipe.written.take (pipe.written.length - pipe.unread.length)).take execMaxOutput

theorem Holds.eq_captured {data : List UInt8} {pipe : OutputPipe} (holds : Holds data pipe) :
    data = captured pipe := by
  rcases holds with ⟨taken, delivered, cut⟩
  have history : pipe.written = taken ++ pipe.unread := delivered
  have count : pipe.written.length - pipe.unread.length = taken.length := by
    rw [history, List.length_append, Nat.add_sub_cancel]
  rw [cut, captured, count, history, List.take_left]

theorem Holds.length_le {data : List UInt8} {pipe : OutputPipe} (holds : Holds data pipe) :
    data.length ≤ execMaxOutput := by
  rcases holds with ⟨taken, _, cut⟩
  rw [cut]
  exact List.length_take_le _ _

/-- The result holds what was captured of both streams. -/
theorem Produced.inv {result : State} (produced : Produced result) : Inv result := by
  rcases produced with ⟨events, run, _⟩
  exact Machine.invariant_exec (fun _ _ _ => step_inv) run start_inv

/-- The exit code is that of a process, or -1. -/
theorem Produced.exitCode_range {result : State} (produced : Produced result) :
    -1 ≤ result.exitCode ∧ result.exitCode < 256 := by
  rcases produced with ⟨events, run, _⟩
  have preserved : forall state event next, step state event = some next ->
      -1 ≤ state.exitCode ∧ state.exitCode < 256 -> -1 ≤ next.exitCode ∧ next.exitCode < 256 := by
    intro state event next taken range
    cases transition_of_step taken with
    | reaps status waiting zombie =>
        cases status with
        | exited code =>
            have small := code.toNat_lt
            change -1 ≤ (code.toNat : Int) ∧ (code.toNat : Int) < 256
            omega
        | signaled signal => exact (by decide : -1 ≤ (-1 : Int) ∧ (-1 : Int) < 256)
    | _ => exact range
  exact Machine.invariant_exec preserved run (by decide)

end Capture
end Executor
end AdbBridge
