import AdbBridge.Executor.Capture
import AdbBridge.Executor.PipeSteps
import AdbBridge.Executor.Streaming

namespace AdbBridge
namespace Executor

open Library

/-!
# The exit codes of the three executors

A child terminates once, with a status; `WaitStatus.code` is the number the three
executors are to report for it.  Each of them has its own loop around `waitpid`, its own
ways out of the loop without it, and its own number for these.

What the child did is read off the events of the run, since a reaped child has no
status any more.
-/

/-- The reported number is the code of the status the child left. -/
def IsCodeOf (status : Option WaitStatus) (code : Int) : Prop :=
  Exists fun left => status = some left ∧ code = left.code

/-- -1 is the code of a child killed by the signal 1, and of no other child. -/
theorem isCodeOf_neg_one_iff {status : Option WaitStatus} :
    IsCodeOf status (-1) ↔ status = some (.signaled 1) := by
  constructor
  · rintro ⟨left, isLeft, same⟩
    cases left with
    | exited code =>
        have negative : (-1 : Int) = code.toNat := same
        omega
    | signaled signal =>
        have one : (-1 : Int) = -(signal : Int) := same
        have isOne : signal = 1 := by omega
        rw [isLeft, isOne]
  · rintro rfl
    exact ⟨_, rfl, rfl⟩

/-! ## What the events tell about the child -/

section Watching

variable {State Event : Type}

/-- The status of the first event that terminates the child. -/
def terminated (exits : Event -> Option WaitStatus) (events : List Event) : Option WaitStatus :=
  events.findSome? exits

/-- The child runs as long as no event terminated it; then it is a zombie with that
status, until it is reaped. -/
def Tracks (status : Option WaitStatus) : ChildState -> Prop
  | .running => status = none
  | .zombie left => status = some left
  | .reaped => status.isSome = true

/-- How a step changes the child: an exit makes a running child a zombie, and the others
leave it alone or reap a zombie. -/
def Advances (exit : Option WaitStatus) (before after : ChildState) : Prop :=
  match exit with
  | some status => before = .running ∧ after = .zombie status
  | none => after = before ∨ Exists fun status => before = .zombie status ∧ after = .reaped

theorem terminated_append (exits : Event -> Option WaitStatus) (past : List Event) (event : Event) :
    terminated exits (past ++ [event]) = (terminated exits past).or (exits event) := by
  rw [terminated, List.findSome?_append]
  simp [terminated]

/-- What the events tell stays true. -/
theorem Tracks.step {exits : Event -> Option WaitStatus} {past : List Event} {event : Event}
    {before after : ChildState} (tracks : Tracks (terminated exits past) before)
    (advances : Advances (exits event) before after) :
    Tracks (terminated exits (past ++ [event])) after := by
  rw [terminated_append]
  cases exit : exits event with
  | some status =>
      rw [exit] at advances
      rcases advances with ⟨rfl, rfl⟩
      have none : terminated exits past = none := tracks
      rw [none]
      rfl
  | none =>
      rw [exit] at advances
      rw [Option.or_none]
      rcases advances with rfl | ⟨status, rfl, rfl⟩
      · exact tracks
      · have known : terminated exits past = some status := tracks
        rw [known]
        rfl

end Watching

/-! ## `exec_run` -/

namespace Capture

/-- The status of the child an event terminates. -/
def Event.exits : Event -> Option WaitStatus
  | .childExit status => some status
  | _ => none

/-- The call returns 0 with its last step, and reports the code. -/
def Reports (events : List Event) (last : Event) (code : Int) : Prop :=
  Exists fun before => Exists fun final =>
    Machine.exec step start events = some before ∧ before.pc ≠ .done ∧
      step before last = some final ∧ final.pc = .done ∧ final.exitCode = code

/-- A call that ends with `waitpid` reports the code unless a signal other than 1 killed
the child.  One that ends with a failing `select` reports it if that code is 0. -/
def Tells (status : Option WaitStatus) (last : Event) : Prop :=
  match last with
  | .selectError => status = some (.exited 0) ∨ status = some (.signaled 0)
  | _ => forall signal, status = some (.signaled signal) -> signal = 1

variable {state next : State} {event last : Event} {events : List Event} {code : Int}

/-- A step moves the child on, and until the loop is left the code is the 0 of `memset`. -/
theorem step_child (taken : step state event = some next) :
    Advances event.exits state.child next.child ∧
      ((state.exitCode = 0 ∨ state.pc = .done) -> (next.exitCode = 0 ∨ next.pc = .done)) := by
  have keeps : forall pc : Pc, state.pc = pc -> pc ≠ .done ->
      (state.exitCode = 0 ∨ state.pc = .done) -> state.exitCode = 0 :=
    fun pc at_ running held => held.resolve_right (fun left => running (at_.symm.trans left))
  cases transition_of_step taken with
  | writeOut block pipe running wrote => exact ⟨Or.inl rfl, id⟩
  | writeErr block pipe running wrote => exact ⟨Or.inl rfl, id⟩
  | exit status running => exact ⟨⟨running, rfl⟩, id⟩
  | selected outReady errReady pc selecting goesOn =>
      exact ⟨Or.inl rfl, fun held => Or.inl (keeps _ selecting nofun held)⟩
  | timedOut selecting => exact ⟨Or.inl rfl, fun held => Or.inl (keeps _ selecting nofun held)⟩
  | selectFailed selecting => exact ⟨Or.inl rfl, fun _ => Or.inr rfl⟩
  | readOut errReady count bytes pipe pc reading got goesOn =>
      exact ⟨Or.inl rfl, fun held => Or.inl (keeps _ reading nofun held)⟩
  | readErr count bytes pipe reading got =>
      exact ⟨Or.inl rfl, fun held => Or.inl (keeps _ reading nofun held)⟩
  | reaps status waiting zombie => exact ⟨Or.inr ⟨status, zombie, rfl⟩, fun _ => Or.inr rfl⟩
  | notReaped waiting => exact ⟨Or.inl rfl, fun held => Or.inl (keeps _ waiting nofun held)⟩

theorem history_of_exec (run : Machine.exec step start events = some state) :
    Tracks (terminated Event.exits events) state.child ∧ (state.exitCode = 0 ∨ state.pc = .done) := by
  have preserved : forall past state event next, step state event = some next ->
      (Tracks (terminated Event.exits past) state.child ∧ (state.exitCode = 0 ∨ state.pc = .done)) ->
      (Tracks (terminated Event.exits (past ++ [event])) next.child ∧
        (next.exitCode = 0 ∨ next.pc = .done)) := by
    intro past state event next taken held
    rcases step_child taken with ⟨advances, kept⟩
    exact ⟨held.1.step advances, kept held.2⟩
  have begins : Tracks (terminated Event.exits []) start.child ∧
      (start.exitCode = 0 ∨ start.pc = .done) := ⟨rfl, Or.inl rfl⟩
  exact Machine.history_exec preserved run begins

/-- The steps that leave the loop. -/
theorem step_leaves (taken : step state event = some next) (running : state.pc ≠ .done)
    (left : next.pc = .done) :
    (event = .selectError ∧ next.exitCode = state.exitCode) ∨
      (event = .waitpid true ∧ Exists fun status =>
        state.child = .zombie status ∧ next.exitCode = exitCodeOf status) := by
  cases transition_of_step taken with
  | selectFailed selecting => exact Or.inl ⟨rfl, rfl⟩
  | reaps status waiting zombie => exact Or.inr ⟨rfl, status, zombie, rfl⟩
  | writeOut | writeErr | exit => exact absurd left running
  | selected outReady errReady pc selecting goesOn =>
      have isDone : pc = .done := left
      exact absurd (isDone ▸ goesOn) nofun
  | readOut errReady count bytes pipe pc reading got goesOn =>
      have isDone : pc = .done := left
      exact absurd (isDone ▸ goesOn) nofun
  | timedOut | readErr | notReaped => exact absurd left nofun

theorem reports_iff (reports : Reports events last code) :
    IsCodeOf (terminated Event.exits events) code ↔ Tells (terminated Event.exits events) last := by
  rcases reports with ⟨before, final, run, running, taken, left, isCode⟩
  rcases history_of_exec run with ⟨tracks, initial⟩
  have zero : before.exitCode = 0 := initial.resolve_right running
  rcases step_leaves taken running left with ⟨rfl, kept⟩ | ⟨rfl, status, zombie, decoded⟩
  · rw [← isCode, kept, zero]
    constructor
    · rintro ⟨status, known, same⟩
      cases status with
      | exited exitCode =>
          have isZero : (0 : Int) = exitCode.toNat := same
          have none : exitCode = 0 := UInt8.toNat_inj.mp (by rw [UInt8.toNat_zero]; omega)
          exact Or.inl (none ▸ known)
      | signaled signal =>
          have isZero : (0 : Int) = -(signal : Int) := same
          have none : signal = 0 := by omega
          exact Or.inr (none ▸ known)
    · rintro (known | known)
      · exact ⟨_, known, rfl⟩
      · exact ⟨_, known, rfl⟩
  · rw [zombie] at tracks
    have known : terminated Event.exits events = some status := tracks
    rw [← isCode, decoded, known]
    constructor
    · rintro ⟨left, isLeft, same⟩ signal killed
      rw [← Option.some.inj isLeft, Option.some.inj killed] at same
      have one : (-1 : Int) = -(signal : Int) := same
      omega
    · intro tells
      refine ⟨status, rfl, ?_⟩
      cases status with
      | exited exitCode => rfl
      | signaled signal => rw [tells signal rfl]; rfl

end Capture

/-! ## `exec_run_stream` -/

namespace Streaming

/-- The status of the child an event terminates. -/
def Event.exits : Event -> Option WaitStatus
  | .childExit status => some status
  | _ => none

/-- The call returns the code with its last step. -/
def Reports (events : List Event) (last : Event) (code : Int) : Prop :=
  Exists fun before => Exists fun final =>
    Machine.exec step start events = some before ∧ before.pc ≠ .done ∧
      step before last = some final ∧ final.pc = .done ∧ final.exitCode = code

/-- A call that ends with a successful `waitpid` reports the code; one that ends otherwise
reports it if the signal 1 killed the child. -/
def Tells (status : Option WaitStatus) (last : Event) : Prop :=
  last = .waitpid .reaped ∨ status = some (.signaled 1)

variable {state next : State} {event last : Event} {events : List Event} {code : Int}

/-- A step moves the child on, and until the loop is left the code is -1. -/
theorem step_child (taken : step state event = some next) :
    Advances event.exits state.child next.child ∧
      ((state.exitCode = -1 ∨ state.pc = .done) -> (next.exitCode = -1 ∨ next.pc = .done)) := by
  have keeps : forall pc : Pc, state.pc = pc -> pc ≠ .done ->
      (state.exitCode = -1 ∨ state.pc = .done) -> state.exitCode = -1 :=
    fun pc at_ running held => held.resolve_right (fun left => running (at_.symm.trans left))
  cases transition_of_step taken with
  | writeOut | writeErr | closeOut | closeErr => exact ⟨Or.inl rfl, id⟩
  | exit status running => exact ⟨⟨running, rfl⟩, id⟩
  | pollFailed polling => exact ⟨Or.inl rfl, fun _ => Or.inr rfl⟩
  | polled outIn errIn pc polling goesOn =>
      exact ⟨Or.inl rfl, fun held => Or.inl (keeps _ polling nofun held)⟩
  | readOut errReady count bytes pipe reading got some =>
      exact ⟨Or.inl rfl, fun held => Or.inl (keeps _ reading nofun held)⟩
  | readErr count bytes pipe reading got some =>
      exact ⟨Or.inl rfl, fun held => Or.inl (keeps _ reading nofun held)⟩
  | readNothing count pc reading goesOn =>
      refine ⟨Or.inl rfl, fun held => Or.inl (keeps _ rfl (fun left => ?_) held)⟩
      exact absurd (left ▸ reading) nofun
  | accepted pc calling goesOn =>
      refine ⟨Or.inl rfl, fun held => Or.inl (keeps _ rfl (fun left => ?_) held)⟩
      exact absurd (left ▸ calling) nofun
  | refused calling =>
      refine ⟨Or.inl rfl, fun held => Or.inl (keeps _ rfl (fun left => ?_) held)⟩
      exact absurd (left ▸ calling) nofun
  | reaps status waiting zombie => exact ⟨Or.inr ⟨status, zombie, rfl⟩, fun _ => Or.inr rfl⟩
  | notReaped waiting running => exact ⟨Or.inl rfl, fun held => Or.inl (keeps _ waiting nofun held)⟩
  | waitFailed waiting => exact ⟨Or.inl rfl, fun _ => Or.inr rfl⟩
  | killed killing => exact ⟨Or.inl rfl, fun _ => Or.inr rfl⟩

theorem history_of_exec (run : Machine.exec step start events = some state) :
    Tracks (terminated Event.exits events) state.child ∧ (state.exitCode = -1 ∨ state.pc = .done) := by
  have preserved : forall past state event next, step state event = some next ->
      (Tracks (terminated Event.exits past) state.child ∧ (state.exitCode = -1 ∨ state.pc = .done)) ->
      (Tracks (terminated Event.exits (past ++ [event])) next.child ∧
        (next.exitCode = -1 ∨ next.pc = .done)) := by
    intro past state event next taken held
    rcases step_child taken with ⟨advances, kept⟩
    exact ⟨held.1.step advances, kept held.2⟩
  have begins : Tracks (terminated Event.exits []) start.child ∧
      (start.exitCode = -1 ∨ start.pc = .done) := ⟨rfl, Or.inl rfl⟩
  exact Machine.history_exec preserved run begins

/-- The steps that leave the loop. -/
theorem step_leaves (taken : step state event = some next) (running : state.pc ≠ .done)
    (left : next.pc = .done) :
    (event ≠ .waitpid .reaped ∧ next.exitCode = state.exitCode) ∨
      (event = .waitpid .reaped ∧ Exists fun status =>
        state.child = .zombie status ∧ next.exitCode = status.code) := by
  cases transition_of_step taken with
  | reaps status waiting zombie =>
      refine Or.inr ⟨rfl, status, zombie, ?_⟩
      cases status <;> rfl
  | pollFailed | waitFailed | killed => exact Or.inl ⟨nofun, rfl⟩
  | writeOut | writeErr | closeOut | closeErr | exit => exact absurd left running
  | polled outIn errIn pc polling goesOn =>
      have isDone : pc = .done := left
      exact absurd (isDone ▸ goesOn) nofun
  | readNothing count pc reading goesOn =>
      have isDone : pc = .done := left
      exact absurd (isDone ▸ goesOn) nofun
  | accepted pc calling goesOn =>
      have isDone : pc = .done := left
      exact absurd (isDone ▸ goesOn) nofun
  | readOut | readErr | refused | notReaped => exact absurd left nofun

theorem reports_iff (reports : Reports events last code) :
    IsCodeOf (terminated Event.exits events) code ↔ Tells (terminated Event.exits events) last := by
  rcases reports with ⟨before, final, run, running, taken, left, isCode⟩
  rcases history_of_exec run with ⟨tracks, initial⟩
  have minusOne : before.exitCode = -1 := initial.resolve_right running
  rcases step_leaves taken running left with ⟨other, kept⟩ | ⟨reaping, status, zombie, decoded⟩
  · rw [← isCode, kept, minusOne, isCodeOf_neg_one_iff]
    exact ⟨Or.inr, fun tells => tells.resolve_left other⟩
  · rw [zombie] at tracks
    have known : terminated Event.exits events = some status := tracks
    exact ⟨fun _ => Or.inl reaping, fun _ => ⟨status, known, isCode.symm.trans decoded⟩⟩

end Streaming

/-! ## `exec_run_pipe` -/

namespace PipeLoop

/-- The status of the child an event terminates. -/
def Event.exits : Event -> Option WaitStatus
  | .childExit status => some status
  | _ => none

/-- The exit event is sent from the given state and carries the code. -/
def Reports (call : Call) (incoming : List UInt8) (events : List Event) (before : State)
    (code : Int) : Prop :=
  call.raw = false ∧ Machine.exec (step call) (call.start incoming) events = some before ∧
    before.pc = .terminate ∧ before.loop.exitCode = code ∧
      Exists fun final => step call before (.finalWrite .all) = some final ∧
        final.delivered = before.delivered ++ termination call code

/-- The code is reported if the loop reaped the child, and it was not left for `kill`; or
else if the signal 1 killed the child. -/
def Tells (status : Option WaitStatus) (before : State) : Prop :=
  before.loop.childExited = true ∨ status = some (.signaled 1)

variable {call : Call} {incoming : List UInt8} {state next before : State} {event : Event}
  {events : List Event} {code : Int}

/-- What the loop knows of the child: the code of its status once `waitpid` returned it
in the loop, and -1 as long as it did not. -/
structure Knows (status : Option WaitStatus) (state : State) : Prop where
  tracks : Tracks status state.child
  reaped : state.loop.childExited = true -> IsCodeOf status state.loop.exitCode
  unknown : state.loop.childExited = false -> state.loop.exitCode = -1
  killing : state.pc = .kill -> state.loop.childExited = false

/-- It knows the same when the child, the code and the two flags are the same. -/
theorem Knows.congr {status : Option WaitStatus} (knows : Knows status state)
    (child : next.child = state.child) (exited : next.loop.childExited = state.loop.childExited)
    (exitCode : next.loop.exitCode = state.loop.exitCode)
    (killing : next.pc = .kill -> state.loop.childExited = false) : Knows status next where
  tracks := child ▸ knows.tracks
  reaped := by rw [exited, exitCode]; exact knows.reaped
  unknown := by rw [exited, exitCode]; exact knows.unknown
  killing := by rw [exited]; exact killing

theorem closeStdin_child (loop : Loop) :
    loop.closeStdin.childExited = loop.childExited ∧ loop.closeStdin.exitCode = loop.exitCode := by
  unfold Loop.closeStdin
  split <;> exact ⟨rfl, rfl⟩

theorem output_child (call : Call) (isErr : Bool) (loop : Loop) (bytes : List UInt8) :
    (loop.output call isErr bytes).childExited = loop.childExited ∧
      (loop.output call isErr bytes).exitCode = loop.exitCode := by
  unfold Loop.output
  split_ifs <;> exact ⟨rfl, rfl⟩

theorem accept_child (call : Call) (loop : Loop) (bytes : List UInt8) :
    (loop.accept call bytes).childExited = loop.childExited ∧
      (loop.accept call bytes).exitCode = loop.exitCode := by
  rcases accept_eq_withReader call loop bytes with ⟨_, _, _, _, _, same⟩
  rw [same]
  exact ⟨rfl, rfl⟩

theorem Knows.rest {status : Option WaitStatus} {ready : Ready} (knows : Knows status state)
    (rest : Rest ready state next) : Knows status next := by
  cases rest with
  | next pc wantRead wantWrite within =>
      refine knows.congr rfl rfl rfl (fun killing => ?_)
      have isKill : pc = .kill := killing
      rw [isKill] at within
      exact absurd within id
  | last pc wantRead wantWrite ends =>
      have kept := closeStdin_child state.loop
      refine knows.congr rfl kept.1 kept.2 (fun killing => ?_)
      have isKill : pc = .kill := killing
      rw [isKill] at ends
      exact absurd ends (by simp)

theorem Knows.left {status : Option WaitStatus} (knows : Knows status state)
    (left : Left state next) : Knows status next := by
  cases left with
  | kill running => exact knows.congr rfl rfl rfl (fun _ => running)
  | flush | terminate | failed => exact knows.congr rfl rfl rfl (fun killing => absurd killing nofun)

/-- The loop reaps a zombie, and learns its code. -/
theorem Knows.reaps {status : WaitStatus} {known : Option WaitStatus} (knows : Knows known state)
    (zombie : state.child = .zombie status) (running : state.pc ≠ .kill) :
    Knows known (state.reaped status) := by
  have tracks := knows.tracks
  rw [zombie] at tracks
  have isKnown : known = some status := tracks
  refine ⟨?_, fun _ => ⟨status, isKnown, ?_⟩, fun alive => absurd alive nofun, fun killing => ?_⟩
  · rw [isKnown]
    rfl
  · cases status <;> rfl
  · exact absurd killing running

/-- One step keeps what the loop knows. -/
theorem knows_step (past : List Event) (state : State) (event : Event) (next : State)
    (taken : step call state event = some next)
    (knows : Knows (terminated Event.exits past) state) :
    Knows (terminated Event.exits (past ++ [event])) next := by
  rw [terminated_append]
  have other : forall result : State, event.exits = none ->
      Knows (terminated Event.exits past) result ->
      Knows ((terminated Event.exits past).or event.exits) result := by
    intro result isOther knows
    rw [isOther, Option.or_none]
    exact knows
  have at_ : forall pc : Pc, state.pc = pc -> pc ≠ .kill -> state.pc ≠ .kill :=
    fun pc isPc notKill killing => notKill (isPc.symm.trans killing)
  cases transition_of_step taken with
  | writeOut | writeErr | closeOut | closeErr =>
      exact other _ rfl (knows.congr rfl rfl rfl knows.killing)
  | exit status running =>
      have tracks := knows.tracks
      rw [running] at tracks
      have unknown : terminated Event.exits past = none := tracks
      have alive : state.loop.childExited = false := by
        apply Bool.eq_false_iff.mpr
        intro exited
        rcases knows.reaped exited with ⟨left, isLeft, _⟩
        exact absurd (unknown.symm.trans isLeft) nofun
      rw [unknown, Option.none_or]
      exact ⟨rfl, fun exited => absurd (alive.symm.trans exited) nofun, knows.unknown, knows.killing⟩
  | interrupted pending top => exact other _ rfl knows
  | polled pending sslIn sslOut stdinOut outIn errIn next top outReadable errReadable rest =>
      exact other _ rfl (knows.rest rest)
  | pollFailed pending next top left => exact other _ rfl (knows.left left)
  | ended next top ends left => exact other _ rfl (knows.left left)
  | idle next top nothing exited left => exact other _ rfl (knows.left left)
  | waits top nothing running =>
      exact other _ rfl (knows.congr rfl rfl rfl (fun killing => absurd killing nofun))
  | sslGot ready count next isPc positive asked sent rest =>
      have kept := accept_child call state.loop (state.incoming.take count)
      refine other _ rfl (Knows.rest ?_ rest)
      exact knows.congr rfl kept.1 kept.2 knows.killing
  | sslWants ready result next isPc wants rest => exact other _ rfl (knows.rest rest)
  | sslReadFailed ready next isPc rest =>
      refine other _ rfl (Knows.rest ?_ rest)
      exact knows.congr rfl rfl rfl knows.killing
  | sslWrote ready count next isPc positive held rest =>
      refine other _ rfl (Knows.rest ?_ rest)
      exact knows.congr rfl rfl rfl knows.killing
  | sslWriteWants ready next isPc rest => exact other _ rfl (knows.rest rest)
  | sslWriteFailed ready next isPc left =>
      refine other _ rfl (Knows.left ?_ left)
      exact knows.congr rfl rfl rfl knows.killing
  | stdinWrote ready count next isPc positive held rest =>
      refine other _ rfl (Knows.rest ?_ rest)
      exact knows.congr rfl rfl rfl knows.killing
  | stdinAgain ready next isPc rest => exact other _ rfl (knows.rest rest)
  | stdinFailed ready next isPc rest =>
      refine other _ rfl (Knows.rest ?_ rest)
      exact knows.congr rfl rfl rfl knows.killing
  | readOut errIn count bytes pipe next isPc got rest =>
      have kept := output_child call false state.loop bytes
      refine other _ rfl (Knows.rest ?_ rest)
      exact knows.congr rfl kept.1 kept.2 (fun killing => absurd killing nofun)
  | readErr count bytes pipe next isPc got rest =>
      have kept := output_child call true state.loop bytes
      refine other _ rfl (Knows.rest ?_ rest)
      exact knows.congr rfl kept.1 kept.2 (fun killing => absurd killing nofun)
  | notReaped isPc => exact other _ rfl (knows.congr rfl rfl rfl (fun killing => absurd killing nofun))
  | reaps status isPc zombie =>
      have reaped := knows.reaps zombie (at_ _ isPc nofun)
      exact other _ rfl (reaped.congr rfl rfl rfl (fun killing => absurd killing nofun))
  | waitFailed next isPc left => exact other _ rfl (knows.left left)
  | waitReaps status next isPc zombie left =>
      exact other _ rfl ((knows.reaps zombie (at_ _ isPc nofun)).left left)
  | killUnreaped next isPc left =>
      have running := knows.killing isPc
      refine other _ rfl (Knows.left ?_ left)
      exact knows.congr rfl rfl (knows.unknown running).symm (fun _ => running)
  | killReaps status next isPc zombie left =>
      have running := knows.killing isPc
      have tracks := knows.tracks
      rw [zombie] at tracks
      have known : terminated Event.exits past = some status := tracks
      refine other _ rfl (Knows.left ?_ left)
      refine ⟨?_, fun exited => absurd (running.symm.trans exited) nofun, fun _ => rfl, fun _ => running⟩
      rw [known]
      rfl
  | flushed result bytes isPc accepted =>
      exact other _ rfl (knows.congr rfl rfl rfl (fun killing => absurd killing nofun))
  | terminated result bytes isPc accepted =>
      exact other _ rfl (knows.congr rfl rfl rfl (fun killing => absurd killing nofun))

theorem history_of_exec
    (run : Machine.exec (step call) (call.start incoming) events = some state) :
    Knows (terminated Event.exits events) state := by
  have begins : Knows (terminated Event.exits []) (call.start incoming) :=
    ⟨rfl, fun exited => absurd exited nofun, fun _ => rfl, fun killing => absurd killing nofun⟩
  exact Machine.history_exec knows_step run begins

theorem reports_iff (reports : Reports call incoming events before code) :
    IsCodeOf (terminated Event.exits events) code ↔
      Tells (terminated Event.exits events) before := by
  rcases reports with ⟨_, run, _, isCode, _⟩
  have knows := history_of_exec run
  rw [← isCode]
  by_cases exited : before.loop.childExited = true
  · exact ⟨fun _ => Or.inl exited, fun _ => knows.reaped exited⟩
  · have running : before.loop.childExited = false := Bool.eq_false_iff.mpr exited
    rw [knows.unknown running, isCodeOf_neg_one_iff]
    exact ⟨Or.inr, fun tells => tells.resolve_left exited⟩

end PipeLoop

/-! ## The three executors -/

/-- A call of one of the three executors, up to the step that decides what it reports. -/
inductive Run where
  | execRun (events : List Capture.Event) (last : Capture.Event)
  | execRunStream (events : List Streaming.Event) (last : Streaming.Event)
  | execRunPipe (call : PipeLoop.Call) (incoming : List UInt8) (events : List PipeLoop.Event)
      (before : PipeLoop.State)

/-- The status the child has left, if it has terminated. -/
def Run.terminated : Run -> Option WaitStatus
  | .execRun events _ => Executor.terminated Capture.Event.exits events
  | .execRunStream events _ => Executor.terminated Streaming.Event.exits events
  | .execRunPipe _ _ events _ => Executor.terminated PipeLoop.Event.exits events

/-- The call ends without an error and reports the code. -/
def Run.Reports : Run -> Int -> Prop
  | .execRun events last, code => Capture.Reports events last code
  | .execRunStream events last, code => Streaming.Reports events last code
  | .execRunPipe call incoming events before, code => PipeLoop.Reports call incoming events before code

/-- The loop of the call ended well, or the number it reports otherwise is the code of the child. -/
def Run.Tells : Run -> Prop
  | .execRun events last => Capture.Tells (Executor.terminated Capture.Event.exits events) last
  | .execRunStream events last => Streaming.Tells (Executor.terminated Streaming.Event.exits events) last
  | .execRunPipe _ _ events before => PipeLoop.Tells (Executor.terminated PipeLoop.Event.exits events) before

/-- Each executor reports the code of its child exactly when its loop ended well, or
the number it reports otherwise happens to be that code. -/
theorem reported_exit_code_iff (run : Run) (code : Int) (reports : run.Reports code) :
    IsCodeOf run.terminated code ↔ run.Tells := by
  cases run with
  | execRun events last => exact Capture.reports_iff reports
  | execRunStream events last => exact Streaming.reports_iff reports
  | execRunPipe call incoming events before => exact PipeLoop.reports_iff reports

/-- A call without a body, in SSE mode. -/
def bareCall : PipeLoop.Call := ⟨0, false, false, fun _ => 0⟩

/-- The child closes its output, exits with 3 and is reaped in the same round. -/
def pipeEvents : List PipeLoop.Event :=
  [.childClose false, .childClose true, .childExit (.exited 3),
    .poll false (.ready false false false true true), .read 0, .read 0, .waitpid true, .leave]

/-- A child that exits with 3 is reported as it should by all three. -/
theorem reported_exit_code_iff_exited :
    IsCodeOf (terminated Capture.Event.exits [.childExit (.exited 3), .selectTimeout]) 3 ∧
      IsCodeOf (terminated Streaming.Event.exits
        [.childExit (.exited 3), .poll (.ready false false)]) 3 ∧
      IsCodeOf (terminated PipeLoop.Event.exits pipeEvents) 3 := by
  refine ⟨?_, ?_, ?_⟩
  · refine (reported_exit_code_iff (.execRun _ (.waitpid true)) 3 ?_).mpr ?_
    · exact ⟨⟨.wait, .close .fresh, .close .fresh, .zombie (.exited 3), [], [], 0⟩,
        ⟨.done, .close .fresh, .close .fresh, .reaped, [], [], 3⟩, by decide⟩
    · intro signal killed
      exact absurd killed nofun
  · refine (reported_exit_code_iff (.execRunStream _ (.waitpid .reaped)) 3 ?_).mpr (Or.inl rfl)
    exact ⟨⟨.wait, .close .fresh, .close .fresh, .zombie (.exited 3), false, [], -1⟩,
      ⟨.done, .close .fresh, .close .fresh, .reaped, false, [], 3⟩, by decide⟩
  · refine (reported_exit_code_iff (.execRunPipe bareCall [] pipeEvents
      ((Machine.exec (PipeLoop.step bareCall) (bareCall.start []) pipeEvents).get (by decide))) 3
      ⟨rfl, (Option.some_get _).symm, by decide, by decide, ?_⟩).mpr (Or.inl (by decide))
    exact ⟨_, rfl, rfl⟩

/-- A child killed by `SIGKILL`: `exec_run` reports -1 and `exec_run_stream` -9. -/
theorem exec_run_reports_other_code_for_signal :
    Capture.Reports [.childExit (.signaled 9), .selectTimeout] (.waitpid true) (-1) ∧
      Streaming.Reports [.childExit (.signaled 9), .poll (.ready false false)] (.waitpid .reaped) (-9) ∧
      ¬ IsCodeOf (terminated Capture.Event.exits [.childExit (.signaled 9), .selectTimeout]) (-1) := by
  refine ⟨?_, ?_, ?_⟩
  · exact ⟨⟨.wait, .close .fresh, .close .fresh, .zombie (.signaled 9), [], [], 0⟩,
      ⟨.done, .close .fresh, .close .fresh, .reaped, [], [], -1⟩, by decide⟩
  · exact ⟨⟨.wait, .close .fresh, .close .fresh, .zombie (.signaled 9), false, [], -1⟩,
      ⟨.done, .close .fresh, .close .fresh, .reaped, false, [], -9⟩, by decide⟩
  · intro reported
    have killed := isCodeOf_neg_one_iff.mp reported
    exact absurd killed (by decide)

end Executor
end AdbBridge
