import AdbBridge.Executor.PipeSteps

namespace AdbBridge
namespace Executor
namespace PipeLoop

open Library

/-!
# The pipe loop behind its child

When the child has been reaped, both outputs are at their end and everything has been
sent, only the stdin pipe keeps `exec_run_pipe` in its loop.  Nobody reads this pipe any
more: what is in it stays there, `poll` reports `POLLERR` for it at once, `POLLOUT` as well
unless it is full, and a write fails.  The loop writes only on `POLLOUT`.

An iteration is paid for by a byte of the client, by the end of the body or by the failing
write.  The loop spins in a state from which nothing bounds the number of iterations.
-/

/-! ## The state and the steps in it -/

/-- Nothing is to be expected of the child any more. -/
structure Loop.Gone (loop : Loop) : Prop where
  exited : loop.childExited = true
  outDone : loop.stdoutDone = true
  errDone : loop.stderrDone = true
  sent : loop.sseBuf = []

/-- What can happen while nobody reads the stdin pipe, which is `full` or not.  `poll`
returns because a descriptor is reported, at once if bytes are pending in TLS.  `SSL_read`
may need to read more, and, on a connection where it `asks` for that, to write first. -/
def Iterates (full asks : Bool) (state : State) : Event -> Prop
  | .poll pending (.ready sslIn sslOut stdinOut outIn errIn) =>
      let ready := state.ready pending sslIn sslOut stdinOut outIn errIn
      stdinOut = !full ∧ (state.loop.pollsStdin || pending || ready.sslIn || ready.sslOut) = true
  | .poll _ _ => False
  | .sslRead result => result = .wantWrite -> asks = true
  | .stdinWrite result => result = .failed
  | .childWrite _ _ | .childClose _ | .childExit _ => False
  | _ => True

/-- Every iteration calls `poll` once. -/
def Event.iterations : Event -> Nat
  | .poll _ _ => 1
  | _ => 0

/-- An `SSL_read` that needs more of the client to make a byte. -/
def Event.wants : Event -> Nat
  | .sslRead .wantRead => 1
  | _ => 0

/-- Some byte to come reaches `stdin_buf`, which is empty: the body reader is fed with one
byte after the other, as far as it goes. -/
def Loop.brings (call : Call) : Loop -> List UInt8 -> Bool
  | _, [] => false
  | loop, byte :: rest =>
      let next := loop.accept call [byte]
      loop.reads && 0 < loop.readCap && (!next.stdinBuf.isEmpty || Loop.brings call next rest)

/-- The loop is left: the iterations are bounded but for those that wait for the rest of a
record, there is always a next step, and it ends with the stdin pipe closed. -/
structure LeavesLoop (call : Call) (full asks : Bool) (state : State) : Prop where
  bounded : Exists fun bound => forall events final,
    Machine.exec (step call) state events = some final ->
      Machine.AllSteps (step call) (Iterates full asks) state events ->
        (events.map Event.iterations).sum ≤ bound + (events.map Event.wants).sum
  goesOn : forall events final, Machine.exec (step call) state events = some final ->
    Machine.AllSteps (step call) (Iterates full asks) state events -> final.pc.leaving = false ->
      Exists fun event => Exists fun next => Iterates full asks final event ∧ step call final event = some next
  closes : forall events final, Machine.exec (step call) state events = some final ->
    Machine.AllSteps (step call) (Iterates full asks) state events -> final.pc.leaving = true ->
      final.loop.stdinClosed = true

/-- The stdin pipe is closed, or the write of what is buffered is attempted; if nothing is
buffered, no write of TLS is or gets wanted and what is to come can be written or does not
exist. -/
def Drains (call : Call) (full asks : Bool) (state : State) : Prop :=
  state.loop.stdinClosed = true ∨
    if state.loop.stdinBuf = [] then
      asks = false ∧ state.loop.sslWantWrite = false ∧
        (full = false ∨ state.loop.brings call state.incoming = false)
    else full = false

instance (call : Call) (full asks : Bool) (state : State) : Decidable (Drains call full asks state) :=
  inferInstanceAs (Decidable (_ ∨ _))

/-! ## What holds in every state of the loop -/

variable {call : Call} {state next : State} {event : Event} {full asks : Bool}

/-- The body reader enters its last state together with the end of the body. -/
def Loop.EofLast (loop : Loop) : Prop := loop.brState = .done ↔ loop.bodyEof = true

theorem Loop.EofLast.more {loop : Loop} (last : loop.EofLast) (reading : loop.brState ≠ .done) :
    loop.bodyEof = false :=
  Bool.eq_false_iff.mpr (fun eof => reading (last.mpr eof))

theorem headerByte_eofLast {loop : Loop} (reading : loop.bodyEof = false) (byte : UInt8)
    (other : loop.brState ≠ .done) :
    (loop.headerByte byte).bodyEof = false ∧ (loop.headerByte byte).brState ≠ .done := by
  unfold Loop.headerByte
  dsimp only
  split_ifs
  · exact ⟨reading, nofun⟩
  · exact ⟨reading, nofun⟩
  · exact ⟨reading, other⟩
  · exact ⟨reading, other⟩

theorem trailerByte_eofLast {loop : Loop} (last : loop.EofLast) (byte : UInt8) :
    (loop.trailerByte byte).EofLast := by
  unfold Loop.trailerByte
  split_ifs
  · split
    next trailer =>
      have reading : loop.bodyEof = false := last.more (by rw [trailer]; nofun)
      exact iff_of_false nofun (ne_true_of_eq_false reading)
    · exact iff_of_true rfl rfl
  · exact last

theorem accept_eofLast {loop : Loop} (last : loop.EofLast) (bytes : List UInt8) :
    (loop.accept call bytes).EofLast := by
  have trailing : forall bytes loop, Loop.EofLast loop -> (List.foldl Loop.trailerByte loop bytes).EofLast := by
    intro bytes
    induction bytes with
    | nil => exact fun loop last => last
    | cons byte rest inductionHypothesis =>
        exact fun loop last => inductionHypothesis _ (trailerByte_eofLast last byte)
  unfold Loop.accept
  split
  next header =>
    have heading : forall bytes (loop : Loop), loop.bodyEof = false -> loop.brState ≠ .done ->
        (List.foldl Loop.headerByte loop bytes).EofLast := by
      intro bytes
      induction bytes with
      | nil => exact fun loop reading other => iff_of_false other (ne_true_of_eq_false reading)
      | cons byte rest inductionHypothesis =>
          intro loop reading other
          rcases headerByte_eofLast reading byte other with ⟨stillReading, stillOther⟩
          exact inductionHypothesis _ stillReading stillOther
    have other : loop.brState ≠ .done := by rw [header]; nofun
    exact heading bytes loop (last.more other) other
  next data =>
    have reading : loop.bodyEof = false := last.more (by rw [data]; nofun)
    unfold Loop.EofLast Loop.dataBytes
    dsimp only
    rw [reading, Bool.false_or]
    by_cases through : loop.brRemaining - bytes.length = 0
    · rw [if_pos through]
      cases chunked : call.chunked <;> simp [through]
    · rw [if_neg through]
      simp [through]
  · exact trailing bytes loop last
  · exact trailing bytes loop last
  · exact last

/-- The end of the body is one state of its reader, an iteration ends with the stdin pipe
closed if the body is through, and an error of TLS ends the loop. -/
structure Consistent (state : State) : Prop where
  last : state.loop.EofLast
  noError : state.pc.leaving = false -> state.loop.sslError = false
  closedUp : state.pc = .top ∨ state.pc = .reap -> state.loop.bodyEof = true ->
    state.loop.stdinBuf = [] -> state.loop.stdinClosed = true

theorem start_consistent (call : Call) (incoming : List UInt8) : Consistent (call.start incoming) where
  last := beq_iff_eq.symm
  noError := fun _ => rfl
  closedUp := fun _ eof _ => eof

/-- The end of an iteration closes the stdin pipe if the body is through. -/
theorem closeStdin_closes (loop : Loop) (eof : loop.closeStdin.bodyEof = true)
    (empty : loop.closeStdin.stdinBuf = []) : loop.closeStdin.stdinClosed = true := by
  unfold Loop.closeStdin at eof empty ⊢
  split
  · rfl
  next stays =>
    rw [if_neg stays] at eof empty
    by_contra opened
    apply stays
    rw [eof, empty, Bool.eq_false_iff.mpr opened]
    rfl

theorem Consistent.rest {ready : Ready} {after : State} (rest : Rest ready after next)
    (last : after.loop.EofLast) (noError : after.loop.sslError = false) : Consistent next := by
  cases rest with
  | next pc wantRead wantWrite within =>
      refine ⟨last, fun _ => noError, fun ends => ?_⟩
      have impossible : pc = .top ∨ pc = .reap := ends
      rcases impossible with rfl | rfl <;> exact absurd within id
  | last pc wantRead wantWrite ends =>
      refine ⟨?_, fun _ => ?_, fun _ => closeStdin_closes after.loop⟩
      · unfold Loop.closeStdin
        split <;> exact last
      · unfold Loop.closeStdin
        split <;> exact noError

theorem Consistent.left {after : State} (left : Left after next) (last : after.loop.EofLast) :
    Consistent next := by
  cases left <;> exact ⟨last, nofun, nofun⟩

/-- One step keeps the state consistent. -/
theorem step_consistent (stepped : step call state event = some next) (inv : Consistent state) :
    Consistent next := by
  have noError : forall pc : Pc, state.pc = pc -> pc.leaving = false -> state.loop.sslError = false :=
    fun pc at_ running => inv.noError (not_leaving_of_eq at_ running)
  have output : forall isErr bytes, (state.loop.output call isErr bytes).EofLast ∧
      (state.loop.output call isErr bytes).sslError = state.loop.sslError := by
    intro isErr bytes
    unfold Loop.output
    split_ifs <;> exact ⟨inv.last, rfl⟩
  cases transition_of_step stepped with
  | writeOut | writeErr | closeOut | closeErr | exit => exact ⟨inv.last, inv.noError, inv.closedUp⟩
  | interrupted pending top => exact inv
  | polled pending sslIn sslOut stdinOut outIn errIn next top outReadable errReadable rest =>
      exact .rest rest inv.last (noError _ top rfl)
  | pollFailed pending next top left => exact .left left inv.last
  | ended next top ends left => exact .left left inv.last
  | idle next top nothing exited left => exact .left left inv.last
  | waits top nothing running => exact ⟨inv.last, nofun, nofun⟩
  | sslGot ready count next at_ positive asked sent rest =>
      refine .rest rest (accept_eofLast inv.last _) ?_
      rcases accept_eq_withReader call state.loop (state.incoming.take count) with ⟨_, _, _, _, _, same⟩
      dsimp only
      rw [same]
      exact noError _ at_ rfl
  | sslWants ready result next at_ wants rest => exact .rest rest inv.last (noError _ at_ rfl)
  | sslReadFailed ready next at_ rest => exact .rest rest (iff_of_true rfl rfl) (noError _ at_ rfl)
  | sslWrote ready count next at_ positive held rest => exact .rest rest inv.last (noError _ at_ rfl)
  | sslWriteWants ready next at_ rest => exact .rest rest inv.last (noError _ at_ rfl)
  | sslWriteFailed ready next at_ left => exact .left left inv.last
  | stdinWrote ready count next at_ positive held rest => exact .rest rest inv.last (noError _ at_ rfl)
  | stdinAgain ready next at_ rest => exact .rest rest inv.last (noError _ at_ rfl)
  | stdinFailed ready next at_ rest => exact .rest rest inv.last (noError _ at_ rfl)
  | readOut errIn count bytes pipe next at_ got rest =>
      exact .rest rest (output false bytes).1 ((output false bytes).2.trans (noError _ at_ rfl))
  | readErr count bytes pipe next at_ got rest =>
      exact .rest rest (output true bytes).1 ((output true bytes).2.trans (noError _ at_ rfl))
  | notReaped at_ =>
      exact ⟨inv.last, fun _ => noError _ at_ rfl, fun _ => inv.closedUp (Or.inr at_)⟩
  | reaps status at_ zombie =>
      exact ⟨inv.last, fun _ => noError _ at_ rfl, fun _ => inv.closedUp (Or.inr at_)⟩
  | waitFailed next at_ left => exact .left left inv.last
  | waitReaps status next at_ zombie left => exact .left left inv.last
  | killUnreaped next at_ left => exact .left left inv.last
  | killReaps status next at_ zombie left => exact .left left inv.last
  | flushed | terminated => exact ⟨inv.last, nofun, nofun⟩

/-! ## The iterations behind the child -/

/-- Without a read the iteration ends here. -/
theorem afterStdinWrite_ends {ready : Ready} (gone : state.loop.Gone) (noOut : ready.outIn = false)
    (noErr : ready.errIn = false) :
    state.afterStdinWrite ready = { state with pc := .top, loop := state.loop.closeStdin } := by
  simp only [State.afterStdinWrite, noOut, noErr, State.afterReads, gone.exited, if_true,
    Bool.false_eq_true, if_false]

/-- The iteration after the `SSL_read`: only the stdin pipe is left. -/
theorem afterSslRead_gone {ready : Ready} (gone : state.loop.Gone) (noOut : ready.outIn = false)
    (noErr : ready.errIn = false) :
    state.afterSslRead ready =
      if state.loop.pollsStdin && ready.stdinOut then { state with pc := .stdinWrite ready }
      else { state with pc := .top, loop := state.loop.closeStdin } := by
  have nothing : (ready.ssl && ready.sslOut && !state.loop.sseBuf.isEmpty) = false := by
    rw [gone.sent]
    simp
  rw [State.afterSslRead, nothing, State.afterSslWrite, afterStdinWrite_ends gone noOut noErr]
  rfl

/-- Only the bytes of the data reach the buffer. -/
theorem accept_stdinBuf (call : Call) (loop : Loop) (bytes : List UInt8) :
    (loop.accept call bytes).stdinBuf = loop.stdinBuf ++ (if loop.brState = .data then bytes else []) := by
  have folded : forall move : Loop -> UInt8 -> Loop,
      (forall loop byte, (move loop byte).stdinBuf = loop.stdinBuf) ->
        (bytes.foldl move loop).stdinBuf = loop.stdinBuf := by
    intro move same
    induction bytes generalizing loop with
    | nil => rfl
    | cons byte rest inductionHypothesis =>
        rw [List.foldl_cons, inductionHypothesis, same]
  have heading : forall (loop : Loop) byte, (loop.headerByte byte).stdinBuf = loop.stdinBuf := by
    intro loop byte
    unfold Loop.headerByte
    dsimp only
    split_ifs <;> rfl
  have trailing : forall (loop : Loop) byte, (loop.trailerByte byte).stdinBuf = loop.stdinBuf := by
    intro loop byte
    unfold Loop.trailerByte
    split_ifs
    · split <;> rfl
    · rfl
  unfold Loop.accept
  cases at_ : loop.brState with
  | data => rfl
  | header => exact (folded _ heading).trans (List.append_nil _).symm
  | trailer => exact (folded _ trailing).trans (List.append_nil _).symm
  | final => exact (folded _ trailing).trans (List.append_nil _).symm
  | done => exact (List.append_nil _).symm

/-- The body reader does not touch the rest of the loop. -/
theorem accept_gone (call : Call) {loop : Loop} (gone : loop.Gone) (bytes : List UInt8) :
    (loop.accept call bytes).Gone ∧ (loop.accept call bytes).stdinClosed = loop.stdinClosed ∧
      (loop.accept call bytes).sslWantWrite = loop.sslWantWrite ∧
      (loop.accept call bytes).sslError = loop.sslError := by
  rcases accept_eq_withReader call loop bytes with ⟨_, _, _, _, _, same⟩
  rw [same]
  exact ⟨⟨gone.exited, gone.outDone, gone.errDone, gone.sent⟩, rfl, rfl, rfl⟩

/-- The wish to read is nothing to the body reader. -/
theorem accept_wantRead (call : Call) (loop : Loop) (want : Bool) (byte : UInt8) :
    Loop.accept call { loop with sslWantRead := want } [byte] =
      { loop.accept call [byte] with sslWantRead := want } := by
  rcases loop with ⟨brState⟩
  cases brState with
  | data => rfl
  | done => rfl
  | header =>
      simp only [Loop.accept, List.foldl_cons, List.foldl_nil, Loop.headerByte]
      split_ifs <;> rfl
  | trailer =>
      simp only [Loop.accept, List.foldl_cons, List.foldl_nil, Loop.trailerByte]
      split_ifs <;> rfl
  | final =>
      simp only [Loop.accept, List.foldl_cons, List.foldl_nil, Loop.trailerByte]
      split_ifs <;> rfl

theorem brings_wantRead (call : Call) (loop : Loop) (want : Bool) (bytes : List UInt8) :
    Loop.brings call { loop with sslWantRead := want } bytes = loop.brings call bytes := by
  induction bytes generalizing loop with
  | nil => rfl
  | cons byte rest inductionHypothesis =>
      simp only [Loop.brings, accept_wantRead, inductionHypothesis]
      rfl

/-- What the rest of the run can cost, by the point where the parent is. -/
inductive Pays (call : Call) (full asks : Bool) (state : State) : Nat -> Prop where
  | closed (top : state.pc = .top) (closed : state.loop.stdinClosed = true) : Pays call full asks state 0
  | finished (finished : state.pc = .terminate ∨ state.pc = .returned)
      (closed : state.loop.stdinClosed = true) : Pays call full asks state 0
  | buffered (top : state.pc = .top) (opened : state.loop.stdinClosed = false)
      (isSome : state.loop.stdinBuf ≠ []) (room : full = false) : Pays call full asks state 1
  | waiting (top : state.pc = .top) (opened : state.loop.stdinClosed = false)
      (empty : state.loop.stdinBuf = []) (reading : state.loop.bodyEof = false)
      (silent : asks = false) (noWrite : state.loop.sslWantWrite = false)
      (quiet : full = false ∨ state.loop.brings call state.incoming = false) :
      Pays call full asks state (state.incoming.length + 2)
  | readsAlong (ready : Ready) (at_ : state.pc = .sslRead ready) (noOut : ready.outIn = false)
      (noErr : ready.errIn = false) (opened : state.loop.stdinClosed = false)
      (isSome : state.loop.stdinBuf ≠ []) (writable : ready.stdinOut = true) : Pays call full asks state 0
  | reads (ready : Ready) (at_ : state.pc = .sslRead ready) (noOut : ready.outIn = false)
      (noErr : ready.errIn = false) (opened : state.loop.stdinClosed = false)
      (empty : state.loop.stdinBuf = []) (reading : state.loop.bodyEof = false)
      (silent : asks = false) (noWrite : state.loop.sslWantWrite = false)
      (quiet : full = false ∨ state.loop.brings call state.incoming = false)
      (unwritable : ready.stdinOut = false) : Pays call full asks state (state.incoming.length + 1)
  | writes (ready : Ready) (at_ : state.pc = .stdinWrite ready) (noOut : ready.outIn = false)
      (noErr : ready.errIn = false) : Pays call full asks state 0

/-- The budget pays for the step to the next state. -/
def Paid (call : Call) (full asks : Bool) (budget : Nat) (event : Event) (next : State) : Prop :=
  next.loop.Gone ∧ Exists fun left => Pays call full asks next left ∧
    left + event.iterations ≤ budget + event.wants

/-- The parent is at none of the three calls of `waitpid`. -/
theorem not_waitpid {reaps : Bool}
    (elsewhere : state.pc ≠ .reap ∧ state.pc ≠ .waitBlocking ∧ state.pc ≠ .kill) :
    step call state (.waitpid reaps) ≠ some next := by
  intro stepped
  cases transition_of_step stepped with
  | notReaped at_ => exact elsewhere.1 at_
  | reaps status at_ zombie => exact elsewhere.1 at_
  | waitFailed next at_ left => exact elsewhere.2.1 at_
  | waitReaps status next at_ zombie left => exact elsewhere.2.1 at_
  | killUnreaped next at_ left => exact elsewhere.2.2 at_
  | killReaps status next at_ zombie left => exact elsewhere.2.2 at_

/-- At the head of the loop it is left, or `poll` reports something. -/
theorem event_of_top (top : state.pc = .top) (allowed : Iterates full asks state event)
    (stepped : step call state event = some next) :
    event = .leave ∨ Exists fun pending => Exists fun sslIn => Exists fun sslOut => Exists fun stdinOut =>
      Exists fun outIn => Exists fun errIn =>
        event = .poll pending (.ready sslIn sslOut stdinOut outIn errIn) := by
  cases event with
  | leave => exact Or.inl rfl
  | poll pending result =>
      cases result with
      | ready sslIn sslOut stdinOut outIn errIn => exact Or.inr ⟨_, _, _, _, _, _, rfl⟩
      | interrupted | failed => exact absurd allowed id
  | childWrite | childClose | childExit => exact absurd allowed id
  | waitpid reaps => exact absurd stepped (not_waitpid (by simp [top]))
  | _ => simp [step, top] at stepped

/-- The other calls of an iteration behind the child. -/
theorem event_of_call (inside : (Exists fun ready => state.pc = .sslRead ready) ∨
      (Exists fun ready => state.pc = .stdinWrite ready)) (allowed : Iterates full asks state event)
    (stepped : step call state event = some next) :
    (Exists fun ready => state.pc = .sslRead ready ∧ Exists fun result => event = .sslRead result) ∨
      (Exists fun ready => state.pc = .stdinWrite ready ∧ event = .stdinWrite .failed) := by
  rcases inside with ⟨ready, at_⟩ | ⟨ready, at_⟩
  · cases event with
    | sslRead result => exact Or.inl ⟨ready, at_, result, rfl⟩
    | childWrite | childClose | childExit => exact absurd allowed id
    | waitpid reaps => exact absurd stepped (not_waitpid (by simp [at_]))
    | _ => simp [step, at_] at stepped
  · cases event with
    | stdinWrite result =>
        have failed : result = .failed := allowed
        exact Or.inr ⟨ready, at_, failed ▸ rfl⟩
    | childWrite | childClose | childExit => exact absurd allowed id
    | waitpid reaps => exact absurd stepped (not_waitpid (by simp [at_]))
    | _ => simp [step, at_] at stepped

/-- With its child gone the loop continues exactly until the stdin pipe is closed. -/
theorem continues_gone (gone : state.loop.Gone) (noError : state.loop.sslError = false) :
    state.loop.continues = !state.loop.stdinClosed := by
  unfold Loop.continues
  rw [gone.exited, gone.outDone, gone.errDone, gone.sent, noError]
  simp

/-- With an open stdin pipe there is always something to poll. -/
theorem pollsNothing_gone (pending : Bool) (opened : state.loop.stdinClosed = false)
    (work : state.loop.stdinBuf = [] -> state.loop.bodyEof = false) :
    state.loop.pollsNothing pending = false := by
  unfold Loop.pollsNothing Loop.pollsSsl Loop.needRead Loop.pollsStdin
  rw [opened]
  by_cases empty : state.loop.stdinBuf = []
  · rw [work empty, empty]
    simp [stdinBufSize]
  · simp [empty]

/-- What `poll` leads to. -/
theorem poll_gone (call : Call) (pending sslIn sslOut stdinOut outIn errIn : Bool) (top : state.pc = .top)
    (gone : state.loop.Gone) (opened : state.loop.stdinClosed = false) (noError : state.loop.sslError = false)
    (work : state.loop.stdinBuf = [] -> state.loop.bodyEof = false) :
    step call state (.poll pending (.ready sslIn sslOut stdinOut outIn errIn)) =
        some (state.afterPoll pending (state.ready pending sslIn sslOut stdinOut outIn errIn)) ∧
      (state.ready pending sslIn sslOut stdinOut outIn errIn).outIn = false ∧
      (state.ready pending sslIn sslOut stdinOut outIn errIn).errIn = false := by
  have noOut : (state.ready pending sslIn sslOut stdinOut outIn errIn).outIn = false := by
    simp [State.ready, gone.outDone]
  have noErr : (state.ready pending sslIn sslOut stdinOut outIn errIn).errIn = false := by
    simp [State.ready, gone.errDone]
  refine ⟨?_, noOut, noErr⟩
  have continues : state.loop.continues = true := by rw [continues_gone gone noError, opened]; rfl
  simp [step, topStep, top, continues, pollsNothing_gone pending opened work, noOut, noErr]

/-- The flag of an earlier wish is cleared in front of the `SSL_read`. -/
theorem gone_wantRead {loop : Loop} (gone : loop.Gone) (want : Bool) :
    Loop.Gone { loop with sslWantRead := want } := ⟨gone.exited, gone.outDone, gone.errDone, gone.sent⟩

theorem gone_closeStdin {loop : Loop} (gone : loop.Gone) : loop.closeStdin.Gone := by
  unfold Loop.closeStdin
  split <;> exact ⟨gone.exited, gone.outDone, gone.errDone, gone.sent⟩

/-- An iteration that polls the stdin pipe writes to it if `poll` admits that. -/
theorem afterSslRead_writes {ready : Ready} (gone : state.loop.Gone) (noOut : ready.outIn = false)
    (noErr : ready.errIn = false) (opened : state.loop.stdinClosed = false) (isSome : state.loop.stdinBuf ≠ [])
    (writable : ready.stdinOut = true) :
    state.afterSslRead ready = { state with pc := .stdinWrite ready } := by
  rw [afterSslRead_gone gone noOut noErr, if_pos]
  simp [Loop.pollsStdin, opened, isSome, writable]

/-- The others end here. -/
theorem afterSslRead_ends {ready : Ready} (gone : state.loop.Gone) (noOut : ready.outIn = false)
    (noErr : ready.errIn = false) (unwritable : ready.stdinOut = false) :
    state.afterSslRead ready = { state with pc := .top, loop := state.loop.closeStdin } := by
  rw [afterSslRead_gone gone noOut noErr, unwritable, Bool.and_false]
  exact if_neg Bool.false_ne_true

theorem closeStdin_of_more {loop : Loop} (more : loop.stdinBuf = [] -> loop.bodyEof = false) :
    loop.closeStdin = loop := by
  unfold Loop.closeStdin
  refine if_neg (fun closes => ?_)
  simp only [Bool.and_eq_true, List.isEmpty_iff] at closes
  exact absurd ((more closes.1.2).symm.trans closes.1.1) Bool.false_ne_true

theorem closeStdin_of_through {loop : Loop} (eof : loop.bodyEof = true) (empty : loop.stdinBuf = []) :
    loop.closeStdin.stdinClosed = true := by
  unfold Loop.closeStdin
  by_cases closed : loop.stdinClosed = true
  · rw [if_neg (by simp [closed])]
    exact closed
  · rw [if_pos (by simp [eof, empty, closed])]

theorem closeStdin_of_closed {loop : Loop} (closed : loop.stdinClosed = true) :
    loop.closeStdin.stdinClosed = true := by
  unfold Loop.closeStdin
  rw [if_neg (by simp [closed])]
  exact closed

/-- With room in the buffer the reader always asks. -/
theorem reads_of_empty {loop : Loop} (empty : loop.stdinBuf = []) (notDone : loop.brState ≠ .done) :
    loop.reads = true := by
  unfold Loop.reads
  rw [empty]
  cases at_ : loop.brState with
  | done => exact absurd at_ notDone
  | data => decide
  | header | trailer | final => rfl

/-- Data for an empty buffer are body bytes to come. -/
theorem brings_of_data {loop : Loop} {byte : UInt8} {rest : List UInt8} (data : loop.brState = .data)
    (empty : loop.stdinBuf = []) (asked : 0 < loop.readCap) : loop.brings call (byte :: rest) = true := by
  have kept : (loop.accept call [byte]).stdinBuf = [byte] := by
    rw [accept_stdinBuf, empty, data]
    rfl
  have reads : loop.reads = true := by
    unfold Loop.reads
    rw [data, empty]
    decide
  simp [Loop.brings, reads, asked, kept]

/-- A byte that does not reach the buffer is one of the framing. -/
theorem framing_of_empty {loop : Loop} {count : Nat} {incoming : List UInt8} (last : loop.EofLast)
    (reading : loop.bodyEof = false) (empty : loop.stdinBuf = []) (positive : 0 < count)
    (asked : count ≤ loop.readCap) (sent : count ≤ incoming.length)
    (still : (loop.accept call (incoming.take count)).stdinBuf = []) :
    count = 1 ∧ Exists fun byte => Exists fun rest => incoming = byte :: rest ∧
      loop.brings call incoming = (loop.accept call [byte]).brings call rest := by
  cases incoming with
  | nil => exact absurd sent (by simp; omega)
  | cons byte rest =>
      have notData : loop.brState ≠ .data := by
        intro data
        rw [accept_stdinBuf, empty, data] at still
        have none := congrArg List.length still
        simp at none
        omega
      have notDone : loop.brState ≠ .done := fun done =>
        absurd (reading.symm.trans (last.mp done)) Bool.false_ne_true
      have framing : loop.readCap = 1 ∧ loop.reads = true := by
        unfold Loop.readCap Loop.reads
        cases at_ : loop.brState with
        | data => exact absurd at_ notData
        | done => exact absurd at_ notDone
        | header | trailer | final => exact ⟨rfl, rfl⟩
      have one : count = 1 := by
        rw [framing.1] at asked
        omega
      subst one
      refine ⟨rfl, byte, rest, rfl, ?_⟩
      have nothing : (loop.accept call [byte]).stdinBuf = [] := still
      simp [Loop.brings, framing.1, framing.2, nothing]

/-- The end of an iteration in which the stdin pipe cannot be written to. -/
theorem pays_at_end (call : Call) (full asks : Bool) {ready : Ready} {after : State}
    (result : after.afterSslRead ready = next) (gone : after.loop.Gone)
    (noOut : ready.outIn = false) (noErr : ready.errIn = false)
    (unwritable : ready.stdinOut = false) (opened : after.loop.stdinClosed = false) :
    next.loop.Gone ∧
      (after.loop.stdinBuf = [] -> after.loop.bodyEof = true -> Pays call full asks next 0) ∧
      (after.loop.stdinBuf = [] -> after.loop.bodyEof = false -> asks = false ->
          after.loop.sslWantWrite = false ->
        (full = false ∨ after.loop.brings call after.incoming = false) ->
          Pays call full asks next (after.incoming.length + 2)) ∧
      (after.loop.stdinBuf ≠ [] -> full = false -> Pays call full asks next 1) := by
  rw [afterSslRead_ends gone noOut noErr unwritable] at result
  rw [← result]
  refine ⟨gone_closeStdin gone, ?_, ?_, ?_⟩
  · exact fun empty eof => .closed rfl (closeStdin_of_through eof empty)
  · intro empty reading silent noWrite quiet
    rw [closeStdin_of_more (fun _ => reading)]
    exact .waiting rfl opened empty reading silent noWrite quiet
  · intro isSome room
    rw [closeStdin_of_more (fun empty => absurd empty isSome)]
    exact .buffered rfl opened isSome room

/-- An iteration without the stdin pipe ends with the pipe closed, or with something to write. -/
theorem paid_reads {ready : Ready} {result : SslReadResult} (gone : state.loop.Gone)
    (noOut : ready.outIn = false) (noErr : ready.errIn = false) (opened : state.loop.stdinClosed = false)
    (empty : state.loop.stdinBuf = []) (reading : state.loop.bodyEof = false)
    (silent : asks = false) (noWrite : state.loop.sslWantWrite = false)
    (quiet : full = false ∨ state.loop.brings call state.incoming = false) (unwritable : ready.stdinOut = false)
    (last : state.loop.EofLast) (allowed : result = .wantWrite -> asks = true)
    (stepped : sslReadStep call ready state result = some next) :
    Paid call full asks (state.incoming.length + 1) (.sslRead result) next := by
  cases result with
  | wantWrite => exact absurd (silent.symm.trans (allowed rfl)) Bool.false_ne_true
  | wantRead =>
      rcases pays_at_end call full asks (Option.some.inj stepped) (gone_wantRead gone true) noOut noErr
        unwritable opened with ⟨still, _, waits, _⟩
      refine ⟨still, _, waits empty reading silent noWrite ?_, Nat.le_refl _⟩
      exact quiet.imp id (fun none => (brings_wantRead call state.loop true state.incoming).trans none)
  | failed =>
      have after : Loop.Gone { state.loop with bodyEof := true, brState := .done } :=
        ⟨gone.exited, gone.outDone, gone.errDone, gone.sent⟩
      rcases pays_at_end call full asks (Option.some.inj stepped) after noOut noErr
        unwritable opened with ⟨still, through, _, _⟩
      exact ⟨still, 0, through empty rfl, Nat.zero_le _⟩
  | got count =>
      rcases Option.ite_none_right_eq_some.mp stepped with ⟨⟨positive, asked, sent⟩, result⟩
      rcases accept_gone call gone (state.incoming.take count) with ⟨after, closed, write, _⟩
      rcases pays_at_end call full asks (Option.some.inj result) after noOut noErr unwritable
        (closed.trans opened) with ⟨still, through, waits, buffers⟩
      refine ⟨still, ?_⟩
      dsimp only at through waits buffers
      by_cases none : (state.loop.accept call (state.incoming.take count)).stdinBuf = []
      · by_cases eof : (state.loop.accept call (state.incoming.take count)).bodyEof = true
        · exact ⟨0, through none eof, Nat.zero_le _⟩
        · rcases framing_of_empty last reading empty positive asked sent none with
            ⟨rfl, byte, rest, split, same⟩
          have more : state.incoming.length = rest.length + 1 := by rw [split, List.length_cons]
          have length : (state.incoming.drop 1).length + 1 = state.incoming.length := by
            rw [List.length_drop]
            omega
          refine ⟨_, waits none (Bool.eq_false_iff.mpr eof) silent (write.trans noWrite) ?_, ?_⟩
          · refine quiet.imp id (fun none => ?_)
            rw [same] at none
            rw [split]
            exact none
          · change (state.incoming.drop 1).length + 2 + 0 ≤ state.incoming.length + 1 + 0
            omega
      · have room : full = false := by
          refine quiet.resolve_right (fun quiet => ?_)
          cases split : state.incoming with
          | nil =>
              rw [split] at sent
              exact absurd sent (by simp; omega)
          | cons byte rest =>
              by_cases data : state.loop.brState = .data
              · rw [split, brings_of_data data empty (Nat.lt_of_lt_of_le positive asked)] at quiet
                cases quiet
              · rw [accept_stdinBuf, empty, if_neg data] at none
                exact none rfl
        exact ⟨1, buffers none room, by change 1 + 0 ≤ state.incoming.length + 1 + 0; omega⟩

/-- An iteration that polls the writable stdin pipe goes on to the write. -/
theorem paid_writable {ready : Ready} {after : State} {budget : Nat} (result : after.afterSslRead ready = next)
    (gone : after.loop.Gone) (noOut : ready.outIn = false) (noErr : ready.errIn = false)
    (opened : after.loop.stdinClosed = false) (isSome : after.loop.stdinBuf ≠ [])
    (writable : ready.stdinOut = true) (enough : event.iterations ≤ budget + event.wants) :
    Paid call full asks budget event next := by
  rw [afterSslRead_writes gone noOut noErr opened isSome writable] at result
  rw [← result]
  exact ⟨gone, 0, .writes ready rfl noOut noErr, (Nat.zero_add _).trans_le enough⟩

/-- So does an `SSL_read` in front of the write. -/
theorem paid_readsAlong {ready : Ready} {result : SslReadResult} (gone : state.loop.Gone)
    (noOut : ready.outIn = false) (noErr : ready.errIn = false) (opened : state.loop.stdinClosed = false)
    (isSome : state.loop.stdinBuf ≠ []) (writable : ready.stdinOut = true)
    (stepped : sslReadStep call ready state result = some next) :
    Paid call full asks 0 (.sslRead result) next := by
  cases result with
  | wantWrite =>
      have after : Loop.Gone { state.loop with sslWantWrite := true } :=
        ⟨gone.exited, gone.outDone, gone.errDone, gone.sent⟩
      exact paid_writable (Option.some.inj stepped) after noOut noErr opened isSome writable (Nat.zero_le _)
  | wantRead =>
      exact paid_writable (Option.some.inj stepped) (gone_wantRead gone true) noOut noErr opened isSome
        writable (Nat.zero_le _)
  | failed =>
      have after : Loop.Gone { state.loop with bodyEof := true, brState := .done } :=
        ⟨gone.exited, gone.outDone, gone.errDone, gone.sent⟩
      exact paid_writable (Option.some.inj stepped) after noOut noErr opened isSome writable (Nat.zero_le _)
  | got count =>
      rcases Option.ite_none_right_eq_some.mp stepped with ⟨_, result⟩
      rcases accept_gone call gone (state.incoming.take count) with ⟨after, closed, _, _⟩
      refine paid_writable (Option.some.inj result) after noOut noErr (closed.trans opened) ?_ writable
        (Nat.zero_le _)
      dsimp only
      rw [accept_stdinBuf]
      exact fun empty => isSome (List.append_eq_nil_iff.mp empty).1

/-- The failing write closes the stdin pipe. -/
theorem paid_write {ready : Ready} (gone : state.loop.Gone) (noOut : ready.outIn = false)
    (noErr : ready.errIn = false) (stepped : stdinWriteStep ready state .failed = some next) :
    Paid call full asks 0 (.stdinWrite .failed) next := by
  have after : Loop.Gone { state.loop with stdinFd := false, stdinClosed := true } :=
    ⟨gone.exited, gone.outDone, gone.errDone, gone.sent⟩
  have ends : forall {other : State}, other.afterStdinWrite ready = next -> other.loop.Gone ->
      other.loop.stdinClosed = true -> Paid call full asks 0 (.stdinWrite .failed) next := by
    intro other result gone closed
    rw [afterStdinWrite_ends gone noOut noErr] at result
    rw [← result]
    exact ⟨gone_closeStdin gone, 0, .closed rfl (closeStdin_of_closed closed), Nat.zero_le _⟩
  exact ends (Option.some.inj stepped) after rfl

/-- The loop is left once the stdin pipe is closed, and not before. -/
theorem paid_leave {budget : Nat} (gone : state.loop.Gone) (inv : Consistent state) (top : state.pc = .top)
    (stepped : topStep state .leave = some next) :
    Paid call full asks budget .leave next := by
  have noError := inv.noError (not_leaving_of_eq top rfl)
  cases closed : state.loop.stdinClosed with
  | true =>
      have finished : state.loop.continues = false := by rw [continues_gone gone noError, closed]; rfl
      simp only [topStep, finished, Bool.false_eq_true, if_false, State.leaveLoop, gone.exited, if_true,
        State.afterKill, noError, gone.sent, List.isEmpty_nil] at stepped
      rw [← Option.some.inj stepped]
      exact ⟨gone, 0, .finished (Or.inl rfl) closed, Nat.zero_le _⟩
  | false =>
      have continues : state.loop.continues = true := by rw [continues_gone gone noError, closed]; rfl
      have work : state.loop.stdinBuf = [] -> state.loop.bodyEof = false := by
        intro empty
        by_contra eof
        have shut := inv.closedUp (Or.inl top) (Bool.eq_true_of_not_eq_false eof) empty
        exact absurd (closed.symm.trans shut) Bool.false_ne_true
      simp [topStep, continues, pollsNothing_gone false closed work] at stepped

/-- What `poll` reports is paid for. -/
theorem paid_poll {pending sslIn sslOut stdinOut outIn errIn : Bool} {budget : Nat} (gone : state.loop.Gone)
    (inv : Consistent state) (top : state.pc = .top) (pays : Pays call full asks state budget)
    (allowed : Iterates full asks state (.poll pending (.ready sslIn sslOut stdinOut outIn errIn)))
    (stepped : step call state (.poll pending (.ready sslIn sslOut stdinOut outIn errIn)) = some next) :
    Paid call full asks budget (.poll pending (.ready sslIn sslOut stdinOut outIn errIn)) next := by
  have noError := inv.noError (not_leaving_of_eq top rfl)
  rcases allowed with ⟨bits, reported⟩
  cases pays with
  | readsAlong ready at_ => exact absurd (top.symm.trans at_) nofun
  | reads ready at_ => exact absurd (top.symm.trans at_) nofun
  | writes ready at_ => exact absurd (top.symm.trans at_) nofun
  | finished finished =>
      rcases finished with finished | finished <;> exact absurd (top.symm.trans finished) nofun
  | closed _ closed =>
      have finished : state.loop.continues = false := by rw [continues_gone gone noError, closed]; rfl
      simp [step, topStep, top, finished] at stepped
  | buffered _ opened isSome room =>
      rcases poll_gone call pending sslIn sslOut stdinOut outIn errIn top gone opened noError
        (fun empty => absurd empty isSome) with ⟨polled, noOut, noErr⟩
      have result := Option.some.inj (polled.symm.trans stepped)
      generalize isReady : state.ready pending sslIn sslOut stdinOut outIn errIn = ready at noOut noErr result
      have writable : ready.stdinOut = true := by
        rw [← isReady, bits, room]
        simp [State.ready, Loop.pollsStdin, opened, isSome]
      unfold State.afterPoll at result
      dsimp only at result
      split_ifs at result
      · rw [← result]
        exact ⟨gone_wantRead gone false, 0,
          .readsAlong ready rfl noOut noErr opened isSome writable, Nat.le_refl _⟩
      · exact paid_writable result (gone_wantRead gone false) noOut noErr opened isSome writable (Nat.le_refl _)
      · exact paid_writable result gone noOut noErr opened isSome writable (Nat.le_refl _)
  | waiting _ opened empty reading silent noWrite quiet =>
      rcases poll_gone call pending sslIn sslOut stdinOut outIn errIn top gone opened noError
        (fun _ => reading) with ⟨polled, noOut, noErr⟩
      have result := Option.some.inj (polled.symm.trans stepped)
      have reads : state.loop.reads = true := by
        have notDone : state.loop.brState ≠ .done := fun done =>
          absurd (reading.symm.trans (inv.last.mp done)) Bool.false_ne_true
        exact reads_of_empty empty notDone
      have onlyTls : (state.ready pending sslIn sslOut stdinOut outIn errIn).ssl = true ∧
          ((state.ready pending sslIn sslOut stdinOut outIn errIn).sslIn || pending) = true ∧
            (state.ready pending sslIn sslOut stdinOut outIn errIn).stdinOut = false := by
        simp only [State.ready, Loop.pollsSsl, Loop.needRead, Loop.needWrite, Loop.pollsStdin, gone.sent, empty,
          reading, noWrite] at reported ⊢
        simp [stdinBufSize] at reported ⊢
        exact reported.symm
      generalize state.ready pending sslIn sslOut stdinOut outIn errIn = ready at noOut noErr result onlyTls
      rw [← result]
      unfold State.afterPoll
      rw [onlyTls.1, onlyTls.2.1, Bool.and_self, if_pos rfl]
      dsimp only
      rw [if_pos reads]
      refine ⟨gone_wantRead gone false, _,
        .reads ready rfl noOut noErr opened empty reading silent noWrite ?_ onlyTls.2.2, Nat.le_refl _⟩
      exact quiet.imp id (fun none => (brings_wantRead call state.loop false state.incoming).trans none)

/-- The budget pays for every step. -/
theorem paid_of_step {budget : Nat} (allowed : Iterates full asks state event)
    (stepped : step call state event = some next) (inv : Consistent state) (gone : state.loop.Gone)
    (pays : Pays call full asks state budget) : Paid call full asks budget event next := by
  have atTop : state.pc = .top -> Paid call full asks budget event next := by
    intro top
    rcases event_of_top top allowed stepped with rfl | ⟨pending, sslIn, sslOut, stdinOut, outIn, errIn, rfl⟩
    · simp only [step, if_pos top] at stepped
      exact paid_leave gone inv top stepped
    · exact paid_poll gone inv top pays allowed stepped
  cases pays with
  | closed top | buffered top | waiting top => exact atTop top
  | finished finished closed =>
      cases event with
      | finalWrite result =>
          cases transition_of_step stepped with
          | flushed result bytes at_ accepted =>
              rcases finished with finished | finished <;>
                exact absurd (finished.symm.trans at_) Pc.noConfusion
          | terminated result bytes at_ accepted =>
              exact ⟨⟨gone.exited, gone.outDone, gone.errDone, gone.sent⟩, 0, .finished (Or.inr rfl) closed,
                Nat.zero_le _⟩
      | childWrite | childClose | childExit => exact absurd allowed id
      | waitpid reaps =>
          refine absurd stepped (not_waitpid ?_)
          rcases finished with finished | finished <;> simp [finished]
      | _ => rcases finished with finished | finished <;> simp [step, finished] at stepped
  | readsAlong ready at_ noOut noErr opened isSome writable =>
      rcases event_of_call (Or.inl ⟨ready, at_⟩) allowed stepped with ⟨_, _, result, rfl⟩ | ⟨_, other, _⟩
      · simp only [step, at_] at stepped
        exact paid_readsAlong gone noOut noErr opened isSome writable stepped
      · exact absurd (at_.symm.trans other) Pc.noConfusion
  | reads ready at_ noOut noErr opened empty reading silent noWrite quiet unwritable =>
      rcases event_of_call (Or.inl ⟨ready, at_⟩) allowed stepped with ⟨_, _, result, rfl⟩ | ⟨_, other, _⟩
      · simp only [step, at_] at stepped
        exact paid_reads gone noOut noErr opened empty reading silent noWrite quiet unwritable inv.last
          allowed stepped
      · exact absurd (at_.symm.trans other) Pc.noConfusion
  | writes ready at_ noOut noErr =>
      rcases event_of_call (Or.inr ⟨ready, at_⟩) allowed stepped with ⟨_, other, _⟩ | ⟨_, _, rfl⟩
      · exact absurd (at_.symm.trans other) Pc.noConfusion
      · simp only [step, at_] at stepped
        exact paid_write gone noOut noErr stepped

/-- There is a next step as long as the parent is in the loop. -/
theorem pays_goesOn {budget : Nat} (inv : Consistent state) (gone : state.loop.Gone)
    (pays : Pays call full asks state budget) (inside : state.pc.leaving = false) :
    Exists fun event => Exists fun next => Iterates full asks state event ∧
      step call state event = some next := by
  cases pays with
  | closed top closed =>
      have finished : state.loop.continues = false := by
        rw [continues_gone gone (inv.noError inside), closed]
        rfl
      exact ⟨.leave, state.leaveLoop, trivial, by simp [step, topStep, top, finished]⟩
  | finished finished =>
      rcases finished with finished | finished <;> (rw [finished] at inside; cases inside)
  | buffered top opened isSome room =>
      refine ⟨.poll false (.ready false false (!full) false false), _, ⟨rfl, ?_⟩,
        (poll_gone call _ _ _ _ _ _ top gone opened (inv.noError inside) (fun empty => absurd empty isSome)).1⟩
      simp [Loop.pollsStdin, opened, isSome]
  | waiting top opened empty reading silent noWrite quiet =>
      refine ⟨.poll false (.ready true false (!full) false false), _, ⟨rfl, ?_⟩,
        (poll_gone call _ _ _ _ _ _ top gone opened (inv.noError inside) (fun _ => reading)).1⟩
      simp [State.ready, Loop.pollsSsl, Loop.needRead, reading, empty, stdinBufSize]
  | readsAlong ready at_ | reads ready at_ =>
      exact ⟨.sslRead .failed, _, SslReadResult.noConfusion, by simp only [step, at_]; rfl⟩
  | writes ready at_ => exact ⟨.stdinWrite .failed, _, rfl, by simp only [step, at_]; rfl⟩

/-- A state that drains leaves the loop. -/
theorem leavesLoop_of_drains (top : state.pc = .top) (inv : Consistent state) (gone : state.loop.Gone)
    (drains : Drains call full asks state) : LeavesLoop call full asks state := by
  have start : Exists fun budget => Pays call full asks state budget := by
    by_cases closed : state.loop.stdinClosed = true
    · exact ⟨0, .closed top closed⟩
    · have opened := Bool.eq_false_iff.mpr closed
      have rest := drains.resolve_left closed
      by_cases empty : state.loop.stdinBuf = []
      · rw [if_pos empty] at rest
        have reading : state.loop.bodyEof = false :=
          Bool.eq_false_iff.mpr (fun eof => closed (inv.closedUp (Or.inl top) eof empty))
        exact ⟨_, .waiting top opened empty reading rest.1 rest.2.1 rest.2.2⟩
      · rw [if_neg empty] at rest
        exact ⟨_, .buffered top opened empty rest⟩
  rcases start with ⟨budget, pays⟩
  have kept : forall state event next budget, Iterates full asks state event ->
    step call state event = some next ->
      (Consistent state ∧ state.loop.Gone ∧ Pays call full asks state budget) ->
        Exists fun left => (Consistent next ∧ next.loop.Gone ∧ Pays call full asks next left) ∧
          left + event.iterations ≤ budget + event.wants := by
    intro state event next budget allowed stepped held
    rcases paid_of_step allowed stepped held.1 held.2.1 held.2.2 with ⟨gone, left, pays, enough⟩
    exact ⟨left, ⟨step_consistent stepped held.1, gone, pays⟩, enough⟩
  have spent : forall events final, Machine.exec (step call) state events = some final ->
      Machine.AllSteps (step call) (Iterates full asks) state events ->
        Exists fun left => (Consistent final ∧ final.loop.Gone ∧ Pays call full asks final left) ∧
          left + (events.map Event.iterations).sum ≤ budget + (events.map Event.wants).sum :=
    fun events final run met => Machine.spent_exec kept run met ⟨inv, gone, pays⟩
  refine ⟨⟨budget, fun events final run met => ?_⟩, fun events final run met inside => ?_,
    fun events final run met outside => ?_⟩
  · rcases spent events final run met with ⟨left, _, enough⟩
    omega
  · rcases spent events final run met with ⟨left, ⟨inv, gone, pays⟩, _⟩
    exact pays_goesOn inv gone pays inside
  · rcases spent events final run met with ⟨left, ⟨_, _, pays⟩, _⟩
    cases pays with
    | finished finished closed => exact closed
    | closed _ closed => exact closed
    | buffered top | waiting top => exact absurd (top ▸ outside) nofun
    | readsAlong ready at_ | reads ready at_ | writes ready at_ => exact absurd (at_ ▸ outside) nofun

end PipeLoop
end Executor
end AdbBridge
