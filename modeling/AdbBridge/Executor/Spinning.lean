import AdbBridge.Executor.ChildGone

namespace AdbBridge
namespace Executor
namespace PipeLoop

open Library

/-!
# When the pipe loop spins

A state that does not drain goes on with any number of iterations.  Either its next
`poll` leads back to it, or the bytes to come lead to such a state: one byte after the
other is read until one of the body is buffered for a pipe that stays full.
-/

variable {call : Call} {state next : State} {event : Event} {full asks : Bool}

/-! ## The states in which the loop spins -/

/-- No number bounds the iterations that the state can go on with. -/
def Spins (call : Call) (full asks : Bool) (state : State) : Prop :=
  forall bound, Exists fun events => Exists fun final =>
    (Machine.exec (step call) state events = some final ∧
      Machine.AllSteps (step call) (Iterates full asks) state events) ∧
      bound + (events.map Event.wants).sum < (events.map Event.iterations).sum

theorem Spins.not_leavesLoop (spins : Spins call full asks state) : ¬ LeavesLoop call full asks state := by
  intro leaves
  rcases leaves.bounded with ⟨bound, bounded⟩
  rcases spins bound with ⟨events, final, ⟨run, met⟩, more⟩
  exact absurd (bounded events final run met) (Nat.not_le_of_lt more)

/-- An iteration of `poll` alone that changes nothing. -/
theorem spins_of_self {pending : Bool} {result : PollResult}
    (allowed : Iterates full asks state (.poll pending result))
    (self : step call state (.poll pending result) = some state) : Spins call full asks state := by
  intro bound
  refine ⟨_, state, Machine.exec_replicate_of_self self allowed (bound + 1), ?_⟩
  rw [List.map_replicate, List.map_replicate, List.sum_replicate_nat, List.sum_replicate_nat]
  simp [Event.wants, Event.iterations]

/-- A step without a wish leads to the spinning as well. -/
theorem Spins.of_step (allowed : Iterates full asks state event) (stepped : step call state event = some next)
    (noWish : event.wants = 0) (spins : Spins call full asks next) : Spins call full asks state := by
  intro bound
  rcases spins bound with ⟨events, final, run, more⟩
  refine ⟨event :: events, final, Machine.extend_of_step stepped allowed run, ?_⟩
  rw [List.map_cons, List.map_cons, List.sum_cons, List.sum_cons, noWish]
  omega

/-- Neither a byte to read nor a pipe to write to: the iteration leads back to its state. -/
theorem poll_idle (sslOut stdinOut : Bool) (top : state.pc = .top) (gone : state.loop.Gone)
    (noError : state.loop.sslError = false) (opened : state.loop.stdinClosed = false)
    (work : state.loop.stdinBuf = [] -> state.loop.bodyEof = false)
    (unwritable : (state.loop.pollsStdin && stdinOut) = false) :
    step call state (.poll false (.ready false sslOut stdinOut false false)) = some state := by
  rcases poll_gone call false false sslOut stdinOut false false top gone opened noError work with
    ⟨polled, noOut, noErr⟩
  rw [polled]
  have unread : ((state.ready false false sslOut stdinOut false false).ssl &&
      ((state.ready false false sslOut stdinOut false false).sslIn || false)) = false := by
    simp [State.ready]
  unfold State.afterPoll
  rw [unread, if_neg Bool.false_ne_true, afterSslRead_ends gone noOut noErr unwritable,
    closeStdin_of_more work, ← top]

/-- Data are buffered for a pipe that is full: `poll` returns at once, and nothing is done. -/
theorem spins_of_full (top : state.pc = .top) (gone : state.loop.Gone) (noError : state.loop.sslError = false)
    (opened : state.loop.stdinClosed = false) (isSome : state.loop.stdinBuf ≠ []) :
    Spins call true asks state := by
  have self : step call state (.poll false (.ready false false false false false)) = some state :=
    poll_idle false false top gone noError opened (fun empty => absurd empty isSome) (Bool.and_false _)
  have allowed : Iterates true asks state (.poll false (.ready false false false false false)) := by
    refine ⟨rfl, ?_⟩
    simp [Loop.pollsStdin, opened, isSome]
  exact spins_of_self allowed self

/-- TLS wants a write that nothing brings about: `poll` returns at once as well. -/
theorem spins_of_wish (full asks : Bool) (top : state.pc = .top) (gone : state.loop.Gone)
    (noError : state.loop.sslError = false) (opened : state.loop.stdinClosed = false)
    (reading : state.loop.bodyEof = false) (empty : state.loop.stdinBuf = [])
    (wish : state.loop.sslWantWrite = true) : Spins call full asks state := by
  have unpolled : (state.loop.pollsStdin && !full) = false := by
    simp [Loop.pollsStdin, empty]
  have self : step call state (.poll false (.ready false true (!full) false false)) = some state :=
    poll_idle true (!full) top gone noError opened (fun _ => reading) unpolled
  have allowed : Iterates full asks state (.poll false (.ready false true (!full) false false)) := by
    refine ⟨rfl, ?_⟩
    simp [State.ready, Loop.pollsSsl, Loop.needRead, reading, empty, stdinBufSize, wish]
  exact spins_of_self allowed self

/-- An `SSL_read` that asks for a write leads to such a wish. -/
theorem spins_of_asks (full : Bool) (top : state.pc = .top) (gone : state.loop.Gone)
    (noError : state.loop.sslError = false) (opened : state.loop.stdinClosed = false)
    (reading : state.loop.bodyEof = false) (empty : state.loop.stdinBuf = [])
    (reads : state.loop.reads = true) : Spins call full true state := by
  rcases poll_gone call false true false (!full) false false top gone opened noError (fun _ => reading) with
    ⟨polled, noOut, noErr⟩
  have unwritable : (state.ready false true false (!full) false false).stdinOut = false := by
    simp [State.ready, Loop.pollsStdin, empty]
  have readable : (state.ready false true false (!full) false false).ssl = true ∧
      (state.ready false true false (!full) false false).sslIn = true := by
    simp [State.ready, Loop.pollsSsl, Loop.needRead, reading, empty, stdinBufSize]
  have allowed : Iterates full true state (.poll false (.ready true false (!full) false false)) := by
    refine ⟨rfl, ?_⟩
    simp [readable.2]
  generalize state.ready false true false (!full) false false = ready at polled noOut noErr unwritable readable
  have waits : state.afterPoll false ready =
      { state with pc := .sslRead ready, loop := { state.loop with sslWantRead := false } } := by
    unfold State.afterPoll
    rw [readable.1, readable.2]
    dsimp only
    rw [if_pos (by rfl), if_pos reads]
  rw [waits] at polled
  have wishes : Loop.Gone { state.loop with sslWantRead := false, sslWantWrite := true } :=
    ⟨gone.exited, gone.outDone, gone.errDone, gone.sent⟩
  have asked : step call { state with pc := .sslRead ready, loop := { state.loop with sslWantRead := false } }
      (.sslRead .wantWrite) =
        some
          { state with
            pc := .top, loop := { state.loop with sslWantRead := false, sslWantWrite := true } } := by
    have kept : Loop.closeStdin { state.loop with sslWantRead := false, sslWantWrite := true } =
        { state.loop with sslWantRead := false, sslWantWrite := true } :=
      closeStdin_of_more (fun _ => reading)
    have ends := @afterSslRead_ends
      { state with
        pc := .sslRead ready, loop := { state.loop with sslWantRead := false, sslWantWrite := true } }
      ready wishes noOut noErr unwritable
    exact congrArg some
      (ends.trans (congrArg (fun loop => { state with pc := .top, loop := loop }) kept))
  have allowedRead : Iterates full true
      { state with pc := .sslRead ready, loop := { state.loop with sslWantRead := false } }
      (.sslRead .wantWrite) := fun _ => rfl
  exact Spins.of_step allowed polled rfl (Spins.of_step allowedRead asked rfl
    (spins_of_wish full true rfl wishes noError opened reading empty rfl))

/-- While a body byte is to come, the body is not through. -/
theorem more_of_brings {loop : Loop} {bytes : List UInt8} (last : loop.EofLast)
    (brings : loop.brings call bytes = true) : loop.bodyEof = false := by
  cases bytes with
  | nil => exact absurd brings Bool.false_ne_true
  | cons byte rest =>
      apply Bool.eq_false_iff.mpr
      intro eof
      simp only [Loop.brings, Loop.reads, last.mpr eof, Bool.false_and] at brings
      cases brings

/-- The next byte of the client is read in an iteration of its own. -/
theorem exec_byte (call : Call) {byte : UInt8} {rest : List UInt8} (top : state.pc = .top)
    (gone : state.loop.Gone) (noError : state.loop.sslError = false) (opened : state.loop.stdinClosed = false)
    (empty : state.loop.stdinBuf = []) (reading : state.loop.bodyEof = false)
    (reads : state.loop.reads = true) (asked : 0 < state.loop.readCap)
    (incoming : state.incoming = byte :: rest) :
    Exists fun middle => Exists fun next =>
      step call state (.poll false (.ready true false false false false)) = some middle ∧
        step call middle (.sslRead (.got 1)) = some next ∧ next.pc = .top ∧ next.incoming = rest ∧
          next.loop = Loop.closeStdin { state.loop.accept call [byte] with sslWantRead := false } := by
  rcases poll_gone call false true false false false false top gone opened noError (fun _ => reading) with
    ⟨polled, noOut, noErr⟩
  have unwritable : (state.ready false true false false false false).stdinOut = false := Bool.and_false _
  have readable : (state.ready false true false false false false).ssl = true ∧
      (state.ready false true false false false false).sslIn = true := by
    simp [State.ready, Loop.pollsSsl, Loop.needRead, reading, empty, stdinBufSize]
  generalize state.ready false true false false false false = ready at polled noOut noErr unwritable readable
  have waits : state.afterPoll false ready =
      { state with pc := .sslRead ready, loop := { state.loop with sslWantRead := false } } := by
    unfold State.afterPoll
    rw [readable.1, readable.2]
    dsimp only
    rw [if_pos (by rfl), if_pos reads]
  rw [waits] at polled
  have after : Loop.Gone { state.loop.accept call [byte] with sslWantRead := false } :=
    gone_wantRead (accept_gone call gone [byte]).1 false
  have got : step call { state with pc := .sslRead ready, loop := { state.loop with sslWantRead := false } }
      (.sslRead (.got 1)) =
        some (State.afterSslRead ready
          { state with
            pc := .sslRead ready, incoming := rest
            loop := { state.loop.accept call [byte] with sslWantRead := false } }) := by
    have enough : 1 ≤ Loop.readCap { state.loop with sslWantRead := false } := asked
    simp only [step, sslReadStep, incoming, List.length_cons, List.take_succ_cons, List.take_zero,
      List.drop_succ_cons, List.drop_zero, accept_wantRead]
    exact if_pos ⟨Nat.one_pos, enough, Nat.le_add_left 1 _⟩
  rw [afterSslRead_ends after noOut noErr unwritable] at got
  exact ⟨_, _, polled, got, rfl, rfl, rfl⟩

/-- With the pipe full, the next body byte is buffered for good. -/
theorem spins_of_brings {bytes : List UInt8} (top : state.pc = .top) (inv : Consistent state)
    (gone : state.loop.Gone) (opened : state.loop.stdinClosed = false) (empty : state.loop.stdinBuf = [])
    (incoming : state.incoming = bytes) (brings : state.loop.brings call bytes = true) :
    Spins call true asks state := by
  induction bytes generalizing state with
  | nil => exact absurd brings Bool.false_ne_true
  | cons byte rest inductionHypothesis =>
      have noError := inv.noError (not_leaving_of_eq top rfl)
      have reading := more_of_brings inv.last brings
      simp only [Loop.brings, Bool.and_eq_true, decide_eq_true_eq, Bool.or_eq_true] at brings
      rcases brings with ⟨⟨reads, asked⟩, arrives⟩
      rcases exec_byte call top gone noError opened empty reading reads asked incoming with
        ⟨middle, next, polled, got, nextTop, nextIncoming, ends⟩
      have allowed : Iterates true asks state (.poll false (.ready true false false false false)) := by
        refine ⟨rfl, ?_⟩
        simp [State.ready, Loop.pollsSsl, Loop.needRead, reading, empty, stdinBufSize]
      have allowedRead : Iterates true asks middle (.sslRead (.got 1)) := SslReadResult.noConfusion
      refine Spins.of_step allowed polled rfl (Spins.of_step allowedRead got rfl ?_)
      have consistent := step_consistent got (step_consistent polled inv)
      have accepted := accept_gone call gone [byte]
      have nextEmpty : (state.loop.accept call [byte]).stdinBuf = [] ->
          (state.loop.accept call [byte]).brings call rest = true := by
        intro nothing
        rw [nothing] at arrives
        exact arrives.resolve_left (by decide)
      have more : (state.loop.accept call [byte]).stdinBuf = [] ->
          (state.loop.accept call [byte]).bodyEof = false :=
        fun nothing => more_of_brings (accept_eofLast inv.last [byte]) (nextEmpty nothing)
      have nextLoop := ends.trans (closeStdin_of_more more)
      have nextGone : next.loop.Gone := by
        rw [nextLoop]
        exact gone_wantRead accepted.1 false
      have nextOpened : next.loop.stdinClosed = false := by
        rw [nextLoop]
        exact accepted.2.1.trans opened
      by_cases nothing : (state.loop.accept call [byte]).stdinBuf = []
      · refine inductionHypothesis nextTop consistent nextGone nextOpened (by rw [nextLoop]; exact nothing)
          nextIncoming ?_
        rw [nextLoop, brings_wantRead]
        exact nextEmpty nothing
      · exact spins_of_full nextTop nextGone (consistent.noError (not_leaving_of_eq nextTop rfl)) nextOpened
          (by rw [nextLoop]; exact nothing)

/-! ## When the loop ends behind its child -/

/-- A state in which only the stdin pipe keeps the loop running leaves it if and only if
the buffered data are written, or there is nothing left to write and TLS needs no write. -/
theorem loop_ends_behind_child_iff (call : Call) (full asks : Bool) {incoming : List UInt8}
    {events : List Event}
    {state : State} (run : Machine.exec (step call) (call.start incoming) events = some state)
    (top : state.pc = .top) (gone : state.loop.Gone) :
    LeavesLoop call full asks state ↔ Drains call full asks state := by
  have inv : Consistent state :=
    Machine.invariant_exec (fun _ _ _ stepped held => step_consistent stepped held) run
      (start_consistent call incoming)
  refine ⟨fun leaves => ?_, leavesLoop_of_drains top inv gone⟩
  have noError := inv.noError (not_leaving_of_eq top rfl)
  by_contra stuck
  rcases not_or.mp stuck with ⟨closed, blocked⟩
  have opened := Bool.eq_false_iff.mpr closed
  by_cases empty : state.loop.stdinBuf = []
  · rw [if_pos empty] at blocked
    have reading : state.loop.bodyEof = false :=
      Bool.eq_false_iff.mpr (fun eof => closed (inv.closedUp (Or.inl top) eof empty))
    have reads : state.loop.reads = true := by
      have notDone : state.loop.brState ≠ .done := fun done =>
        absurd (reading.symm.trans (inv.last.mp done)) Bool.false_ne_true
      exact reads_of_empty empty notDone
    by_cases wish : state.loop.sslWantWrite = true
    · exact (spins_of_wish full asks top gone noError opened reading empty wish).not_leavesLoop leaves
    by_cases silent : asks = true
    · subst silent
      exact (spins_of_asks full top gone noError opened reading empty reads).not_leavesLoop leaves
    · have loses := not_or.mp (fun quiet =>
        blocked ⟨Bool.eq_false_iff.mpr silent, Bool.eq_false_iff.mpr wish, quiet⟩)
      have isFull : full = true := Bool.eq_true_of_not_eq_false loses.1
      subst isFull
      exact (spins_of_brings top inv gone opened empty rfl
        (Bool.eq_true_of_not_eq_false loses.2)).not_leavesLoop leaves
  · rw [if_neg empty] at blocked
    have isFull : full = true := Bool.eq_true_of_not_eq_false blocked
    subst isFull
    exact (spins_of_full top gone noError opened empty).not_leavesLoop leaves

/-- A body of the given length. -/
def sizedCall (contentLength : Int) : Call := ⟨contentLength, false, true, fun _ => 0⟩

/-- The body is read while the child exits, and its outputs are at their end. -/
def bufferedRun (count : Nat) : List Event :=
  [.poll false (.ready true false false false false), .sslRead (.got count), .childExit (.exited 0),
    .childClose false, .childClose true, .waitpid true, .poll false (.ready false false false true true),
    .read 0, .read 0]

/-- The end of the body is buffered, the child gone. -/
def bufferedState (written buffered : List UInt8) : State where
  pc := .top
  loop := ⟨.done, 0, [], true, false, true, true, true, true, 0, false, buffered, [], false, false⟩
  out := ⟨[], [], true⟩
  err := ⟨[], [], true⟩
  child := .reaped
  incoming := []
  delivered := []
  stdinWritten := written

theorem loop_ends_behind_child_iff_two_bytes :
    LeavesLoop (sizedCall 2) false true (bufferedState [] [1, 2]) :=
  (loop_ends_behind_child_iff (sizedCall 2) false true (by decide :
    Machine.exec (step (sizedCall 2)) ((sizedCall 2).start [1, 2]) (bufferedRun 2) =
      some (bufferedState [] [1, 2])) rfl ⟨rfl, rfl, rfl, rfl⟩).mpr (by decide)

/-- A block is read and written to the stdin pipe, and the last byte is read. -/
def filledRun (count : Nat) : List Event :=
  [.poll false (.ready true false false false false), .sslRead (.got count), .waitpid false,
    .poll false (.ready false false true false false), .stdinWrite (.wrote count), .waitpid false] ++
    bufferedRun 1

/-- The call while its body is read, with the child running. -/
def bodyState (pc : Pc) (brRemaining : Int) (stdinBuf incoming stdinWritten : List UInt8) : State where
  pc := pc
  loop := ⟨.data, brRemaining, [], false, false, true, false, false, false, -1, false, stdinBuf, [],
    false, false⟩
  out := .fresh
  err := .fresh
  child := .running
  incoming := incoming
  delivered := []
  stdinWritten := stdinWritten

/-- `SSL_read` gets the given bytes. -/
theorem step_sslRead (call : Call) (state : State) {ready : Ready} {bytes rest : List UInt8}
    (at_ : state.pc = .sslRead ready) (incoming : state.incoming = bytes ++ rest) (isSome : bytes ≠ [])
    (asked : bytes.length ≤ state.loop.readCap) :
    step call state (.sslRead (.got bytes.length)) =
      some (State.afterSslRead ready
        { state with incoming := rest, loop := state.loop.accept call bytes }) := by
  have enough : bytes.length ≤ (bytes ++ rest).length := by
    rw [List.length_append]
    exact Nat.le_add_right _ _
  simp only [step, at_, sslReadStep, incoming, List.take_left, List.drop_left]
  exact if_pos ⟨List.length_pos_iff.mpr isSome, asked, enough⟩

/-- The pipe takes all that is buffered. -/
theorem step_stdinWrite (call : Call) (state : State) {ready : Ready} {bytes : List UInt8}
    (at_ : state.pc = .stdinWrite ready) (buffered : state.loop.stdinBuf = bytes) (isSome : bytes ≠ []) :
    step call state (.stdinWrite (.wrote bytes.length)) =
      some (State.afterStdinWrite ready
        { state with
          stdinWritten := state.stdinWritten ++ bytes, loop := { state.loop with stdinBuf := [] } }) := by
  simp only [step, at_, stdinWriteStep, buffered, List.take_length, List.drop_length]
  exact if_pos ⟨List.length_pos_iff.mpr isSome, Nat.le_refl _⟩

/-- The block goes through the buffer into the pipe. -/
theorem exec_filled {block rest : List UInt8} (length : block.length = stdinBufSize) :
    Machine.exec (step (sizedCall 65537)) ((sizedCall 65537).start (block ++ rest))
      [.poll false (.ready true false false false false), .sslRead (.got block.length), .waitpid false,
        .poll false (.ready false false true false false), .stdinWrite (.wrote block.length), .waitpid false] =
      some (bodyState .top 1 [] rest block) := by
  have isSome : block ≠ [] := by
    rintro rfl
    cases length
  rcases List.exists_cons_of_ne_nil isSome with ⟨head, tail, split⟩
  have first : step (sizedCall 65537) ((sizedCall 65537).start (block ++ rest))
      (.poll false (.ready true false false false false)) =
        some (bodyState (.sslRead ⟨true, true, false, false, false, false⟩) 65537 [] (block ++ rest) []) := rfl
  have second : step (sizedCall 65537)
      (bodyState (.sslRead ⟨true, true, false, false, false, false⟩) 65537 [] (block ++ rest) [])
      (.sslRead (.got block.length)) = some (bodyState .reap 1 block rest []) := by
    have accepted : Loop.accept (sizedCall 65537) (bodyState .top 65537 [] [] []).loop block =
        (bodyState .top 1 block [] []).loop := by
      simp only [bodyState, Loop.accept, Loop.dataBytes, length]
      rfl
    have got := step_sslRead (sizedCall 65537)
      (bodyState (.sslRead ⟨true, true, false, false, false, false⟩) 65537 [] (block ++ rest) []) rfl rfl isSome
      (Nat.le_of_eq length)
    have same : Loop.accept (sizedCall 65537) (bodyState (.sslRead ⟨true, true, false, false, false, false⟩)
        65537 [] (block ++ rest) []).loop block = (bodyState .top 1 block [] []).loop := accepted
    rw [got, same, split]
    rfl
  have third : step (sizedCall 65537) (bodyState .reap 1 block rest []) (.waitpid false) =
      some (bodyState .top 1 block rest []) := rfl
  have fourth : step (sizedCall 65537) (bodyState .top 1 block rest [])
      (.poll false (.ready false false true false false)) =
        some (bodyState (.stdinWrite ⟨false, false, false, true, false, false⟩) 1 block rest []) := by
    have full : Loop.needRead (bodyState .top 1 block rest []).loop = false := by
      simp [Loop.needRead, bodyState, length]
    have unread : (bodyState .top 1 block rest []).loop.pollsSsl false = false := by
      rw [Loop.pollsSsl, full]
      rfl
    have polls : (bodyState .top 1 block rest []).loop.pollsStdin = true := by
      rw [split]
      rfl
    simp only [step, topStep, State.ready, Loop.pollsNothing, unread, polls]
    simp [bodyState, Loop.continues, State.afterPoll, State.afterSslRead, State.afterSslWrite, isSome]
  have fifth : step (sizedCall 65537)
      (bodyState (.stdinWrite ⟨false, false, false, true, false, false⟩) 1 block rest [])
      (.stdinWrite (.wrote block.length)) = some (bodyState .reap 1 [] rest block) :=
    step_stdinWrite (sizedCall 65537)
      (bodyState (.stdinWrite ⟨false, false, false, true, false, false⟩) 1 block rest []) rfl rfl isSome
  have sixth : step (sizedCall 65537) (bodyState .reap 1 [] rest block) (.waitpid false) =
      some (bodyState .top 1 [] rest block) := rfl
  rw [Machine.exec_cons_of_step first, Machine.exec_cons_of_step second, Machine.exec_cons_of_step third,
    Machine.exec_cons_of_step fourth, Machine.exec_cons_of_step fifth, Machine.exec_cons_of_step sixth,
    Machine.exec_nil]

theorem exec_filledRun {block : List UInt8} (byte : UInt8) (length : block.length = stdinBufSize) :
    Machine.exec (step (sizedCall 65537)) ((sizedCall 65537).start (block ++ [byte])) (filledRun block.length) =
      some (bufferedState block [byte]) := by
  -- the last byte ends the body; then the child exits and is reaped; then both outputs end
  have buffered : Machine.exec (step (sizedCall 65537)) (bodyState .top 1 [] [byte] block)
      [.poll false (.ready true false false false false), .sslRead (.got 1)] =
        some
          { bodyState .reap 0 [byte] [] block with
            loop := ⟨.done, 0, [], true, false, true, false, false, false, -1, false, [byte], [], false,
              false⟩ } :=
    rfl
  have reaped : Machine.exec (step (sizedCall 65537))
      { bodyState .reap 0 [byte] [] block with
        loop := ⟨.done, 0, [], true, false, true, false, false, false, -1, false, [byte], [], false, false⟩ }
      [.childExit (.exited 0), .childClose false, .childClose true, .waitpid true] =
        some
          { bufferedState block [byte] with
            loop := ⟨.done, 0, [], true, false, true, false, false, true, 0, false, [byte], [], false,
              false⟩ } :=
    rfl
  have ended : Machine.exec (step (sizedCall 65537))
      { bufferedState block [byte] with
        loop := ⟨.done, 0, [], true, false, true, false, false, true, 0, false, [byte], [], false, false⟩ }
      [.poll false (.ready false false false true true), .read 0, .read 0] =
        some (bufferedState block [byte]) := rfl
  have parts : bufferedRun 1 = [.poll false (.ready true false false false false), .sslRead (.got 1)] ++
      ([.childExit (.exited 0), .childClose false, .childClose true, .waitpid true] ++
        [.poll false (.ready false false false true true), .read 0, .read 0]) := rfl
  rw [filledRun, Machine.exec_append, exec_filled length, Option.bind_some, parts, Machine.exec_append,
    buffered,
    Option.bind_some, Machine.exec_append, reaped, Option.bind_some, ended]

/-- The pipe holds the first 65536 bytes of the body, as much as it can, and the last one
is left for it.  `poll` reports `POLLERR` without `POLLOUT`, which leads back to the same state. -/
theorem loop_spins_behind_child : Exists fun events => Exists fun state =>
    Machine.exec (step (sizedCall 65537)) ((sizedCall 65537).start (List.replicate 65536 97 ++ [98])) events =
        some state ∧
      state.pc = .top ∧ state.loop.Gone ∧ state.child = .reaped ∧ state.stdinWritten.length = 65536 ∧
        state.loop.stdinBuf = [98] ∧
        step (sizedCall 65537) state (.poll false (.ready false false false false false)) = some state ∧
          Iterates true false state (.poll false (.ready false false false false false)) ∧
            ¬ LeavesLoop (sizedCall 65537) true false state := by
  have length : (List.replicate 65536 (97 : UInt8)).length = stdinBufSize := List.length_replicate
  generalize List.replicate 65536 (97 : UInt8) = block at length
  have run := exec_filledRun 98 length
  have gone : (bufferedState block [98]).loop.Gone := ⟨rfl, rfl, rfl, rfl⟩
  refine ⟨_, _, run, rfl, gone, rfl, length, rfl, rfl, ⟨rfl, rfl⟩, ?_⟩
  exact (spins_of_full rfl gone rfl rfl (List.cons_ne_nil _ _)).not_leavesLoop

end PipeLoop
end Executor
end AdbBridge
