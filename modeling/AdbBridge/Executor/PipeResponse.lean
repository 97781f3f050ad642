import AdbBridge.Executor.SseBuffer

namespace AdbBridge
namespace Executor
namespace PipeLoop

open Library Library.Numeral Library.ChunkedCoding

/-!
# The body that `exec_run_pipe` sends

In both modes the bytes on their way to the client are whole chunks, until a line is
framed that does not fit the output buffer with its terminator.  What is behind the
first such line is no chunk any more, whatever follows.
-/

/-! ## What a step does to the bytes on their way -/

/-- The bytes TLS accepted and those still in the output buffer. -/
def State.wire (state : State) : List UInt8 := state.delivered ++ state.loop.sseBuf

/-- TLS did not fail, and the buffer is sent before the termination. -/
structure Sending (state : State) : Prop where
  noError : state.loop.sslError = false
  sent : state.pc = .terminate ∨ state.pc = .returned -> state.loop.sseBuf = []

/-- What a step does to the bytes: it leaves them alone, it is a read, or it sends the
termination. -/
inductive WireStep (call : Call) (state : State) (event : Event) (next : State) : Prop where
  | kept (nothing : readsOf state event = []) (same : next.wire = state.wire)
      (position : next.pc = .returned ↔ state.pc = .returned)
  | read (isErr : Bool) (bytes : List UInt8)
      (isRead : readsOf state event = [⟨isErr, bytes, state.loop.sseBuf.length⟩])
      (grown : next.wire = state.delivered ++ (state.loop.output call isErr bytes).sseBuf)
      (outside : state.pc ≠ .returned ∧ next.pc ≠ .returned)
  | terminated (nothing : readsOf state event = []) (outside : state.pc ≠ .returned)
      (sent : next.wire = state.wire ++ termination call state.loop.exitCode)
      (returned : next.pc = .returned)

variable {call : Call} {state next : State} {event : Event}

/-- The rest of an iteration leaves the output side alone. -/
theorem Rest.output_eq {ready : Ready} (rest : Rest ready state next) :
    next.loop.sslError = state.loop.sslError ∧ next.wire = state.wire ∧ next.pc.leaving = false := by
  cases rest with
  | next pc wantRead wantWrite within => exact ⟨rfl, rfl, not_leaving_of_inIteration within⟩
  | last pc wantRead wantWrite ends =>
      have kept := closeStdin_output state.loop
      refine ⟨kept.1, congrArg (state.delivered ++ ·) kept.2.2, ?_⟩
      rcases ends with rfl | rfl <;> rfl

/-- The steps that go on inside an iteration keep the bytes. -/
theorem Rest.sending {ready : Ready} (rest : Rest ready state next) (noError : state.loop.sslError = false) :
    Sending next ∧ next.wire = state.wire ∧ next.pc ≠ .returned := by
  rcases rest.output_eq with ⟨error, wire, stays⟩
  refine ⟨⟨error.trans noError, fun ending => ?_⟩, wire, ne_returned_of_not_leaving stays⟩
  rcases ending with isPc | isPc <;> (rw [isPc] at stays; cases stays)

/-- The steps that leave the loop keep the bytes. -/
theorem Left.sending (left : Left state next) (noError : state.loop.sslError = false) :
    Sending next ∧ next.wire = state.wire ∧ next.pc ≠ .returned := by
  cases left with
  | kill => exact ⟨⟨noError, fun ending => by rcases ending with isPc | isPc <;> cases isPc⟩, rfl, nofun⟩
  | flush => exact ⟨⟨noError, fun ending => by rcases ending with isPc | isPc <;> cases isPc⟩, rfl, nofun⟩
  | terminate _ none => exact ⟨⟨noError, fun _ => none⟩, rfl, nofun⟩
  | failed error => exact absurd (noError.symm.trans error) Bool.false_ne_true

/-- Every step in which TLS sends what it is given is of one of the three kinds. -/
theorem wireStep_of_step (stepped : step call state event = some next) (sends : event.sendFails = false)
    (sending : Sending state) : Sending next ∧ WireStep call state event next := by
  have kept : readsOf state event = [] -> state.pc ≠ .returned ->
      (Sending next ∧ next.wire = state.wire ∧ next.pc ≠ .returned) ->
      Sending next ∧ WireStep call state event next := by
    rintro nothing open_ ⟨after, same, stays⟩
    exact ⟨after, .kept nothing same
      ⟨fun returned => absurd returned stays, fun returned => absurd returned open_⟩⟩
  have outside : forall pc : Pc, state.pc = pc -> pc ≠ .returned -> state.pc ≠ .returned :=
    fun pc isPc open_ returned => open_ (isPc.symm.trans returned)
  cases transition_of_step stepped with
  | writeOut | writeErr | closeOut | closeErr | exit | interrupted =>
      exact ⟨⟨sending.noError, sending.sent⟩, .kept rfl rfl Iff.rfl⟩
  | polled _ _ _ _ _ _ _ top _ _ rest =>
      exact kept rfl (outside _ top Pc.noConfusion) (rest.sending sending.noError)
  | pollFailed _ _ top left | ended _ top _ left | idle _ top _ _ left | waitFailed _ top left =>
      exact kept rfl (outside _ top Pc.noConfusion) (left.sending sending.noError)
  | waits top nothing running =>
      refine kept rfl (outside _ top Pc.noConfusion) ⟨⟨sending.noError, fun ending => ?_⟩, rfl, Pc.noConfusion⟩
      rcases ending with isPc | isPc <;> cases isPc
  | sslGot ready count _ isPc _ _ _ rest =>
      rcases accept_eq_withReader call state.loop (state.incoming.take count) with ⟨_, _, _, _, _, owned⟩
      rw [owned] at rest
      exact kept rfl (outside _ isPc Pc.noConfusion) (rest.sending sending.noError)
  | sslWants _ _ _ isPc _ rest | sslReadFailed _ _ isPc rest | sslWriteWants _ _ isPc rest
  | stdinAgain _ _ isPc rest | stdinFailed _ _ isPc rest =>
      exact kept rfl (outside _ isPc Pc.noConfusion) (rest.sending sending.noError)
  | stdinWrote _ _ _ isPc _ _ rest =>
      exact kept rfl (outside _ isPc Pc.noConfusion) (rest.sending sending.noError)
  | sslWrote ready count _ isPc positive held rest =>
      rcases rest.sending sending.noError with ⟨after, wire, stays⟩
      refine kept rfl (outside _ isPc Pc.noConfusion) ⟨after, wire.trans ?_, stays⟩
      simp only [State.wire]
      rw [List.append_assoc, List.take_append_drop]
  | sslWriteFailed _ _ _ left => cases sends
  | readOut errIn count bytes pipe _ isPc got rest =>
      have error : (state.loop.output call false bytes).sslError = false := by
        rw [Loop.output]
        split_ifs <;> exact sending.noError
      rcases rest.sending error with ⟨after, wire, stays⟩
      exact ⟨after, .read false bytes (readsOf_readOut isPc got) wire ⟨outside _ isPc Pc.noConfusion, stays⟩⟩
  | readErr count bytes pipe _ isPc got rest =>
      have error : (state.loop.output call true bytes).sslError = false := by
        rw [Loop.output]
        split_ifs <;> exact sending.noError
      rcases rest.sending error with ⟨after, wire, stays⟩
      exact ⟨after, .read true bytes (readsOf_readErr isPc got) wire ⟨outside _ isPc Pc.noConfusion, stays⟩⟩
  | notReaped isPc | reaps status isPc zombie =>
      refine kept rfl (outside _ isPc Pc.noConfusion) ⟨⟨sending.noError, fun ending => ?_⟩, rfl, Pc.noConfusion⟩
      rcases ending with isPc | isPc <;> cases isPc
  | waitReaps _ _ isPc _ left | killUnreaped _ isPc left | killReaps _ _ isPc _ left =>
      exact kept rfl (outside _ isPc Pc.noConfusion) (left.sending sending.noError)
  | flushed result accepted isPc isAccepted =>
      cases result with
      | cut count => cases sends
      | all =>
          have whole : state.loop.sseBuf = accepted := Option.some.inj isAccepted
          refine kept rfl (outside _ isPc Pc.noConfusion) ⟨⟨sending.noError, fun _ => rfl⟩, ?_, Pc.noConfusion⟩
          simp only [State.wire]
          rw [List.append_nil, whole]
  | terminated result accepted isPc isAccepted =>
      cases result with
      | cut count => cases sends
      | all =>
          have whole : termination call state.loop.exitCode = accepted := Option.some.inj isAccepted
          have empty := sending.sent (Or.inl isPc)
          refine ⟨⟨sending.noError, fun _ => empty⟩, .terminated rfl (outside _ isPc Pc.noConfusion) ?_ rfl⟩
          change state.delivered ++ accepted ++ state.loop.sseBuf = state.delivered ++ state.loop.sseBuf ++ _
          rw [empty, List.append_nil, List.append_nil, whole]

/-! ## Whole chunks -/

/-- Whole chunks that are not empty, and behind them the last chunk once the call returned. -/
def Framed (state : State) : Prop :=
  Exists fun chunks : List (List UInt8) => (forall chunk, chunk ∈ chunks -> chunk ≠ []) ∧
    state.wire = chunks.flatMap encodeChunk ++ (if state.pc = .returned then lastChunk else [])

/-- The bytes of a read become whole chunks. -/
def Call.FramesRead (call : Call) (read : Read) : Prop := call.raw = true ∨ read.Unbroken

instance (read : Read) : Decidable (call.FramesRead read) := inferInstanceAs (Decidable (_ ∨ _))

/-- What a read appends in raw mode: nothing, or its chunk. -/
theorem output_raw_cases (raw : call.raw = true) (loop : Loop) (isErr : Bool) (bytes : List UInt8) :
    (loop.output call isErr bytes).sseBuf = loop.sseBuf ∨
      bytes ≠ [] ∧ (loop.output call isErr bytes).sseBuf = loop.sseBuf ++ encodeChunk bytes := by
  rw [Loop.output]
  by_cases empty : bytes = []
  · rw [if_pos empty]
    cases isErr <;> exact Or.inl rfl
  · rw [if_neg empty, if_pos raw]
    cases isErr with
    | true => exact Or.inl rfl
    | false =>
        change rawFrame loop.sseBuf bytes = loop.sseBuf ∨
          bytes ≠ [] ∧ rawFrame loop.sseBuf bytes = loop.sseBuf ++ encodeChunk bytes
        by_cases room : HasRoom loop.sseBuf bytes
        · exact Or.inr ⟨empty, rawFrame_of_fits room⟩
        · exact Or.inl (rawFrame_of_not_fits room)

theorem output_raw (raw : call.raw = true) (loop : Loop) (isErr : Bool) (bytes : List UInt8) :
    Exists fun chunks : List (List UInt8) => (forall chunk, chunk ∈ chunks -> chunk ≠ []) ∧
      (loop.output call isErr bytes).sseBuf = loop.sseBuf ++ chunks.flatMap encodeChunk := by
  rcases output_raw_cases raw loop isErr bytes with nothing | ⟨nonempty, one⟩
  · exact ⟨[], fun _ member => absurd member List.not_mem_nil, nothing.trans (List.append_nil _).symm⟩
  · refine ⟨[bytes], fun chunk member => List.mem_singleton.mp member ▸ nonempty, ?_⟩
    rw [one, List.flatMap_singleton]

/-- What a read appends in either mode, if its lines fit. -/
theorem output_frames {loop : Loop} {isErr : Bool} {bytes : List UInt8}
    (frames : call.FramesRead ⟨isErr, bytes, loop.sseBuf.length⟩) :
    Exists fun chunks : List (List UInt8) => (forall chunk, chunk ∈ chunks -> chunk ≠ []) ∧
      (loop.output call isErr bytes).sseBuf = loop.sseBuf ++ chunks.flatMap encodeChunk := by
  by_cases raw : call.raw = true
  · exact output_raw raw loop isErr bytes
  · have sse : call.raw = false := (Bool.not_eq_true _).mp raw
    rcases output_sse sse loop (frames.resolve_left raw) with ⟨stderrDone, owned⟩
    refine ⟨Read.events ⟨isErr, bytes, loop.sseBuf.length⟩, fun chunk member => ?_, by rw [owned]⟩
    rcases List.mem_map.mp member with ⟨piece, _, same⟩
    exact same ▸ sseEvent_ne_nil isErr piece

/-- The termination is a chunk at most, and the last chunk. -/
theorem termination_chunks (call : Call) (exitCode : Int) :
    Exists fun chunks : List (List UInt8) => (forall chunk, chunk ∈ chunks -> chunk ≠ []) ∧
      termination call exitCode = chunks.flatMap encodeChunk ++ lastChunk := by
  by_cases raw : call.raw = true
  · refine ⟨[], fun _ member => absurd member List.not_mem_nil, ?_⟩
    rw [termination, if_pos raw]
    rfl
  · refine ⟨[exitLine exitCode ++ ascii "\n\n"], fun chunk member => ?_, ?_⟩
    · rw [List.mem_singleton.mp member]
      exact List.append_ne_nil_of_right_ne_nil _ (by decide)
    · rw [termination_sse ((Bool.not_eq_true _).mp raw), List.flatMap_singleton]

/-- A step whose read is framed keeps the chunks whole. -/
theorem WireStep.framed (moved : WireStep call state event next) (framed : Framed state)
    (frames : forall read, read ∈ readsOf state event -> call.FramesRead read) : Framed next := by
  rcases framed with ⟨chunks, nonempty, wire⟩
  have both : forall {more : List (List UInt8)}, (forall chunk, chunk ∈ more -> chunk ≠ []) ->
      forall chunk, chunk ∈ chunks ++ more -> chunk ≠ [] := fun some chunk member =>
    (List.mem_append.mp member).elim (nonempty chunk) (some chunk)
  cases moved with
  | kept nothing same position =>
      refine ⟨chunks, nonempty, ?_⟩
      rw [same, wire]
      simp only [position]
  | read isErr bytes isRead grown outside =>
      rcases output_frames (frames _ (by rw [isRead]; exact List.mem_cons_self)) with ⟨more, some, output⟩
      rw [if_neg outside.1, List.append_nil] at wire
      refine ⟨chunks ++ more, both some, ?_⟩
      rw [grown, output, ← List.append_assoc, if_neg outside.2, List.append_nil, List.flatMap_append, ← wire,
        State.wire]
  | terminated nothing outside sent returned =>
      rcases termination_chunks call state.loop.exitCode with ⟨more, some, isMore⟩
      rw [if_neg outside, List.append_nil] at wire
      refine ⟨chunks ++ more, both some, ?_⟩
      rw [sent, wire, isMore, if_pos returned, List.flatMap_append, List.append_assoc]

/-! ## A line that does not fit -/

/-- Whole chunks, and then something with a size line that does not end where it says. -/
def Spoiled (text : List UInt8) : Prop :=
  Exists fun chunks : List (List UInt8) => (forall chunk, chunk ∈ chunks -> chunk ≠ []) ∧
    Exists fun size => Exists fun front : List UInt8 => Exists fun rest : List UInt8 =>
      front.length = size + 1 ∧
        text = chunks.flatMap encodeChunk ++ (formatHex size ++ crlf ++ (front ++ 0 :: rest))

variable {text : List UInt8}

/-- Nothing behind it repairs it. -/
theorem Spoiled.append (spoiled : Spoiled text) (more : List UInt8) : Spoiled (text ++ more) := by
  rcases spoiled with ⟨chunks, nonempty, size, front, rest, length, same⟩
  refine ⟨chunks, nonempty, size, front, rest ++ more, length, ?_⟩
  rw [same]
  simp only [List.append_assoc, List.cons_append]

/-- Whole chunks before it change nothing. -/
theorem Spoiled.behind {before : List (List UInt8)} (some : forall chunk, chunk ∈ before -> chunk ≠ [])
    (spoiled : Spoiled text) : Spoiled (before.flatMap encodeChunk ++ text) := by
  rcases spoiled with ⟨chunks, nonempty, size, front, rest, length, same⟩
  refine ⟨before ++ chunks, fun chunk member => ?_, size, front, rest, length, ?_⟩
  · exact (List.mem_append.mp member).elim (some chunk) (nonempty chunk)
  · rw [same]
    simp only [List.append_assoc, List.flatMap_append]

/-- It is not read as a body. -/
theorem Spoiled.unread (spoiled : Spoiled text) : decodeChunks text = none := by
  rcases spoiled with ⟨chunks, nonempty, size, front, rest, length, same⟩
  rw [same]
  exact decodeChunks_of_unread nonempty (readChunk_unended length (by decide))

/-- Framing only appends. -/
theorem frameLines_grows (beyond : Nat -> UInt8) (isErr : Bool) (sseBuf : List UInt8)
    (lines : List (List UInt8)) :
    Exists fun more => frameLines beyond isErr sseBuf lines = sseBuf ++ more := by
  have print : forall sseBuf text : List UInt8,
      Exists fun more => snprintfAt beyond sseBuf text = sseBuf ++ more := by
    intro sseBuf text
    unfold snprintfAt
    dsimp only
    split_ifs
    · exact ⟨_, rfl⟩
    · exact ⟨_, rfl⟩
    · exact ⟨_, by rw [List.append_assoc, List.append_assoc]⟩
  induction lines generalizing sseBuf with
  | nil => exact ⟨[], (List.append_nil _).symm⟩
  | cons line rest inductionHypothesis =>
      rw [frameLines]
      by_cases room : sseBuf.length < sseBufSize - 512
      · rw [if_pos room]
        rcases inductionHypothesis (frameLine beyond isErr sseBuf line) with ⟨later, isLater⟩
        rw [isLater]
        by_cases empty : line = []
        · rw [frameLine, if_pos empty]
          exact ⟨later, rfl⟩
        · rcases print sseBuf (formatHex (sseEvent isErr line).length ++ crlf) with ⟨first, isFirst⟩
          rcases print (sseBuf ++ first) (sseEvent isErr line ++ crlf) with ⟨second, isSecond⟩
          rw [frameLine_eq beyond isErr sseBuf empty, isFirst, isSecond]
          exact ⟨first ++ second ++ later, by simp only [List.append_assoc]⟩
      · rw [if_neg room]
        exact ⟨[], (List.append_nil _).symm⟩

/-- A frame that ends with the buffer loses its last byte to the terminator. -/
theorem frameLine_of_full (beyond : Nat -> UInt8) {isErr : Bool} {sseBuf line : List UInt8} (some : line ≠ [])
    (full : sseBuf.length + frameSize isErr line = sseBufSize) :
    Exists fun front : List UInt8 => front.length = (sseEvent isErr line).length + 1 ∧
      frameLine beyond isErr sseBuf line =
        sseBuf ++ (formatHex (sseEvent isErr line).length ++ crlf ++ (front ++ [0])) := by
  have crlfLength : crlf.length = 2 := by decide
  rw [frameSize, length_encodeChunk] at full
  have headerFits : (formatHex (sseEvent isErr line).length ++ crlf).length < sseBufSize - sseBuf.length := by
    rw [List.length_append, crlfLength]
    omega
  have room : sseBufSize - (sseBuf ++ (formatHex (sseEvent isErr line).length ++ crlf)).length =
      (sseEvent isErr line ++ crlf).length := by
    rw [List.length_append, List.length_append, List.length_append, crlfLength]
    omega
  have size : (sseEvent isErr line ++ crlf).length = (sseEvent isErr line).length + 2 := by
    rw [List.length_append, crlfLength]
  refine ⟨(sseEvent isErr line ++ crlf).take ((sseEvent isErr line).length + 1), ?_, ?_⟩
  · rw [List.length_take, size]
    omega
  · rw [frameLine_eq beyond isErr sseBuf some, snprintfAt_of_fits beyond headerFits, snprintfAt]
    rw [room, size, if_neg (Nat.lt_irrefl _), if_neg (Nat.succ_ne_zero _), Nat.sub_self, List.range_zero,
      List.map_nil, List.append_nil]
    simp only [List.append_assoc, Nat.add_succ_sub_one]

/-- Lines that stay inside the buffer but do not all fit spoil what is sent.  By
induction on the lines: those before the first that does not fit are whole chunks. -/
theorem frameLines_spoiled (beyond : Nat -> UInt8) {isErr : Bool} {sseBuf : List UInt8}
    {lines : List (List UInt8)} (inside : linesInside isErr sseBuf.length lines = true)
    (broken : linesUnbroken isErr sseBuf.length lines = false) :
    Exists fun text => Spoiled text ∧ frameLines beyond isErr sseBuf lines = sseBuf ++ text := by
  induction lines generalizing sseBuf with
  | nil => cases broken
  | cons line rest inductionHypothesis =>
      rw [linesInside] at inside
      rw [linesUnbroken] at broken
      rw [frameLines]
      by_cases room : sseBuf.length < sseBufSize - 512
      · rw [if_pos room] at inside broken ⊢
        by_cases empty : line = []
        · rw [if_pos empty] at inside broken
          rw [frameLine, if_pos empty]
          exact inductionHypothesis inside broken
        · rw [if_neg empty, Bool.and_eq_true, decide_eq_true_eq] at inside
          rw [if_neg empty, Bool.and_eq_false_iff, decide_eq_false_iff_not] at broken
          by_cases fits : sseBuf.length + frameSize isErr line < sseBufSize
          · have length : (sseBuf ++ encodeChunk (sseEvent isErr line)).length =
                sseBuf.length + frameSize isErr line := List.length_append
            rcases inductionHypothesis (by rw [length]; exact inside.2)
              (by rw [length]; exact broken.resolve_left (fun exceeds => exceeds fits)) with ⟨text,
                  spoiled, framed⟩
            refine ⟨encodeChunk (sseEvent isErr line) ++ text, ?_, ?_⟩
            · have one := @Spoiled.behind text [sseEvent isErr line]
                (fun chunk member => List.mem_singleton.mp member ▸ sseEvent_ne_nil isErr line) spoiled
              rw [List.flatMap_singleton] at one
              exact one
            · rw [frameLine_of_fits beyond empty fits, framed, List.append_assoc]
          · rcases frameLine_of_full beyond empty (Nat.le_antisymm inside.1 (Nat.not_lt.mp fits)) with
              ⟨front, length, framed⟩
            rcases frameLines_grows beyond isErr (frameLine beyond isErr sseBuf line) rest with ⟨more, grown⟩
            refine ⟨formatHex (sseEvent isErr line).length ++ crlf ++ (front ++ 0 :: more), ?_, ?_⟩
            · exact ⟨[], fun _ member => absurd member List.not_mem_nil, _, front, more, length, rfl⟩
            · rw [grown, framed]
              simp only [List.append_assoc, List.cons_append, List.nil_append]
      · rw [if_neg room] at broken
        cases broken

/-- A read only appends. -/
theorem output_grows (call : Call) (loop : Loop) (isErr : Bool) (bytes : List UInt8) :
    Exists fun more => (loop.output call isErr bytes).sseBuf = loop.sseBuf ++ more := by
  by_cases raw : call.raw = true
  · rcases output_raw raw loop isErr bytes with ⟨chunks, _, output⟩
    exact ⟨_, output⟩
  · rw [Loop.output]
    by_cases empty : bytes = []
    · rw [if_pos empty]
      cases isErr <;> exact ⟨[], (List.append_nil _).symm⟩
    · rw [if_neg empty, if_neg raw]
      exact frameLines_grows call.beyond isErr loop.sseBuf _

/-- What is spoiled stays so. -/
theorem WireStep.spoiled (moved : WireStep call state event next) (spoiled : Spoiled state.wire) :
    Spoiled next.wire := by
  cases moved with
  | kept nothing same position =>
      rw [same]
      exact spoiled
  | read isErr bytes isRead grown outside =>
      rcases output_grows call state.loop isErr bytes with ⟨more, output⟩
      rw [grown, output, ← List.append_assoc]
      exact spoiled.append more
  | terminated nothing outside sent returned =>
      rw [sent]
      exact spoiled.append _

/-- A read that stays inside the buffer but is not framed spoils what is sent. -/
theorem WireStep.spoils (moved : WireStep call state event next) (framed : Framed state)
    (inside : forall read, read ∈ readsOf state event -> read.Inside)
    (missed : ¬ forall read, read ∈ readsOf state event -> call.FramesRead read) : Spoiled next.wire := by
  rcases framed with ⟨chunks, nonempty, wire⟩
  have noReads : readsOf state event = [] -> Spoiled next.wire := by
    intro nothing
    refine absurd (fun read member => ?_) missed
    rw [nothing] at member
    exact absurd member List.not_mem_nil
  cases moved with
  | kept nothing _ _ => exact noReads nothing
  | terminated nothing _ _ _ => exact noReads nothing
  | read isErr bytes isRead grown outside =>
      rw [isRead, List.forall_mem_singleton] at inside missed
      rcases not_or.mp missed with ⟨notRaw, notUnbroken⟩
      have broken : linesUnbroken isErr state.loop.sseBuf.length ((cString bytes).splitOn 10) = false :=
        (Bool.not_eq_true _).mp notUnbroken
      have some : bytes ≠ [] := by
        rintro rfl
        have nothing : linesUnbroken isErr state.loop.sseBuf.length [[]] = true := by
          rw [linesUnbroken, if_pos rfl]
          split <;> rfl
        exact Bool.false_ne_true (broken.symm.trans nothing)
      have output : (state.loop.output call isErr bytes).sseBuf =
          frameLines call.beyond isErr state.loop.sseBuf ((cString bytes).splitOn 10) := by
        rw [Loop.output, if_neg some, if_neg notRaw]
      have fits : linesInside isErr state.loop.sseBuf.length ((cString bytes).splitOn 10) = true := inside
      rcases frameLines_spoiled call.beyond fits broken with ⟨text, spoiled, framedText⟩
      rw [if_neg outside.1, List.append_nil] at wire
      rw [grown, output, framedText, ← List.append_assoc]
      change Spoiled (state.wire ++ text)
      rw [wire]
      exact spoiled.behind nonempty

/-! ## Whole calls -/

/-- Nothing is on its way at the start. -/
theorem start_framed (call : Call) (incoming : List UInt8) :
    Sending (call.start incoming) ∧ Framed (call.start incoming) :=
  ⟨⟨rfl, fun _ => rfl⟩, [], fun _ member => absurd member List.not_mem_nil, rfl⟩

/-- The condition on a step: TLS sends what it is given, and in SSE mode the lines of a
read stay inside the output buffer. -/
def Call.Clean (call : Call) (state : State) (event : Event) : Prop :=
  event.sendFails = false ∧ (call.raw = true ∨ forall read, read ∈ readsOf state event -> read.Inside)

/-- The condition on a step: what it reads becomes whole chunks. -/
def Call.Frames (call : Call) (state : State) (event : Event) : Prop :=
  forall read, read ∈ readsOf state event -> call.FramesRead read

instance (state : State) (event : Event) : Decidable (call.Frames state event) :=
  inferInstanceAs (Decidable (forall read, read ∈ readsOf state event -> call.FramesRead read))

/-- A call ends with whole chunks if all its reads are framed, and with spoiled ones
otherwise. -/
theorem framed_or_spoiled {incoming : List UInt8} {events : List Event} {final : State}
    (run : Machine.exec (step call) (call.start incoming) events = some final)
    (clean : Machine.AllSteps (step call) call.Clean (call.start incoming) events) :
    Sending final ∧
      (Machine.AllSteps (step call) call.Frames (call.start incoming) events ∧ Framed final ∨
        ¬ Machine.AllSteps (step call) call.Frames (call.start incoming) events ∧ Spoiled final.wire) := by
  have kept : forall state event next, call.Clean state event -> step call state event = some next ->
      Sending state -> Sending next := fun _ _ _ met stepped sending =>
    (wireStep_of_step stepped met.1 sending).1
  have stays : forall state event next, call.Clean state event -> step call state event = some next ->
      Sending state -> Framed state -> call.Frames state event -> Framed next :=
    fun _ _ _ met stepped sending framed frames =>
      (wireStep_of_step stepped met.1 sending).2.framed framed frames
  have turns : forall state event next, call.Clean state event -> step call state event = some next ->
      Sending state -> Framed state -> ¬ call.Frames state event -> Spoiled next.wire := by
    intro state event next met stepped sending framed missed
    rcases met.2 with raw | inside
    · exact absurd (fun read _ => Or.inl raw) missed
    · exact (wireStep_of_step stepped met.1 sending).2.spoils framed inside missed
  have remains : forall state event next, call.Clean state event -> step call state event = some next ->
      Sending state -> Spoiled state.wire -> Spoiled next.wire :=
    fun _ _ _ met stepped sending spoiled => (wireStep_of_step stepped met.1 sending).2.spoiled spoiled
  rcases start_framed call incoming with ⟨sending, framed⟩
  exact @Machine.judged_exec _ _ (step call) Sending Framed (fun state => Spoiled state.wire) call.Clean
    call.Frames kept stays turns remains _ _ _ run clean sending framed

/-- What a returned call has sent is a complete body if and only if all its reads are
framed, as long as they stay inside the output buffer. -/
theorem delivered_complete_iff {incoming : List UInt8} {events : List Event} {final : State}
    (run : Machine.exec (step call) (call.start incoming) events = some final)
    (returned : final.pc = .returned)
    (clean : Machine.AllSteps (step call) call.Clean (call.start incoming) events) :
    (decodeChunks final.delivered).isSome = true ↔
      Machine.AllSteps (step call) call.Frames (call.start incoming) events := by
  rcases framed_or_spoiled run clean with ⟨ends, judged⟩
  have sent : final.wire = final.delivered := by
    rw [State.wire, ends.sent (Or.inr returned), List.append_nil]
  rw [sent] at judged
  rcases judged with ⟨all, chunks, nonempty, wire⟩ | ⟨missed, spoiled⟩
  · refine iff_of_true ?_ all
    rw [if_pos returned, sent] at wire
    rw [wire, decodeChunks_encode chunks nonempty]
    rfl
  · refine iff_of_false ?_ missed
    rw [spoiled.unread]
    decide

/-- Raw framing stays inside the output buffer. -/
theorem step_inside_of_raw (raw : call.raw = true) (stepped : step call state event = some next)
    (inside : state.loop.sseBuf.length ≤ sseBufSize) : next.loop.sseBuf.length ≤ sseBufSize := by
  rcases sseBuf_of_step stepped with ⟨_, shorter⟩ | ⟨isErr, bytes, _, same⟩
  · exact Nat.le_trans shorter inside
  · rw [same, Loop.output]
    by_cases empty : bytes = []
    · rw [if_pos empty]
      cases isErr <;> exact inside
    · rw [if_neg empty, if_pos raw]
      cases isErr with
      | true => exact inside
      | false =>
          change (rawFrame state.loop.sseBuf bytes).length ≤ sseBufSize
          by_cases room : HasRoom state.loop.sseBuf bytes
          · rw [rawFrame_of_fits room, List.length_append, length_encodeChunk]
            unfold HasRoom at room
            omega
          · rw [rawFrame_of_not_fits room]
            exact inside

/-- Lines that fit stay inside the buffer. -/
theorem linesInside_of_unbroken {isErr : Bool} {used : Nat} {lines : List (List UInt8)}
    (unbroken : linesUnbroken isErr used lines = true) : linesInside isErr used lines = true := by
  induction lines generalizing used with
  | nil => rfl
  | cons line rest inductionHypothesis =>
      rw [linesUnbroken] at unbroken
      rw [linesInside]
      by_cases room : used < sseBufSize - 512
      · rw [if_pos room] at unbroken ⊢
        by_cases empty : line = []
        · rw [if_pos empty] at unbroken ⊢
          exact inductionHypothesis unbroken
        · rw [if_neg empty, Bool.and_eq_true, decide_eq_true_eq] at unbroken ⊢
          exact ⟨Nat.le_of_lt unbroken.1, inductionHypothesis unbroken.2⟩
      · rw [if_neg room]

/-- `sse_buf_len` never exceeds the size of the buffer. -/
def Call.KeepsBuffer (call : Call) (incoming : List UInt8) (events : List Event) : Prop :=
  Machine.Throughout (step call) (fun state => state.loop.sseBuf.length ≤ sseBufSize)
    (call.start incoming) events

/-- A returned call has sent a complete body out of its buffer if and only if all its
reads are framed. -/
theorem body_complete_iff {incoming : List UInt8} {events : List Event} {final : State}
    (run : Machine.exec (step call) (call.start incoming) events = some final)
    (returned : final.pc = .returned) (sends : forall event, event ∈ events -> event.sendFails = false) :
    (call.KeepsBuffer incoming events ∧ (decodeChunks final.delivered).isSome = true) ↔
      Machine.AllSteps (step call) call.Frames (call.start incoming) events := by
  have clean : Machine.AllSteps (step call) (fun _ event => event.sendFails = false)
      (call.start incoming) events :=
    Machine.allSteps_of_forall _ sends
  by_cases raw : call.raw = true
  · have kept : call.KeepsBuffer incoming events :=
      (Machine.throughout_iff_allSteps (fun _ _ _ stepped inside =>
        iff_of_true (step_inside_of_raw raw stepped inside) trivial) run (Nat.zero_le _)).mpr
        (Machine.allSteps_of_forall (fun _ => True) (fun _ _ => trivial))
    rw [← delivered_complete_iff run returned (clean.mono (fun _ _ sends => ⟨sends, Or.inl raw⟩))]
    exact and_iff_right kept
  · have sse : call.raw = false := (Bool.not_eq_true _).mp raw
    have bounded : call.KeepsBuffer incoming events ↔ Machine.AllSteps (step call)
        (fun state event => forall read, read ∈ readsOf state event -> read.Inside)
        (call.start incoming) events :=
      Machine.throughout_iff_allSteps (fun _ _ _ stepped inside => step_inside_iff sse stepped inside) run
        (Nat.zero_le _)
    have complete : call.KeepsBuffer incoming events -> ((decodeChunks final.delivered).isSome = true ↔
        Machine.AllSteps (step call) call.Frames (call.start incoming) events) := fun kept =>
      delivered_complete_iff run returned
        ((clean.and (bounded.mp kept)).mono (fun _ _ both => ⟨both.1, Or.inr both.2⟩))
    constructor
    · exact fun both => (complete both.1).mp both.2
    · intro frames
      have kept := bounded.mpr (frames.mono (fun _ _ all read member =>
        linesInside_of_unbroken ((all read member).resolve_left raw)))
      exact ⟨kept, (complete kept).mpr frames⟩

end PipeLoop
end Executor
end AdbBridge
