import AdbBridge.Executor.SseOutput

namespace AdbBridge
namespace Executor
namespace PipeLoop

open Library Library.Numeral Library.ChunkedCoding

/-!
# The bounds of the output buffer in SSE mode

A line is framed while more than 512 bytes of `sse_buf` are free, and `sse_buf_len`
advances by the length its frame would have without being cut.  No size handed to
`snprintf` underflows; but behind a line longer than the room left `sse_buf_len` is
larger than the buffer, and the next `SSL_write` reads what lies behind it.
-/

/-! ## What is accessed -/

/-- The offsets into `sse_buf` that are subtracted from its size for the two
`snprintf` calls of each line. -/
def frameOffsets (isErr : Bool) : Nat -> List (List UInt8) -> List Nat
  | _, [] => []
  | used, line :: rest =>
      if used < sseBufSize - 512 then
        if line = [] then frameOffsets isErr used rest
        else
          used :: (used + ((formatHex (sseEvent isErr line).length).length + 2)) ::
            frameOffsets isErr (used + frameSize isErr line) rest
      else []

/-- Every line that is framed fits the room left. -/
def linesInside (isErr : Bool) : Nat -> List (List UInt8) -> Bool
  | _, [] => true
  | used, line :: rest =>
      if used < sseBufSize - 512 then
        if line = [] then linesInside isErr used rest
        else decide (used + frameSize isErr line ≤ sseBufSize) &&
          linesInside isErr (used + frameSize isErr line) rest
      else true

/-- Every line of the read that is framed fits the room left. -/
def Read.Inside (read : Read) : Prop := linesInside read.isErr read.used read.cut = true

instance (read : Read) : Decidable read.Inside := inferInstanceAs (Decidable (_ = _))

/-- How far into `sse_buf` a step reaches: the end of what `SSL_write` sends and
`memmove` moves, and the offsets of the frames. -/
def reaches (state : State) : Event -> List Nat
  | .sslWrite _ =>
      match state.pc with
      | .sslWrite _ => [state.loop.sseBuf.length]
      | _ => []
  | .finalWrite _ =>
      match state.pc with
      | .flush => [state.loop.sseBuf.length]
      | _ => []
  | event => (readsOf state event).flatMap (fun read => frameOffsets read.isErr read.used read.cut)

/-- `sse_buf_len` stays within the buffer, and so does everything that is accessed. -/
structure BufferKept (call : Call) (incoming : List UInt8) (events : List Event) : Prop where
  length : Machine.Throughout (step call) (fun state => state.loop.sseBuf.length ≤ sseBufSize)
    (call.start incoming) events
  accesses : Machine.AllSteps (step call)
    (fun state event => forall offset, offset ∈ reaches state event -> offset ≤ sseBufSize)
    (call.start incoming) events

/-! ## One read -/

variable {isErr : Bool} {sseBuf : List UInt8} {used : Nat} {lines : List (List UInt8)}

/-- `sse_buf_len` advances by the length of the text, cut or not. -/
theorem length_snprintfAt (beyond : Nat -> UInt8) (sseBuf text : List UInt8) :
    (snprintfAt beyond sseBuf text).length = sseBuf.length + text.length := by
  unfold snprintfAt
  dsimp only
  split_ifs
  · exact List.length_append
  · rw [List.length_append, List.length_map, List.length_range]
  · rw [List.length_append, List.length_append, List.length_append, List.length_take, List.length_map,
      List.length_range, List.length_singleton]
    omega

theorem length_frameLine (beyond : Nat -> UInt8) (isErr : Bool) (sseBuf : List UInt8) {line : List UInt8}
    (some : line ≠ []) :
    (frameLine beyond isErr sseBuf line).length = sseBuf.length + frameSize isErr line := by
  have crlfLength : crlf.length = 2 := by decide
  rw [frameLine_eq beyond isErr sseBuf some, length_snprintfAt, length_snprintfAt, List.length_append,
    List.length_append, crlfLength, frameSize, length_encodeChunk]
  omega

/-- The buffer keeps its bound over a read if and only if every framed line fits. -/
theorem length_frameLines_iff (beyond : Nat -> UInt8) (inside : sseBuf.length ≤ sseBufSize) :
    (frameLines beyond isErr sseBuf lines).length ≤ sseBufSize ↔
      linesInside isErr sseBuf.length lines = true := by
  induction lines generalizing sseBuf with
  | nil => exact ⟨fun _ => rfl, fun _ => inside⟩
  | cons line rest inductionHypothesis =>
      rw [frameLines, linesInside]
      by_cases room : sseBuf.length < sseBufSize - 512
      · rw [if_pos room, if_pos room]
        by_cases empty : line = []
        · rw [if_pos empty, frameLine, if_pos empty]
          exact inductionHypothesis inside
        · have length := length_frameLine beyond isErr sseBuf empty
          rw [if_neg empty, Bool.and_eq_true, decide_eq_true_eq]
          by_cases fits : sseBuf.length + frameSize isErr line ≤ sseBufSize
          · have later := @inductionHypothesis (frameLine beyond isErr sseBuf line) (by omega)
            rw [length] at later
            rw [later]
            exact ⟨fun met => ⟨fits, met⟩, fun met => met.2⟩
          · -- the loop exceeds the lines ends behind the line that does not fit
            have full : ¬ (frameLine beyond isErr sseBuf line).length < sseBufSize - 512 := by omega
            have stays : (frameLines beyond isErr (frameLine beyond isErr sseBuf line) rest).length =
                sseBuf.length + frameSize isErr line := by
              cases rest with
              | nil => exact length
              | cons next rest => rw [frameLines, if_neg full, length]
            rw [stays]
            exact ⟨fun met => absurd met fits, fun met => absurd met.1 fits⟩
      · rw [if_neg room, if_neg room]
        exact ⟨fun _ => rfl, fun _ => inside⟩

/-- No size handed to `snprintf` underflows. -/
theorem frameOffsets_le (short : forall line, line ∈ lines -> line.length ≤ outBufSize) :
    forall offset, offset ∈ frameOffsets isErr used lines -> offset ≤ sseBufSize := by
  induction lines generalizing used with
  | nil => exact fun _ member => absurd member List.not_mem_nil
  | cons line rest inductionHypothesis =>
      have later : forall used, forall offset, offset ∈ frameOffsets isErr used rest -> offset ≤ sseBufSize :=
        fun used => @inductionHypothesis used (fun other member =>
          short other (List.mem_cons_of_mem line member))
      rw [frameOffsets]
      split_ifs with room empty
      · exact later used
      · intro offset member
        have size := length_sseEvent isErr line
        have lineShort := short line List.mem_cons_self
        have maximum : outBufSize = 65536 := rfl
        have total : sseBufSize = 131072 := rfl
        have digits : (formatHex (sseEvent isErr line).length).length ≤ 5 + 1 := by
          apply length_formatHex_le
          split at size <;> omega
        rcases List.mem_cons.mp member with first | others
        · omega
        · rcases List.mem_cons.mp others with second | further
          · omega
          · exact later _ offset further
      · exact fun _ member => absurd member List.not_mem_nil

/-! ## One step -/

variable {call : Call} {state next : State} {incoming : List UInt8} {event : Event} {events : List Event}

/-- The rest of an iteration leaves the output buffer alone. -/
theorem Rest.sseBuf_eq {ready : Ready}
    (rest : Rest ready state next) : next.loop.sseBuf = state.loop.sseBuf := by
  cases rest with
  | next => rfl
  | last =>
      dsimp only
      unfold Loop.closeStdin
      split <;> rfl

/-- Leaving the loop leaves the output buffer alone. -/
theorem Left.sseBuf_eq (left : Left state next) : next.loop.sseBuf = state.loop.sseBuf := by
  cases left <;> rfl

/-- A read keeps the bound of the output buffer if and only if every framed line fits. -/
theorem output_inside_iff (sse : call.raw = false) {loop : Loop} {bytes : List UInt8}
    (inside : loop.sseBuf.length ≤ sseBufSize) :
    (loop.output call isErr bytes).sseBuf.length ≤ sseBufSize ↔
      Read.Inside ⟨isErr, bytes, loop.sseBuf.length⟩ := by
  rw [Loop.output, Read.Inside, Read.cut]
  by_cases none : bytes = []
  · have nothing : linesInside isErr loop.sseBuf.length ((cString []).splitOn 10) = true := by
      change linesInside isErr loop.sseBuf.length [[]] = true
      rw [linesInside, if_pos rfl]
      split <;> rfl
    rw [if_pos none, none]
    refine ⟨fun _ => nothing, fun _ => ?_⟩
    cases isErr <;> exact inside
  · rw [if_neg none, sse, if_neg Bool.false_ne_true]
    exact length_frameLines_iff call.beyond inside

/-- A step that reads nothing lengthens nothing in the output buffer. -/
theorem sseBuf_of_step (stepped : step call state event = some next) :
    (readsOf state event = [] ∧ next.loop.sseBuf.length ≤ state.loop.sseBuf.length) ∨
      Exists fun isErr => Exists fun bytes =>
        readsOf state event = [⟨isErr, bytes, state.loop.sseBuf.length⟩] ∧
          next.loop.sseBuf = (state.loop.output call isErr bytes).sseBuf := by
  have kept : readsOf state event = [] -> next.loop.sseBuf = state.loop.sseBuf ->
      readsOf state event = [] ∧ next.loop.sseBuf.length ≤ state.loop.sseBuf.length :=
    fun nothing same => ⟨nothing, Nat.le_of_eq (congrArg List.length same)⟩
  cases transition_of_step stepped with
  | writeOut | writeErr | closeOut | closeErr | exit | interrupted | waits | notReaped | reaps | terminated =>
      exact Or.inl (kept rfl rfl)
  | polled _ _ _ _ _ _ _ _ _ _ rest => exact Or.inl (kept rfl rest.sseBuf_eq)
  | pollFailed _ _ _ left | ended _ _ _ left | idle _ _ _ _ left | waitFailed _ _ left
  | killUnreaped _ _ left => exact Or.inl (kept rfl left.sseBuf_eq)
  | waitReaps _ _ _ _ left | killReaps _ _ _ _ left => exact Or.inl (kept rfl left.sseBuf_eq)
  | sslWriteFailed _ _ _ left => exact Or.inl (kept rfl left.sseBuf_eq)
  | sslGot _ count _ _ _ _ _ rest =>
      rcases accept_eq_withReader call state.loop (state.incoming.take count) with ⟨_, _, _, _, _, owned⟩
      have same := rest.sseBuf_eq
      dsimp only at same
      rw [owned] at same
      exact Or.inl (kept rfl same)
  | sslWants _ _ _ _ _ rest | sslReadFailed _ _ _ rest | sslWriteWants _ _ _ rest
  | stdinAgain _ _ _ rest | stdinFailed _ _ _ rest => exact Or.inl (kept rfl rest.sseBuf_eq)
  | stdinWrote _ _ _ _ _ _ rest => exact Or.inl (kept rfl rest.sseBuf_eq)
  | sslWrote _ count _ _ _ _ rest =>
      refine Or.inl ⟨rfl, ?_⟩
      rw [rest.sseBuf_eq, List.length_drop]
      exact Nat.sub_le _ _
  | readOut errIn count block pipe _ isPc got rest =>
      exact Or.inr ⟨false, block, readsOf_readOut isPc got, rest.sseBuf_eq⟩
  | readErr count block pipe _ isPc got rest =>
      exact Or.inr ⟨true, block, readsOf_readErr isPc got, rest.sseBuf_eq⟩
  | flushed => exact Or.inl ⟨rfl, Nat.zero_le _⟩

/-- Of all steps only a read can break the bound of the output buffer, and it does if
a framed line does not fit. -/
theorem step_inside_iff (sse : call.raw = false) (stepped : step call state event = some next)
    (inside : state.loop.sseBuf.length ≤ sseBufSize) :
    next.loop.sseBuf.length ≤ sseBufSize ↔ forall read, read ∈ readsOf state event -> read.Inside := by
  rcases sseBuf_of_step stepped with ⟨nothing, shorter⟩ | ⟨isErr, bytes, isRead, same⟩
  · rw [nothing]
    exact ⟨fun _ _ member => absurd member List.not_mem_nil, fun _ => Nat.le_trans shorter inside⟩
  · rw [isRead, same, List.forall_mem_singleton]
    exact output_inside_iff sse inside

/-- A line of a read is no longer than the read. -/
theorem length_of_mem_cut {read : Read} {line : List UInt8} (member : line ∈ read.cut) :
    line.length ≤ read.bytes.length := by
  have inFlat : List.Sublist line read.cut.flatten := List.sublist_flatten_of_mem member
  rw [Read.cut, Lines.flatten_splitOn] at inFlat
  have inBytes := inFlat.trans (List.filter_sublist.trans (List.takeWhile_sublist _))
  exact inBytes.length_le

/-- A read takes no more than the array has room for. -/
theorem length_of_mem_readsOf (stepped : step call state event = some next) {read : Read}
    (member : read ∈ readsOf state event) : read.bytes.length ≤ outBufSize := by
  have short : forall {pipe after : OutputPipe} {count : Nat} {bytes : List UInt8},
      pipe.read outBufSize count = some (bytes, after) -> bytes.length ≤ outBufSize := by
    intro pipe after count bytes got
    rcases OutputPipe.read_eq_some got with ⟨none, _⟩ | ⟨length, _, cap, _⟩
    · rw [none]
      exact Nat.zero_le _
    · omega
  cases transition_of_step stepped with
  | readOut errIn count block pipe _ isPc got =>
      rw [readsOf_readOut isPc got, List.mem_singleton] at member
      rw [member]
      exact short got
  | readErr count block pipe _ isPc got =>
      rw [readsOf_readErr isPc got, List.mem_singleton] at member
      rw [member]
      exact short got
  | _ => exact absurd member List.not_mem_nil

/-- While the bound holds no step reaches outside of the buffer. -/
theorem reaches_le (stepped : step call state event = some next)
    (inside : state.loop.sseBuf.length ≤ sseBufSize) :
    forall offset, offset ∈ reaches state event -> offset ≤ sseBufSize := by
  have frames : forall offset,
      offset ∈ (readsOf state event).flatMap (fun read => frameOffsets read.isErr read.used read.cut) ->
        offset ≤ sseBufSize := by
    intro offset member
    rcases List.mem_flatMap.mp member with ⟨read, isRead, isOffset⟩
    refine frameOffsets_le (fun line isLine => ?_) offset isOffset
    exact Nat.le_trans (length_of_mem_cut isLine) (length_of_mem_readsOf stepped isRead)
  have whole : forall offset, offset ∈ [state.loop.sseBuf.length] -> offset ≤ sseBufSize := by
    intro offset member
    rw [List.mem_singleton.mp member]
    exact inside
  unfold reaches
  split
  · split
    · exact whole
    · exact fun _ member => absurd member List.not_mem_nil
  · split
    · exact whole
    · exact fun _ member => absurd member List.not_mem_nil
  · exact frames

/-! ## Runs -/

/-- The output buffer keeps its bounds throughout a run in SSE mode if and only if in
every read every line that is framed fits the room left. -/
theorem sse_buffer_kept_iff (sse : call.raw = false)
    (run : Machine.exec (step call) (call.start incoming) events = some next) :
    BufferKept call incoming events ↔
      Machine.AllSteps (step call) (fun state event => forall read, read ∈ readsOf state event -> read.Inside)
        (call.start incoming) events := by
  have kept := Machine.throughout_iff_allSteps (fun state event next stepped inside =>
    @step_inside_iff call state next event sse stepped inside) run (Nat.zero_le _)
  constructor
  · exact fun all => kept.mp all.length
  · intro met
    have length := kept.mpr met
    exact ⟨length, length.allSteps (fun state event next stepped inside =>
      @reaches_le call state next event stepped inside) run⟩

/-- A call without a body. -/
def bodyless : Call := ⟨0, false, false, fun _ => 0⟩

/-- The child prints a block, and the parent reads it at once. -/
def printed (block : List UInt8) : List Event :=
  [.childWrite false block, .poll false (.ready false false false true false), .read block.length,
    .waitpid false]

theorem sse_buffer_kept_iff_hello : BufferKept bodyless [] (printed (ascii "hello\n")) :=
  (sse_buffer_kept_iff rfl (Option.some_get
    (by decide : (Machine.exec (step bodyless) (bodyless.start [])
        (printed (ascii "hello\n"))).isSome)).symm).mpr
    (by decide)

/-- Its locals after some output. -/
def holding (sseBuf : List UInt8) : Loop := { bodyless.loop with sseBuf := sseBuf }

theorem sseBuf_holding (sseBuf : List UInt8) : (holding sseBuf).sseBuf = sseBuf := rfl

/-- In one round of the loop a block that fits the array is read and framed. -/
theorem exec_printed {block sseBuf : List UInt8} (isSome : block ≠ []) (short : block.length ≤ outBufSize)
    (state : State) (top : state.pc = .top) (round : state.loop = holding sseBuf)
    (quiet : state.out.unread = [] ∧ state.out.closed = false) :
    Exists fun next => Machine.exec (step bodyless) state (printed block) = some next ∧
      next.pc = .top ∧ (next.out.unread = [] ∧ next.out.closed = false) ∧
      next.loop = holding (frameLines bodyless.beyond false sseBuf ((cString block).splitOn 10)) := by
  rcases state with ⟨pc, loop, ⟨unread, written, closed⟩, err, child, incoming, delivered, stdinWritten⟩
  dsimp only at top round quiet
  rcases quiet with ⟨rfl, rfl⟩
  subst top round
  have positive := List.length_pos_iff.mpr isSome
  have got : OutputPipe.read ⟨block, written ++ block, false⟩ outBufSize block.length =
      some (block, ⟨[], written ++ block, false⟩) := by
    rw [OutputPipe.read, if_neg (by omega), if_pos ⟨short, Nat.le_refl _⟩, List.take_length, List.drop_length]
  have output : (holding sseBuf).output bodyless false block =
      holding (frameLines bodyless.beyond false sseBuf ((cString block).splitOn 10)) := by
    rw [Loop.output, if_neg isSome]
    rfl
  have first : step bodyless
      ⟨.top, holding sseBuf, ⟨[], written, false⟩, err, child, incoming, delivered, stdinWritten⟩
      (.childWrite false block) =
      some ⟨.top, holding sseBuf, ⟨block, written ++ block, false⟩, err, child, incoming, delivered,
        stdinWritten⟩ := rfl
  have second : step bodyless
      ⟨.top, holding sseBuf, ⟨block, written ++ block, false⟩, err, child, incoming, delivered, stdinWritten⟩
      (.poll false (.ready false false false true false)) =
      some ⟨.readOut false, holding sseBuf, ⟨block, written ++ block, false⟩, err, child, incoming, delivered,
        stdinWritten⟩ := by
    have readable : OutputPipe.Readable ⟨block, written ++ block, false⟩ := Or.inl isSome
    simp [step, topStep, Loop.continues, Loop.pollsNothing, Loop.pollsSsl, Loop.pollsStdin, Loop.needRead,
      Loop.needWrite, holding, bodyless, Call.loop, Call.brState, State.ready, State.afterPoll,
      State.afterSslRead, State.afterSslWrite, State.afterStdinWrite, readable]
  have third : step bodyless
      ⟨.readOut false, holding sseBuf, ⟨block, written ++ block, false⟩, err, child, incoming, delivered,
        stdinWritten⟩ (.read block.length) =
      some ⟨.reap, holding (frameLines bodyless.beyond false sseBuf ((cString block).splitOn 10)),
        ⟨[], written ++ block, false⟩, err, child, incoming, delivered, stdinWritten⟩ := by
    dsimp only [step]
    rw [got, Option.map_some]
    dsimp only
    rw [if_neg Bool.false_ne_true, output]
    rfl
  have fourth : step bodyless
      ⟨.reap, holding (frameLines bodyless.beyond false sseBuf ((cString block).splitOn 10)),
        ⟨[], written ++ block, false⟩, err, child, incoming, delivered, stdinWritten⟩ (.waitpid false) =
      some ⟨.top, holding (frameLines bodyless.beyond false sseBuf ((cString block).splitOn 10)),
        ⟨[], written ++ block, false⟩, err, child, incoming, delivered, stdinWritten⟩ := by
    cases child <;> rfl
  refine ⟨⟨.top, holding (frameLines bodyless.beyond false sseBuf ((cString block).splitOn 10)),
    ⟨[], written ++ block, false⟩, err, child, incoming, delivered, stdinWritten⟩, ?_, rfl, ⟨rfl, rfl⟩, rfl⟩
  rw [printed, Machine.exec_cons_of_step first, Machine.exec_cons_of_step second,
    Machine.exec_cons_of_step third, Machine.exec_cons_of_step fourth]
  rfl

/-- A line of 65535 bytes. -/
def longLine : List UInt8 := List.replicate 65535 97

theorem longLine_cut : (cString longLine).splitOn 10 = [longLine] := by
  have free : forall byte, byte ∈ longLine -> byte = 97 := fun _ member => List.eq_of_mem_replicate member
  rw [cString_eq_self (fun byte member => by rw [free byte member]; decide)]
  refine List.splitOnP_eq_singleton (fun byte member => ?_)
  rw [free byte member]
  decide

/-- Two lines of 65535 bytes do not fit the buffer. -/
theorem sse_buffer_overflows : Exists fun events => Exists fun state =>
    Machine.exec (step bodyless) (bodyless.start []) events = some state ∧
      (forall count, .read count ∈ events -> count ≤ 65535) ∧ sseBufSize < state.loop.sseBuf.length ∧
      ¬ BufferKept bodyless [] events := by
  have length : longLine.length = 65535 := List.length_replicate
  have isSome : longLine ≠ [] := List.ne_nil_of_length_pos (by rw [length]; decide)
  have total : sseBufSize = 131072 := rfl
  have short : longLine.length ≤ outBufSize := by
    have maximum : outBufSize = 65536 := rfl
    omega
  have framed : forall sseBuf : List UInt8, sseBuf.length < sseBufSize - 512 ->
      (frameLines bodyless.beyond false sseBuf ((cString longLine).splitOn 10)).length =
        sseBuf.length + 65552 := by
    intro sseBuf room
    have digits : (formatHex (6 + 0 + 65535 + 2)).length = 5 := by decide
    have size := length_sseEvent false longLine
    rw [if_neg Bool.false_ne_true, length] at size
    rw [longLine_cut, frameLines, if_pos room, frameLines, length_frameLine _ _ _ isSome, frameSize,
      length_encodeChunk, size, digits]
  rcases exec_printed isSome short (bodyless.start []) rfl rfl ⟨rfl, rfl⟩ with
    ⟨middle, first, top, quiet, loop⟩
  rcases exec_printed isSome short middle top loop quiet with ⟨final, second, _, _, finalLoop⟩
  have run : Machine.exec (step bodyless) (bodyless.start []) (printed longLine ++ printed longLine) =
      some final := by
    rw [Machine.exec_append, first]
    exact second
  have exceeds : sseBufSize < final.loop.sseBuf.length := by
    have before := framed [] (by decide)
    rw [List.length_nil] at before
    rw [finalLoop, sseBuf_holding, framed _ (by omega)]
    omega
  refine ⟨_, final, run, ?_, exceeds, fun kept => ?_⟩
  · intro count member
    simp only [printed, List.mem_append, List.mem_cons, reduceCtorEq, List.not_mem_nil, false_or, or_false,
      Event.read.injEq] at member
    omega
  · have last := Machine.throughout_iff.mp kept.length _ [] final (List.append_nil _).symm run
    omega

end PipeLoop
end Executor
end AdbBridge
