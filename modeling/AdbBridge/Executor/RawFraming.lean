import AdbBridge.Executor.PipeResponse

namespace AdbBridge
namespace Executor
namespace PipeLoop

open Library Library.Numeral Library.ChunkedCoding

/-!
# Raw framing in every state

In raw mode the bytes TLS accepted and the bytes that wait in the output buffer are
whole chunks, one after the other, wherever TLS stopped taking them.  TLS may fail, and
so may `poll` or the client: as long as the call is not about to send its termination,
nothing that happens leaves a part of a chunk.
-/

/-- Whole chunks, each as long as it says and holding what one read may return. -/
def WholeChunks (text : List UInt8) : Prop :=
  Exists fun chunks : List (List UInt8) =>
    (forall chunk, chunk ∈ chunks -> chunk ≠ [] ∧ chunk.length ≤ outBufSize) ∧
      text = chunks.flatMap encodeChunk

theorem wholeChunks_nil : WholeChunks [] :=
  ⟨[], fun _ member => absurd member List.not_mem_nil, rfl⟩

theorem WholeChunks.append {text more : List UInt8} (first : WholeChunks text) (second : WholeChunks more) :
    WholeChunks (text ++ more) := by
  rcases first with ⟨chunks, whole, same⟩
  rcases second with ⟨others, wholeOthers, sameOthers⟩
  refine ⟨chunks ++ others, fun chunk member => ?_, ?_⟩
  · exact (List.mem_append.mp member).elim (whole chunk) (wholeOthers chunk)
  · rw [same, sameOthers, List.flatMap_append]

/-- The parent has not come to the termination. -/
def Pc.beforeEnd (pc : Pc) : Prop := pc ≠ .terminate ∧ pc ≠ .returned

variable {call : Call} {state next : State} {event : Event}

/-- Leaving the loop keeps the bytes on their way. -/
theorem Left.wire_eq (left : Left state next) : next.wire = state.wire := by
  cases left <;> rfl

/-- A read that fits the array of a read appends whole chunks. -/
theorem output_raw_whole (raw : call.raw = true) (loop : Loop) (isErr : Bool) {bytes : List UInt8}
    (short : bytes.length ≤ outBufSize) :
    Exists fun more => WholeChunks more ∧ (loop.output call isErr bytes).sseBuf = loop.sseBuf ++ more := by
  rcases output_raw_cases raw loop isErr bytes with nothing | ⟨nonempty, one⟩
  · exact ⟨[], wholeChunks_nil, nothing.trans (List.append_nil _).symm⟩
  · refine ⟨encodeChunk bytes, ⟨[bytes], fun chunk member => ?_, ?_⟩, one⟩
    · rw [List.mem_singleton.mp member]
      exact ⟨nonempty, short⟩
    · rw [List.flatMap_singleton]

/-- A read returns no more than it is asked for. -/
theorem length_le_of_read {pipe after : OutputPipe} {count : Nat} {bytes : List UInt8}
    (got : pipe.read outBufSize count = some (bytes, after)) : bytes.length ≤ outBufSize := by
  rcases OutputPipe.read_eq_some got with ⟨noBytes, _, _, _⟩ | ⟨length, _, asked, _, _, _⟩
  · rw [noBytes]
    exact Nat.zero_le _
  · rw [length]
    exact asked

/-- A step that does not lead to the termination appends whole chunks, if anything, to
the bytes on their way. -/
theorem wire_of_step_raw (raw : call.raw = true) (stepped : step call state event = some next)
    (stays : next.pc.beforeEnd) :
    state.pc.beforeEnd ∧ Exists fun more => WholeChunks more ∧ next.wire = state.wire ++ more := by
  have kept : state.pc.beforeEnd -> next.wire = state.wire ->
      state.pc.beforeEnd ∧ Exists fun more => WholeChunks more ∧ next.wire = state.wire ++ more :=
    fun before same => ⟨before, [], wholeChunks_nil, same.trans (List.append_nil _).symm⟩
  have at_ : forall pc : Pc, state.pc = pc -> pc ≠ .terminate -> pc ≠ .returned -> state.pc.beforeEnd :=
    fun pc isPc notTerminate notReturned => isPc ▸ ⟨notTerminate, notReturned⟩
  cases transition_of_step stepped with
  | writeOut | writeErr | closeOut | closeErr | exit | interrupted => exact kept stays rfl
  | polled _ _ _ _ _ _ _ top _ _ rest =>
      exact kept (at_ _ top Pc.noConfusion Pc.noConfusion) rest.output_eq.2.1
  | pollFailed _ _ top left | ended _ top _ left | idle _ top _ _ left =>
      exact kept (at_ _ top Pc.noConfusion Pc.noConfusion) left.wire_eq
  | waits top | notReaped top | reaps _ top => exact kept (at_ _ top Pc.noConfusion Pc.noConfusion) rfl
  | sslGot _ count _ isPc _ _ _ rest =>
      rcases accept_eq_withReader call state.loop (state.incoming.take count) with ⟨_, _, _, _, _, owned⟩
      rw [owned] at rest
      exact kept (at_ _ isPc Pc.noConfusion Pc.noConfusion) rest.output_eq.2.1
  | sslWants _ _ _ isPc _ rest | sslReadFailed _ _ isPc rest | sslWriteWants _ _ isPc rest
  | stdinAgain _ _ isPc rest | stdinFailed _ _ isPc rest =>
      exact kept (at_ _ isPc Pc.noConfusion Pc.noConfusion) rest.output_eq.2.1
  | stdinWrote _ _ _ isPc _ _ rest =>
      exact kept (at_ _ isPc Pc.noConfusion Pc.noConfusion) rest.output_eq.2.1
  | sslWrote _ count _ isPc _ _ rest =>
      -- TLS takes any part of the buffer, and the rest of a chunk stays behind
      refine kept (at_ _ isPc Pc.noConfusion Pc.noConfusion) (rest.output_eq.2.1.trans ?_)
      simp only [State.wire]
      rw [List.append_assoc, List.take_append_drop]
  | sslWriteFailed _ _ isPc left => exact kept (at_ _ isPc Pc.noConfusion Pc.noConfusion) left.wire_eq
  | readOut _ count bytes pipe _ isPc got rest =>
      rcases output_raw_whole raw state.loop false (length_le_of_read got) with ⟨more, whole, output⟩
      refine ⟨at_ _ isPc Pc.noConfusion Pc.noConfusion, more, whole, rest.output_eq.2.1.trans ?_⟩
      simp only [State.wire]
      rw [output, List.append_assoc]
  | readErr count bytes pipe _ isPc got rest =>
      rcases output_raw_whole raw state.loop true (length_le_of_read got) with ⟨more, whole, output⟩
      refine ⟨at_ _ isPc Pc.noConfusion Pc.noConfusion, more, whole, rest.output_eq.2.1.trans ?_⟩
      simp only [State.wire]
      rw [output, List.append_assoc]
  | waitFailed _ isPc left | waitReaps _ _ isPc _ left | killUnreaped _ isPc left | killReaps _ _ isPc _ left =>
      exact kept (at_ _ isPc Pc.noConfusion Pc.noConfusion) left.wire_eq
  | flushed => exact absurd rfl stays.1
  | terminated => exact absurd rfl stays.2

/-- Up to the termination the bytes on their way are whole chunks, and the output buffer
holds what it says. -/
structure RawFraming (state : State) : Prop where
  whole : state.pc.beforeEnd -> WholeChunks state.wire
  bounded : state.loop.sseBuf.length ≤ sseBufSize

theorem rawFraming_step (raw : call.raw = true) (stepped : step call state event = some next)
    (framing : RawFraming state) : RawFraming next := by
  refine ⟨fun stays => ?_, step_inside_of_raw raw stepped framing.bounded⟩
  rcases wire_of_step_raw raw stepped stays with ⟨before, more, whole, same⟩
  rw [same]
  exact (framing.whole before).append whole

/-- In raw mode every state that can be reached has whole chunks on their way until the
termination is sent, and its output buffer is not overrun; and if TLS sends whatever it
is given, the body of a call that returned is these chunks and the last one. -/
theorem raw_framing (raw : call.raw = true) {incoming : List UInt8} {events : List Event} {final : State}
    (run : Machine.exec (step call) (call.start incoming) events = some final) :
    (final.pc.beforeEnd -> WholeChunks (final.delivered ++ final.loop.sseBuf)) ∧
      final.loop.sseBuf.length ≤ 131072 ∧
      ((forall event, event ∈ events -> event.sendFails = false) -> Framed final ∧
        (final.pc = .returned -> Exists fun chunks : List (List UInt8) =>
          (forall chunk, chunk ∈ chunks -> chunk ≠ []) ∧
            final.delivered = chunks.flatMap encodeChunk ++ lastChunk ∧
            decodeChunks final.delivered = some chunks)) := by
  have framing : RawFraming final :=
    Machine.invariant_exec (fun _ _ _ stepped framing => rawFraming_step raw stepped framing) run
      ⟨fun _ => wholeChunks_nil, Nat.zero_le _⟩
  refine ⟨framing.whole, framing.bounded, fun sends => ?_⟩
  have clean : Machine.AllSteps (step call) call.Clean (call.start incoming) events :=
    (Machine.allSteps_of_forall (fun event => event.sendFails = false) sends).mono
      (fun _ _ sent => ⟨sent, Or.inl raw⟩)
  have frames : Machine.AllSteps (step call) call.Frames (call.start incoming) events :=
    (Machine.allSteps_of_forall (fun _ => True) (fun _ _ => trivial)).mono (fun _ _ _ _ _ => Or.inl raw)
  rcases framed_or_spoiled run clean with ⟨sending, ⟨_, framed⟩ | ⟨missed, _⟩⟩
  · refine ⟨framed, fun returned => ?_⟩
    rcases framed with ⟨chunks, nonempty, wire⟩
    rw [if_pos returned, State.wire, sending.sent (Or.inr returned), List.append_nil] at wire
    exact ⟨chunks, nonempty, wire, wire ▸ decodeChunks_encode chunks nonempty⟩
  · exact absurd frames missed

/-- A command prints `hi`, and TLS takes its chunk in two parts. -/
def partsRun : List Event :=
  [.childWrite false (ascii "hi"), .poll false (.ready false false false true false), .read 2,
    .waitpid false, .childExit (.exited 0), .childClose false, .childClose true,
    .poll false (.ready false true false true true), .sslWrite (.wrote 4), .read 0, .read 0,
    .waitpid true, .poll false (.ready false true false false false), .sslWrite (.wrote 3), .leave,
    .finalWrite .all]

theorem partsRun_isSome : (Machine.exec (step rawCall) (rawCall.start []) partsRun).isSome = true := by
  decide

theorem raw_framing_in_parts : Exists fun chunks : List (List UInt8) =>
    (forall chunk, chunk ∈ chunks -> chunk ≠ []) ∧
      ((Machine.exec (step rawCall) (rawCall.start []) partsRun).get partsRun_isSome).delivered =
        chunks.flatMap encodeChunk ++ lastChunk ∧
      decodeChunks
        ((Machine.exec (step rawCall) (rawCall.start []) partsRun).get partsRun_isSome).delivered =
          some chunks :=
  ((raw_framing rfl (Option.some_get partsRun_isSome).symm).2.2
    (by decide : forall event, event ∈ partsRun -> event.sendFails = false)).2 (by decide)

end PipeLoop
end Executor
end AdbBridge
