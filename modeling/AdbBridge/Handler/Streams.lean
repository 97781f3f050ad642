import AdbBridge.Executor.PipeResponse
import AdbBridge.Executor.Streaming
import AdbBridge.Handler.ExecPipe
import AdbBridge.Handler.Replies

namespace AdbBridge
namespace Handler

open Library Library.Numeral Library.Search Library.ChunkedCoding Library.ResponseFraming Executor

/-!
# Handlers that stream

Two handlers send their headers first and the body in chunks, while a command runs.
Once the headers are sent nothing but the last chunk can end the response, whatever
becomes of the command.
-/

/-! ## Headers -/

/-- The headers of a response in chunks. -/
def chunkedHeaders (contentType : List UInt8) : List UInt8 :=
  ascii "HTTP/1.1 200 OK\r\n" ++
    ascii "Content-Type: " ++ contentType ++ ascii "\r\n" ++
    ascii "Transfer-Encoding: chunked\r\n" ++
    ascii "Cache-Control: no-cache\r\n" ++
    ascii "Connection: keep-alive\r\n" ++
    ascii "\r\n"

def sendChunkedHeaders : List UInt8 := chunkedHeaders (ascii "text/event-stream")

/-- `hdr` in `handle_exec_pipe`. -/
def pipeHeaders (raw : Bool) : List UInt8 :=
  chunkedHeaders (if raw then ascii "application/octet-stream" else ascii "text/event-stream")

/-- Behind such headers a response is complete if and only if its body is. -/
theorem complete_chunked_iff (raw : Bool) (body : List UInt8) :
    Complete (pipeHeaders raw ++ body) ↔ (decodeChunks body).isSome = true := by
  have facts : forall raw, startsStatus (pipeHeaders raw) = true ∧
      afterFirst emptyLine (pipeHeaders raw) = some [] ∧
      framing (beforeFirst emptyLine (pipeHeaders raw)) = some .chunked := by decide +kernel
  exact complete_head_iff (facts raw).1 (facts raw).2.1 (facts raw).2.2

/-- A body written in chunks that are not empty is complete. -/
theorem complete_chunks (raw : Bool) {chunks : List (List UInt8)}
    (nonempty : forall chunk, chunk ∈ chunks -> chunk ≠ []) :
    Complete (pipeHeaders raw ++ (chunks.flatMap encodeChunk ++ lastChunk)) := by
  rw [complete_chunked_iff, decodeChunks_encode chunks nonempty]
  rfl

/-! ## `handle_exec_stream` -/

/-- `sizeof(buf)` in `stream_callback`. -/
def callbackBuf : Nat := 4096

/-- `prefix` in `stream_callback`. -/
def tag (isStderr : Bool) : List UInt8 := if isStderr then ascii "[STDERR] " else []

/-- `max_piece`: what is left of the array beside the rest of an event. -/
def maxPiece (isStderr : Bool) : Nat := callbackBuf - (6 + (tag isStderr).length + 2 + 1)

/-- The text for a piece of the data; a NUL ends it. -/
def pieceEvent (isStderr : Bool) (piece : List UInt8) : List UInt8 :=
  ascii "data: " ++ tag isStderr ++ cString piece ++ ascii "\n\n"

/-- The loop of `stream_callback` over the data, as the events it sends; it would stop at
an event that does not fit the array.  Each turn takes at least one byte. -/
def streamCallback (isStderr : Bool) : Nat -> List UInt8 -> List (List UInt8)
  | 0, _ => []
  | fuel + 1, data =>
      if data = [] then []
      else
        let event := pieceEvent isStderr (data.take (maxPiece isStderr))
        if event.length < callbackBuf then
          event :: streamCallback isStderr fuel (data.drop (maxPiece isStderr))
        else []

/-- The events of a block that `exec_run_stream` passes on. -/
def blockEvents (block : Bool × List UInt8) : List (List UInt8) :=
  streamCallback block.1 block.2.length block.2

def finalMsgSize : Nat := 256

/-- The blocks and the result of `exec_run_stream`: -1, and no block, if a pipe or the
child cannot be created. -/
def streamResult (execRunStream : Option Streaming.State) : List (Bool × List UInt8) × Int :=
  match execRunStream with
  | none => ([], -1)
  | some final => (final.blocks, final.exitCode)

/-- `handle_exec_stream`.  `execRunStream` is the state in which `exec_run_stream`
returns from a command, or `none` if it does not get to its loop. -/
def handleExecStream (printer : Printer) (parse : List UInt8 -> CommandItem)
    (execRunStream : List UInt8 -> Option Streaming.State) (body : List UInt8) : List UInt8 :=
  match parse body with
  | .invalid => sendError printer.surroundings 400 (ascii "invalid JSON")
  | .missing => sendError printer.surroundings 400 (ascii "missing 'command' field")
  | .command text =>
      let result := streamResult (execRunStream text)
      let finalMsg := PipeLoop.exitLine result.2 ++ ascii "\n\n"
      sendChunkedHeaders ++
        ((result.1.flatMap blockEvents).flatMap encodeChunk ++
          (encodeChunk (sentFrom finalMsgSize printer.beyond finalMsg) ++ lastChunk))

/-- An event has at least its fixed bytes. -/
theorem pieceEvent_ne_nil (isStderr : Bool) (piece : List UInt8) : pieceEvent isStderr piece ≠ [] :=
  List.append_ne_nil_of_right_ne_nil _ (by decide)

/-- An event fits the array, so the loop goes on to the end of the data. -/
theorem length_pieceEvent_lt (isStderr : Bool) (data : List UInt8) :
    (pieceEvent isStderr (data.take (maxPiece isStderr))).length < callbackBuf := by
  have shorter : (cString (data.take (maxPiece isStderr))).length ≤ (data.take (maxPiece isStderr)).length :=
    (List.takeWhile_sublist _).length_le
  have cut := List.length_take (i := maxPiece isStderr) (l := data)
  have fixed : (ascii "data: ").length = 6 ∧ (ascii "\n\n").length = 2 := by decide
  have room : maxPiece isStderr + (6 + (tag isStderr).length + 2 + 1) = callbackBuf := by
    cases isStderr <;> decide
  simp only [pieceEvent, List.length_append, fixed]
  omega

/-- The events of the stream are not empty. -/
theorem blockEvents_ne_nil {block : Bool × List UInt8} {event : List UInt8}
    (member : event ∈ blockEvents block) : event ≠ [] := by
  have all : forall (fuel : Nat) (data : List UInt8), event ∈ streamCallback block.1 fuel data ->
    event ≠ [] := by
    intro fuel
    induction fuel with
    | zero => exact fun _ member => absurd member List.not_mem_nil
    | succ fuel inductionHypothesis =>
        intro data member
        rw [streamCallback] at member
        split at member
        · exact absurd member List.not_mem_nil
        · rw [if_pos (length_pieceEvent_lt block.1 data)] at member
          rcases List.mem_cons.mp member with here | later
          · rw [here]
            exact pieceEvent_ne_nil _ _
          · exact inductionHypothesis _ later
  exact all _ _ member

/-- The stream of a command is complete, even if the command could not be started. -/
theorem complete_handleExecStream (printer : Printer) (parse : List UInt8 -> CommandItem)
    (execRunStream : List UInt8 -> Option Streaming.State) (body : List UInt8) :
    Complete (handleExecStream printer parse execRunStream body) := by
  rw [handleExecStream]
  split
  · exact complete_sendError (by decide) _ _
  · exact complete_sendError (by decide) _ _
  next text _ =>
    have final : sentFrom finalMsgSize printer.beyond
        (PipeLoop.exitLine (streamResult (execRunStream text)).2 ++ ascii "\n\n") ≠ [] := by
      apply List.ne_nil_of_length_pos
      rw [length_sentFrom (by decide), List.length_append]
      exact Nat.lt_of_lt_of_le (by decide : 0 < (ascii "\n\n").length) (Nat.le_add_left _ _)
    have chunks := @complete_chunks false ((streamResult (execRunStream text)).1.flatMap blockEvents ++
      [sentFrom finalMsgSize printer.beyond
        (PipeLoop.exitLine (streamResult (execRunStream text)).2 ++ ascii "\n\n")]) (by
        intro chunk member
        rcases List.mem_append.mp member with event | last
        · rcases List.mem_flatMap.mp event with ⟨block, _, isEvent⟩
          exact blockEvents_ne_nil isEvent
        · rw [List.mem_singleton.mp last]
          exact final)
    rw [List.flatMap_append, List.flatMap_singleton, List.append_assoc] at chunks
    exact chunks

/-! ## `handle_exec_pipe` -/

/-- How a call of `exec_run_pipe` goes: whether its pipes and the child are created, and
then what happens. -/
structure PipeRun where
  piped : Bool
  forked : Bool
  events : List PipeLoop.Event

/-- `exec_run_pipe`: what it sends, if the events lead to its end. -/
def execRunPipe (call : PipeLoop.Call) (incoming : List UInt8) (run : PipeRun) : Option (List UInt8) :=
  if run.piped && run.forked then
    (Machine.exec (PipeLoop.step call) (call.start incoming) run.events).bind (fun final =>
      if final.pc = .returned then some final.delivered else none)
  else some []

/-- What `handle_exec_pipe` sends for what it decided. -/
def PipeAnswer.reply (printer : Printer) (contentLength : Int) (chunked : Bool) (incoming : List UInt8)
    (run : PipeRun) : PipeAnswer -> Option (List UInt8)
  | .refused status message => some (sendError printer.surroundings status message)
  | .runs _ _ raw =>
      (execRunPipe ⟨contentLength, chunked, raw, printer.beyond⟩ incoming run).map (fun body =>
        pipeHeaders raw ++ body)

/-- TLS sends whatever it is given. -/
def PipeRun.Sends (run : PipeRun) : Prop := forall event, event ∈ run.events -> event.sendFails = false

/-- As long as it is needed, the output buffer is not overrun. -/
def PipeRun.KeepsBuffer (run : PipeRun) (call : PipeLoop.Call) (incoming : List UInt8) : Prop :=
  run.piped = true -> run.forked = true -> call.KeepsBuffer incoming run.events

/-- The condition on a call: the pipes and the child are created, and every read is framed. -/
structure PipeRun.Unhindered (run : PipeRun) (call : PipeLoop.Call) (incoming : List UInt8) : Prop where
  piped : run.piped = true
  forked : run.forked = true
  frames : Machine.AllSteps (PipeLoop.step call) call.Frames (call.start incoming) run.events

/-- A call of `exec_run_pipe` sends a complete body out of its buffer if and only if it is
started and every read is framed. -/
theorem execRunPipe_complete_iff {call : PipeLoop.Call} {incoming body : List UInt8} {run : PipeRun}
    (sends : run.Sends) (returns : execRunPipe call incoming run = some body) :
    (run.KeepsBuffer call incoming ∧ (decodeChunks body).isSome = true) ↔ run.Unhindered call incoming := by
  rw [execRunPipe] at returns
  by_cases started : run.piped = true ∧ run.forked = true
  · rw [if_pos (by rw [started.1, started.2]; rfl)] at returns
    rcases Option.bind_eq_some_iff.mp returns with ⟨final, ran, ended⟩
    rcases Option.ite_none_right_eq_some.mp ended with ⟨returned, same⟩
    rw [← Option.some.inj same]
    have iff := PipeLoop.body_complete_iff ran returned sends
    constructor
    · exact fun both => ⟨started.1, started.2, iff.mp ⟨both.1 started.1 started.2, both.2⟩⟩
    · intro met
      have both := iff.mpr met.frames
      exact ⟨fun _ _ => both.1, both.2⟩
  · have notStarted : ¬ (run.piped && run.forked) = true := fun both =>
      started ((Bool.and_eq_true _ _).mp both)
    rw [if_neg notStarted] at returns
    refine iff_of_false (fun both => ?_) (fun met => started ⟨met.piped, met.forked⟩)
    rw [← Option.some.inj returns] at both
    exact absurd both.2 (by decide)

end Handler
end AdbBridge
