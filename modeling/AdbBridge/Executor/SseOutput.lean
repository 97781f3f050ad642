import AdbBridge.Executor.RawOutput
import AdbBridge.Library.Lines

namespace AdbBridge
namespace Executor
namespace PipeLoop

open Library Library.Numeral Library.ChunkedCoding Library.Lines

/-!
# SSE output of `exec_run_pipe`

In SSE mode a read is cut at its newlines, and every piece that is not empty
becomes one chunk holding one event.  The pieces are those of the read: a line
of the child that two reads share becomes two events, and an empty line none.
Behind the pieces of all reads follows the exit event.

What a read becomes depends on the bytes read and on how full the output
buffer is.  The pieces after the point where less than 512 bytes are free are
dropped, and a piece longer than the free space is written past the buffer.
-/

/-! ## Events -/

/-- The line of the event for one piece of output. -/
def dataLine (isErr : Bool) (piece : List UInt8) : List UInt8 :=
  ascii "data: " ++ (if isErr then ascii "[STDERR] " else []) ++ piece

/-- The event for one piece of output. -/
def sseEvent (isErr : Bool) (piece : List UInt8) : List UInt8 := dataLine isErr piece ++ ascii "\n\n"

/-- The line of the exit event. -/
def exitLine (exitCode : Int) : List UInt8 :=
  ascii "data: \x7b\"event\":\"exit\",\"exit_code\":" ++ ascii (toString exitCode) ++ ascii "\x7d"

/-- The bytes the frame of a piece takes in the output buffer. -/
def frameSize (isErr : Bool) (piece : List UInt8) : Nat := (encodeChunk (sseEvent isErr piece)).length

theorem length_sseEvent (isErr : Bool) (piece : List UInt8) :
    (sseEvent isErr piece).length = 6 + (if isErr then 9 else 0) + piece.length + 2 := by
  have data : (ascii "data: ").length = 6 := by decide
  have tag : (ascii "[STDERR] ").length = 9 := by decide
  have blank : (ascii "\n\n").length = 2 := by decide
  rw [sseEvent, dataLine, List.length_append, List.length_append, List.length_append, data, blank]
  cases isErr
  · rfl
  · rw [if_pos rfl, if_pos rfl, tag]

theorem sseEvent_ne_nil (isErr : Bool) (piece : List UInt8) : sseEvent isErr piece ≠ [] := by
  apply List.ne_nil_of_length_pos
  rw [length_sseEvent]
  exact Nat.succ_pos _

/-- In SSE mode the termination is the exit event and the last chunk. -/
theorem termination_sse {call : Call} (sse : call.raw = false) (exitCode : Int) :
    termination call exitCode = encodeChunk (exitLine exitCode ++ ascii "\n\n") ++ lastChunk := by
  have split : ascii "\x7d\n\n" = ascii "\x7d" ++ ascii "\n\n" := by decide
  rw [termination, if_neg (by simp [sse]), split, exitLine, ← List.append_assoc]

/-! ## What a read becomes -/

/-- The pieces of a read that are framed, with `used` bytes in the output buffer. -/
def framedLines (isErr : Bool) : Nat -> List (List UInt8) -> List (List UInt8)
  | _, [] => []
  | used, line :: rest =>
      if used < sseBufSize - 512 then
        if line = [] then framedLines isErr used rest
        else line :: framedLines isErr (used + frameSize isErr line) rest
      else []

/-- Every frame ends inside the output buffer. -/
def linesUnbroken (isErr : Bool) : Nat -> List (List UInt8) -> Bool
  | _, [] => true
  | used, line :: rest =>
      if used < sseBufSize - 512 then
        if line = [] then linesUnbroken isErr used rest
        else decide (used + frameSize isErr line < sseBufSize) &&
          linesUnbroken isErr (used + frameSize isErr line) rest
      else true

/-- A text shorter than the free space is appended as it is. -/
theorem snprintfAt_of_fits (beyond : Nat -> UInt8) {sseBuf text : List UInt8}
    (fits : text.length < sseBufSize - sseBuf.length) :
    snprintfAt beyond sseBuf text = sseBuf ++ text := by
  rw [snprintfAt]
  exact if_pos fits

/-- A line is framed in two pieces: the size of its event, and the event. -/
theorem frameLine_eq (beyond : Nat -> UInt8) (isErr : Bool) (sseBuf : List UInt8) {line : List UInt8}
    (some : line ≠ []) :
    frameLine beyond isErr sseBuf line =
      snprintfAt beyond (snprintfAt beyond sseBuf (formatHex (sseEvent isErr line).length ++ crlf))
        (sseEvent isErr line ++ crlf) := by
  have ending : ascii "\n\n\r\n" = ascii "\n\n" ++ crlf := by decide
  have event : ascii "data: " ++ (if isErr then ascii "[STDERR] " else []) ++ line ++ ascii "\n\n\r\n" =
      sseEvent isErr line ++ crlf := by
    rw [ending, sseEvent, dataLine, List.append_assoc, List.append_assoc, List.append_assoc,
      List.append_assoc, List.append_assoc]
  have header : ascii "\r\n" = crlf := by decide
  rw [frameLine, if_neg some, event, header, length_sseEvent]

/-- A frame that ends inside the buffer is the chunk of its event. -/
theorem frameLine_of_fits (beyond : Nat -> UInt8) {isErr : Bool} {sseBuf line : List UInt8}
    (some : line ≠ []) (fits : sseBuf.length + frameSize isErr line < sseBufSize) :
    frameLine beyond isErr sseBuf line = sseBuf ++ encodeChunk (sseEvent isErr line) := by
  have crlfLength : crlf.length = 2 := by decide
  rw [frameSize, length_encodeChunk] at fits
  have headerFits : (formatHex (sseEvent isErr line).length ++ crlf).length < sseBufSize - sseBuf.length := by
    rw [List.length_append, crlfLength]
    omega
  have eventFits : (sseEvent isErr line ++ crlf).length <
      sseBufSize - (sseBuf ++ (formatHex (sseEvent isErr line).length ++ crlf)).length := by
    rw [List.length_append, List.length_append, List.length_append, crlfLength]
    omega
  rw [frameLine_eq beyond isErr sseBuf some, snprintfAt_of_fits beyond headerFits,
    snprintfAt_of_fits beyond eventFits, encodeChunk]
  simp only [List.append_assoc]

theorem frameLines_of_unbroken (beyond : Nat -> UInt8) {isErr : Bool} {sseBuf : List UInt8}
    {lines : List (List UInt8)} (unbroken : linesUnbroken isErr sseBuf.length lines = true) :
    frameLines beyond isErr sseBuf lines = sseBuf ++
      (framedLines isErr sseBuf.length lines).flatMap (fun line => encodeChunk (sseEvent isErr line)) := by
  induction lines generalizing sseBuf with
  | nil => exact (List.append_nil sseBuf).symm
  | cons line rest inductionHypothesis =>
      rw [frameLines, framedLines]
      rw [linesUnbroken] at unbroken
      by_cases room : sseBuf.length < sseBufSize - 512
      · rw [if_pos room] at unbroken
        rw [if_pos room, if_pos room]
        by_cases empty : line = []
        · rw [if_pos empty] at unbroken
          rw [if_pos empty, frameLine, if_pos empty]
          exact inductionHypothesis unbroken
        · rw [if_neg empty, Bool.and_eq_true, decide_eq_true_eq] at unbroken
          have length : (sseBuf ++ encodeChunk (sseEvent isErr line)).length =
              sseBuf.length + frameSize isErr line := List.length_append
          rw [if_neg empty, frameLine_of_fits beyond empty unbroken.1,
            inductionHypothesis (by rw [length]; exact unbroken.2), length, List.flatMap_cons,
            List.append_assoc]
      · rw [if_neg room, if_neg room]
        exact (List.append_nil sseBuf).symm

/-- The pieces that are framed are among the pieces that are not empty. -/
theorem mem_framedLines {isErr : Bool} {used : Nat} {lines : List (List UInt8)} {line : List UInt8}
    (member : line ∈ framedLines isErr used lines) : line ≠ [] ∧ line ∈ lines := by
  induction lines generalizing used with
  | nil => exact absurd member List.not_mem_nil
  | cons first rest inductionHypothesis =>
      rw [framedLines] at member
      by_cases room : used < sseBufSize - 512
      · rw [if_pos room] at member
        by_cases empty : first = []
        · rw [if_pos empty] at member
          have later := inductionHypothesis member
          exact ⟨later.1, List.mem_cons_of_mem first later.2⟩
        · rw [if_neg empty] at member
          rcases List.mem_cons.mp member with same | tail
          · exact ⟨same ▸ empty, same ▸ List.mem_cons_self⟩
          · have later := inductionHypothesis tail
            exact ⟨later.1, List.mem_cons_of_mem first later.2⟩
      · rw [if_neg room] at member
        exact absurd member List.not_mem_nil

/-- One read of an output pipe: the bytes returned, and `sse_buf_len` before it. -/
structure Read where
  isErr : Bool
  bytes : List UInt8
  used : Nat
deriving DecidableEq, Repr

namespace Read

/-- The pieces between the newlines of a read, up to its first NUL. -/
def cut (read : Read) : List (List UInt8) := (cString read.bytes).splitOn 10

/-- The pieces that are not empty. -/
def pieces (read : Read) : List (List UInt8) := read.cut.filter (fun piece => piece ≠ [])

/-- The pieces that are framed. -/
def framed (read : Read) : List (List UInt8) := framedLines read.isErr read.used read.cut

/-- No frame of the read is written past the end of the output buffer. -/
def Unbroken (read : Read) : Prop := linesUnbroken read.isErr read.used read.cut = true

/-- No piece of the read is dropped. -/
def Kept (read : Read) : Prop := read.framed = read.pieces

instance (read : Read) : Decidable read.Unbroken := inferInstanceAs (Decidable (_ = _))

instance (read : Read) : Decidable read.Kept := inferInstanceAs (Decidable (_ = _))

/-- The events of a read. -/
def events (read : Read) : List (List UInt8) := read.framed.map (sseEvent read.isErr)

/-- The lines of these events. -/
def eventLines (read : Read) : List (List UInt8) :=
  read.framed.flatMap (fun piece => [dataLine read.isErr piece, []])

/-- The lines of the events of a read contain no newline. -/
theorem newline_not_mem_eventLines {read : Read} {line : List UInt8}
    (member : line ∈ read.eventLines) : 10 ∉ line := by
  rcases List.mem_flatMap.mp member with ⟨piece, isFramed, isLine⟩
  have free : 10 ∉ piece := not_mem_of_mem_splitOn (mem_framedLines isFramed).2
  rcases List.mem_cons.mp isLine with data | empty
  · have tag : (10 : UInt8) ∉ (if read.isErr then ascii "[STDERR] " else []) := by
      cases read.isErr <;> decide
    rw [data, dataLine, List.mem_append, List.mem_append, not_or, not_or]
    exact ⟨⟨by decide, tag⟩, free⟩
  · rw [List.mem_singleton.mp empty]
    exact List.not_mem_nil

/-- The events are these lines, each with its newline. -/
theorem flatten_events (read : Read) : read.events.flatten = unlines 10 read.eventLines := by
  rw [events, eventLines]
  induction read.framed with
  | nil => rfl
  | cons piece rest inductionHypothesis =>
      have event : sseEvent read.isErr piece = unlines 10 [dataLine read.isErr piece, []] := by
        rw [sseEvent, unlines_cons]
        rfl
      rw [List.map_cons, List.flatten_cons, inductionHypothesis, List.flatMap_cons, unlines_append, event]

end Read

/-- The read a step makes. -/
def readsOf (state : State) : Event -> List Read
  | .read count =>
      match state.pc with
      | .readOut _ => [⟨false, state.out.unread.take count, state.loop.sseBuf.length⟩]
      | .readErr => [⟨true, state.err.unread.take count, state.loop.sseBuf.length⟩]
      | _ => []
  | _ => []

/-- The reads of a run, in order. -/
def Call.reads (call : Call) (incoming : List UInt8) (events : List Event) : List Read :=
  Machine.trace (step call) readsOf (call.start incoming) events

/-- The reads of stdout. -/
def ofStdout (reads : List Read) : List Read := reads.filter (fun read => !read.isErr)

/-- What a read does to the loop's locals, if no frame is written past the buffer. -/
theorem output_sse {call : Call} (sse : call.raw = false) (loop : Loop) {isErr : Bool}
    {bytes : List UInt8} (unbroken : Read.Unbroken ⟨isErr, bytes, loop.sseBuf.length⟩) :
    Exists fun stderrDone => loop.output call isErr bytes =
      { loop with
        stdoutDone := loop.stdoutDone || (bytes.isEmpty && !isErr)
        stderrDone := stderrDone
        sseBuf := loop.sseBuf ++
          (Read.events ⟨isErr, bytes, loop.sseBuf.length⟩).flatMap encodeChunk } := by
  by_cases none : bytes = []
  · subst none
    have nothing : Read.events ⟨isErr, [], loop.sseBuf.length⟩ = [] := by
      simp [Read.events, Read.framed, Read.cut, cString, framedLines]
    rw [nothing, List.flatMap_nil, List.append_nil, Loop.output, if_pos rfl]
    cases isErr
    · exact ⟨loop.stderrDone, by simp⟩
    · exact ⟨true, by simp⟩
  · have notEmpty : bytes.isEmpty = false := by simpa using none
    have framed : frameLines call.beyond isErr loop.sseBuf ((cString bytes).splitOn 10) =
        loop.sseBuf ++ (Read.events ⟨isErr, bytes, loop.sseBuf.length⟩).flatMap encodeChunk := by
      rw [Read.events, List.flatMap_map]
      exact frameLines_of_unbroken call.beyond unbroken
    refine ⟨loop.stderrDone, ?_⟩
    rw [Loop.output, if_neg none, if_neg (by simp [sse]), framed, notEmpty, Bool.false_and,
      Bool.or_false]

/-! ## The invariant -/

/-- The events in which TLS fails on the sending side. -/
def Event.sendFails : Event -> Bool
  | .sslWrite .failed | .finalWrite (.cut _) => true
  | _ => false

theorem sendFails_of_clean {event : Event} (clean : event.sendOrPollFails = false) :
    event.sendFails = false := by
  unfold Event.sendFails
  split
  · exact clean
  · exact clean
  · rfl

/-- Where the output of an SSE call stands after the given reads.  Under `polls` the
loop was not left by a failing `poll`, and stdout is at its end behind it. -/
structure SseInv (call : Call) (polls : Prop) (past : List Read) (state : State) : Prop where
  noError : state.loop.sslError = false
  atEof : state.loop.stdoutDone = true -> state.out.unread = [] ∧ state.out.closed = true
  readable : state.pc.readsOut = true -> state.out.Readable
  through : polls -> state.pc.leaving = true -> state.loop.stdoutDone = true
  sent : state.pc = .terminate ∨ state.pc = .returned -> state.loop.sseBuf = []
  taken : state.out.Delivered ((ofStdout past).flatMap Read.bytes)
  wire : state.delivered ++ state.loop.sseBuf = (past.flatMap Read.events).flatMap encodeChunk ++
    (if state.pc = .returned then termination call state.loop.exitCode else [])

variable {call : Call} {polls : Prop} {past : List Read} {state next : State} {event : Event}

theorem start_sseInv (incoming : List UInt8) : SseInv call polls [] (call.start incoming) where
  noError := rfl
  atEof := fun impossible => absurd impossible (by simp [Call.start, Call.loop])
  readable := fun impossible => absurd impossible (by simp [Call.start, Pc.readsOut])
  through := fun _ impossible => absurd impossible (by simp [Call.start, Pc.leaving])
  sent := fun _ => rfl
  taken := rfl
  wire := rfl

/-- As long as the call has not returned, the bytes are those of the events. -/
theorem SseInv.bytes (inv : SseInv call polls past state) (notReturned : state.pc ≠ .returned) :
    state.delivered ++ state.loop.sseBuf = (past.flatMap Read.events).flatMap encodeChunk := by
  have wire := inv.wire
  rw [if_neg notReturned, List.append_nil] at wire
  exact wire

/-- The invariant at a position inside the loop. -/
theorem SseInv.inside (noError : state.loop.sslError = false)
    (atEof : state.loop.stdoutDone = true -> state.out.unread = [] ∧ state.out.closed = true)
    (readable : state.pc.readsOut = true -> state.out.Readable)
    (running : state.pc.leaving = false)
    (taken : state.out.Delivered ((ofStdout past).flatMap Read.bytes))
    (bytes : state.delivered ++ state.loop.sseBuf = (past.flatMap Read.events).flatMap encodeChunk) :
    SseInv call polls past state := by
  refine ⟨noError, atEof, readable, fun _ leaves => ?_, fun ending => ?_, taken, ?_⟩
  · exact absurd (running.symm.trans leaves) nofun
  · rcases ending with isPc | isPc <;> (rw [isPc] at running; exact absurd running nofun)
  · rw [if_neg (ne_returned_of_not_leaving running), List.append_nil]
    exact bytes

/-- The moves between two system calls of an iteration keep the invariant. -/
theorem SseInv.rest {ready : Ready} (rest : Rest ready state next)
    (inv : SseInv call polls past state) (running : state.pc.leaving = false)
    (readable : ready.outIn = true -> state.out.Readable) : SseInv call polls past next := by
  have bytes := inv.bytes (ne_returned_of_not_leaving running)
  cases rest with
  | next pc wantRead wantWrite within =>
      exact SseInv.inside inv.noError inv.atEof (fun reads => readable (readsOut_of_inIteration within reads))
        (not_leaving_of_inIteration within) inv.taken bytes
  | last pc wantRead wantWrite ends =>
      have kept := closeStdin_output state.loop
      have stays : pc.leaving = false ∧ pc.readsOut = false := by
        rcases ends with same | same <;> (subst same; exact ⟨rfl, rfl⟩)
      refine SseInv.inside (kept.1.trans inv.noError) ?_ ?_ stays.1 inv.taken ?_
      · intro done
        exact inv.atEof (kept.2.1.symm.trans done)
      · intro reads
        exact absurd (stays.2.symm.trans reads) nofun
      · exact (congrArg (state.delivered ++ ·) kept.2.2).trans bytes

/-- Leaving the loop keeps the invariant. -/
theorem SseInv.left (left : Left state next) (inv : SseInv call polls past state)
    (notReturned : state.pc ≠ .returned) (through : polls -> state.loop.stdoutDone = true) :
    SseInv call polls past next := by
  have bytes := inv.bytes notReturned
  cases left with
  | kill running =>
      refine ⟨inv.noError, inv.atEof, nofun, fun ok _ => through ok, nofun, inv.taken, ?_⟩
      rw [if_neg nofun, List.append_nil]
      exact bytes
  | flush noError some =>
      refine ⟨inv.noError, inv.atEof, nofun, fun ok _ => through ok, nofun, inv.taken, ?_⟩
      rw [if_neg nofun, List.append_nil]
      exact bytes
  | terminate noError none =>
      refine ⟨inv.noError, inv.atEof, nofun, fun ok _ => through ok, fun _ => none, inv.taken, ?_⟩
      rw [if_neg nofun, List.append_nil]
      exact bytes
  | failed error => exact absurd (inv.noError.symm.trans error) nofun

/-- What the parent learns of the child before it returns does not matter to the output. -/
theorem SseInv.waited (inv : SseInv call polls past state) (notReturned : state.pc ≠ .returned)
    (child : ChildState) (childExited : Bool) (exitCode : Int) :
    SseInv call polls past
      { state with
        child := child
        loop := { state.loop with childExited := childExited, exitCode := exitCode } } := by
  refine ⟨inv.noError, inv.atEof, inv.readable, inv.through, inv.sent, inv.taken, ?_⟩
  rw [if_neg notReturned, List.append_nil]
  exact inv.bytes notReturned

theorem ofStdout_append (first second : List Read) :
    ofStdout (first ++ second) = ofStdout first ++ ofStdout second := List.filter_append _ _

/-- A read takes its bytes from the front of what is unread. -/
theorem take_of_read {pipe pipe' : OutputPipe} {cap count : Nat} {bytes : List UInt8}
    (got : pipe.read cap count = some (bytes, pipe')) : pipe.unread.take count = bytes := by
  rcases OutputPipe.read_eq_some got with ⟨noBytes, zero, _, _⟩ | ⟨length, _, _, split, _, _⟩
  · rw [zero, noBytes, List.take_zero]
  · rw [split, List.take_append_of_le_length (Nat.le_of_eq length.symm), ← length, List.take_length]

/-- A read of stdout becomes its events. -/
theorem SseInv.readOut (sse : call.raw = false) {pipe : OutputPipe} {bytes : List UInt8} {count : Nat}
    {errIn : Bool} (inv : SseInv call polls past state) (isPc : state.pc = .readOut errIn)
    (got : state.out.read outBufSize count = some (bytes, pipe))
    (unbroken : Read.Unbroken ⟨false, bytes, state.loop.sseBuf.length⟩) :
    SseInv call polls (past ++ [⟨false, bytes, state.loop.sseBuf.length⟩])
      { state with pc := .top, out := pipe, loop := state.loop.output call false bytes } := by
  have wire := inv.bytes (by rw [isPc]; exact nofun)
  have readable := inv.readable (by rw [isPc]; rfl)
  rcases output_sse sse state.loop unbroken with ⟨stderrDone, owned⟩
  rw [owned]
  refine SseInv.inside inv.noError ?_ nofun rfl ?_ ?_
  · intro done
    rcases OutputPipe.read_eq_some got with
      ⟨noBytes, _, empty, same⟩ | ⟨length, positive, _, split, _, isClosed⟩
    · rw [same]
      exact ⟨empty, readable.resolve_left (fun some => some empty)⟩
    · have some : bytes ≠ [] := List.ne_nil_of_length_pos (length ▸ positive)
      have earlier : state.loop.stdoutDone = true := by
        have noBytes : bytes.isEmpty = false := by simpa using some
        rw [noBytes, Bool.false_and, Bool.or_false] at done
        exact done
      have nothing := (inv.atEof earlier).1
      rw [split] at nothing
      exact absurd (List.append_eq_nil_iff.mp nothing).1 some
  · have moved := inv.taken.read got
    rw [ofStdout_append, List.flatMap_append]
    have last : (ofStdout [⟨false, bytes, state.loop.sseBuf.length⟩]).flatMap Read.bytes = bytes := by
      simp [ofStdout]
    rw [last]
    exact moved
  · change state.delivered ++ (state.loop.sseBuf ++ _) = _
    rw [← List.append_assoc, wire, List.flatMap_append, List.flatMap_append, List.flatMap_singleton]

theorem readsOf_readOut {errIn : Bool} {count : Nat} {block : List UInt8} {pipe : OutputPipe}
    (isPc : state.pc = .readOut errIn) (got : state.out.read outBufSize count = some (block, pipe)) :
    readsOf state (.read count) = [⟨false, block, state.loop.sseBuf.length⟩] := by
  rw [readsOf, isPc, ← take_of_read got]

theorem readsOf_readErr {count : Nat} {block : List UInt8} {pipe : OutputPipe}
    (isPc : state.pc = .readErr) (got : state.err.read outBufSize count = some (block, pipe)) :
    readsOf state (.read count) = [⟨true, block, state.loop.sseBuf.length⟩] := by
  rw [readsOf, isPc, ← take_of_read got]

/-- A read of stderr becomes its events. -/
theorem SseInv.readErr (sse : call.raw = false) {pipe : OutputPipe} {bytes : List UInt8}
    (inv : SseInv call polls past state) (isPc : state.pc = .readErr)
    (unbroken : Read.Unbroken ⟨true, bytes, state.loop.sseBuf.length⟩) :
    SseInv call polls (past ++ [⟨true, bytes, state.loop.sseBuf.length⟩])
      { state with pc := .top, err := pipe, loop := state.loop.output call true bytes } := by
  have wire := inv.bytes (by rw [isPc]; exact nofun)
  rcases output_sse sse state.loop unbroken with ⟨stderrDone, owned⟩
  rw [owned]
  refine SseInv.inside inv.noError ?_ nofun rfl ?_ ?_
  · intro done
    rw [Bool.not_true, Bool.and_false, Bool.or_false] at done
    exact inv.atEof done
  · rw [ofStdout_append, List.flatMap_append]
    have last : (ofStdout [⟨true, bytes, state.loop.sseBuf.length⟩]).flatMap Read.bytes = [] := by
      simp [ofStdout]
    rw [last, List.append_nil]
    exact inv.taken
  · change state.delivered ++ (state.loop.sseBuf ++ _) = _
    rw [← List.append_assoc, wire, List.flatMap_append, List.flatMap_append, List.flatMap_singleton]

/-- One step in which TLS sends what it is given keeps the invariant, if no frame is
written past the output buffer. -/
theorem step_sseInv (sse : call.raw = false) (stepped : step call state event = some next)
    (sends : event.sendFails = false) (polled : polls -> event.sendOrPollFails = false)
    (unbroken : forall read, read ∈ readsOf state event -> read.Unbroken)
    (inv : SseInv call polls past state) : SseInv call polls (past ++ readsOf state event) next := by
  have other : forall result : State, readsOf state event = [] -> SseInv call polls past result ->
      SseInv call polls (past ++ readsOf state event) result := by
    intro result nothing inv
    rw [nothing, List.append_nil]
    exact inv
  have outside : forall pc : Pc, state.pc = pc -> pc ≠ .returned -> state.pc ≠ .returned :=
    fun pc isPc open_ returned => open_ (isPc.symm.trans returned)
  have bytes : forall pc : Pc, state.pc = pc -> pc ≠ .returned ->
      state.delivered ++ state.loop.sseBuf = (past.flatMap Read.events).flatMap encodeChunk :=
    fun pc isPc open_ => inv.bytes (outside pc isPc open_)
  have reads : forall {ready : Ready} (pc : Pc), state.pc = pc ->
      (ready.outIn = true -> pc.readsOut = true) -> ready.outIn = true -> state.out.Readable :=
    fun pc isPc waits out => inv.readable (isPc ▸ waits out)
  cases transition_of_step stepped with
  | writeErr | closeErr | exit =>
      exact other _ rfl ⟨inv.noError, inv.atEof, inv.readable, inv.through, inv.sent, inv.taken, inv.wire⟩
  | writeOut block pipe wrote =>
      have grown := unread_of_write wrote
      refine other _ rfl ⟨inv.noError, ?_, ?_, inv.through, inv.sent, inv.taken.write wrote, inv.wire⟩
      · intro done
        exact absurd (grown.1.symm.trans (inv.atEof done).2) nofun
      · intro waits
        rcases inv.readable waits with some | closed
        · refine Or.inl ?_
          rw [grown.2.1]
          exact fun none => some (List.append_eq_nil_iff.mp none).1
        · exact absurd (grown.1.symm.trans closed) nofun
  | closeOut =>
      exact other _ rfl ⟨inv.noError, fun done => ⟨(inv.atEof done).1, rfl⟩, fun _ => Or.inr rfl,
        inv.through, inv.sent, inv.taken, inv.wire⟩
  | interrupted pending top => exact other _ rfl inv
  | polled pending sslIn sslOut stdinOut outIn errIn _ top outReadable _ rest =>
      exact other _ rfl (inv.rest rest (not_leaving_of_eq top rfl) outReadable)
  | pollFailed pending _ top left =>
      refine other _ rfl (SseInv.left left inv (outside _ top nofun) (fun ok => ?_))
      exact absurd (polled ok) nofun
  | ended _ top ends left =>
      exact other _ rfl (SseInv.left left inv (outside _ top nofun)
        (fun _ => (through_of_not_continues inv.noError ends).1))
  | idle _ top nothing exited left =>
      exact other _ rfl (SseInv.left left inv (outside _ top nofun)
        (fun _ => (through_of_pollsNothing nothing).1))
  | waits top nothing running =>
      refine other _ rfl ⟨inv.noError, inv.atEof, nofun, fun _ _ => (through_of_pollsNothing nothing).1,
        nofun, inv.taken, ?_⟩
      rw [if_neg nofun, List.append_nil]
      exact bytes _ top nofun
  | sslGot ready count _ isPc positive asked sent rest =>
      rcases accept_eq_withReader call state.loop (state.incoming.take count) with
        ⟨brState, brRemaining, brHdr, bodyEof, stdinBuf, owned⟩
      rw [owned] at rest
      refine other _ rfl (SseInv.rest rest ?_ (not_leaving_of_eq isPc rfl) (reads _ isPc id))
      exact ⟨inv.noError, inv.atEof, inv.readable, inv.through, inv.sent, inv.taken, inv.wire⟩
  | sslWants ready result _ isPc wants rest =>
      exact other _ rfl (inv.rest rest (not_leaving_of_eq isPc rfl) (reads _ isPc id))
  | sslReadFailed ready _ isPc rest =>
      refine other _ rfl (SseInv.rest rest ?_ (not_leaving_of_eq isPc rfl) (reads _ isPc id))
      exact ⟨inv.noError, inv.atEof, inv.readable, inv.through, inv.sent, inv.taken, inv.wire⟩
  | sslWrote ready count _ isPc positive held rest =>
      have running : state.pc.leaving = false := not_leaving_of_eq isPc rfl
      refine other _ rfl (SseInv.rest rest ?_ running (reads _ isPc id))
      refine SseInv.inside inv.noError inv.atEof inv.readable running inv.taken ?_
      rw [List.append_assoc, List.take_append_drop]
      exact bytes _ isPc nofun
  | sslWriteWants ready _ isPc rest =>
      exact other _ rfl (inv.rest rest (not_leaving_of_eq isPc rfl) (reads _ isPc id))
  | sslWriteFailed ready _ isPc left => exact absurd sends nofun
  | stdinWrote ready count _ isPc positive held rest =>
      refine other _ rfl (SseInv.rest rest ?_ (not_leaving_of_eq isPc rfl) (reads _ isPc id))
      exact ⟨inv.noError, inv.atEof, inv.readable, inv.through, inv.sent, inv.taken, inv.wire⟩
  | stdinAgain ready _ isPc rest =>
      exact other _ rfl (inv.rest rest (not_leaving_of_eq isPc rfl) (reads _ isPc id))
  | stdinFailed ready _ isPc rest =>
      refine other _ rfl (SseInv.rest rest ?_ (not_leaving_of_eq isPc rfl) (reads _ isPc id))
      exact ⟨inv.noError, inv.atEof, inv.readable, inv.through, inv.sent, inv.taken, inv.wire⟩
  | readOut errIn count block pipe _ isPc got rest =>
      rw [readsOf_readOut isPc got] at unbroken ⊢
      exact (inv.readOut sse isPc got (unbroken _ (List.mem_singleton.mpr rfl))).rest rest rfl nofun
  | readErr count block pipe _ isPc got rest =>
      rw [readsOf_readErr isPc got] at unbroken ⊢
      exact (inv.readErr sse isPc (unbroken _ (List.mem_singleton.mpr rfl))).rest rest rfl nofun
  | notReaped isPc =>
      exact other _ rfl (SseInv.inside inv.noError inv.atEof nofun rfl inv.taken (bytes _ isPc nofun))
  | reaps status isPc zombie =>
      exact other _ rfl (SseInv.inside inv.noError inv.atEof nofun rfl inv.taken (bytes _ isPc nofun))
  | waitFailed _ isPc left =>
      exact other _ rfl (SseInv.left left inv (outside _ isPc nofun)
        (fun ok => inv.through ok (by rw [isPc]; rfl)))
  | waitReaps status _ isPc zombie left =>
      exact other _ rfl (SseInv.left left (inv.waited (outside _ isPc nofun) _ _ _)
        (outside _ isPc nofun) (fun ok => inv.through ok (by rw [isPc]; rfl)))
  | killUnreaped _ isPc left =>
      exact other _ rfl (SseInv.left left (inv.waited (outside _ isPc nofun) _ _ _)
        (outside _ isPc nofun) (fun ok => inv.through ok (by rw [isPc]; rfl)))
  | killReaps status _ isPc zombie left =>
      exact other _ rfl (SseInv.left left (inv.waited (outside _ isPc nofun) _ _ _)
        (outside _ isPc nofun) (fun ok => inv.through ok (by rw [isPc]; rfl)))
  | flushed result accepted isPc isAccepted =>
      cases result with
      | cut count => exact absurd sends nofun
      | all =>
          have sent : state.loop.sseBuf = accepted := Option.some.inj isAccepted
          refine other _ rfl ⟨inv.noError, inv.atEof, nofun,
            fun ok _ => inv.through ok (by rw [isPc]; rfl), fun _ => rfl, inv.taken, ?_⟩
          rw [if_neg nofun, List.append_nil, List.append_nil, ← sent]
          exact bytes _ isPc nofun
  | terminated result accepted isPc isAccepted =>
      cases result with
      | cut count => exact absurd sends nofun
      | all =>
          have sent : termination call state.loop.exitCode = accepted := Option.some.inj isAccepted
          have empty := inv.sent (Or.inl isPc)
          have all := bytes _ isPc nofun
          rw [empty, List.append_nil] at all
          refine other _ rfl ⟨inv.noError, inv.atEof, nofun,
            fun ok _ => inv.through ok (by rw [isPc]; rfl), fun _ => empty, inv.taken, ?_⟩
          change state.delivered ++ accepted ++ state.loop.sseBuf = _ ++ termination call state.loop.exitCode
          rw [empty, List.append_nil, ← sent, all]

/-! ## Whole calls -/

/-- The invariant holds at the end of a call, with all its reads. -/
theorem sseInv_of_exec (sse : call.raw = false) {incoming : List UInt8} {events : List Event}
    {final : State} (run : Machine.exec (step call) (call.start incoming) events = some final)
    (sends : forall event, event ∈ events -> event.sendFails = false)
    (polled : polls -> forall event, event ∈ events -> event.sendOrPollFails = false)
    (unbroken : forall read, read ∈ call.reads incoming events -> read.Unbroken) :
    SseInv call polls (call.reads incoming events) final := by
  have clean : Machine.AllSteps (step call)
      (fun _ event => event.sendFails = false ∧ (polls -> event.sendOrPollFails = false))
      (call.start incoming) events :=
    Machine.allSteps_of_forall _ (fun event member => ⟨sends event member, fun ok => polled ok event member⟩)
  have met := (Machine.allSteps_of_forall_mem_trace unbroken).and clean
  have begins : SseInv call polls [] (call.start incoming) := start_sseInv incoming
  exact Machine.trace_exec
    (fun past state event next ok stepped inv => step_sseInv sse stepped ok.2.1 ok.2.2 ok.1 inv)
    run met begins

/-- The lines of the events of a call. -/
def bodyLines (reads : List Read) (exitCode : Int) : List (List UInt8) :=
  reads.flatMap Read.eventLines ++ [exitLine exitCode, []]

/-- The client of a returned call decodes a body of these lines. -/
theorem SseInv.body (sse : call.raw = false) (inv : SseInv call polls past state)
    (returned : state.pc = .returned) :
    decodeBody state.delivered = some (unlines 10 (bodyLines past state.loop.exitCode)) := by
  have wire := inv.wire
  rw [inv.sent (Or.inr returned), List.append_nil, if_pos returned, termination_sse sse] at wire
  have chunks : state.delivered =
      (past.flatMap Read.events ++ [exitLine state.loop.exitCode ++ ascii "\n\n"]).flatMap encodeChunk ++
        lastChunk := by
    rw [wire, List.flatMap_append, List.flatMap_singleton, List.append_assoc]
  have nonempty : forall chunk,
      chunk ∈ past.flatMap Read.events ++ [exitLine state.loop.exitCode ++ ascii "\n\n"] ->
        chunk ≠ [] := by
    intro chunk member
    rcases List.mem_append.mp member with event | exit
    · rcases List.mem_flatMap.mp event with ⟨read, _, isEvent⟩
      rcases List.mem_map.mp isEvent with ⟨piece, _, same⟩
      exact same ▸ sseEvent_ne_nil read.isErr piece
    · rw [List.mem_singleton.mp exit]
      exact List.append_ne_nil_of_right_ne_nil _ (by decide)
  have content : (past.flatMap Read.events).flatten = unlines 10 (past.flatMap Read.eventLines) := by
    clear wire chunks nonempty inv
    induction past with
    | nil => rfl
    | cons read rest inductionHypothesis =>
        rw [List.flatMap_cons, List.flatten_append, inductionHypothesis, List.flatMap_cons,
          unlines_append, read.flatten_events]
  have exit : exitLine state.loop.exitCode ++ ascii "\n\n" =
      unlines 10 [exitLine state.loop.exitCode, []] := by
    rw [unlines_cons]
    rfl
  rw [chunks, decodeBody_encode _ nonempty, List.flatten_append, List.flatten_singleton, content, exit,
    bodyLines, unlines_append]

end PipeLoop
end Executor
end AdbBridge
