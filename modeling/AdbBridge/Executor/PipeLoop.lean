import AdbBridge.Executor.Child
import AdbBridge.Library.ChunkedCoding

namespace AdbBridge
namespace Executor

open Library Library.Numeral

/-!
# `exec_run_pipe`: a command piped to a TLS client

One loop moves the request body from TLS to the child's stdin and the child's
output to TLS.  An iteration is `poll`, then in this order an `SSL_read`, an
`SSL_write`, a write to the stdin pipe, a read of stdout, a read of stderr, the
closing of the stdin pipe and `waitpid(WNOHANG)`; each of them happens only if
its condition in the source holds.  After the loop the child is killed and
reaped if it still runs, the output buffer is flushed and the termination is sent.

Every system call is one step here, so the child acts between any two of them.
The client's bytes are the tape `incoming`: how far they have arrived is
expressed by the result of each `SSL_read`.
-/

namespace PipeLoop

/-! ## The arguments and the buffers -/

/-- The arguments of `exec_run_pipe` that its loop uses.  `beyond` is the memory
behind `sse_buf`, which is read once `sse_buf_len` exceeds its size. -/
structure Call where
  contentLength : Int
  chunked : Bool
  raw : Bool
  beyond : Nat -> UInt8

def stdinBufSize : Nat := 65536

def sseBufSize : Nat := 131072

def outBufSize : Nat := 65536

/-- The characters `br_hdr` can hold besides its terminator. -/
def brHdrSize : Nat := 31

/-- The states of the body reader. -/
inductive BrState where
  | header
  | data
  | trailer
  | final
  | done
deriving DecidableEq, Repr

/-- The locals of the loop.  A buffer and its length are one list; `stdinFd`
tells whether `stdin_pipe[1]` is still a descriptor. -/
structure Loop where
  brState : BrState
  brRemaining : Int
  brHdr : List UInt8
  bodyEof : Bool
  stdinClosed : Bool
  stdinFd : Bool
  stdoutDone : Bool
  stderrDone : Bool
  childExited : Bool
  exitCode : Int
  sslError : Bool
  stdinBuf : List UInt8
  sseBuf : List UInt8
  sslWantRead : Bool
  sslWantWrite : Bool
deriving DecidableEq, Repr

/-- `br_state` before the first byte of the body. -/
def Call.brState (call : Call) : BrState :=
  if call.chunked then .header else if 0 < call.contentLength then .data else .done

/-- The locals when the loop is entered. -/
def Call.loop (call : Call) : Loop where
  brState := call.brState
  brRemaining := if call.chunked then -1 else call.contentLength
  brHdr := []
  bodyEof := call.brState == .done
  stdinClosed := call.brState == .done
  stdinFd := call.brState != .done
  stdoutDone := false
  stderrDone := false
  childExited := false
  exitCode := -1
  sslError := false
  stdinBuf := []
  sseBuf := []
  sslWantRead := false
  sslWantWrite := false

/-! ## The body reader -/

/-- The reader calls `SSL_read`: always for a framing byte, for data only if
there is room. -/
def Loop.reads (loop : Loop) : Bool :=
  match loop.brState with
  | .header | .trailer | .final => true
  | .data => loop.stdinBuf.length < stdinBufSize
  | .done => false

/-- The number of bytes the reader asks `SSL_read` for. -/
def Loop.readCap (loop : Loop) : Nat :=
  match loop.brState with
  | .data => (min loop.brRemaining (stdinBufSize - loop.stdinBuf.length : Nat)).toNat
  | _ => 1

/-- A framing byte read in `BR_HEADER`. -/
def Loop.headerByte (loop : Loop) (byte : UInt8) : Loop :=
  if byte = 10 then
    let size := strtol 16 loop.brHdr
    { loop with
      brRemaining := size, brHdr := []
      brState := if size = 0 then .final else .data }
  else if loop.brHdr.length < brHdrSize then { loop with brHdr := loop.brHdr ++ [byte] }
  else loop

/-- Body bytes read in `BR_DATA`. -/
def Loop.dataBytes (call : Call) (loop : Loop) (bytes : List UInt8) : Loop :=
  let remaining := loop.brRemaining - bytes.length
  { loop with
    stdinBuf := loop.stdinBuf ++ bytes
    brRemaining := remaining
    brState := if remaining = 0 then (if call.chunked then .trailer else .done) else .data
    bodyEof := loop.bodyEof || (remaining = 0 && !call.chunked) }

/-- A framing byte read in `BR_TRAILER` or `BR_FINAL`. -/
def Loop.trailerByte (loop : Loop) (byte : UInt8) : Loop :=
  if byte = 10 then
    match loop.brState with
    | .trailer => { loop with brState := .header }
    | _ => { loop with brState := .done, bodyEof := true }
  else loop

/-- What the reader does with the bytes of a successful `SSL_read`. -/
def Loop.accept (call : Call) (loop : Loop) (bytes : List UInt8) : Loop :=
  match loop.brState with
  | .header => bytes.foldl Loop.headerByte loop
  | .data => loop.dataBytes call bytes
  | .trailer | .final => bytes.foldl Loop.trailerByte loop
  | .done => loop

/-! ## Framing of the output -/

/-- Raw mode: a read of stdout becomes one chunk, if the whole chunk fits. -/
def rawFrame (sseBuf bytes : List UInt8) : List UInt8 :=
  let chunkHdr := formatHex bytes.length ++ [13, 10]
  if sseBuf.length + chunkHdr.length + bytes.length + 2 ≤ sseBufSize then
    sseBuf ++ chunkHdr ++ (bytes ++ [13, 10])
  else sseBuf

/-- `snprintf` at the end of `sse_buf`, followed by the advance of
`sse_buf_len` by the length of the untruncated text. -/
def snprintfAt (beyond : Nat -> UInt8) (sseBuf text : List UInt8) : List UInt8 :=
  let room := sseBufSize - sseBuf.length
  if text.length < room then sseBuf ++ text
  else if room = 0 then sseBuf ++ (List.range text.length).map beyond
  else sseBuf ++ text.take (room - 1) ++ [0] ++ (List.range (text.length - room)).map beyond

/-- SSE mode: one nonempty line becomes one chunk holding one event. -/
def frameLine (beyond : Nat -> UInt8) (isErr : Bool) (sseBuf line : List UInt8) : List UInt8 :=
  if line = [] then sseBuf
  else
    let dataLen := 6 + (if isErr then 9 else 0) + line.length + 2
    snprintfAt beyond (snprintfAt beyond sseBuf (formatHex dataLen ++ ascii "\r\n"))
      (ascii "data: " ++ (if isErr then ascii "[STDERR] " else []) ++ line ++ ascii "\n\n\r\n")

/-- The loop over the lines of a read, left once less than 512 bytes are free. -/
def frameLines (beyond : Nat -> UInt8) (isErr : Bool) : List UInt8 -> List (List UInt8) -> List UInt8
  | sseBuf, [] => sseBuf
  | sseBuf, line :: rest =>
      if sseBuf.length < sseBufSize - 512 then
        frameLines beyond isErr (frameLine beyond isErr sseBuf line) rest
      else sseBuf

/-- What a read of `bytes` from stdout or stderr does to the loop's locals. -/
def Loop.output (call : Call) (isErr : Bool) (loop : Loop) (bytes : List UInt8) : Loop :=
  if bytes = [] then
    if isErr then { loop with stderrDone := true } else { loop with stdoutDone := true }
  else if call.raw then
    if isErr then loop else { loop with sseBuf := rawFrame loop.sseBuf bytes }
  else
    { loop with
      sseBuf := frameLines call.beyond isErr loop.sseBuf ((cString bytes).splitOn 10) }

/-! ## The parent's steps -/

/-- What `poll` reported, restricted to the descriptors in its set: `sslIn`,
`outIn` and `errIn` are `POLLIN` or `POLLHUP`. -/
structure Ready where
  ssl : Bool
  sslIn : Bool
  sslOut : Bool
  stdinOut : Bool
  outIn : Bool
  errIn : Bool
deriving DecidableEq, Repr

/-- The next system call of the parent. -/
inductive Pc where
  | top
  | waitBlocking
  | sslRead (ready : Ready)
  | sslWrite (ready : Ready)
  | stdinWrite (ready : Ready)
  | readOut (errIn : Bool)
  | readErr
  | reap
  | kill
  | flush
  | terminate
  | returned
deriving DecidableEq, Repr

/-- The parent, the child, the pipes and the two directions of the TLS
connection.  `delivered` holds the bytes TLS accepted after the response
headers, `stdinWritten` the bytes written to the stdin pipe. -/
structure State where
  pc : Pc
  loop : Loop
  out : OutputPipe
  err : OutputPipe
  child : ChildState
  incoming : List UInt8
  delivered : List UInt8
  stdinWritten : List UInt8
deriving DecidableEq, Repr

/-- The state in which the loop is entered with the given client bytes to come. -/
def Call.start (call : Call) (incoming : List UInt8) : State :=
  ⟨.top, call.loop, .fresh, .fresh, .running, incoming, [], []⟩

/-- The outcomes of `poll`. -/
inductive PollResult where
  | ready (sslIn sslOut stdinOut outIn errIn : Bool)
  | interrupted
  | failed
deriving DecidableEq, Repr

/-- The outcomes of `SSL_read`: a count, or the class of its error. -/
inductive SslReadResult where
  | got (count : Nat)
  | wantRead
  | wantWrite
  | failed
deriving DecidableEq, Repr

/-- The outcomes of `SSL_write` in the loop.  Every error but
`SSL_ERROR_WANT_WRITE` is `failed`. -/
inductive SslWriteResult where
  | wrote (count : Nat)
  | wantWrite
  | failed
deriving DecidableEq, Repr

/-- The outcomes of a write to the stdin pipe. -/
inductive WriteResult where
  | wrote (count : Nat)
  | again
  | failed
deriving DecidableEq, Repr

/-- The outcome of the blocking `SSL_write` calls after the loop: everything is
accepted, or the connection fails after some bytes. -/
inductive FinalWrite where
  | all
  | cut (accepted : Nat)
deriving DecidableEq, Repr

/-- What can happen next: a step of the child, or the parent's next system
call with its result. -/
inductive Event where
  | childWrite (isErr : Bool) (block : List UInt8)
  | childClose (isErr : Bool)
  | childExit (status : WaitStatus)
  | poll (pending : Bool) (result : PollResult)
  | leave
  | sslRead (result : SslReadResult)
  | sslWrite (result : SslWriteResult)
  | stdinWrite (result : WriteResult)
  | read (count : Nat)
  | waitpid (reaps : Bool)
  | finalWrite (result : FinalWrite)
deriving DecidableEq, Repr

/-- The events in which TLS (on the sending side) or `poll` fails. -/
def Event.sendOrPollFails : Event -> Bool
  | .poll _ .failed | .sslWrite .failed | .finalWrite (.cut _) => true
  | _ => false

/-- The events in which `SSL_read` or the write to the stdin pipe fails. -/
def Event.bodyFails : Event -> Bool
  | .sslRead .failed | .stdinWrite .failed => true
  | _ => false

/-- The condition of the `while` loop. -/
def Loop.continues (loop : Loop) : Bool :=
  !loop.sslError &&
    (!loop.childExited || !loop.stdinClosed || !loop.stdoutDone || !loop.stderrDone ||
      !loop.sseBuf.isEmpty)

def Loop.needRead (loop : Loop) : Bool := !loop.bodyEof && loop.stdinBuf.length < stdinBufSize

def Loop.needWrite (loop : Loop) : Bool := !loop.sseBuf.isEmpty

/-- The TLS descriptor is put into the poll set. -/
def Loop.pollsSsl (loop : Loop) (pending : Bool) : Bool :=
  loop.needRead || loop.needWrite || loop.sslWantRead || loop.sslWantWrite || pending

/-- The stdin pipe is put into the poll set. -/
def Loop.pollsStdin (loop : Loop) : Bool := !loop.stdinClosed && !loop.stdinBuf.isEmpty

/-- `nfds == 0`. -/
def Loop.pollsNothing (loop : Loop) (pending : Bool) : Bool :=
  !loop.pollsSsl pending && !loop.pollsStdin && loop.stdoutDone && loop.stderrDone

/-- `WIFEXITED(w) ? WEXITSTATUS(w) : WIFSIGNALED(w) ? -WTERMSIG(w) : -1`. -/
def exitCodeOf (status : WaitStatus) : Int := status.code

/-- Close the stdin pipe once the body was read and the buffer is drained. -/
def Loop.closeStdin (loop : Loop) : Loop :=
  if loop.bodyEof && loop.stdinBuf.isEmpty && !loop.stdinClosed then
    { loop with stdinFd := false, stdinClosed := true }
  else loop

/-- After the termination the remaining descriptors are closed and the call returns. -/
def State.finish (state : State) : State :=
  { state with pc := .returned, loop := { state.loop with stdinFd := false } }

/-- From the flush on, without the steps whose condition fails. -/
def State.afterKill (state : State) : State :=
  if state.loop.sslError then state.finish
  else if state.loop.sseBuf.isEmpty then { state with pc := .terminate }
  else { state with pc := .flush }

/-- Leaving the loop: a child that still runs is killed first. -/
def State.leaveLoop (state : State) : State :=
  if state.loop.childExited then state.afterKill else { state with pc := .kill }

/-- The end of an iteration after the reads: the stdin pipe is closed if the
body is through, and `waitpid` is called unless the child is gone. -/
def State.afterReads (state : State) : State :=
  { state with
    loop := state.loop.closeStdin
    pc := if state.loop.childExited then .top else .reap }

/-- The reads of the iteration, from stdout on. -/
def State.afterStdinWrite (ready : Ready) (state : State) : State :=
  if ready.outIn then { state with pc := .readOut ready.errIn }
  else if ready.errIn then { state with pc := .readErr }
  else state.afterReads

/-- The iteration from the write to the stdin pipe on. -/
def State.afterSslWrite (ready : Ready) (state : State) : State :=
  if !state.loop.stdinClosed && !state.loop.stdinBuf.isEmpty && ready.stdinOut then
    { state with pc := .stdinWrite ready }
  else state.afterStdinWrite ready

/-- The iteration from the `SSL_write` on. -/
def State.afterSslRead (ready : Ready) (state : State) : State :=
  if ready.ssl && ready.sslOut && !state.loop.sseBuf.isEmpty then
    { state with pc := .sslWrite ready, loop := { state.loop with sslWantWrite := false } }
  else state.afterSslWrite ready

/-- The iteration after `poll` reported some descriptors. -/
def State.afterPoll (pending : Bool) (ready : Ready) (state : State) : State :=
  if ready.ssl && (ready.sslIn || pending) then
    let read : State := { state with loop := { state.loop with sslWantRead := false } }
    if state.loop.reads then { read with pc := .sslRead ready } else read.afterSslRead ready
  else state.afterSslRead ready

/-- The events of `poll` that its set and the pipes admit. -/
def State.ready (pending : Bool) (sslIn sslOut stdinOut outIn errIn : Bool) (state : State) : Ready where
  ssl := state.loop.pollsSsl pending
  sslIn := state.loop.pollsSsl pending && sslIn
  sslOut := state.loop.pollsSsl pending && (state.loop.needWrite || state.loop.sslWantWrite) && sslOut
  stdinOut := state.loop.pollsStdin && stdinOut
  outIn := !state.loop.stdoutDone && outIn
  errIn := !state.loop.stderrDone && errIn

/-- What the termination sends: the final chunk, in SSE mode after the exit event. -/
def termination (call : Call) (exitCode : Int) : List UInt8 :=
  if call.raw then ChunkedCoding.lastChunk
  else
    ChunkedCoding.encodeChunk
      (ascii "data: \x7b\"event\":\"exit\",\"exit_code\":" ++ ascii (toString exitCode) ++
        ascii "\x7d\n\n") ++ ChunkedCoding.lastChunk

/-- The result of a successful `waitpid` on a zombie. -/
def State.reaped (state : State) (status : WaitStatus) : State :=
  { state with
    child := .reaped
    loop := { state.loop with childExited := true, exitCode := exitCodeOf status } }

/-- The bytes a final write hands to TLS. -/
def FinalWrite.accepted (result : FinalWrite) (text : List UInt8) : Option (List UInt8) :=
  match result with
  | .all => some text
  | .cut accepted => if accepted < text.length then some (text.take accepted) else none

/-- A step of the child. -/
def childStep (state : State) : Event -> Option State
  | .childWrite isErr block =>
      if isErr then (state.err.write block).map (fun pipe => { state with err := pipe })
      else (state.out.write block).map (fun pipe => { state with out := pipe })
  | .childClose isErr =>
      some (if isErr then { state with err := state.err.close }
        else { state with out := state.out.close })
  | .childExit status =>
      match state.child with
      | .running => some { state with child := .zombie status }
      | _ => none
  | _ => none

/-- The parent at the head of the loop: the loop is left, or `poll` is called. -/
def topStep (state : State) : Event -> Option State
  | .leave =>
      if state.loop.continues then
        if state.loop.pollsNothing false then
          some (if state.loop.childExited then state.leaveLoop else { state with pc := .waitBlocking })
        else none
      else some state.leaveLoop
  | .poll pending result =>
      if state.loop.continues ∧ state.loop.pollsNothing pending = false then
        match result with
        | .interrupted => some state
        | .failed => some state.leaveLoop
        | .ready sslIn sslOut stdinOut outIn errIn =>
            let ready := state.ready pending sslIn sslOut stdinOut outIn errIn
            if (ready.outIn = true -> state.out.Readable) ∧
                (ready.errIn = true -> state.err.Readable) then
              some (state.afterPoll pending ready)
            else none
      else none
  | _ => none

/-- The `SSL_read` of the body reader. -/
def sslReadStep (call : Call) (ready : Ready) (state : State) : SslReadResult -> Option State
  | .got count =>
      if 0 < count ∧ count ≤ state.loop.readCap ∧ count ≤ state.incoming.length then
        some (State.afterSslRead ready
          { state with
            incoming := state.incoming.drop count
            loop := state.loop.accept call (state.incoming.take count) })
      else none
  | .wantRead =>
      some (State.afterSslRead ready { state with loop := { state.loop with sslWantRead := true } })
  | .wantWrite =>
      some (State.afterSslRead ready { state with loop := { state.loop with sslWantWrite := true } })
  | .failed =>
      some (State.afterSslRead ready
        { state with loop := { state.loop with bodyEof := true, brState := .done } })

/-- The `SSL_write` of the output buffer. -/
def sslWriteStep (ready : Ready) (state : State) : SslWriteResult -> Option State
  | .wrote count =>
      if 0 < count ∧ count ≤ state.loop.sseBuf.length then
        some (State.afterSslWrite ready
          { state with
            delivered := state.delivered ++ state.loop.sseBuf.take count
            loop := { state.loop with sseBuf := state.loop.sseBuf.drop count } })
      else none
  | .wantWrite =>
      some (State.afterSslWrite ready { state with loop := { state.loop with sslWantWrite := true } })
  | .failed =>
      some (State.leaveLoop { state with loop := { state.loop with sslError := true } })

/-- The write to the stdin pipe. -/
def stdinWriteStep (ready : Ready) (state : State) : WriteResult -> Option State
  | .wrote count =>
      if 0 < count ∧ count ≤ state.loop.stdinBuf.length then
        some (State.afterStdinWrite ready
          { state with
            stdinWritten := state.stdinWritten ++ state.loop.stdinBuf.take count
            loop := { state.loop with stdinBuf := state.loop.stdinBuf.drop count } })
      else none
  | .again => some (state.afterStdinWrite ready)
  | .failed =>
      some (State.afterStdinWrite ready
        { state with loop := { state.loop with stdinFd := false, stdinClosed := true } })

/-- The `waitpid` calls: `WNOHANG` in the loop, blocking when there is nothing
to poll, and blocking after `kill`. -/
def waitpidStep (state : State) (reaps : Bool) : Option State :=
  let next (after : State) : Option State :=
    match state.pc with
    | .reap => some { after with pc := .top }
    | .waitBlocking => some after.leaveLoop
    | .kill => some { after with loop := { after.loop with exitCode := -1 } }.afterKill
    | _ => none
  match reaps, state.child with
  | true, .zombie status =>
      match state.pc with
      | .kill => next { state with child := .reaped }
      | _ => next (state.reaped status)
  | true, _ => none
  | false, _ => next state

/-- One step of the child or of the parent. -/
def step (call : Call) (state : State) : Event -> Option State
  | .poll pending result => if state.pc = .top then topStep state (.poll pending result) else none
  | .leave => if state.pc = .top then topStep state .leave else none
  | .sslRead result =>
      match state.pc with
      | .sslRead ready => sslReadStep call ready state result
      | _ => none
  | .sslWrite result =>
      match state.pc with
      | .sslWrite ready => sslWriteStep ready state result
      | _ => none
  | .stdinWrite result =>
      match state.pc with
      | .stdinWrite ready => stdinWriteStep ready state result
      | _ => none
  | .read count =>
      match state.pc with
      | .readOut errIn =>
          (state.out.read outBufSize count).map (fun (bytes, pipe) =>
            let read : State := { state with out := pipe, loop := state.loop.output call false bytes }
            if errIn then { read with pc := .readErr } else read.afterReads)
      | .readErr =>
          (state.err.read outBufSize count).map (fun (bytes, pipe) =>
            State.afterReads { state with err := pipe, loop := state.loop.output call true bytes })
      | _ => none
  | .waitpid reaps => waitpidStep state reaps
  | .finalWrite result =>
      match state.pc with
      | .flush =>
          (result.accepted state.loop.sseBuf).map (fun bytes =>
            { state with
              delivered := state.delivered ++ bytes
              loop := { state.loop with sseBuf := [] }
              pc := .terminate })
      | .terminate =>
          (result.accepted (termination call state.loop.exitCode)).map (fun bytes =>
            State.finish { state with delivered := state.delivered ++ bytes })
      | _ => none
  | event => childStep state event

end PipeLoop
end Executor
end AdbBridge
