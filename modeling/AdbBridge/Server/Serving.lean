import AdbBridge.Handler.Download
import AdbBridge.Handler.Streams

namespace AdbBridge
namespace Server

open Library Library.Numeral Library.Files Library.ChunkedCoding Library.ResponseFraming
open Executor AdbBridge.Handler

/-!
# What a request is answered with

`handle_client` answers some requests itself and leaves the others to the handlers.
With what the system, the libraries and the child do for a request, the bytes sent are
determined, and for every way through the server it is decided whether they are one
complete response.
-/

/-! ## The server's own responses -/

/-- The header of `send_http_response` in `server.c`. -/
def serverHeader (status : Nat) (statusText contentType : List UInt8) (bodyLen : Nat) : List UInt8 :=
  ascii "HTTP/1.1 " ++ formatDec status ++ ascii " " ++ statusText ++ ascii "\r\n" ++
    ascii "Content-Type: " ++ contentType ++ ascii "\r\n" ++
    ascii "Content-Length: " ++ formatDec bodyLen ++ ascii "\r\n" ++
    ascii "Connection: close\r\n" ++
    ascii "\r\n"

def sendJsonResponse (beyond : Nat -> UInt8) (status : Nat) (body : List UInt8) : List UInt8 :=
  sentFrom headerBufSize beyond
    (serverHeader status (statusText status) (ascii "application/json") body.length) ++ body

def sendErrorJson (beyond : Nat -> UInt8) (status : Nat) (message : List UInt8) : List UInt8 :=
  sendJsonResponse beyond status ((ascii "\x7b\"error\":\"" ++ message ++ ascii "\"\x7d").take 1023)

/-- The response before the body is read. -/
def continueResponse : List UInt8 := ascii "HTTP/1.1 100 Continue\r\n\r\n"

/-- What is sent before a request is served. -/
def interim (placement : Placement) (tls : Tls) : List UInt8 :=
  match requestHeaders tls with
  | none => []
  | some headers =>
      match parseRequestLine placement headers with
      | none => []
      | some line => if expectsContinue line.method headers then continueResponse else []

/-! ## Everything a request meets -/

/-- What happens while a request is served: the answers of the libraries and the system
to each handler, and the state of the server. -/
structure World where
  printer : Printer
  sinceStart : Int
  certificates : Certificates
  parse : List UInt8 -> CommandItem
  execRun : List UInt8 -> Option Capture.State
  execRunStream : List UInt8 -> Option Streaming.State
  pipe : PipeRun
  disk : Disk (List UInt8)
  upload : List Upload.Event
  updateServer : Update.Server
  update : List (Disk (List UInt8) × Update.Action)
  download : Download.Outcomes
  table : Forward.ForwardTable
  listBuf : Region Forward.listBuf
  forwardItems : List UInt8 -> Option Forward.ForwardRequest
  released : Forward.Released
  inetPton : Forward.InetPton
  add : Forward.AddOutcomes

/-- What a handler sends that gets the body as a string. -/
def World.handle (world : World) (line : RequestLine) (body : List UInt8) : Handler -> Option (List UInt8)
  | .health => some (handleHealth world.printer world.sinceStart)
  | .certinfo => some (handleCertinfo world.printer world.certificates)
  | .uptime => some (handleUptime world.printer world.sinceStart)
  | .exec => some (handleExec world.printer world.parse world.execRun body)
  | .execStream => some (handleExecStream world.printer world.parse world.execRunStream body)
  | .download =>
      some (Download.handleDownload world.printer.surroundings world.disk world.download line.query)
  | .tcpforwardGet => handleTcpforwardGet world.printer.beyond world.listBuf world.table.forwards
  | .tcpforwardPost =>
      some (replyWith world.printer.beyond (Forward.handleTcpforwardPost world.forwardItems world.released
        world.inetPton world.table body world.add).2)
  | .tcpforwardDelete => some (replyWith world.printer.beyond (handleTcpforwardDelete world.table line.query).2)

/-- What a request is answered with, if what happens leads to the end of its handler. -/
def World.respond (world : World) : Outcome -> Option (List UInt8)
  | .closed => none
  | .error status message => some (sendErrorJson world.printer.beyond status message)
  | .upload query contentLength tls =>
      if isLong : -9223372036854775808 ≤ contentLength ∧ contentLength < 9223372036854775808 then
        handleUpload world.printer ⟨query, contentLength, tls.incoming, isLong⟩ world.disk world.upload
      else none
  | .update query contentLength tls =>
      handleUpdate world.printer world.updateServer ⟨query, contentLength, tls.incoming⟩ world.update
  | .execPipe query contentLength chunked tls =>
      (handleExecPipe query).reply world.printer contentLength chunked tls.incoming world.pipe
  | .request line body _ _ =>
      match handleRequest line with
      | none => some (sendErrorJson world.printer.beyond 404 (ascii "not found"))
      | some handler => world.handle line (cString body.bytes) handler

/-- The bytes `handle_client` writes. -/
def World.written (world : World) (placement : Placement) (tls : Tls) (body : RequestArray) :
    Option (List UInt8) :=
  (world.respond (handleClient placement .verified tls body)).map (fun response =>
    interim placement tls ++ response)

/-- The handlers that go on reading and waiting come to their end, and TLS sends what it
is given. -/
def World.Returns (world : World) : Outcome -> Prop
  | .upload query contentLength tls =>
      forall isLong,
        (handleUpload world.printer ⟨query, contentLength, tls.incoming, isLong⟩ world.disk
          world.upload).isSome = true
  | .update query contentLength tls =>
      (handleUpdate world.printer world.updateServer ⟨query, contentLength, tls.incoming⟩
        world.update).isSome = true
  | .execPipe query contentLength chunked tls =>
      ((handleExecPipe query).reply world.printer contentLength chunked tls.incoming world.pipe).isSome = true ∧
        world.pipe.Sends
  | _ => True

/-- The call of `exec_run_pipe` for a request. -/
def World.pipeCall (world : World) (contentLength : Int) (chunked raw : Bool) : PipeLoop.Call :=
  ⟨contentLength, chunked, raw, world.printer.beyond⟩

/-- The buffers of the output keep their bounds, so what is sent is what was put there. -/
def World.KeepsBuffers (world : World) : Outcome -> Prop
  | .execPipe query contentLength chunked tls =>
      match handleExecPipe query with
      | .refused _ _ => True
      | .runs _ _ raw => world.pipe.KeepsBuffer (world.pipeCall contentLength chunked raw) tls.incoming
  | .request line _ _ _ =>
      match handleRequest line with
      | some .tcpforwardGet =>
          forall position, position ∈ Region.positions 0 (Forward.listPieces world.table.forwards) ->
            position ≤ Forward.listBuf
      | _ => True
  | _ => True

/-- After an optional `100 Continue` the request gets one complete response, out of
buffers that keep their bounds. -/
structure World.AnswersOnce (world : World) (placement : Placement) (tls : Tls) (body : RequestArray) :
    Prop where
  buffers : world.KeepsBuffers (handleClient placement .verified tls body)
  response : Exists fun response =>
    world.written placement tls body = some (interim placement tls ++ response) ∧ Complete response

/-- Nothing comes between the headers of a response and its end: a piped command is
started and its output is framed, the list of forwards fits its buffer, and the path of a
file that is sent can be quoted. -/
def World.Unhindered (world : World) : Outcome -> Prop
  | .execPipe query contentLength chunked tls =>
      match handleExecPipe query with
      | .refused _ _ => True
      | .runs _ _ raw => world.pipe.Unhindered (world.pipeCall contentLength chunked raw) tls.incoming
  | .request line _ _ _ =>
      match handleRequest line with
      | some .tcpforwardGet => (Forward.openListing world.table.forwards).length ≤ Forward.listBuf
      | some .download =>
          forall path, Download.quoted world.disk world.download line.query = some path ->
            Download.QuotesSafely path
      | _ => True
  | _ => True

/-! ## The server's own responses are complete -/

variable {world : World} {placement : Placement} {tls : Tls} {body : RequestArray} {headers : List UInt8}
  {line : RequestLine}

/-- What follows the length in the header of `send_http_response`. -/
def serverTrail : List UInt8 := ascii "\r\nConnection: close\r\n" ++ ascii "\r\n"

theorem plainTrail_server : PlainTrail serverTrail ∧ serverTrail.length ≤ responseTrail.length := by
  decide +kernel

/-- The header of `send_json_response` is a lead, the length and a trail. -/
theorem serverHeader_json (status length : Nat) :
    serverHeader status (statusText status) (ascii "application/json") length =
      jsonLead status ++ 32 :: (formatDec length ++ serverTrail) := by
  have name : ascii "Content-Length: " = ascii "Content-Length:" ++ [32] := by decide
  have close : ascii "\r\nConnection: close\r\n" = ascii "\r\n" ++ ascii "Connection: close\r\n" := by decide
  rw [serverHeader, jsonLead, serverTrail, name, close]
  simp only [List.append_assoc, List.cons_append, List.nil_append]

theorem complete_sendErrorJson {status : Nat} (used : status ∈ statuses) (beyond : Nat -> UInt8)
    (message : List UInt8) : Complete (sendErrorJson beyond status message) := by
  rcases jsonLead_statuses status used with ⟨isLead, short⟩
  have cut := List.length_take_le 1023 (ascii "\x7b\"error\":\"" ++ message ++ ascii "\"\x7d")
  rw [sendErrorJson, sendJsonResponse, serverHeader_json]
  exact complete_sent isLead plainTrail_server.1 (by have := plainTrail_server.2; omega) (by omega) beyond

/-! ## The ways through `handle_client` -/

/-- The query of a request line fits its array. -/
theorem length_query (parsed : parseRequestLine placement headers = some line) :
    line.query.length < queryCap := by
  unfold parseRequestLine at parsed
  dsimp only at parsed
  split at parsed
  · rw [← Option.some.inj parsed, Target.requestLine]
    dsimp only
    split
    · exact Nat.lt_of_lt_of_le (by decide : 0 < 1) (by decide)
    · refine Nat.lt_of_le_of_lt (List.length_take_le _ _) (by decide)
  · cases parsed

/-- A request whose header block is read is refused, or it reaches one of the handlers. -/
theorem handleClient_cases (read : requestHeaders tls = some headers) :
    handleClient placement .verified tls body = .error 400 (ascii "invalid request line") ∨
    (Exists fun query => Exists fun rest =>
      handleClient placement .verified tls body = .upload query (getContentLength headers) rest ∨
      handleClient placement .verified tls body = .update query (getContentLength headers) rest ∨
      handleClient placement .verified tls body =
        .execPipe query (getContentLength headers) (isChunked headers) rest) ∨
    (Exists fun line => Exists fun array => Exists fun length => Exists fun rest =>
      line.query.length < queryCap ∧
        handleClient placement .verified tls body = .request line array length rest) := by
  rcases Option.map_eq_some_iff.mp read with ⟨⟨buf, rest⟩, block, same⟩
  dsimp only at same
  subst same
  simp only [handleClient, block]
  cases parsed : parseRequestLine placement (cString buf) with
  | none => exact Or.inl rfl
  | some line =>
      dsimp only
      split
      · exact Or.inr (Or.inl ⟨_, _, Or.inl rfl⟩)
      · split
        · exact Or.inr (Or.inl ⟨_, _, Or.inr (Or.inl rfl)⟩)
        · split
          · exact Or.inr (Or.inl ⟨_, _, Or.inr (Or.inr rfl)⟩)
          · exact Or.inr (Or.inr ⟨line, _, _, _, length_query parsed, rfl⟩)

/-! ## One response -/

/-- What an outcome is answered with is complete, and the buffers kept their bounds. -/
def World.Answered (world : World) (outcome : Outcome) : Prop :=
  world.KeepsBuffers outcome ∧ Exists fun response => world.respond outcome = some response ∧ Complete response

/-- The response is what is written behind the `100 Continue`. -/
theorem answersOnce_iff : world.AnswersOnce placement tls body ↔
    world.Answered (handleClient placement .verified tls body) := by
  constructor
  · rintro ⟨buffers, response, written, complete⟩
    rcases Option.map_eq_some_iff.mp written with ⟨other, responded, same⟩
    rw [List.append_cancel_left same] at responded
    exact ⟨buffers, response, responded, complete⟩
  · rintro ⟨buffers, response, responded, complete⟩
    refine ⟨buffers, response, ?_, complete⟩
    rw [World.written, responded, Option.map_some]

/-- An upload that comes to its end is answered. -/
theorem answered_upload {query : List UInt8} {rest : Tls}
    (returns : world.Returns (.upload query (getContentLength headers) rest)) :
    world.Answered (.upload query (getContentLength headers) rest) := by
  rcases Option.isSome_iff_exists.mp (returns (getContentLength_isLong headers)) with ⟨response, handled⟩
  refine ⟨trivial, response, ?_, complete_handleUpload handled⟩
  rw [World.respond, dif_pos (getContentLength_isLong headers), handled]

/-- An update that comes to its end is answered. -/
theorem answered_update {query : List UInt8} {contentLength : Int} {rest : Tls}
    (returns : world.Returns (.update query contentLength rest)) :
    world.Answered (.update query contentLength rest) := by
  rcases Option.isSome_iff_exists.mp returns with ⟨response, handled⟩
  exact ⟨trivial, response, handled, complete_handleUpdate handled⟩

/-- A piped command is only refused for the lack of a command. -/
theorem status_of_refused {query : List UInt8} {status : Nat} {message : List UInt8}
    (refused : handleExecPipe query = .refused status message) : status ∈ statuses := by
  unfold handleExecPipe at refused
  dsimp only at refused
  split at refused
  · cases refused
    decide
  · cases refused

/-- A piped command that comes to its end is answered if and only if it was started and
its output is framed. -/
theorem answered_execPipe_iff {query : List UInt8} {contentLength : Int} {chunked : Bool} {rest : Tls}
    (returns : world.Returns (.execPipe query contentLength chunked rest)) :
    world.Answered (.execPipe query contentLength chunked rest) ↔
      world.Unhindered (.execPipe query contentLength chunked rest) := by
  rcases returns with ⟨ended, sends⟩
  simp only [World.Answered, World.KeepsBuffers, World.respond, World.Unhindered]
  cases answer : handleExecPipe query with
  | refused status message =>
      rw [answer] at ended
      have complete := complete_sendError (status_of_refused answer) world.printer.surroundings message
      exact iff_of_true ⟨trivial, _, rfl, complete⟩ trivial
  | runs command env raw =>
      rw [answer, PipeAnswer.reply, Option.isSome_map] at ended
      rcases Option.isSome_iff_exists.mp ended with ⟨sent, ran⟩
      have iff := execRunPipe_complete_iff sends ran
      have responded : PipeAnswer.reply world.printer contentLength chunked rest.incoming world.pipe
          (.runs command env raw) = some (pipeHeaders raw ++ sent) := by
        rw [PipeAnswer.reply, ran, Option.map_some]
      dsimp only
      rw [World.pipeCall, ← iff, responded]
      constructor
      · rintro ⟨keeps, response, same, complete⟩
        rw [← Option.some.inj same, complete_chunked_iff] at complete
        exact ⟨keeps, complete⟩
      · exact fun both => ⟨both.1, _, rfl, (complete_chunked_iff raw sent).mpr both.2⟩

/-- The list of forwards is answered if and only if it fits its buffer. -/
theorem answered_tcpforwardGet_iff :
    ((forall position, position ∈ Region.positions 0 (Forward.listPieces world.table.forwards) ->
        position ≤ Forward.listBuf) ∧
      Exists fun response => handleTcpforwardGet world.printer.beyond world.listBuf world.table.forwards =
        some response ∧ Complete response) ↔
      (Forward.openListing world.table.forwards).length ≤ Forward.listBuf := by
  rw [Region.positions_le_iff, Nat.zero_add]
  exact ⟨fun both => both.1, fun fits => ⟨fits, complete_handleTcpforwardGet _ _ fits⟩⟩

/-- A request that `handle_request` serves is answered if and only if the list of forwards
fits its buffer and the path of a file that is sent can be quoted. -/
theorem answered_request_iff {array : RequestArray} {length : Nat} {rest : Tls}
    (short : line.query.length < queryCap) :
    world.Answered (.request line array length rest) ↔ world.Unhindered (.request line array length rest) := by
  have always : forall {sent : List UInt8}, Complete sent ->
      ((True ∧ Exists fun response => some sent = some response ∧ Complete response) ↔ True) :=
    fun complete => iff_of_true ⟨trivial, _, rfl, complete⟩ trivial
  simp only [World.Answered, World.KeepsBuffers, World.respond, World.Unhindered]
  cases handleRequest line with
  | none => exact always (complete_sendErrorJson (by decide) _ _)
  | some handler =>
      cases handler with
      | health | certinfo | uptime => exact always (complete_sendObject _ _)
      | exec => exact always (complete_handleExec _ _ _)
      | execStream => exact always (complete_handleExecStream _ _ _ _)
      | tcpforwardPost => exact always (complete_handleTcpforwardPost _ _ _ _ _ _ _)
      | tcpforwardDelete => exact always (complete_handleTcpforwardDelete _ _ _)
      | tcpforwardGet => exact answered_tcpforwardGet_iff
      | download =>
          have iff := @Download.complete_handleDownload_iff world.printer.surroundings world.disk
            world.download _ short
          constructor
          · rintro ⟨_, response, same, complete⟩
            rw [← Option.some.inj same] at complete
            exact iff.mp complete
          · exact fun safe => ⟨trivial, _, rfl, iff.mpr safe⟩

/-- A request whose header block is read, and whose handler comes to its end with all
that it sends taken by TLS, gets exactly one complete response if and only if nothing
comes between the headers of the response and its end. -/
theorem one_response_iff (read : requestHeaders tls = some headers)
    (returns : world.Returns (handleClient placement .verified tls body)) :
    world.AnswersOnce placement tls body ↔ world.Unhindered (handleClient placement .verified tls body) := by
  rw [answersOnce_iff]
  rcases @handleClient_cases placement tls body headers read with
    refused | ⟨query, rest, upload | update | execPipe⟩ | ⟨line, array, length, rest, short, request⟩
  · rw [refused]
    exact iff_of_true ⟨trivial, _, rfl, complete_sendErrorJson (by decide) _ _⟩ trivial
  · rw [upload] at returns ⊢
    exact iff_of_true (answered_upload returns) trivial
  · rw [update] at returns ⊢
    exact iff_of_true (answered_update returns) trivial
  · rw [execPipe] at returns ⊢
    exact answered_execPipe_iff returns
  · rw [request]
    exact answered_request_iff short

/-- Members printed without blanks, for texts that need no escapes. -/
def unformatted : Printer where
  beyond := fun _ => 0
  print := fun members =>
    (ascii "\x7b" ++ ((members.map (fun (name, item) =>
        ascii "\"" ++ name ++ ascii "\":" ++
          match item with
          | .string text => ascii "\"" ++ text ++ ascii "\""
          | .number value => formatDec value)).intersperse (ascii ",")).flatten ++ ascii "\x7d").take 65536
  inMemory := fun members => by
    rw [List.length_take]
    omega

/-- A server without forwards on which nothing happens but a call of `exec_run_pipe`. -/
def idleWorld (pipe : PipeRun) : World where
  printer := unformatted
  sinceStart := 5
  certificates := ⟨none, none, none⟩
  parse := fun _ => .invalid
  execRun := fun _ => none
  execRunStream := fun _ => none
  pipe := pipe
  disk := Upload.emptyDisk
  upload := []
  updateServer := ⟨ascii "/d/bridge", 1, fun _ => [], by decide⟩
  update := []
  download := ⟨false, false, false, 0⟩
  table := .initial
  listBuf := ⟨List.replicate Forward.listBuf 0, List.length_replicate⟩
  forwardItems := fun _ => none
  released := .intact
  inetPton := Forward.dottedQuad
  add := Forward.succeeding

/-- A request for the health of the server. -/
def healthRequest : Tls := ⟨ascii "GET /api/health HTTP/1.1\r\n\r\n", List.replicate 28 65536⟩

/-- A request for a piped command, without a body. -/
def pipeRequest : Tls := ⟨ascii "POST /api/exec/pipe?command=ls HTTP/1.1\r\n\r\n", List.replicate 43 65536⟩

/-- The pipes of a command cannot be created. -/
def noPipes : PipeRun := ⟨false, false, []⟩

theorem one_response_iff_health : (idleWorld noPipes).AnswersOnce below healthRequest emptyArray := by
  have reached : handleClient below .verified healthRequest emptyArray =
      .request ⟨ascii "GET", ascii "/api/health", []⟩ emptyArray 0 ⟨[], []⟩ := rfl
  have read : requestHeaders healthRequest = some (ascii "GET /api/health HTTP/1.1\r\n\r\n") := by decide
  have served : handleRequest ⟨ascii "GET", ascii "/api/health", []⟩ = some .health := by decide
  refine (one_response_iff read ?_).mpr ?_
  · rw [reached]
    trivial
  · rw [reached, World.Unhindered]
    simp only [served]

/-- The headers of a piped command that could not be started are all that is sent. -/
theorem headers_without_end :
    requestHeaders pipeRequest = some (ascii "POST /api/exec/pipe?command=ls HTTP/1.1\r\n\r\n") ∧
      (idleWorld noPipes).Returns (handleClient below .verified pipeRequest emptyArray) ∧
      (idleWorld noPipes).written below pipeRequest emptyArray = some (pipeHeaders false) ∧
      ¬ (idleWorld noPipes).AnswersOnce below pipeRequest emptyArray := by
  have reached : handleClient below .verified pipeRequest emptyArray =
      .execPipe (ascii "command=ls") (-1) false ⟨[], []⟩ := rfl
  have runs : handleExecPipe (ascii "command=ls") = .runs (ascii "ls") [] false := by decide
  have sent : (idleWorld noPipes).respond (.execPipe (ascii "command=ls") (-1) false ⟨[], []⟩) =
      some (pipeHeaders false) := by
    simp only [World.respond, runs]
    decide
  have nothing : interim below pipeRequest = [] := by decide
  refine ⟨by decide, ?_, ?_, fun answers => ?_⟩
  · rw [reached]
    exact ⟨(congrArg Option.isSome sent).trans rfl, fun _ member => absurd member List.not_mem_nil⟩
  · rw [World.written, reached, sent, nothing]
    rfl
  · rcases answersOnce_iff.mp answers with ⟨_, response, responded, complete⟩
    rw [reached, sent] at responded
    rw [← Option.some.inj responded, ← List.append_nil (pipeHeaders false), complete_chunked_iff] at complete
    exact absurd complete (by decide)

end Server
end AdbBridge
