import AdbBridge.Executor.Capture
import AdbBridge.Forward.Creation
import AdbBridge.Handler.Response
import AdbBridge.Handler.Update
import AdbBridge.Handler.Upload

namespace AdbBridge
namespace Handler

open Library Library.Numeral Library.Files Library.ResponseFraming Executor

/-!
# Handlers that answer with one text

Most handlers end with a single call of `send_json` or `send_error`, on every path.
What they send is complete whatever the system answered them.
-/

/-! ## The server itself -/

/-- `handle_health`, with the seconds since the start of the server. -/
def handleHealth (printer : Printer) (sinceStart : Int) : List UInt8 :=
  sendObject printer
    [(ascii "status", .string (ascii "ok")), (ascii "version", .string (ascii "0.1.0")),
      (ascii "uptime_seconds", .number (max sinceStart 0))]

/-- The conversion of a wide integer to `int`. -/
def toInt (value : Int) : Int := value.bmod 4294967296

/-- The text `human` of `handle_uptime`. -/
def uptimeHuman (uptime : Int) : List UInt8 :=
  let d := toInt (uptime / 86400)
  let h := toInt (uptime % 86400 / 3600)
  let m := toInt (uptime % 3600 / 60)
  let s := toInt (uptime % 60)
  (if 0 < d then
      formatDec d ++ ascii "d " ++ formatDec h ++ ascii "h " ++ formatDec m ++ ascii "m " ++
        formatDec s ++ ascii "s"
    else if 0 < h then formatDec h ++ ascii "h " ++ formatDec m ++ ascii "m " ++ formatDec s ++ ascii "s"
    else if 0 < m then formatDec m ++ ascii "m " ++ formatDec s ++ ascii "s"
    else formatDec s ++ ascii "s").take 63

def handleUptime (printer : Printer) (sinceStart : Int) : List UInt8 :=
  sendObject printer
    [(ascii "uptime_seconds", .number (max sinceStart 0)),
      (ascii "uptime_human", .string (uptimeHuman (max sinceStart 0)))]

/-- The texts of the two certificates and the fingerprint of the second; each is
missing if the certificate is, or if there was no memory for it. -/
structure Certificates where
  caPem : Option (List UInt8)
  serverPem : Option (List UInt8)
  fingerprint : Option (List UInt8)

def handleCertinfo (printer : Printer) (certificates : Certificates) : List UInt8 :=
  sendObject printer
    [(ascii "ca_pem", .string (certificates.caPem.getD [])),
      (ascii "server_pem", .string (certificates.serverPem.getD [])),
      (ascii "fingerprint", .string (certificates.fingerprint.getD []))]

/-! ## Commands -/

/-- What `cJSON_Parse` and the look-up of the item `command` yield for a body. -/
inductive CommandItem where
  | invalid
  | missing
  | command (text : List UInt8)
deriving DecidableEq, Repr

/-- `handle_exec`.  `execRun` is the state in which `exec_run` returns from a command,
or `none` if it returns -1. -/
def handleExec (printer : Printer) (parse : List UInt8 -> CommandItem)
    (execRun : List UInt8 -> Option Capture.State) (body : List UInt8) : List UInt8 :=
  match parse body with
  | .invalid => sendError printer.surroundings 400 (ascii "invalid JSON")
  | .missing => sendError printer.surroundings 400 (ascii "missing 'command' field")
  | .command text =>
      match execRun text with
      | none => sendError printer.surroundings 500 (ascii "execution failed")
      | some result =>
          sendObject printer
            [(ascii "stdout", .string (cString result.stdoutData)),
              (ascii "stderr", .string (cString result.stderrData)),
              (ascii "exit_code", .number result.exitCode)]

/-! ## Uploads -/

/-- The response of an upload. -/
def Upload.Answer.reply (printer : Printer) : Upload.Answer -> List UInt8
  | .stored bytesWritten => sendObject printer [(ascii "bytes_written", .number bytesWritten)]
  | answer => sendError printer.surroundings answer.status answer.message

/-- `handle_upload`: what it sends, if the events lead to its end. -/
def handleUpload (printer : Printer) (request : Upload.Request) (disk : Disk (List UInt8))
    (events : List Upload.Event) : Option (List UInt8) :=
  (Machine.exec (Upload.step request) (Upload.initial request disk) events).bind (fun state =>
    match state.pc with
    | .answered answer => some (answer.reply printer)
    | _ => none)

/-! ## Updates -/

namespace Update

/-- The responses of `handle_update`: an error, or the announcement of the restart with
the checksum computed. -/
inductive Answer where
  | refused (error : UpdateError)
  | restarting (computedSha : List UInt8)
deriving DecidableEq, Repr

/-- The answer a thread comes to, each of its steps being taken on the disk as it is
then.  The response to a successful `rename` is sent before `execv`. -/
def answer (server : Server) (request : Request) : Pc -> List (Disk (List UInt8) × Action) -> Option Answer
  | .returned error, _ => some (.refused error)
  | _, [] => none
  | .replacing binaryPath received lost, (disk, action) :: rest =>
      if action = .rename none then some (.restarting (hexText (server.sha256 received)))
      else ((Pc.replacing binaryPath received lost).next server request disk action).bind (fun moved =>
        answer server request moved.1 rest)
  | pc, (disk, action) :: rest =>
      (pc.next server request disk action).bind (fun moved => answer server request moved.1 rest)

/-- The response of an update. -/
def Answer.reply (printer : Printer) : Answer -> List UInt8
  | .refused error => sendError printer.surroundings error.status error.message
  | .restarting computedSha =>
      sendObject printer
        [(ascii "status", .string (ascii "ok")), (ascii "message", .string (ascii "restarting")),
          (ascii "sha256", .string computedSha)]

end Update

/-- `handle_update`: what it sends, if the steps lead so far. -/
def handleUpdate (printer : Printer) (server : Update.Server) (request : Update.Request)
    (steps : List (Disk (List UInt8) × Update.Action)) : Option (List UInt8) :=
  (Update.answer server request request.entry steps).map (Update.Answer.reply printer)

/-! ## Forwards -/

/-- The response of a handler of forwards. -/
def replyWith (beyond : Nat -> UInt8) (response : Forward.Response) : List UInt8 :=
  sendJson beyond response.status response.body

/-- `handle_tcpforward_get`: what it sends, if no byte was stored outside of the array. -/
def handleTcpforwardGet (beyond : Nat -> UInt8) (buf : Region Forward.listBuf)
    (forwards : List Forward.Tcpforward) : Option (List UInt8) :=
  (Forward.forwardListJson buf forwards).map (fun (after, _) => sendJson beyond 200 (cString after.bytes))

def atoi (text : List UInt8) : Int := toInt (strtol 10 text)

/-- `handle_tcpforward_delete`: the table afterwards, and the response. -/
def handleTcpforwardDelete (table : Forward.ForwardTable) (query : List UInt8) :
    Forward.ForwardTable × Forward.Response :=
  if (ascii "id=").isPrefixOf query then
    let id := atoi (query.drop 3)
    if id ≤ 0 then (table, ⟨400, ascii "\x7b\"error\":\"invalid id\"\x7d"⟩)
    else
      let removed := Forward.forwardRemove table id
      if removed.2 < 0 then (removed.1, ⟨404, ascii "\x7b\"error\":\"forward not found\"\x7d"⟩)
      else (removed.1, ⟨200, ascii "\x7b\"status\":\"ok\"\x7d"⟩)
  else (table, ⟨400, ascii "\x7b\"error\":\"missing 'id' query parameter\"\x7d"⟩)

/-! ## They are complete -/

variable {printer : Printer} {response : List UInt8}

theorem complete_handleExec (parse : List UInt8 -> CommandItem) (execRun : List UInt8 -> Option Capture.State)
    (body : List UInt8) : Complete (handleExec printer parse execRun body) := by
  rw [handleExec]
  split
  · exact complete_sendError (by decide) _ _
  · exact complete_sendError (by decide) _ _
  · split
    · exact complete_sendError (by decide) _ _
    · exact complete_sendObject _ _

/-- Every answer of an upload has a status of the server. -/
theorem Upload.Answer.status_mem (answer : Upload.Answer) : answer.status ∈ statuses := by
  cases answer <;> simp [Upload.Answer.status, statuses]

theorem complete_uploadReply (answer : Upload.Answer) : Complete (answer.reply printer) := by
  cases answer with
  | stored => exact complete_sendObject _ _
  | missingPath | cannotOpen => exact complete_sendError (Upload.Answer.status_mem _) _ _

theorem complete_handleUpload {request : Upload.Request} {disk : Disk (List UInt8)} {events : List Upload.Event}
    (handled : handleUpload printer request disk events = some response) : Complete response := by
  rcases Option.bind_eq_some_iff.mp handled with ⟨state, _, answered⟩
  split at answered
  next answer _ =>
    rw [← Option.some.inj answered]
    exact complete_uploadReply answer
  · cases answered

/-- Every error of an update has a status of the server. -/
theorem Update.UpdateError.status_mem (error : Update.UpdateError) : error.status ∈ statuses := by
  cases error <;> simp [Update.UpdateError.status, statuses]

theorem complete_updateReply (answer : Update.Answer) : Complete (answer.reply printer) := by
  cases answer with
  | restarting => exact complete_sendObject _ _
  | refused error => exact complete_sendError error.status_mem _ _

theorem complete_handleUpdate {server : Update.Server} {request : Update.Request}
    {steps : List (Disk (List UInt8) × Update.Action)}
    (handled : handleUpdate printer server request steps = some response) : Complete response := by
  rcases Option.map_eq_some_iff.mp handled with ⟨answer, _, same⟩
  rw [← same]
  exact complete_updateReply answer

/-- A response of the forwards with a status of the server and a short body. -/
theorem complete_replyWith (beyond : Nat -> UInt8) (table : Forward.ForwardTable) {status : Nat}
    {text : List UInt8} (used : status ∈ statuses) (short : text.length ≤ 511) :
    Complete (replyWith beyond (Prod.snd (table, Forward.Response.mk status text))) := by
  have inMemory : text.length < 18446744073709551616 := by omega
  exact complete_sendJson used inMemory beyond

theorem complete_handleTcpforwardPost (beyond : Nat -> UInt8)
    (cjson : List UInt8 -> Option Forward.ForwardRequest) (released : Forward.Released)
    (inetPton : Forward.InetPton) (table : Forward.ForwardTable) (body : List UInt8)
    (outcomes : Forward.AddOutcomes) :
    Complete (replyWith beyond
      (Forward.handleTcpforwardPost cjson released inetPton table body outcomes).2) := by
  have cut : forall (limit : Nat) (text : List UInt8), limit ≤ 511 -> (text.take limit).length ≤ 511 := by
    intro limit text small
    rw [List.length_take]
    omega
  unfold Forward.handleTcpforwardPost
  split
  · exact complete_replyWith beyond table (by decide) (by decide)
  · split
    · exact complete_replyWith beyond table (by decide) (by decide)
    · split
      · exact complete_replyWith beyond table (by decide) (by decide)
      · dsimp only
        split
        · exact complete_replyWith beyond _ (by decide) (cut 255 _ (by decide))
        · exact complete_replyWith beyond _ (by decide) (cut 511 _ (by decide))

theorem complete_handleTcpforwardDelete (beyond : Nat -> UInt8) (table : Forward.ForwardTable)
    (query : List UInt8) : Complete (replyWith beyond (handleTcpforwardDelete table query).2) := by
  unfold handleTcpforwardDelete
  dsimp only
  split_ifs <;> exact complete_replyWith beyond _ (by decide) (by decide)

/-- A list of forwards that keeps to its array is sent whole. -/
theorem complete_handleTcpforwardGet (beyond : Nat -> UInt8) (buf : Region Forward.listBuf)
    {forwards : List Forward.Tcpforward} (fits : (Forward.openListing forwards).length ≤ Forward.listBuf) :
    Exists fun response => handleTcpforwardGet beyond buf forwards = some response ∧ Complete response := by
  have size : Forward.listBuf = 8192 := rfl
  have small : 0 < Forward.listBuf ∧ Forward.listBuf < 2 ^ 64 := by
    rw [size]
    omega
  rcases Forward.forwardListJson_inside buf small fits with ⟨after, pos, listed, _⟩
  refine ⟨sendJson beyond 200 (cString after.bytes), ?_, complete_sendJson (by decide) ?_ beyond⟩
  · rw [handleTcpforwardGet, listed]
    rfl
  · have whole := after.length_eq
    have shorter : (cString after.bytes).length ≤ after.bytes.length := (List.takeWhile_sublist _).length_le
    omega

end Handler
end AdbBridge
