import AdbBridge.Library.ResponseFraming

namespace AdbBridge
namespace Handler

open Library Library.Numeral Library.Search Library.ResponseFraming

/-!
# The responses of the handlers

Every response that is not streamed is a header with the length of the body, and the
body.  The header is formatted into an array of 4096 bytes, but as many bytes are sent
as it would have without being cut.
-/

/-- The bytes `SSL_write` takes from an array of `size` bytes into which `snprintf`
printed a text, if it is asked for as many as the text has. -/
def sentFrom (size : Nat) (beyond : Nat -> UInt8) (text : List UInt8) : List UInt8 :=
  if text.length < size then text
  else text.take (size - 1) ++ 0 :: (List.range (text.length - size)).map beyond

/-- The sizes of `buf` in `send_http_response` and of `hdr` in `handle_download`. -/
def headerBufSize : Nat := 4096

/-- The words of `send_json` for a status. -/
def statusText (status : Nat) : List UInt8 :=
  if status = 200 then ascii "OK"
  else if status = 400 then ascii "Bad Request"
  else if status = 404 then ascii "Not Found"
  else ascii "Internal Server Error"

/-- The header of `send_http_response`. -/
def responseHeader (status : Nat) (statusText contentType : List UInt8) (bodyLen : Nat) : List UInt8 :=
  ascii "HTTP/1.1 " ++ formatDec status ++ ascii " " ++ statusText ++ ascii "\r\n" ++
    ascii "Content-Type: " ++ contentType ++ ascii "\r\n" ++
    ascii "Content-Length: " ++ formatDec bodyLen ++ ascii "\r\n" ++
    ascii "Connection: close\r\n" ++
    ascii "Access-Control-Allow-Origin: *\r\n" ++
    ascii "\r\n"

def sendJson (beyond : Nat -> UInt8) (status : Nat) (body : List UInt8) : List UInt8 :=
  sentFrom headerBufSize beyond
    (responseHeader status (statusText status) (ascii "application/json") body.length) ++ body

/-- What the handlers use besides the system: the memory behind the array of a header,
and the text cJSON prints for an object with the one member `error`, which is a string
in memory. -/
structure Surroundings where
  beyond : Nat -> UInt8
  printError : List UInt8 -> List UInt8
  inMemory : forall message, (printError message).length < 18446744073709551616

def sendError (around : Surroundings) (status : Nat) (message : List UInt8) : List UInt8 :=
  sendJson around.beyond status (around.printError message)

/-- A text that fits the array with its terminator is sent as it is. -/
theorem sentFrom_of_fits {size : Nat} (beyond : Nat -> UInt8) {text : List UInt8} (fits : text.length < size) :
    sentFrom size beyond text = text := if_pos fits

/-- As many bytes are sent as the text has. -/
theorem length_sentFrom {size : Nat} (positive : 0 < size) (beyond : Nat -> UInt8) (text : List UInt8) :
    (sentFrom size beyond text).length = text.length := by
  unfold sentFrom
  split_ifs with fits
  · rfl
  · rw [List.length_append, List.length_cons, List.length_map, List.length_range, List.length_take]
    omega

/-! ## Objects that cJSON prints -/

/-- The value of a member of the objects that the handlers print. -/
inductive Item where
  | string (text : List UInt8)
  | number (value : Int)
deriving DecidableEq, Repr

/-- The memory behind the array of a header, and the text cJSON prints for an object
with given members, which is a string in memory. -/
structure Printer where
  beyond : Nat -> UInt8
  print : List (List UInt8 × Item) -> List UInt8
  inMemory : forall members, (print members).length < 18446744073709551616

/-- What `send_error` uses of it. -/
def Printer.surroundings (printer : Printer) : Surroundings where
  beyond := printer.beyond
  printError := fun message => printer.print [(ascii "error", .string message)]
  inMemory := fun _ => printer.inMemory _

/-- The response of a handler that prints an object. -/
def sendObject (printer : Printer) (members : List (List UInt8 × Item)) : List UInt8 :=
  sendJson printer.beyond 200 (printer.print members)

/-! ## Responses with a length are complete -/

/-- What follows the length in the header of `send_http_response`. -/
def responseTrail : List UInt8 :=
  ascii "\r\nConnection: close\r\n" ++ ascii "Access-Control-Allow-Origin: *\r\n" ++ ascii "\r\n"

/-- What precedes the length in the header of `send_json`. -/
def jsonLead (status : Nat) : List UInt8 :=
  ascii "HTTP/1.1 " ++ formatDec status ++ ascii " " ++ statusText status ++ ascii "\r\n" ++
    ascii "Content-Type: " ++ ascii "application/json" ++ ascii "\r\n" ++ ascii "Content-Length:"

/-- The end of a header with nothing in it that could announce another length. -/
structure PlainTrail (trail : List UInt8) : Prop where
  starts : trail.head? = some 13
  ends : afterFirst emptyLine trail = some []
  unframed : Unframed (beforeFirst emptyLine trail)

instance (trail : List UInt8) : Decidable (PlainTrail trail) :=
  decidable_of_iff (trail.head? = some 13 ∧ afterFirst emptyLine trail = some [] ∧
      Unframed (beforeFirst emptyLine trail))
    ⟨fun all => ⟨all.1, all.2.1, all.2.2⟩, fun all => ⟨all.starts, all.ends, all.unframed⟩⟩

variable {lead trail body : List UInt8} {status : Nat}

/-- A header that fits its array is sent as it is. -/
theorem sent_eq (short : lead.length + trail.length ≤ 4000) (inMemory : body.length < 18446744073709551616)
    (beyond : Nat -> UInt8) :
    sentFrom headerBufSize beyond (lead ++ 32 :: (formatDec body.length ++ trail)) ++ body =
      lead ++ 32 :: (formatDec body.length ++ (trail ++ body)) := by
  have digits : (formatDec (body.length : Int)).length ≤ 19 + 1 := length_formatDec_le (by omega)
  have size : headerBufSize = 4096 := rfl
  have fits : (lead ++ 32 :: (formatDec body.length ++ trail)).length < headerBufSize := by
    rw [List.length_append, List.length_cons, List.length_append]
    omega
  rw [sentFrom_of_fits beyond fits, List.append_assoc, List.cons_append, List.append_assoc]

/-- A header that fits its array announces the length of the body behind it. -/
theorem complete_sent (isLead : LengthLead lead) (plain : PlainTrail trail)
    (short : lead.length + trail.length ≤ 4000) (inMemory : body.length < 18446744073709551616)
    (beyond : Nat -> UInt8) :
    Complete (sentFrom headerBufSize beyond (lead ++ 32 :: (formatDec body.length ++ trail)) ++ body) := by
  have starts : (trail ++ body).head? = some 13 := by
    rw [List.head?_append, plain.starts]
    rfl
  have ends : afterFirst emptyLine (trail ++ body) = some body := afterFirst_append plain.ends body
  rw [sent_eq short inMemory, complete_length_iff isLead body.length starts ends, beforeFirst_append plain.ends]
  exact ⟨plain.unframed, rfl⟩

/-- The header of `send_json` is a lead, the length and a trail. -/
theorem responseHeader_json (status length : Nat) :
    responseHeader status (statusText status) (ascii "application/json") length =
      jsonLead status ++ 32 :: (formatDec length ++ responseTrail) := by
  have name : ascii "Content-Length: " = ascii "Content-Length:" ++ [32] := by decide
  have close : ascii "\r\nConnection: close\r\n" = ascii "\r\n" ++ ascii "Connection: close\r\n" := by decide
  rw [responseHeader, jsonLead, responseTrail, name, close]
  simp only [List.append_assoc, List.cons_append, List.nil_append]

theorem plainTrail_response : PlainTrail responseTrail := by decide +kernel

/-- The statuses the handlers use. -/
def statuses : List Nat := [200, 400, 404, 413, 500]

theorem jsonLead_statuses : forall status, status ∈ statuses ->
    LengthLead (jsonLead status) ∧ (jsonLead status).length + responseTrail.length ≤ 4000 := by
  decide +kernel

/-- What `send_json` sends is complete. -/
theorem complete_sendJson (used : status ∈ statuses) (inMemory : body.length < 18446744073709551616)
    (beyond : Nat -> UInt8) : Complete (sendJson beyond status body) := by
  rcases jsonLead_statuses status used with ⟨isLead, short⟩
  rw [sendJson, responseHeader_json]
  exact complete_sent isLead plainTrail_response short inMemory beyond

/-- The body of what `send_json` sends. -/
theorem afterFirst_sendJson (used : status ∈ statuses) (inMemory : body.length < 18446744073709551616)
    (beyond : Nat -> UInt8) : afterFirst emptyLine (sendJson beyond status body) = some body := by
  rcases jsonLead_statuses status used with ⟨isLead, short⟩
  rw [sendJson, responseHeader_json, sent_eq short inMemory]
  exact afterFirst_length isLead body.length (afterFirst_append plainTrail_response.ends body)

theorem complete_sendError (used : status ∈ statuses) (around : Surroundings) (message : List UInt8) :
    Complete (sendError around status message) :=
  complete_sendJson used (around.inMemory message) around.beyond

theorem complete_sendObject (printer : Printer) (members : List (List UInt8 × Item)) :
    Complete (sendObject printer members) :=
  complete_sendJson (by decide) (printer.inMemory members) printer.beyond

end Handler
end AdbBridge
