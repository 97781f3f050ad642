import AdbBridge.Server.RequestLine

namespace AdbBridge
namespace Server

open Library Library.Numeral

/-!
# Serving one connection

`handle_client` reads the header block byte by byte, parses it, serves the three
streaming endpoints at once and for every other request reads the body into the
local array `body` before it calls `handle_request`.  The handlers get the array
as a C string and ignore the length.

The client is the tape of the bytes it sends together with the tape of the
answers of `SSL_read`: how many bytes each call may return.  An answer of zero, a
client that has nothing left, or no answer at all is a failing call.
-/

def requestBuf : Nat := 65536

/-- The reading side of a TLS connection. -/
structure Tls where
  incoming : List UInt8
  answers : List Nat
deriving DecidableEq, Repr

/-- One `SSL_read` of at most `cap` bytes: the bytes, and those still to come. -/
def sslRead (answer cap : Nat) (incoming : List UInt8) : Option (List UInt8 × List UInt8) :=
  let count := min answer (min cap incoming.length)
  if count = 0 then none else some (incoming.take count, incoming.drop count)

/-- `read_until_crnlcrnl` with the bytes read so far. -/
def readUntilCrnlcrnl : List Nat -> List UInt8 -> List UInt8 -> Option (List UInt8 × Tls)
  | [], _, _ => none
  | answer :: answers, incoming, buf =>
      if buf.length < requestBuf - 1 then
        match sslRead answer 1 incoming with
        | none => none
        | some (bytes, rest) =>
            if (ascii "\r\n\r\n").isSuffixOf (buf ++ bytes) then some (buf ++ bytes, ⟨rest, answers⟩)
            else readUntilCrnlcrnl answers rest (buf ++ bytes)
      else none

/-- The loop of `read_body`: the bytes received until `want` of them are there
or a read fails. -/
def receive : List Nat -> List UInt8 -> Nat -> List UInt8 × Tls
  | answers, incoming, 0 => ([], ⟨incoming, answers⟩)
  | [], incoming, _ + 1 => ([], ⟨incoming, []⟩)
  | answer :: answers, incoming, want + 1 =>
      match sslRead answer (want + 1) incoming with
      | none => ([], ⟨incoming, answers⟩)
      | some (bytes, rest) =>
          let later := receive answers rest (want + 1 - bytes.length)
          (bytes ++ later.1, later.2)

/-- The contents of an array of `REQUEST_BUF` bytes. -/
structure RequestArray where
  bytes : List UInt8
  length_eq : bytes.length = requestBuf

/-- The array after bytes and a terminator were stored at its start. -/
def RequestArray.store (array : RequestArray) (text : List UInt8) : RequestArray where
  bytes := (text ++ 0 :: array.bytes.drop (text.length + 1)).take requestBuf
  length_eq := by
    have whole := array.length_eq
    simp only [List.length_take, List.length_append, List.length_cons, List.length_drop]
    omega

/-- `read_body`: the array, the length and the connection afterwards.  Without a
positive length it returns before it touches the array. -/
def readBody (tls : Tls) (contentLength : Int) (body : RequestArray) : RequestArray × Nat × Tls :=
  if contentLength ≤ 0 then (body, 0, tls)
  else
    let limit := if (requestBuf : Int) ≤ contentLength then requestBuf - 1 else contentLength.toNat
    let received := receive tls.answers tls.incoming limit
    (body.store received.1, received.1.length, received.2)

/-! ## The dispatcher -/

/-- The outcome of the TLS handshake. -/
inductive Handshake where
  | failed
  | unverified
  | verified
deriving DecidableEq, Repr

/-- What `handle_client` does with a connection.  The last five carry the
arguments the handlers get. -/
inductive Outcome where
  | closed
  | error (status : Nat) (message : List UInt8)
  | upload (query : List UInt8) (contentLength : Int) (tls : Tls)
  | update (query : List UInt8) (contentLength : Int) (tls : Tls)
  | execPipe (query : List UInt8) (contentLength : Int) (chunked : Bool) (tls : Tls)
  | request (line : RequestLine) (body : RequestArray) (bodyLen : Nat) (tls : Tls)

/-- `handle_client`, with the contents `body` that its local array has when the
function is entered. -/
def handleClient (placement : Placement) (handshake : Handshake) (tls : Tls) (body : RequestArray) :
    Outcome :=
  match handshake with
  | .failed => .closed
  | .unverified => .error 403 (ascii "client certificate verification failed")
  | .verified =>
      match readUntilCrnlcrnl tls.answers tls.incoming [] with
      | none => .closed
      | some (buf, tls) =>
          let headers := cString buf
          match parseRequestLine placement headers with
          | none => .error 400 (ascii "invalid request line")
          | some line =>
              let contentLength := getContentLength headers
              if line.path = ascii "/api/upload" ∧ line.method = ascii "POST" then
                .upload line.query contentLength tls
              else if line.path = ascii "/api/update" ∧ line.method = ascii "POST" then
                .update line.query contentLength tls
              else if line.path = ascii "/api/exec/pipe" ∧ line.method = ascii "POST" then
                .execPipe line.query contentLength (isChunked headers) tls
              else
                let read := readBody tls contentLength body
                .request line read.1 read.2.1 read.2.2

/-- The handler `handle_request` calls. -/
inductive Handler where
  | health
  | certinfo
  | uptime
  | exec
  | execStream
  | download
  | tcpforwardGet
  | tcpforwardPost
  | tcpforwardDelete
deriving DecidableEq, Repr

/-- The dispatch of `handle_request`; `none` is the result 0. -/
def handleRequest (line : RequestLine) : Option Handler :=
  if line.path = ascii "/api/health" ∧ line.method = ascii "GET" then some .health
  else if line.path = ascii "/api/certinfo" ∧ line.method = ascii "GET" then some .certinfo
  else if line.path = ascii "/api/uptime" ∧ line.method = ascii "GET" then some .uptime
  else if line.path = ascii "/api/exec" ∧ line.method = ascii "POST" then some .exec
  else if line.path = ascii "/api/exec/stream" ∧ line.method = ascii "POST" then some .execStream
  else if line.path = ascii "/api/upload" ∧ line.method = ascii "POST" then none
  else if line.path = ascii "/api/download" ∧ line.method = ascii "GET" then some .download
  else if line.path = ascii "/api/tcpforward" ∧ line.method = ascii "GET" then some .tcpforwardGet
  else if line.path = ascii "/api/tcpforward" ∧ line.method = ascii "POST" then some .tcpforwardPost
  else if line.path = ascii "/api/tcpforward" ∧ line.method = ascii "DELETE" then some .tcpforwardDelete
  else none

/-- The handlers that pass the body to `cJSON_Parse`. -/
def Handler.parsesBody : Handler -> Bool
  | .exec | .execStream | .tcpforwardPost => true
  | _ => false

/-- The handlers that run a command taken from the body. -/
def Handler.runsCommand : Handler -> Bool
  | .exec | .execStream => true
  | _ => false

/-- The string a request passes to `cJSON_Parse`, if it passes any. -/
def parsedString (line : RequestLine) (body : RequestArray) : Option (List UInt8) :=
  match handleRequest line with
  | some handler => if handler.parsesBody then some (cString body.bytes) else none
  | none => none

/-- The command a request executes; `command` is what `cJSON_Parse` and the look-up
of the field `command` yield for a string. -/
def executedCommand (command : List UInt8 -> Option (List UInt8)) (line : RequestLine)
    (body : RequestArray) : Option (List UInt8) :=
  match handleRequest line with
  | some handler => if handler.runsCommand then command (cString body.bytes) else none
  | none => none

/-! ## The body array -/

theorem length_sslRead_le {answer cap : Nat} {incoming bytes rest : List UInt8}
    (read : sslRead answer cap incoming = some (bytes, rest)) : bytes.length ≤ cap := by
  unfold sslRead at read
  dsimp only at read
  split at read
  · exact absurd read nofun
  · have parts := Prod.mk.inj (Option.some.inj read)
    rw [← parts.1, List.length_take]
    omega

theorem length_receive_le (answers : List Nat) (incoming : List UInt8) (want : Nat) :
    (receive answers incoming want).1.length ≤ want := by
  induction answers generalizing incoming want with
  | nil => cases want <;> exact Nat.zero_le _
  | cons answer answers inductionHypothesis =>
      cases want with
      | zero => exact Nat.zero_le _
      | succ want =>
          rw [receive]
          split
          · exact Nat.zero_le _
          next bytes rest read =>
            have first := length_sslRead_le read
            have later := inductionHypothesis rest (want + 1 - bytes.length)
            dsimp only
            rw [List.length_append]
            omega

/-- Whatever the array held, its C string after a store is the C string of the
stored bytes. -/
theorem cString_store {text : List UInt8} (fits : text.length < requestBuf) (first second : RequestArray) :
    cString (first.store text).bytes = cString (second.store text).bytes := by
  have only : forall array : RequestArray, cString (array.store text).bytes = cString (text ++ [0]) := by
    intro array
    have split : (array.store text).bytes =
        (text ++ [0]) ++ ((array.bytes.drop (text.length + 1)).take (requestBuf - (text.length + 1))) := by
      simp only [RequestArray.store]
      rw [show text ++ 0 :: array.bytes.drop (text.length + 1) =
        (text ++ [0]) ++ array.bytes.drop (text.length + 1) by simp]
      rw [List.take_append, List.take_of_length_le (by rw [List.length_append]; simp; omega),
        List.length_append, List.length_singleton]
    rw [split]
    exact cString_append_of_zero (by simp)
  rw [only first, only second]

/-- With a positive length the string in the array is the one received. -/
theorem cString_readBody {tls : Tls} {contentLength : Int} (positive : 0 < contentLength)
    (first second : RequestArray) :
    cString (readBody tls contentLength first).1.bytes =
      cString (readBody tls contentLength second).1.bytes := by
  rw [readBody, readBody, if_neg (Int.not_le.mpr positive), if_neg (Int.not_le.mpr positive)]
  apply cString_store
  refine Nat.lt_of_le_of_lt (length_receive_le _ _ _) ?_
  have size : requestBuf = 65536 := rfl
  split <;> omega

/-- Without a positive length the array keeps what it held. -/
theorem readBody_of_not_positive {tls : Tls} {contentLength : Int} (absent : ¬ 0 < contentLength)
    (body : RequestArray) : (readBody tls contentLength body).1 = body := by
  rw [readBody, if_pos (Int.not_lt.mp absent)]

/-! ## The header block -/

/-- The header block of a request, as the string the parsers see. -/
def requestHeaders (tls : Tls) : Option (List UInt8) :=
  (readUntilCrnlcrnl tls.answers tls.incoming []).map (fun read => cString read.1)

/-- The end of a header block has two newlines. -/
theorem count_of_suffix {buf : List UInt8} (ends : (ascii "\r\n\r\n").isSuffixOf buf = true) :
    2 ≤ buf.count 10 := by
  have isSuffix := List.isSuffixOf_iff_suffix.mp ends
  exact isSuffix.sublist.count_le 10

/-- While at most one newline has been read the block goes on. -/
theorem readUntilCrnlcrnl_append {buf text rest : List UInt8} {answers : List Nat}
    (newlines : (buf ++ text).count 10 < 2) (fits : (buf ++ text).length < requestBuf) :
    readUntilCrnlcrnl (List.replicate text.length 1 ++ answers) (text ++ rest) buf =
      readUntilCrnlcrnl answers rest (buf ++ text) := by
  induction text generalizing buf with
  | nil => rw [List.append_nil, List.length_nil, List.replicate_zero, List.nil_append, List.nil_append]
  | cons byte text inductionHypothesis =>
      have shift : buf ++ byte :: text = (buf ++ [byte]) ++ text := by simp
      rw [shift] at newlines fits
      have below : buf.length < requestBuf - 1 := by
        rw [List.length_append, List.length_append, List.length_singleton] at fits
        omega
      have open_ : ¬ (ascii "\r\n\r\n").isSuffixOf (buf ++ [byte]) = true := by
        intro ends
        have two := count_of_suffix ends
        rw [List.count_append] at newlines
        omega
      rw [List.length_cons, List.replicate_succ, List.cons_append, List.cons_append, readUntilCrnlcrnl,
        if_pos below]
      simp only [sslRead, List.length_cons, show min 1 (min 1 ((text ++ rest).length + 1)) = 1 by omega,
        Nat.one_ne_zero, if_false, List.take_succ_cons, List.take_zero, List.drop_succ_cons,
        List.drop_zero, open_]
      rw [inductionHypothesis newlines fits, shift]
      simp

/-- A request line without further headers, delivered byte by byte, is read whole. -/
theorem requestHeaders_of_line {line rest : List UInt8} (noNewline : (10 : UInt8) ∉ line)
    (noZero : (0 : UInt8) ∉ line) (fits : line.length + 4 < requestBuf) :
    requestHeaders ⟨line ++ ascii "\r\n\r\n" ++ rest, List.replicate (line.length + 4) 1⟩ =
      some (line ++ ascii "\r\n\r\n") := by
  have once : ([] ++ (line ++ [13, 10, 13])).count 10 < 2 := by
    rw [List.nil_append, List.count_append, List.count_eq_zero.mpr noNewline]
    decide
  have length : (line ++ [13, 10, 13]).length = line.length + 3 := by
    rw [List.length_append]
    rfl
  have short : ([] ++ (line ++ [13, 10, 13])).length < requestBuf := by
    rw [List.nil_append, length]
    omega
  have whole : line ++ ascii "\r\n\r\n" = (line ++ [13, 10, 13]) ++ [10] := by
    rw [List.append_assoc]
    rfl
  have answers : List.replicate (line.length + 4) 1 =
      List.replicate (line ++ [13, 10, 13]).length 1 ++ [1] := by
    rw [length, List.replicate_succ']
  have ends : (ascii "\r\n\r\n").isSuffixOf (line ++ [13, 10, 13] ++ [10]) = true := by
    rw [List.isSuffixOf_iff_suffix, ← whole]
    exact List.suffix_append _ _
  have clean : forall byte, byte ∈ line ++ ascii "\r\n\r\n" -> byte ≠ 0 := by
    intro byte member
    rcases List.mem_append.mp member with inLine | inEnd
    · rintro rfl
      exact noZero inLine
    · have none : forall byte, byte ∈ ascii "\r\n\r\n" -> byte ≠ 0 := forall_mem_of_all (by decide)
      exact none byte inEnd
  have last : readUntilCrnlcrnl [1] (10 :: rest) (line ++ [13, 10, 13]) =
      some (line ++ ascii "\r\n\r\n", ⟨rest, []⟩) := by
    rw [readUntilCrnlcrnl, if_pos (by rw [length]; omega)]
    simp only [sslRead, List.length_cons, show min 1 (min 1 (rest.length + 1)) = 1 by omega,
      Nat.one_ne_zero, if_false, List.take_succ_cons, List.take_zero, List.drop_succ_cons,
      List.drop_zero, ends, if_true, whole]
  rw [requestHeaders, answers, whole, List.append_assoc, List.singleton_append,
    readUntilCrnlcrnl_append once short, List.nil_append, last, Option.map_some,
    cString_eq_self clean, whole]

/-! ## Two runs on different arrays -/

/-- The request an outcome passes to `handle_request`, if any. -/
def Outcome.line : Outcome -> Option RequestLine
  | .request line _ _ _ => some line
  | _ => none

/-- The string that is parsed in the course of an outcome, if any. -/
def Outcome.parsed : Outcome -> Option (List UInt8)
  | .request line body _ _ => parsedString line body
  | _ => none

/-- The command that is taken from a parsed body in the course of an outcome, if any. -/
def Outcome.executed (command : List UInt8 -> Option (List UInt8)) : Outcome -> Option (List UInt8)
  | .request line body _ _ => executedCommand command line body
  | _ => none

/-- No handler of the request parses the body. -/
def IgnoresBody (line : RequestLine) : Prop :=
  forall handler, handleRequest line = some handler -> handler.parsesBody = false

variable {placement : Placement} {tls : Tls} {line : RequestLine}

/-- A request that reaches `handle_request` does so whatever the array held, with
the body read into it. -/
theorem handleClient_of_reached {initial : RequestArray} {headers : List UInt8}
    (read : requestHeaders tls = some headers)
    (reached : (handleClient placement .verified tls initial).line = some line) :
    Exists fun body => forall array, Exists fun length => Exists fun after =>
      handleClient placement .verified tls array =
        .request line (readBody body (getContentLength headers) array).1 length after := by
  rcases Option.map_eq_some_iff.mp read with ⟨⟨buf, body⟩, block, same⟩
  dsimp only at same
  subst same
  simp only [handleClient, block] at reached ⊢
  refine ⟨body, fun other => ?_⟩
  cases parsed : parseRequestLine placement (cString buf) with
  | none => simp only [parsed, Outcome.line, reduceCtorEq] at reached
  | some found =>
      simp only [parsed] at reached ⊢
      split at reached
      · exact absurd reached nofun
      next notUpload =>
        split at reached
        · exact absurd reached nofun
        next notUpdate =>
          split at reached
          · exact absurd reached nofun
          next notPipe =>
            rw [if_neg notUpload, if_neg notUpdate, if_neg notPipe]
            have sameLine : found = line := Option.some.inj reached
            subst sameLine
            exact ⟨_, _, rfl⟩

/-- A command is taken from the parsed string only. -/
theorem executedCommand_congr {line : RequestLine} {first second : RequestArray}
    (same : parsedString line first = parsedString line second)
    (command : List UInt8 -> Option (List UInt8)) :
    executedCommand command line first = executedCommand command line second := by
  unfold parsedString at same
  unfold executedCommand
  cases handled : handleRequest line with
  | none => rfl
  | some handler =>
      simp only [handled] at same ⊢
      cases handler with
      | exec | execStream =>
          simp only [Handler.parsesBody, if_true, Option.some.injEq] at same
          rw [same]
      | _ => rfl

/-- An array that holds a string. -/
def holding (text : List UInt8) (short : text.length < requestBuf) : RequestArray where
  bytes := text ++ 0 :: List.replicate (requestBuf - text.length - 1) 0
  length_eq := by
    rw [List.length_append, List.length_cons, List.length_replicate]
    omega

theorem cString_holding {text : List UInt8} (short : text.length < requestBuf)
    (noZero : forall byte, byte ∈ text -> byte ≠ 0) : cString (holding text short).bytes = text :=
  cString_append_zero noZero

/-- An array left empty, and one left with an earlier body. -/
def emptyArray : RequestArray := holding [] (by decide)

def staleArray : RequestArray := holding (ascii "\x7b\"command\":\"id\"\x7d") (by decide)

/-- A request that reaches `handle_request` is answered from its own bytes only,
whatever the array `body` held before, if and only if its `Content-Length` is
positive or no handler parses its body. -/
theorem handleClient_own_bytes_iff {initial : RequestArray} {headers : List UInt8}
    (read : requestHeaders tls = some headers)
    (reached : (handleClient placement .verified tls initial).line = some line) :
    (forall first second : RequestArray,
      (handleClient placement .verified tls first).parsed =
          (handleClient placement .verified tls second).parsed ∧
        forall command, (handleClient placement .verified tls first).executed command =
          (handleClient placement .verified tls second).executed command) ↔
      0 < getContentLength headers ∨ IgnoresBody line := by
  rcases handleClient_of_reached read reached with ⟨body, runs⟩
  have parsed : forall array, (handleClient placement .verified tls array).parsed =
      parsedString line (readBody body (getContentLength headers) array).1 := by
    intro array
    rcases runs array with ⟨_, _, run⟩
    rw [run, Outcome.parsed]
  have executed : forall array command, (handleClient placement .verified tls array).executed command =
      executedCommand command line (readBody body (getContentLength headers) array).1 := by
    intro array command
    rcases runs array with ⟨_, _, run⟩
    rw [run, Outcome.executed]
  constructor
  · intro same
    by_contra neither
    rcases not_or.mp neither with ⟨absent, parses⟩
    have two := (same emptyArray staleArray).1
    rw [parsed, parsed, readBody_of_not_positive absent, readBody_of_not_positive absent] at two
    apply parses
    intro handler handled
    by_contra uses
    have empty : cString emptyArray.bytes = [] := cString_holding (by decide) nofun
    have stale : cString staleArray.bytes = ascii "\x7b\"command\":\"id\"\x7d" :=
      cString_holding (by decide) (forall_mem_of_all (by decide))
    simp only [parsedString, handled, if_pos ((Bool.not_eq_false _).mp uses), empty, stale] at two
    exact absurd two (by decide)
  · intro condition first second
    have same : parsedString line (readBody body (getContentLength headers) first).1 =
        parsedString line (readBody body (getContentLength headers) second).1 := by
      rcases condition with positive | ignores
      · unfold parsedString
        rw [cString_readBody positive first second]
      · unfold parsedString
        cases handled : handleRequest line with
        | none => rfl
        | some handler =>
            have unused := ignores handler handled
            simp only [unused, Bool.false_eq_true, if_false]
    refine ⟨by rw [parsed, parsed, same], fun command => ?_⟩
    rw [executed, executed]
    exact executedCommand_congr same command

/-- The path array just below the line. -/
def below : Placement := ⟨-1024, Or.inl (Int.le_refl _)⟩

/-- A request with a body of two bytes, all of which has arrived. -/
def execRequest : Tls :=
  ⟨ascii "POST /api/exec HTTP/1.1\r\nContent-Length: 2\r\n\r\n\x7b\x7d", List.replicate 48 65536⟩

/-- The same request without a body and without a length. -/
def bareRequest : Tls :=
  ⟨ascii "POST /api/exec HTTP/1.1\r\n\r\n", List.replicate 27 65536⟩

theorem handleClient_own_bytes_iff_exec :
    (handleClient below .verified execRequest emptyArray).parsed =
      (handleClient below .verified execRequest staleArray).parsed :=
  ((handleClient_own_bytes_iff
    (by decide : requestHeaders execRequest =
      some (ascii "POST /api/exec HTTP/1.1\r\nContent-Length: 2\r\n\r\n"))
    (by decide : (handleClient below .verified execRequest emptyArray).line =
      some ⟨ascii "POST", ascii "/api/exec", []⟩)).mpr (Or.inl (by decide)) emptyArray staleArray).1

/-- Without a length the handler parses what an earlier request left on the stack. -/
theorem handleClient_parses_stale_body :
    (handleClient below .verified bareRequest emptyArray).parsed = some [] ∧
      (handleClient below .verified bareRequest staleArray).parsed =
        some (ascii "\x7b\"command\":\"id\"\x7d") := by
  decide

end Server
end AdbBridge
