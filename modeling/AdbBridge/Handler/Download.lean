import AdbBridge.Handler.Response
import AdbBridge.Handler.Upload
import AdbBridge.Server.RequestLine

namespace AdbBridge
namespace Handler

open Library Library.Numeral Library.Files Library.Search Library.ResponseFraming

/-!
# `handle_download`, and what it makes of an upload

The file is read whole into one block and sent behind a header that quotes the path.
A path that fits the query of a request line leaves room for the rest of the header.
-/

namespace Download

/-! ## The handler -/

/-- The outcomes of the calls: whether `fopen`, `ftell` and `malloc` succeed, and the
most that `fread` gets. -/
structure Outcomes where
  fopen : Bool
  ftell : Bool
  malloc : Bool
  fread : Nat
deriving DecidableEq, Repr

/-- The header of a download. -/
def header (nread : Nat) (path : List UInt8) : List UInt8 :=
  ascii "HTTP/1.1 200 OK\r\n" ++
    ascii "Content-Type: application/octet-stream\r\n" ++
    ascii "Content-Length: " ++ formatDec nread ++ ascii "\r\n" ++
    ascii "Content-Disposition: attachment; filename=\"" ++ path ++ ascii "\"\r\n" ++
    ascii "Connection: close\r\n" ++
    ascii "\r\n"

/-- `handle_download`: the bytes sent. -/
def handleDownload (around : Surroundings) (disk : Disk (List UInt8)) (outcomes : Outcomes)
    (query : List UInt8) : List UInt8 :=
  if (ascii "path=").isPrefixOf query ∧ query.drop 5 ≠ [] then
    let path := query.drop 5
    match if outcomes.fopen then disk.read path else none with
    | none => sendError around 404 ((ascii "cannot open file: " ++ path).take 511)
    | some content =>
        if outcomes.ftell = false then sendError around 500 (ascii "cannot determine file size")
        else if 100 * 1024 * 1024 < content.length then sendError around 413 (ascii "file too large")
        else if outcomes.malloc = false then sendError around 500 (ascii "out of memory")
        else
          let data := content.take outcomes.fread
          sentFrom headerBufSize around.beyond (header data.length path) ++ data
  else sendError around 400 (ascii "missing 'path' query parameter")

/-! ## A file that is read whole -/

variable {around : Surroundings} {disk : Disk (List UInt8)} {outcomes : Outcomes} {query content : List UInt8}

/-- Everything succeeds, and the whole file is read. -/
structure Outcomes.Succeed (outcomes : Outcomes) (content : List UInt8) : Prop where
  fopen : outcomes.fopen = true
  ftell : outcomes.ftell = true
  malloc : outcomes.malloc = true
  fread : content.length ≤ outcomes.fread

/-- The header fits its array. -/
theorem length_header_lt {nread : Nat} {path : List UInt8} (small : nread ≤ 100 * 1024 * 1024)
    (short : path.length < Server.queryCap) : (header nread path).length < headerBufSize := by
  have digits : (formatDec (nread : Int)).length ≤ 8 + 1 := length_formatDec_le (by omega)
  have query : Server.queryCap = 1024 := rfl
  have size : headerBufSize = 4096 := rfl
  have fixed : (ascii "HTTP/1.1 200 OK\r\n").length = 17 ∧
      (ascii "Content-Type: application/octet-stream\r\n").length = 40 ∧
      (ascii "Content-Length: ").length = 16 ∧ (ascii "\r\n").length = 2 ∧
      (ascii "Content-Disposition: attachment; filename=\"").length = 43 ∧ (ascii "\"\r\n").length = 3 ∧
      (ascii "Connection: close\r\n").length = 19 := by decide
  simp only [header, List.length_append, fixed]
  omega

/-- A file of at most 100 MiB is sent whole behind its length. -/
theorem handleDownload_of_succeed (isPath : (ascii "path=").isPrefixOf query = true ∧ query.drop 5 ≠ [])
    (short : query.length < Server.queryCap) (read : disk.read (query.drop 5) = some content)
    (small : content.length ≤ 100 * 1024 * 1024) (succeed : outcomes.Succeed content) :
    handleDownload around disk outcomes query = header content.length (query.drop 5) ++ content := by
  have shorter : (query.drop 5).length < Server.queryCap := by
    rw [List.length_drop]
    omega
  rw [handleDownload, if_pos isPath]
  dsimp only
  rw [succeed.fopen, if_pos rfl, read]
  dsimp only
  rw [succeed.ftell, if_neg (by decide), if_neg (Nat.not_lt.mpr small), succeed.malloc, if_neg (by decide),
    List.take_of_length_le succeed.fread, sentFrom_of_fits _ (length_header_lt small shorter)]

/-! ## Where the response ends -/

/-- A path that can be quoted in a header: it contains no empty line, and no line that
announces the end of a body. -/
def QuotesSafely (path : List UInt8) : Prop := afterFirst emptyLine path = none ∧ Unframed path

instance (path : List UInt8) : Decidable (QuotesSafely path) := inferInstanceAs (Decidable (_ ∧ _))

/-- The path in the header of a response that sends a file. -/
def quoted (disk : Disk (List UInt8)) (outcomes : Outcomes) (query : List UInt8) : Option (List UInt8) :=
  if (ascii "path=").isPrefixOf query ∧ query.drop 5 ≠ [] then
    match if outcomes.fopen then disk.read (query.drop 5) else none with
    | none => none
    | some content =>
        if outcomes.ftell = true ∧ content.length ≤ 100 * 1024 * 1024 ∧ outcomes.malloc = true then
          some (query.drop 5)
        else none
  else none

/-- What precedes the length in the header of a download. -/
def headerLead : List UInt8 :=
  ascii "HTTP/1.1 200 OK\r\n" ++ ascii "Content-Type: application/octet-stream\r\n" ++ ascii "Content-Length:"

/-- What stands between the length and the path. -/
def disposition : List UInt8 := ascii "\r\nContent-Disposition: attachment; filename="

/-- What stands behind the path. -/
def headerEnd : List UInt8 := ascii "\r\nConnection: close\r\n\r\n"

/-- The header quotes the path between the length and its end. -/
theorem header_eq (nread : Nat) (path : List UInt8) :
    header nread path = headerLead ++ 32 :: (formatDec nread ++
      (disposition ++ 34 :: (path ++ 34 :: headerEnd))) := by
  have name : ascii "Content-Length: " = ascii "Content-Length:" ++ [32] := by decide
  have opening : ascii "\r\n" ++ ascii "Content-Disposition: attachment; filename=\"" = disposition ++
    [34] := by
    decide
  have closing : ascii "\"\r\n" ++ (ascii "Connection: close\r\n" ++
    ascii "\r\n") = 34 :: headerEnd := by decide
  have split : header nread path = headerLead ++ [32] ++ formatDec nread ++
      (ascii "\r\n" ++ ascii "Content-Disposition: attachment; filename=\"") ++ path ++
        (ascii "\"\r\n" ++ (ascii "Connection: close\r\n" ++ ascii "\r\n")) := by
    rw [header, headerLead, name]
    simp only [List.append_assoc]
  rw [split, opening, closing]
  simp only [List.append_assoc, List.cons_append, List.nil_append]

/-- Around the path nothing announces the end of a body. -/
theorem disposition_facts : LengthLead headerLead ∧ afterFirst emptyLine disposition = none ∧
    Unframed disposition ∧ afterFirst emptyLine headerEnd = some [] ∧
    Unframed (beforeFirst emptyLine headerEnd) := by decide +kernel

/-- Text between quotes adds the fields it contains. -/
theorem unframed_quoted {before rest : List UInt8} :
    Unframed (before ++ 34 :: rest) ↔ Unframed before ∧ Unframed rest := by
  have quote : lower 34 = 34 := by decide
  unfold Unframed
  rw [List.map_append, List.map_cons, quote, occurrences_append_cons (by decide) (by decide),
    occurrences_append_cons (by decide) (by decide), List.append_eq_nil_iff, List.append_eq_nil_iff,
    List.map_eq_nil_iff, List.map_eq_nil_iff]
  exact and_and_and_comm

/-- A header and the data behind it are one complete response if and only if the path
can be quoted. -/
theorem complete_header_iff (path data : List UInt8) :
    Complete (header data.length path ++ data) ↔ QuotesSafely path := by
  rcases disposition_facts with ⟨isLead, inside, unframed, ends, endUnframed⟩
  have shape : header data.length path ++ data = headerLead ++ 32 :: (formatDec data.length ++
      (disposition ++ 34 :: (path ++ 34 :: (headerEnd ++ data)))) := by
    rw [header_eq]
    simp only [List.append_assoc, List.cons_append]
  have starts : (disposition ++ 34 :: (path ++ 34 :: (headerEnd ++ data))).head? = some 13 := rfl
  have skipped : afterFirst emptyLine (disposition ++ 34 :: (path ++ 34 :: (headerEnd ++ data))) =
      afterFirst emptyLine (path ++ 34 :: (headerEnd ++ data)) :=
    afterFirst_append_cons (by decide) (by decide) inside
  rw [shape]
  cases found : afterFirst emptyLine path with
  | some rest =>
      -- the head ends inside the path, and what follows is longer than the data
      have early := skipped.trans (afterFirst_append found (34 :: (headerEnd ++ data)))
      rw [complete_length_iff isLead data.length starts early]
      refine iff_of_false (fun both => ?_) (fun safe => ?_)
      · have length := both.2
        rw [List.length_append, List.length_cons, List.length_append] at length
        omega
      · rw [safe.1] at found
        cases found
  | none =>
      have late : afterFirst emptyLine (path ++ 34 :: (headerEnd ++ data)) = some data := by
        rw [afterFirst_append_cons (by decide) (by decide) found, afterFirst_append ends]
        rfl
      have isHead : beforeFirst emptyLine (disposition ++ 34 :: (path ++ 34 :: (headerEnd ++ data))) =
          disposition ++ 34 :: (path ++ 34 :: beforeFirst emptyLine headerEnd) := by
        rw [beforeFirst_append_cons (by decide) (by decide) inside,
          beforeFirst_append_cons (by decide) (by decide) found, beforeFirst_append ends]
      rw [complete_length_iff isLead data.length starts (skipped.trans late), isHead, unframed_quoted,
        unframed_quoted]
      constructor
      · exact fun both => ⟨found, both.1.2.1⟩
      · exact fun safe => ⟨⟨unframed, safe.2, endUnframed⟩, rfl⟩

/-- A download is refused, or a file is sent behind a header that quotes its path. -/
theorem handleDownload_cases (short : query.length < Server.queryCap) :
    (quoted disk outcomes query = none ∧ Exists fun status => Exists fun message =>
      status ∈ statuses ∧ handleDownload around disk outcomes query = sendError around status message) ∨
    (quoted disk outcomes query = some (query.drop 5) ∧ Exists fun data : List UInt8 =>
      handleDownload around disk outcomes query = header data.length (query.drop 5) ++ data) := by
  unfold handleDownload quoted
  by_cases isPath : (ascii "path=").isPrefixOf query = true ∧ query.drop 5 ≠ []
  · rw [if_pos isPath, if_pos isPath]
    dsimp only
    cases read : if outcomes.fopen = true then disk.read (query.drop 5) else none with
    | none => exact Or.inl ⟨rfl, 404, _, by decide, rfl⟩
    | some content =>
        dsimp only
        by_cases ftell : outcomes.ftell = false
        · rw [if_pos ftell, if_neg (fun all => by rw [ftell] at all; cases all.1)]
          exact Or.inl ⟨rfl, 500, _, by decide, rfl⟩
        · rw [if_neg ftell]
          by_cases large : 100 * 1024 * 1024 < content.length
          · rw [if_pos large, if_neg (fun all => absurd all.2.1 (Nat.not_le.mpr large))]
            exact Or.inl ⟨rfl, 413, _, by decide, rfl⟩
          · rw [if_neg large]
            by_cases malloc : outcomes.malloc = false
            · rw [if_pos malloc, if_neg (fun all => by rw [malloc] at all; cases all.2.2)]
              exact Or.inl ⟨rfl, 500, _, by decide, rfl⟩
            · have small : (content.take outcomes.fread).length ≤ 100 * 1024 * 1024 :=
                Nat.le_trans (List.length_take_le' _ _) (Nat.not_lt.mp large)
              have shorter : (query.drop 5).length < Server.queryCap := by
                rw [List.length_drop]
                omega
              rw [if_neg malloc, if_pos ⟨(Bool.not_eq_false _).mp ftell, Nat.not_lt.mp large,
                (Bool.not_eq_false _).mp malloc⟩, sentFrom_of_fits _ (length_header_lt small shorter)]
              exact Or.inr ⟨rfl, _, rfl⟩
  · rw [if_neg isPath, if_neg isPath]
    exact Or.inl ⟨rfl, 400, _, by decide, rfl⟩

/-- A download is answered with one complete response if and only if the path of a file
that is sent can be quoted. -/
theorem complete_handleDownload_iff (short : query.length < Server.queryCap) :
    Complete (handleDownload around disk outcomes query) ↔
      forall path, quoted disk outcomes query = some path -> QuotesSafely path := by
  rcases @handleDownload_cases around disk outcomes query short with
    ⟨none, status, message, used, sent⟩ | ⟨isQuoted, data, sent⟩
  · rw [sent, none]
    exact iff_of_true (complete_sendError used around message) (fun _ impossible => by cases impossible)
  · rw [sent, isQuoted, complete_header_iff]
    exact ⟨fun safe path same => Option.some.inj same ▸ safe, fun all => all _ rfl⟩

end Download

namespace Upload

/-! ## Uploads in which everything succeeds -/

variable {request : Request} {disk : Disk (List UInt8)} {final : State} {events : List Event}
  {path : List UInt8} {answer : Answer}

/-- Opening, reading and writing succeed. -/
def Succeeds (request : Request) (state : State) (event : Event) : Prop :=
  Keeps request state event ∧ forall errno, event ≠ .fopen (some errno)

/-- The answer, once there is one, is the length of the body. -/
def Reports (request : Request) (state : State) : Prop :=
  match state.pc with
  | .answered answer => answer = .stored request.body.length
  | _ => True

theorem reports_loopHead {file : Stream} {received : List UInt8} :
    Reports request ⟨loopHead request path file received, disk⟩ := by
  unfold loopHead
  split <;> trivial

/-- What was written when the file is closed is what was announced. -/
theorem reports_step (announced : request.contentLength = request.body.length) (state : State) (event : Event)
    (next : State) (succeeds : Succeeds request state event) (moved : step request state event = some next)
    (whole : Whole request state) (reports : Reports request state) : Reports request next := by
  rcases state with ⟨pc, disk⟩
  unfold step at moved
  dsimp only at moved
  split at moved
  next path =>
    rw [← Option.some.inj moved]
    exact reports_loopHead
  next path errno => exact absurd rfl (succeeds.2 errno)
  next path file received =>
    rw [← Option.some.inj moved]
    trivial
  next path file received count =>
    rcases Option.ite_none_right_eq_some.mp moved with ⟨_, taken⟩
    rw [← Option.some.inj taken]
    trivial
  next path file received chunk taken count =>
    rcases Option.ite_none_right_eq_some.mp moved with ⟨_, put⟩
    rw [← Option.some.inj put]
    trivial
  next path file received chunk taken count =>
    rw [← Option.some.inj moved]
    trivial
  next path file received chunk taken =>
    split at moved
    · rw [← Option.some.inj moved]
      exact reports_loopHead
    · rw [← Option.some.inj moved]
      trivial
  next path file written count =>
    rw [← Option.some.inj moved]
    trivial
  next path file written =>
    rw [← Option.some.inj moved]
    have counted : (written : Int) = request.contentLength := whole
    have same : written = request.body.length := by omega
    rw [same]
    rfl
  · exact absurd moved (by simp)

/-- An upload in which everything succeeds reports the length of the body and leaves
the body in the file. -/
theorem stored_of_succeeds (announced : request.contentLength = request.body.length)
    (requested : request.path = some path)
    (run : Machine.exec (step request) (initial request disk) events = some final)
    (succeed : Machine.AllSteps (step request) (Succeeds request) (initial request disk) events)
    (answered : final.pc = .answered answer) :
    answer = .stored request.body.length ∧ final.disk.read path = some request.body := by
  have preserved : forall state event next, Succeeds request state event ->
      step request state event = some next ->
      (Sound request state ∧ Whole request state ∧ Reports request state) ->
      (Sound request next ∧ Whole request next ∧ Reports request next) := by
    intro state event next succeeds moved held
    exact ⟨sound_step request state event next moved held.1,
      whole_step request state event next succeeds.1 moved held.1 held.2.1,
      reports_step announced state event next succeeds moved held.2.1 held.2.2⟩
  have opening : Reports request (initial request disk) := by
    rw [Reports, initial, requested]
    trivial
  rcases Machine.invariant_exec_of_allSteps preserved run succeed
    ⟨sound_initial request disk, whole_initial request disk, opening⟩ with ⟨_, whole, reports⟩
  rcases final with ⟨pc, finalDisk⟩
  subst answered
  have isStored : answer = .stored request.body.length := reports
  refine ⟨isStored, ?_⟩
  rw [isStored] at whole
  rcases whole with ⟨_, other, content, otherRequested, read, isPrefix, length⟩ | failed
  · rw [Option.some.inj (requested.symm.trans otherRequested)]
    rw [← isPrefix.eq_of_length (by omega)]
    exact read
  · have tooLarge : 400 ≤ 200 := failed
    omega

/-! ## Every split of the body -/

/-- The body arrives in blocks of the given sizes, each is taken whole, and the file is
closed. -/
def splitEvents (request : Request) (sizes : List Nat) : List Event :=
  .fopen none :: (sizes.flatMap (fun size => [.sslRead (some size), .buffer size, .fwrite]) ++
    [.write request.body.length, .fclose])

/-- The loop takes a split of the bytes to come.  By induction on the split, for any
bytes received before it. -/
theorem exec_split (announced : request.contentLength = request.body.length) (sizes : List Nat)
    (blocks : forall size, size ∈ sizes -> 0 < size ∧ size ≤ chunkSize) {file : Stream}
    {received coming : List UInt8} (whole : received ++ coming = request.body)
    (sum : sizes.sum = coming.length) {rest : List Event}
    (later : Machine.exec (step request) ⟨.closing path (file.put coming) request.body.length, disk⟩ rest =
        some final ∧
      Machine.AllSteps (step request) (Succeeds request)
        ⟨.closing path (file.put coming) request.body.length, disk⟩ rest) :
    Machine.exec (step request) ⟨loopHead request path file received, disk⟩
        (sizes.flatMap (fun size => [.sslRead (some size), .buffer size, .fwrite]) ++ rest) = some final ∧
      Machine.AllSteps (step request) (Succeeds request) ⟨loopHead request path file received, disk⟩
        (sizes.flatMap (fun size => [.sslRead (some size), .buffer size, .fwrite]) ++ rest) := by
  have total : sizeT request.contentLength = request.body.length := by
    have exact_ := sizeT_of_nonneg request (by omega)
    omega
  have lengths := congrArg List.length whole
  rw [List.length_append] at lengths
  induction sizes generalizing file received coming with
  | nil =>
      have none : coming = [] := List.length_eq_zero_iff.mp sum.symm
      subst none
      rw [List.length_nil, Nat.add_zero] at lengths
      have ends : loopHead request path file received = .closing path (file.put []) request.body.length := by
        rw [loopHead, if_neg (by omega), Stream.put, List.append_nil, lengths]
      rw [ends]
      exact later
  | cons size sizes inductionHypothesis =>
      rw [List.sum_cons] at sum
      have block := blocks size List.mem_cons_self
      have taken : (coming.take size).length = size := List.length_take_of_le (by omega)
      have split : received ++ coming.take size ++ coming.drop size = request.body := by
        rw [List.append_assoc, List.take_append_drop, whole]
      have behind : request.body.drop received.length = coming := by
        rw [← whole, List.drop_left]
      have goesOn : loopHead request path file received = .streaming path file received := by
        rw [loopHead, if_pos (by omega)]
      have put : (file.put (coming.take size)).put (coming.drop size) = file.put coming := by
        rw [Stream.put, Stream.put, Stream.put, List.append_assoc, List.take_append_drop]
      have read : step request ⟨.streaming path file received, disk⟩ (.sslRead (some size)) =
          some ⟨.writing path file received (coming.take size) 0, disk⟩ := by
        dsimp only [step]
        rw [behind, if_pos ⟨block.1, Nat.le_min.mpr ⟨by omega, block.2⟩, by omega⟩]
      have buffered : step request ⟨.writing path file received (coming.take size) 0, disk⟩ (.buffer size) =
          some ⟨.writing path (file.put (coming.take size)) received (coming.take size) size, disk⟩ := by
        dsimp only [step]
        rw [if_pos (by omega), List.drop_zero, List.take_take, Nat.min_self, Nat.zero_add]
      have written : step request
          ⟨.writing path (file.put (coming.take size)) received (coming.take size) size, disk⟩ .fwrite =
          some ⟨loopHead request path (file.put (coming.take size)) (received ++ coming.take size), disk⟩ := by
        dsimp only [step]
        rw [if_pos taken.symm]
      have rests := inductionHypothesis (fun other member => blocks other (List.mem_cons_of_mem size member))
        split (by rw [List.length_drop]; omega) (by rw [put]; exact later)
        (by rw [← List.length_append, split])
      rw [goesOn, List.flatMap_cons, List.append_assoc]
      exact Machine.extend_of_step read ⟨trivial, fun _ same => by cases same⟩
        (Machine.extend_of_step buffered ⟨trivial, fun _ same => by cases same⟩
          (Machine.extend_of_step written ⟨taken.symm, fun _ same => by cases same⟩ rests))

/-- For every split of the body there is an upload that takes it and succeeds. -/
theorem exists_upload (announced : request.contentLength = request.body.length)
    (requested : request.path = some path) (sizes : List Nat)
    (blocks : forall size, size ∈ sizes -> 0 < size ∧ size ≤ chunkSize)
    (sum : sizes.sum = request.body.length) :
    Exists fun final =>
      (Machine.exec (step request) (initial request disk) (splitEvents request sizes) = some final ∧
        Machine.AllSteps (step request) (Succeeds request) (initial request disk) (splitEvents request sizes)) ∧
      final.pc = .answered (.stored request.body.length) := by
  have start : initial request disk = ⟨.opening path, disk⟩ := by
    rw [initial, requested]
  let stream : Stream := ⟨(disk.openTrunc path).2, 0, []⟩
  let flushed := (stream.put request.body).flush (disk.openTrunc path).1 request.body.length
  have opened : step request ⟨.opening path, disk⟩ (.fopen none) =
      some ⟨loopHead request path stream [], (disk.openTrunc path).1⟩ := rfl
  have written : step request
      ⟨.closing path (stream.put request.body) request.body.length, (disk.openTrunc path).1⟩
      (.write request.body.length) = some ⟨.closing path flushed.1 request.body.length, flushed.2⟩ := rfl
  have closed : step request ⟨.closing path flushed.1 request.body.length, flushed.2⟩ .fclose =
      some ⟨.answered (.stored request.body.length), flushed.2⟩ := rfl
  have drained : flushed.1.pending = [] := by
    change ([] ++ request.body).drop request.body.length = []
    rw [List.nil_append, List.drop_length]
  have writes : Succeeds request ⟨.closing path (stream.put request.body) request.body.length,
      (disk.openTrunc path).1⟩ (.write request.body.length) := ⟨trivial, fun _ same => by cases same⟩
  have closes : Succeeds request ⟨.closing path flushed.1 request.body.length, flushed.2⟩ .fclose :=
    ⟨drained, fun _ same => by cases same⟩
  have rests : Machine.exec (step request) ⟨.answered (.stored request.body.length), flushed.2⟩ [] =
      some ⟨.answered (.stored request.body.length), flushed.2⟩ ∧
      Machine.AllSteps (step request) (Succeeds request) ⟨.answered (.stored request.body.length),
        flushed.2⟩ [] :=
    ⟨rfl, trivial⟩
  have ends := Machine.extend_of_step written writes (Machine.extend_of_step closed closes rests)
  refine ⟨⟨.answered (.stored request.body.length), flushed.2⟩, ?_, rfl⟩
  rw [start]
  refine Machine.extend_of_step opened ⟨?_, fun _ same => by cases same⟩
    (exec_split announced sizes blocks (List.nil_append _) sum ends)
  change 0 ≤ request.contentLength
  omega

end Upload

/-! ## The round trip -/

/-- Three bytes for `/d/x`. -/
def threeBytes : Upload.Request := { Upload.shortRequest with body := ascii "abc" }

/-- cJSON prints the message of an error between quotes. -/
def plainSurroundings : Surroundings where
  beyond := fun _ => 0
  printError := fun message => (ascii "\x7b\"error\":\"" ++ message ++ ascii "\"\x7d").take 1024
  inMemory := fun message => by
    rw [List.length_take]
    omega

end Handler
end AdbBridge
