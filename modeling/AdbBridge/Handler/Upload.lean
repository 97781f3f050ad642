import AdbBridge.Library.Files
import AdbBridge.Library.Machine
import AdbBridge.Library.Numeral

namespace AdbBridge
namespace Handler

open Library Library.Numeral Library.Files

/-!
# `handle_upload`: a request body becomes a file

The body is copied to the file in blocks of at most 64 KiB.  As in `handle_update`
the bytes go through a stream of the C library, and every `write` of the stream is a
step of its own, inside `fwrite` or inside `fclose`.

Four things end the loop: the count is reached, the client sends no more, `SSL_read`
fails, or `fwrite` takes less than it was given.  What follows does not ask which.
-/

namespace Upload

/-! ## Requests and answers -/

/-- A request: the query, the value of its `Content-Length` (-1 if it has none), and
the bytes the client sends behind the header block. -/
structure Request where
  query : List UInt8
  contentLength : Int
  body : List UInt8
  isLong : -9223372036854775808 ≤ contentLength ∧ contentLength < 9223372036854775808
deriving DecidableEq, Repr

/-- `path`: everything behind a leading `path=`, if that is not empty. -/
def Request.path (request : Request) : Option (List UInt8) :=
  if (ascii "path=").isPrefixOf request.query ∧ request.query.drop 5 ≠ [] then
    some (request.query.drop 5)
  else none

/-- The cast of a `long` to `size_t`. -/
def sizeT (value : Int) : Nat := (value % 18446744073709551616).toNat

/-- The responses of `handle_upload`.  `errno` is the text of `strerror`. -/
inductive Answer where
  | stored (bytesWritten : Nat)
  | missingPath
  | cannotOpen (path errno : List UInt8)
deriving DecidableEq, Repr

namespace Answer

def status : Answer -> Nat
  | .stored _ => 200
  | .missingPath => 400
  | .cannotOpen _ _ => 500

/-- The text of an error, cut to the array `err` where it is formatted. -/
def message : Answer -> List UInt8
  | .stored _ => []
  | .missingPath => ascii "missing 'path' query parameter"
  | .cannotOpen path errno =>
      (ascii "cannot open file: " ++ path ++ ascii " (" ++ errno ++ ascii ")").take 511

end Answer

/-! ## Steps -/

def chunkSize : Nat := 65536

/-- Where the handler is.  `received` are the bytes `fwrite` has accepted in whole
blocks; of `chunk` the first `taken` bytes are in the buffer of the stream. -/
inductive Pc where
  | opening (path : List UInt8)
  | streaming (path : List UInt8) (file : Stream) (received : List UInt8)
  | writing (path : List UInt8) (file : Stream) (received chunk : List UInt8) (taken : Nat)
  | closing (path : List UInt8) (file : Stream) (written : Nat)
  | answered (answer : Answer)
deriving DecidableEq, Repr

/-- A step, with the answer of the call.  `buffer` and `write` are steps inside
`fwrite` and `fclose`; `fwrite` and `fclose` are their returns. -/
inductive Event where
  | fopen (errno : Option (List UInt8))
  | sslRead (count : Option Nat)
  | buffer (count : Nat)
  | write (count : Nat)
  | fwrite
  | fclose
deriving DecidableEq, Repr

/-- The handler with the disk it writes to. -/
structure State where
  pc : Pc
  disk : Disk (List UInt8)

/-- The check of the path. -/
def initial (request : Request) (disk : Disk (List UInt8)) : State where
  pc := match request.path with
    | none => .answered .missingPath
    | some path => .opening path
  disk := disk

section Steps

variable (request : Request)

/-- The condition of the loop. -/
def loopHead (path : List UInt8) (file : Stream) (received : List UInt8) : Pc :=
  if received.length < sizeT request.contentLength then .streaming path file received
  else .closing path file received.length

/-- The most that one `SSL_read` asks for. -/
def toRead (received : List UInt8) : Nat :=
  min (sizeT request.contentLength - received.length) chunkSize

/-- One step of the handler. -/
def step (state : State) (event : Event) : Option State :=
  match state.pc, event with
  | .opening path, .fopen none =>
      let opened := state.disk.openTrunc path
      some ⟨loopHead request path ⟨opened.2, 0, []⟩ [], opened.1⟩
  | .opening path, .fopen (some errno) => some { state with pc := .answered (.cannotOpen path errno) }
  | .streaming path file received, .sslRead none =>
      some { state with pc := .closing path file received.length }
  | .streaming path file received, .sslRead (some count) =>
      let coming := request.body.drop received.length
      if 0 < count ∧ count ≤ toRead request received ∧ count ≤ coming.length then
        some { state with pc := .writing path file received (coming.take count) 0 }
      else none
  | .writing path file received chunk taken, .buffer count =>
      if taken + count ≤ chunk.length then
        some { state with
          pc := .writing path (file.put ((chunk.drop taken).take count)) received chunk (taken + count) }
      else none
  | .writing path file received chunk taken, .write count =>
      let flushed := file.flush state.disk count
      some ⟨.writing path flushed.1 received chunk taken, flushed.2⟩
  | .writing path file received chunk taken, .fwrite =>
      if taken = chunk.length then
        some { state with pc := loopHead request path file (received ++ chunk) }
      else some { state with pc := .closing path file (received.length + taken) }
  | .closing path file written, .write count =>
      let flushed := file.flush state.disk count
      some ⟨.closing path flushed.1 written, flushed.2⟩
  | .closing _ _ written, .fclose => some { state with pc := .answered (.stored written) }
  | _, _ => none

end Steps

/-! ## Complete uploads -/

/-- The file holds exactly the body that the request announced. -/
def HoldsBody (request : Request) (disk : Disk (List UInt8)) : Prop :=
  Exists fun path => Exists fun content =>
    request.path = some path ∧ disk.read path = some content ∧ content <+: request.body ∧
      (content.length : Int) = request.contentLength

/-- Success is answered for a complete file only, and an error status otherwise. -/
def Honest (request : Request) (disk : Disk (List UInt8)) (answer : Answer) : Prop :=
  (answer.status = 200 ∧ HoldsBody request disk) ∨ 400 ≤ answer.status

/-- The step cannot make an upload incomplete: a file is opened only for a length
that was given, `SSL_read` does not fail before the end of the body, `fwrite` takes
the whole block, and `fclose` has written everything when it returns. -/
def Keeps (request : Request) (state : State) (event : Event) : Prop :=
  match state.pc, event with
  | .opening _, .fopen none => 0 ≤ request.contentLength
  | .streaming _ _ _, .sslRead none => False
  | .writing _ _ _ chunk taken, .fwrite => taken = chunk.length
  | .closing _ file _, .fclose => file.pending = []
  | _, _ => True

/-! ## What the handler has accepted -/

variable {request : Request} {state next middle final : State} {event : Event} {events : List Event}
  {disk : Disk (List UInt8)} {path bytes : List UInt8} {file : Stream}

theorem sizeT_of_nonneg (request : Request) (nonneg : 0 ≤ request.contentLength) :
    (sizeT request.contentLength : Int) = request.contentLength := by
  have long := request.isLong
  unfold sizeT
  omega

/-- The stream writes to the file of the request and has accepted these bytes, which
are the beginning of the body. -/
structure Accepts (request : Request) (disk : Disk (List UInt8)) (path : List UInt8) (file : Stream)
    (bytes : List UInt8) : Prop where
  requested : request.path = some path
  named : disk.dir path = some file.inode
  carries : file.Carries disk bytes
  body : bytes <+: request.body

theorem Accepts.flush (accepts : Accepts request disk path file bytes) (count : Nat) :
    Accepts request (file.flush disk count).2 path (file.flush disk count).1 bytes :=
  ⟨accepts.requested, accepts.named, accepts.carries.flush count, accepts.body⟩

/-- What the file contains: all that was accepted but for the bytes that wait. -/
theorem Accepts.read (accepts : Accepts request disk path file bytes) :
    Exists fun content => disk.read path = some content ∧ content ++ file.pending = bytes := by
  refine ⟨disk.contents file.inode, ?_, accepts.carries.bytes⟩
  rw [Disk.read, accepts.named]
  rfl

/-- What holds between two steps. -/
def Sound (request : Request) (state : State) : Prop :=
  match state.pc with
  | .opening path => request.path = some path
  | .streaming path file received =>
      Accepts request state.disk path file received ∧ received.length < sizeT request.contentLength
  | .writing path file received chunk taken =>
      Accepts request state.disk path file (received ++ chunk.take taken) ∧
        received ++ chunk <+: request.body ∧ taken ≤ chunk.length ∧
          (received ++ chunk).length ≤ sizeT request.contentLength
  | .closing path file written =>
      Exists fun bytes => Accepts request state.disk path file bytes ∧ bytes.length = written ∧
        written ≤ sizeT request.contentLength
  | .answered _ => True

theorem sound_initial (request : Request) (disk : Disk (List UInt8)) :
    Sound request (initial request disk) := by
  unfold Sound initial
  cases requested : request.path with
  | none => trivial
  | some path => rfl

theorem sound_loopHead {received : List UInt8} (accepts : Accepts request disk path file received)
    (bound : received.length ≤ sizeT request.contentLength) :
    Sound request ⟨loopHead request path file received, disk⟩ := by
  unfold loopHead
  split
  next more => exact ⟨accepts, more⟩
  · exact ⟨received, accepts, rfl, bound⟩

/-- A step keeps what the handler relies on. -/
theorem sound_step (request : Request) (state : State) (event : Event) (next : State)
    (moved : step request state event = some next) (sound : Sound request state) :
    Sound request next := by
  rcases state with ⟨pc, disk⟩
  unfold step at moved
  dsimp only at moved
  split at moved
  next path =>
    rw [← Option.some.inj moved]
    refine sound_loopHead ⟨sound, ?_, Stream.carries_openTrunc disk _, List.nil_prefix⟩ (Nat.zero_le _)
    exact dir_openTrunc disk _
  next path errno =>
    rw [← Option.some.inj moved]
    trivial
  next path file received =>
    rw [← Option.some.inj moved]
    exact ⟨received, sound.1, rfl, Nat.le_of_lt sound.2⟩
  next path file received count =>
    rcases Option.ite_none_right_eq_some.mp moved with ⟨reads, taken⟩
    rw [← Option.some.inj taken]
    rcases sound with ⟨accepts, more⟩
    rcases accepts.body with ⟨rest, split⟩
    have size : ((request.body.drop received.length).take count).length = count :=
      List.length_take_of_le reads.2.2
    have bound : count ≤ sizeT request.contentLength - received.length :=
      Nat.le_trans reads.2.1 (Nat.min_le_left _ _)
    refine ⟨?_, ?_, Nat.zero_le _, ?_⟩
    · rw [List.take_zero, List.append_nil]
      exact accepts
    · rw [← split, List.drop_left]
      exact (List.prefix_append_right_inj received).mpr (List.take_prefix count rest)
    · rw [List.length_append, size]
      omega
  next path file received chunk taken count =>
    rcases Option.ite_none_right_eq_some.mp moved with ⟨room, put⟩
    rw [← Option.some.inj put]
    rcases sound with ⟨accepts, isPrefix, _, bound⟩
    refine ⟨⟨accepts.requested, accepts.named, ?_, ?_⟩, isPrefix, room, bound⟩
    · have given := accepts.carries.put ((chunk.drop taken).take count)
      rw [List.append_assoc, ← List.take_add] at given
      exact given
    · exact ((List.prefix_append_right_inj received).mpr (List.take_prefix _ chunk)).trans isPrefix
  next path file received chunk taken count =>
    rw [← Option.some.inj moved]
    exact ⟨sound.1.flush count, sound.2⟩
  next path file received chunk taken =>
    rcases sound with ⟨accepts, isPrefix, inChunk, bound⟩
    split at moved
    next whole =>
      rw [← Option.some.inj moved]
      rw [whole, List.take_length] at accepts
      exact sound_loopHead accepts bound
    · rw [← Option.some.inj moved]
      rw [List.length_append] at bound
      refine ⟨_, accepts, ?_, by omega⟩
      rw [List.length_append, List.length_take_of_le inChunk]
  next path file written count =>
    rw [← Option.some.inj moved]
    rcases sound with ⟨bytes, accepts, counted⟩
    exact ⟨bytes, accepts.flush count, counted⟩
  next path file written =>
    rw [← Option.some.inj moved]
    trivial
  · exact absurd moved nofun

/-! ## Runs that keep everything -/

/-- What holds between two steps when no step before has lost anything. -/
def Whole (request : Request) (state : State) : Prop :=
  match state.pc with
  | .opening _ => True
  | .streaming _ _ _ => 0 ≤ request.contentLength
  | .writing _ _ _ _ _ => 0 ≤ request.contentLength
  | .closing _ _ written => (written : Int) = request.contentLength
  | .answered answer => Honest request state.disk answer

theorem whole_initial (request : Request) (disk : Disk (List UInt8)) :
    Whole request (initial request disk) := by
  unfold Whole initial
  cases request.path with
  | none => exact Or.inr (Nat.le_refl _)
  | some path => trivial

theorem whole_loopHead {received : List UInt8} (nonneg : 0 ≤ request.contentLength)
    (bound : received.length ≤ sizeT request.contentLength) :
    Whole request ⟨loopHead request path file received, disk⟩ := by
  unfold loopHead
  split
  · exact nonneg
  next complete =>
    change (received.length : Int) = request.contentLength
    have exact_ := sizeT_of_nonneg request nonneg
    omega

/-- A step that keeps everything leaves a state in which nothing is lost. -/
theorem whole_step (request : Request) (state : State) (event : Event) (next : State)
    (keeps : Keeps request state event) (moved : step request state event = some next)
    (sound : Sound request state) (whole : Whole request state) : Whole request next := by
  rcases state with ⟨pc, disk⟩
  unfold step at moved
  dsimp only at moved
  split at moved
  next path =>
    rw [← Option.some.inj moved]
    exact whole_loopHead keeps (Nat.zero_le _)
  next path errno =>
    rw [← Option.some.inj moved]
    exact Or.inr (Nat.le_add_right 400 100)
  next path file received => exact absurd keeps id
  next path file received count =>
    rcases Option.ite_none_right_eq_some.mp moved with ⟨_, taken⟩
    rw [← Option.some.inj taken]
    exact whole
  next path file received chunk taken count =>
    rcases Option.ite_none_right_eq_some.mp moved with ⟨_, put⟩
    rw [← Option.some.inj put]
    exact whole
  next path file received chunk taken count =>
    rw [← Option.some.inj moved]
    exact whole
  next path file received chunk taken =>
    have all : taken = chunk.length := keeps
    rw [if_pos all] at moved
    rw [← Option.some.inj moved]
    exact whole_loopHead whole sound.2.2.2
  next path file written count =>
    rw [← Option.some.inj moved]
    exact whole
  next path file written =>
    rw [← Option.some.inj moved]
    rcases sound with ⟨bytes, accepts, counted, _⟩
    rcases accepts.read with ⟨content, read, stored⟩
    have flushed : file.pending = [] := keeps
    rw [flushed, List.append_nil] at stored
    refine Or.inl ⟨rfl, path, content, accepts.requested, read, stored ▸ accepts.body, ?_⟩
    rw [stored, counted]
    exact whole
  · exact absurd moved nofun

/-! ## Runs that lose something -/

/-- The file is open, so the only answer left is success. -/
def Opened (state : State) : Prop :=
  match state.pc with
  | .opening _ => False
  | .answered answer => answer.status = 200
  | _ => True

/-- The file will be shorter than the announced length, read as a `size_t`. -/
def Short (request : Request) (state : State) : Prop :=
  match state.pc with
  | .closing _ _ written => written < sizeT request.contentLength
  | .answered _ => Exists fun path => Exists fun content =>
      request.path = some path ∧ state.disk.read path = some content ∧
        content.length < sizeT request.contentLength
  | _ => False

theorem opened_loopHead {received : List UInt8} :
    Opened ⟨loopHead request path file received, disk⟩ := by
  unfold loopHead
  split <;> trivial

theorem opened_step (request : Request) (state : State) (event : Event) (next : State)
    (moved : step request state event = some next) (opened : Opened state) : Opened next := by
  rcases state with ⟨pc, disk⟩
  unfold step at moved
  dsimp only at moved
  split at moved
  next => exact absurd opened id
  next => exact absurd opened id
  next =>
    rw [← Option.some.inj moved]
    trivial
  next =>
    rcases Option.ite_none_right_eq_some.mp moved with ⟨_, taken⟩
    rw [← Option.some.inj taken]
    trivial
  next =>
    rcases Option.ite_none_right_eq_some.mp moved with ⟨_, put⟩
    rw [← Option.some.inj put]
    trivial
  next =>
    rw [← Option.some.inj moved]
    trivial
  next =>
    split at moved
    · rw [← Option.some.inj moved]
      exact opened_loopHead
    · rw [← Option.some.inj moved]
      trivial
  next =>
    rw [← Option.some.inj moved]
    trivial
  next =>
    rw [← Option.some.inj moved]
    rfl
  · exact absurd moved nofun

/-- A file closed too early stays too short. -/
theorem short_step (request : Request) (state : State) (event : Event) (next : State)
    (moved : step request state event = some next) (sound : Sound request state)
    (short : Short request state) : Short request next := by
  rcases state with ⟨pc, disk⟩
  cases pc with
  | closing path file written =>
      cases event with
      | write count =>
          rw [← Option.some.inj moved]
          exact short
      | fclose =>
          rw [← Option.some.inj moved]
          rcases sound with ⟨bytes, accepts, counted, _⟩
          rcases accepts.read with ⟨content, read, stored⟩
          have below : written < sizeT request.contentLength := short
          refine ⟨path, content, accepts.requested, read, ?_⟩
          have size := congrArg List.length stored
          rw [List.length_append] at size
          omega
      | _ => exact absurd moved nofun
  | answered answer => exact absurd moved (by cases event <;> exact nofun)
  | _ => exact absurd short id

/-- Once the file is open, a step that does not keep everything loses something for good. -/
theorem lost_of_not_keeps (sound : Sound request state) (moved : step request state event = some next)
    (loses : ¬ Keeps request state event) :
    Opened next ∧ (request.contentLength < 0 ∨ Short request next) := by
  rcases state with ⟨pc, disk⟩
  unfold Keeps at loses
  dsimp only at loses
  split at loses
  next path =>
    rw [← Option.some.inj moved]
    exact ⟨opened_loopHead, Or.inl (Int.not_le.mp loses)⟩
  next path file received =>
    rw [← Option.some.inj moved]
    exact ⟨trivial, Or.inr sound.2⟩
  next path file received chunk taken =>
    have taken' : next = ⟨.closing path file (received.length + taken), disk⟩ := by
      refine (Option.some.inj ?_).symm
      rw [← moved]
      exact (if_neg loses).symm
    rw [taken']
    have bound := sound.2.2.2
    have inChunk := sound.2.2.1
    rw [List.length_append] at bound
    refine ⟨trivial, Or.inr ?_⟩
    change received.length + taken < sizeT request.contentLength
    omega
  next path file written =>
    rw [← Option.some.inj moved]
    rcases sound with ⟨bytes, accepts, counted, bound⟩
    rcases accepts.read with ⟨content, read, stored⟩
    have size := congrArg List.length stored
    rw [List.length_append] at size
    have waiting := List.length_pos_iff.mpr loses
    exact ⟨rfl, Or.inr ⟨path, content, accepts.requested, read, by omega⟩⟩
  · exact absurd trivial loses

/-- Success is not honest on a file that is too short, or without a length. -/
theorem not_honest_of_lost {answer : Answer} (opened : Opened ⟨.answered answer, disk⟩)
    (lost : request.contentLength < 0 ∨ Short request ⟨.answered answer, disk⟩) :
    ¬ Honest request disk answer := by
  have success : answer.status = 200 := opened
  rintro (⟨_, path, content, requested, read, _, complete⟩ | error)
  · rcases lost with negative | ⟨otherPath, other, otherRequested, otherRead, below⟩
    · omega
    · have samePath := Option.some.inj (requested.symm.trans otherRequested)
      subst samePath
      have same := Option.some.inj (read.symm.trans otherRead)
      subst same
      have exact_ := sizeT_of_nonneg request (by omega)
      omega
  · omega

/-! ## When an upload is answered honestly -/

variable {answer : Answer}

/-- The answer is success for a complete file and an error otherwise, if and only if
no step of the run loses anything. -/
theorem upload_honest_iff
    (run : Machine.exec (step request) (initial request disk) events = some final)
    (answered : final.pc = .answered answer) :
    Honest request final.disk answer ↔
      Machine.AllSteps (step request) (Keeps request) (initial request disk) events := by
  rcases final with ⟨pc, finalDisk⟩
  have isAnswered : pc = .answered answer := answered
  subst isAnswered
  constructor
  · intro honest
    by_contra missed
    rcases Machine.exists_step_of_not_allSteps run missed with
      ⟨before, event, after, middle, next, _, reached, loses, moved, ending⟩
    have sound : Sound request middle :=
      Machine.invariant_exec (sound_step request) reached (sound_initial request disk)
    have soundNext := sound_step request middle event next moved sound
    rcases lost_of_not_keeps sound moved loses with ⟨opened, negative | short⟩
    · have stays := Machine.invariant_exec (opened_step request) ending opened
      exact not_honest_of_lost stays (Or.inl negative) honest
    · have preserved : forall state event next, step request state event = some next ->
          (Sound request state ∧ Opened state ∧ Short request state) ->
            (Sound request next ∧ Opened next ∧ Short request next) := by
        intro state event next moved held
        exact ⟨sound_step request state event next moved held.1,
          opened_step request state event next moved held.2.1,
          short_step request state event next moved held.1 held.2.2⟩
      rcases Machine.invariant_exec preserved ending ⟨soundNext, opened, short⟩ with
        ⟨_, stays, staysShort⟩
      exact not_honest_of_lost stays (Or.inr staysShort) honest
  · intro kept
    have preserved : forall state event next, Keeps request state event ->
        step request state event = some next -> (Sound request state ∧ Whole request state) ->
          (Sound request next ∧ Whole request next) := by
      intro state event next keeps moved held
      exact ⟨sound_step request state event next moved held.1,
        whole_step request state event next keeps moved held.1 held.2⟩
    exact (Machine.invariant_exec_of_allSteps preserved run kept
      ⟨sound_initial request disk, whole_initial request disk⟩).2

/-! ## A body that ends early -/

/-- A disk without files. -/
def emptyDisk : Disk (List UInt8) := ⟨fun _ => none, fun _ => [], 0, nofun, nofun⟩

/-- Three bytes are announced for `/d/x`, and two are sent. -/
def shortRequest : Request := ⟨ascii "path=/d/x", 3, ascii "ab", by decide⟩

/-- The two bytes reach the file, and the next `SSL_read` finds the connection closed. -/
def shortEvents : List Event :=
  [.fopen none, .sslRead (some 2), .buffer 2, .fwrite, .sslRead none, .write 2, .fclose]

def shortFinal : State :=
  (Machine.exec (step shortRequest) (initial shortRequest emptyDisk) shortEvents).get (by decide)

theorem upload_honest_iff_short :
    Honest shortRequest shortFinal.disk (.stored 2) ↔
      Machine.AllSteps (step shortRequest) (Keeps shortRequest) (initial shortRequest emptyDisk)
        shortEvents :=
  upload_honest_iff (Option.some_get (by decide)).symm (by decide)

/-- The upload is reported as a success of two bytes. -/
theorem upload_reports_success_of_short_body :
    Machine.exec (step shortRequest) (initial shortRequest emptyDisk) shortEvents = some shortFinal ∧
      shortFinal.pc = .answered (.stored 2) ∧ shortFinal.disk.read (ascii "/d/x") = some (ascii "ab") ∧
      ¬ Honest shortRequest shortFinal.disk (.stored 2) := by
  refine ⟨(Option.some_get (by decide)).symm, by decide, by decide, ?_⟩
  rintro (⟨_, path, content, requested, read, _, complete⟩ | error)
  · have isPath : shortRequest.path = some (ascii "/d/x") := by decide
    have samePath := Option.some.inj (isPath.symm.trans requested)
    subst samePath
    have isRead : shortFinal.disk.read (ascii "/d/x") = some (ascii "ab") := by decide
    have same := Option.some.inj (isRead.symm.trans read)
    subst same
    exact absurd complete (by decide)
  · exact absurd error (by decide)

end Upload

end Handler
end AdbBridge
