import AdbBridge.Library.Files
import AdbBridge.Library.Machine
import AdbBridge.Library.Numeral

namespace AdbBridge
namespace Handler

open Library Library.Numeral Library.Files

/-!
# `handle_update`: the server replaces its own binary

Every request is served by a thread of its own.  The thread reads the path of the
binary from `/proc/self/exe`, streams the body to `<binary>.tmp` while it hashes
what it received, compares the hash and renames the file over the binary.  The body
goes through a stream of the C library, and the file step by step: each `write` of
the stream, the `fopen`, the `fclose`, the `unlink` and the `rename` are steps of
their own, so that the steps of several threads can come in any order.

`fsync` and `chmod` change no contents.  A `fclose` that fails to write the last
pending bytes loses them; the model keeps them in the thread, for the proofs only.
-/

namespace Update

/-! ## Requests -/

/-- A request: the query, the value of its `Content-Length`, and the bytes the
client sends behind the header block. -/
structure Request where
  query : List UInt8
  contentLength : Int
  body : List UInt8
deriving DecidableEq, Repr

def shaBuf : Nat := 128

/-- `expected_sha`: the value of a leading `sha256=`, up to the first `&`. -/
def expectedSha (query : List UInt8) : List UInt8 :=
  if (ascii "sha256=").isPrefixOf query then
    ((query.drop 7).take (shaBuf - 1)).takeWhile (fun byte => byte != 38)
  else []

/-- `computed_sha`: two lower-case digits for each byte of the digest. -/
def hexText (digest : List UInt8) : List UInt8 :=
  digest.flatMap (fun byte => [hexDigit (byte.toNat / 16), hexDigit (byte.toNat % 16)])

/-- `tolower` in the C locale. -/
def toLower (byte : UInt8) : UInt8 := if 65 ≤ byte ∧ byte ≤ 90 then byte + 32 else byte

/-- `strcasecmp` finds no difference. -/
def strcaseEq (first second : List UInt8) : Bool := first.map toLower == second.map toLower

/-- The running server: the path of its binary, the inode it was started from, and
the hash function of the TLS library. -/
structure Server where
  path : List UInt8
  exe : Nat
  sha256 : List UInt8 -> List UInt8
  short : path.length < 4096

/-- The content is the complete body of the request, and its SHA-256 is the parameter
of the request. -/
structure IsVerifiedBody (server : Server) (request : Request) (content : List UInt8) : Prop where
  parameter : (expectedSha request.query).length = 64
  body : content <+: request.body
  complete : (content.length : Int) = request.contentLength
  checksum : strcaseEq (hexText (server.sha256 content)) (expectedSha request.query) = true

/-! ## Errors -/

/-- The error responses of `handle_update`.  `errno` is the text of `strerror`. -/
inductive UpdateError where
  | invalidSha
  | missingBody
  | noBinaryPath
  | cannotOpen (tmpPath errno : List UInt8)
  | shortRead (got : Nat) (want : Int)
  | mismatch (expected got : List UInt8)
  | renameFailed (binaryPath errno : List UInt8)
deriving DecidableEq, Repr

namespace UpdateError

def status : UpdateError -> Nat
  | .noBinaryPath | .cannotOpen _ _ | .renameFailed _ _ => 500
  | _ => 400

/-- The text of the response, cut to the array `err` where it is formatted. -/
def message : UpdateError -> List UInt8
  | .invalidSha => ascii "missing or invalid sha256 query parameter (need 64 hex chars)"
  | .missingBody => ascii "missing body (Content-Length required)"
  | .noBinaryPath => ascii "cannot determine own binary path"
  | .cannotOpen tmpPath errno =>
      (ascii "cannot open temp file: " ++ tmpPath ++ ascii " (" ++ errno ++ ascii ")").take 511
  | .shortRead got want =>
      (ascii "short read: got " ++ ascii (toString got) ++ ascii " of " ++ ascii (toString want) ++
        ascii " bytes").take 127
  | .mismatch expected got =>
      (ascii "checksum mismatch: expected " ++ expected ++ ascii ", got " ++ got).take 255
  | .renameFailed binaryPath errno =>
      (ascii "rename failed: " ++ binaryPath ++ ascii " (" ++ errno ++ ascii ")").take 511

/-- The result of `handle_update`: whether `handle_client` shuts the connection down. -/
def result : UpdateError -> Nat
  | .invalidSha | .noBinaryPath | .cannotOpen _ _ => 0
  | _ => 1

end UpdateError

/-! ## Paths -/

/-- The link `/proc/self/exe` of a process whose binary was unlinked or replaced,
cut to `binary_path`. -/
def Server.deletedPath (server : Server) : List UInt8 := (server.path ++ ascii " (deleted)").take 4095

/-- `readlink("/proc/self/exe", binary_path, sizeof(binary_path) - 1)`. -/
def Server.readlink (server : Server) (disk : Disk (List UInt8)) : List UInt8 :=
  if disk.dir server.path = some server.exe then server.path else server.deletedPath

def tmpPath (binaryPath : List UInt8) : List UInt8 := (binaryPath ++ ascii ".tmp").take 4095

/-! ## Threads -/

def chunkSize : Nat := 65536

/-- Where a thread is.  `received` are the bytes hashed so far; of `chunk` the first
`taken` bytes are in the buffer of the stream; `lost` are the bytes `fclose` did not
write. -/
inductive Pc where
  | entered
  | opening (binaryPath : List UInt8)
  | streaming (binaryPath : List UInt8) (file : Stream) (received : List UInt8)
  | writing (binaryPath : List UInt8) (file : Stream) (received chunk : List UInt8)
      (taken : Nat)
  | closing (binaryPath : List UInt8) (file : Stream) (received : List UInt8)
      (failure : Option UpdateError)
  | unlinking (binaryPath : List UInt8) (error : UpdateError)
  | replacing (binaryPath received lost : List UInt8)
  | execing
  | exited
  | returned (error : UpdateError)
deriving DecidableEq, Repr

/-- A step of a thread, with the answer of the call.  `buffer` and `write` are steps
inside `fwrite` and `fclose`; `fwrite` is its return. -/
inductive Action where
  | readlink (succeeds : Bool)
  | fopen (errno : Option (List UInt8))
  | sslRead (count : Option Nat)
  | buffer (count : Nat)
  | write (count : Nat)
  | fwrite
  | fclose
  | unlink (succeeds : Bool)
  | rename (errno : Option (List UInt8))
  | execv
deriving DecidableEq, Repr

/-- The checks before the first call. -/
def Request.entry (request : Request) : Pc :=
  if (expectedSha request.query).length ≠ 64 then .returned .invalidSha
  else if request.contentLength ≤ 0 then .returned .missingBody
  else .entered

section Steps

variable (server : Server) (request : Request)

/-- Behind the loop: the length and the checksum decide how the file is closed. -/
def afterLoop (binaryPath : List UInt8) (file : Stream) (received : List UInt8) : Pc :=
  .closing binaryPath file received
    (if (received.length : Int) ≠ request.contentLength then
      some (.shortRead received.length request.contentLength)
    else if strcaseEq (hexText (server.sha256 received)) (expectedSha request.query) then none
    else some (.mismatch (expectedSha request.query) (hexText (server.sha256 received))))

/-- The condition of the loop. -/
def loopHead (binaryPath : List UInt8) (file : Stream) (received : List UInt8) : Pc :=
  if (received.length : Int) < request.contentLength then .streaming binaryPath file received
  else afterLoop server request binaryPath file received

/-- The most that one `SSL_read` asks for. -/
def toRead (received : List UInt8) : Nat :=
  min (request.contentLength.toNat - received.length) chunkSize

/-- One step of a thread.  The running binary cannot be opened for writing. -/
def Pc.next (disk : Disk (List UInt8)) :
    Pc -> Action -> Option (Pc × Disk (List UInt8))
  | .entered, .readlink true => some (.opening (server.readlink disk), disk)
  | .entered, .readlink false => some (.returned .noBinaryPath, disk)
  | .opening binaryPath, .fopen none =>
      if disk.dir (tmpPath binaryPath) = some server.exe then none
      else
        let opened := disk.openTrunc (tmpPath binaryPath)
        some (.streaming binaryPath ⟨opened.2, 0, []⟩ [], opened.1)
  | .opening binaryPath, .fopen (some errno) =>
      some (.returned (.cannotOpen (tmpPath binaryPath) errno), disk)
  | .streaming binaryPath file received, .sslRead none =>
      some (afterLoop server request binaryPath file received, disk)
  | .streaming binaryPath file received, .sslRead (some count) =>
      let coming := request.body.drop received.length
      if 0 < count ∧ count ≤ toRead request received ∧ count ≤ coming.length then
        some (.writing binaryPath file received (coming.take count) 0, disk)
      else none
  | .writing binaryPath file received chunk taken, .buffer count =>
      if taken + count ≤ chunk.length then
        some (.writing binaryPath (file.put ((chunk.drop taken).take count)) received chunk
          (taken + count), disk)
      else none
  | .writing binaryPath file received chunk taken, .write count =>
      let flushed := file.flush disk count
      some (.writing binaryPath flushed.1 received chunk taken, flushed.2)
  | .writing binaryPath file received chunk taken, .fwrite =>
      if taken = chunk.length then
        some (loopHead server request binaryPath file (received ++ chunk), disk)
      else some (afterLoop server request binaryPath file received, disk)
  | .closing binaryPath file received failure, .write count =>
      let flushed := file.flush disk count
      some (.closing binaryPath flushed.1 received failure, flushed.2)
  | .closing binaryPath file received none, .fclose =>
      some (.replacing binaryPath received file.pending, disk)
  | .closing binaryPath _ _ (some error), .fclose => some (.unlinking binaryPath error, disk)
  | .unlinking binaryPath error, .unlink true =>
      some (.returned error, disk.unlink (tmpPath binaryPath))
  | .unlinking _ error, .unlink false => some (.returned error, disk)
  | .replacing binaryPath _ _, .rename none =>
      (disk.rename (tmpPath binaryPath) binaryPath).map (fun renamed => (.execing, renamed))
  | .replacing binaryPath _ _, .rename (some errno) =>
      some (.returned (.renameFailed binaryPath errno), disk)
  | .execing, .execv => some (.exited, disk)
  | _, _ => none

end Steps

/-! ## The server -/

/-- A request and the thread that serves it. -/
structure Thread where
  request : Request
  pc : Pc
deriving DecidableEq, Repr

/-- The disk, the threads, and what was renamed onto the binary, the latest first.
`halted` is set once `execv` replaced the process, or failed and `exit` ended it. -/
structure State where
  disk : Disk (List UInt8)
  threads : List Thread
  installed : List (List UInt8)
  halted : Bool

/-- A thread and its step. -/
structure Event where
  thread : Nat
  action : Action
deriving DecidableEq, Repr

/-- The server before the requests take their first step. -/
def initial (disk : Disk (List UInt8)) (requests : List Request) : State :=
  ⟨disk, requests.map (fun request => ⟨request, request.entry⟩), [], false⟩

/-- The path that a step replaces. -/
def Pc.replaces : Pc -> Action -> Option (List UInt8)
  | .replacing binaryPath _ _, .rename none => some binaryPath
  | _, _ => none

/-- One step of the server. -/
def step (server : Server) (state : State) (event : Event) : Option State :=
  if state.halted then none
  else
    (state.threads[event.thread]?).bind (fun thread =>
      (thread.pc.next server thread.request state.disk event.action).map (fun moved =>
        { disk := moved.2
          threads := state.threads.set event.thread ⟨thread.request, moved.1⟩
          installed :=
            if thread.pc.replaces event.action = some server.path then
              (moved.2.read server.path).toList ++ state.installed
            else state.installed
          halted := moved.1 = .exited }))

/-! ## The temporary files -/

/-- The path that a thread read, on a server whose path leaves room for at least one
byte behind it in `tmp_path`. -/
structure Server.Links (server : Server) (binaryPath : List UInt8) : Prop where
  room : server.path.length < 4095
  link : binaryPath = server.path ∨ binaryPath = server.deletedPath

section Paths

variable {server : Server} {first second binaryPath : List UInt8}

theorem getElem?_deletedPath (room : server.path.length < 4095) :
    server.deletedPath[server.path.length]? = some 32 := by
  unfold Server.deletedPath
  rw [List.getElem?_take_of_lt room, List.getElem?_append_right (Nat.le_refl _), Nat.sub_self]
  rfl

/-- Behind the path of the server, its temporary file has a dot and the one of a
deleted binary a blank. -/
theorem getElem?_tmpPath (links : server.Links binaryPath) :
    (binaryPath = server.path ∧ (tmpPath binaryPath)[server.path.length]? = some 46) ∨
      (binaryPath = server.deletedPath ∧ (tmpPath binaryPath)[server.path.length]? = some 32) := by
  unfold tmpPath
  rw [List.getElem?_take_of_lt links.room]
  rcases links.link with rfl | rfl
  · left
    rw [List.getElem?_append_right (Nat.le_refl _), Nat.sub_self]
    exact ⟨rfl, rfl⟩
  · right
    have blank := getElem?_deletedPath links.room
    have inside := (List.getElem?_eq_some_iff.mp blank).1
    rw [List.getElem?_append_left inside]
    exact ⟨rfl, blank⟩

/-- No temporary file is the binary. -/
theorem path_ne_tmpPath (links : server.Links binaryPath) : server.path ≠ tmpPath binaryPath := by
  intro same
  have beyond : (tmpPath binaryPath)[server.path.length]? = none := by
    rw [← same]
    exact List.getElem?_eq_none (Nat.le_refl _)
  rcases getElem?_tmpPath links with ⟨_, byte⟩ | ⟨_, byte⟩ <;>
    · rw [beyond] at byte
      exact absurd byte nofun

/-- The path a thread renames to is no other thread's temporary file. -/
theorem ne_tmpPath (firstLinks : server.Links first) (secondLinks : server.Links second)
    (different : tmpPath second ≠ tmpPath first) : first ≠ tmpPath second := by
  intro same
  rcases getElem?_tmpPath firstLinks with ⟨firstIs, _⟩ | ⟨firstIs, firstByte⟩
  · exact path_ne_tmpPath secondLinks (firstIs.symm.trans same)
  · rcases getElem?_tmpPath secondLinks with ⟨_, secondByte⟩ | ⟨secondIs, _⟩
    · rw [← same, firstIs, getElem?_deletedPath firstLinks.room] at secondByte
      exact absurd secondByte (by decide)
    · exact different (congrArg tmpPath (secondIs.trans firstIs.symm))

/-- Where the path leaves no room, the temporary file is the binary itself. -/
theorem tmpPath_eq_path (full : server.path.length = 4095)
    (link : binaryPath = server.path ∨ binaryPath = server.deletedPath) :
    tmpPath binaryPath = server.path := by
  have deleted : server.deletedPath = server.path := by
    rw [Server.deletedPath, List.take_append_of_le_length (by omega), List.take_of_length_le (by omega)]
  have whole : binaryPath = server.path := link.elim id (fun same => same.trans deleted)
  rw [whole, tmpPath, List.take_append_of_le_length (by omega), List.take_of_length_le (by omega)]

end Paths

/-! ## What a thread relies on -/

/-- The path of a thread between its `fopen` and its `unlink` or `rename`. -/
def Pc.opened : Pc -> Option (List UInt8)
  | .streaming binaryPath _ _ | .writing binaryPath _ _ _ _ | .closing binaryPath _ _ _
  | .unlinking binaryPath _ | .replacing binaryPath _ _ => some binaryPath
  | _ => none

/-- The path beside which a step changes the temporary file. -/
def Pc.changes : Pc -> Action -> Option (List UInt8)
  | .opening binaryPath, .fopen none => some binaryPath
  | pc, _ => pc.opened

/-- The request passed the checks before the first call. -/
structure Accepted (request : Request) : Prop where
  parameter : (expectedSha request.query).length = 64
  positive : 0 < request.contentLength

/-- The stream of a thread is on its temporary file and was given these bytes. -/
structure Holds (server : Server) (disk : Disk (List UInt8)) (binaryPath : List UInt8)
    (file : Stream) (bytes : List UInt8) : Prop where
  links : server.Links binaryPath
  named : disk.dir (tmpPath binaryPath) = some file.inode
  carries : file.Carries disk bytes

/-- What holds of the disk and the variables of a thread at each position. -/
def Sound (server : Server) (disk : Disk (List UInt8)) (request : Request) : Pc -> Prop
  | .entered => Accepted request
  | .opening binaryPath =>
      Accepted request ∧ (binaryPath = server.path ∨ binaryPath = server.deletedPath)
  | .streaming binaryPath file received =>
      Accepted request ∧ Holds server disk binaryPath file received ∧ received <+: request.body ∧
        (received.length : Int) < request.contentLength
  | .writing binaryPath file received chunk taken =>
      Accepted request ∧ Holds server disk binaryPath file (received ++ chunk.take taken) ∧
        received ++ chunk <+: request.body ∧ 0 < chunk.length ∧
          ((received ++ chunk).length : Int) ≤ request.contentLength
  | .closing binaryPath file received failure =>
      Exists fun bytes => Holds server disk binaryPath file bytes ∧
        (failure = none -> bytes = received ∧ IsVerifiedBody server request received)
  | .unlinking binaryPath _ => server.Links binaryPath
  | .replacing binaryPath received lost =>
      server.Links binaryPath ∧ IsVerifiedBody server request received ∧
        Exists fun stored => disk.read (tmpPath binaryPath) = some stored ∧ stored ++ lost = received
  | _ => True

section OneThread

variable {server : Server} {request : Request} {disk after : Disk (List UInt8)}
  {binaryPath bytes : List UInt8} {file : Stream} {pc next : Pc} {action : Action}

theorem Holds.of_sameFile (holds : Holds server disk binaryPath file bytes)
    (same : SameFile disk after (tmpPath binaryPath)) : Holds server after binaryPath file bytes :=
  ⟨holds.links, same.dir.trans holds.named, holds.carries.of_sameFile holds.named same⟩

theorem Holds.flush (holds : Holds server disk binaryPath file bytes) (count : Nat) :
    Holds server (file.flush disk count).2 binaryPath (file.flush disk count).1 bytes :=
  ⟨holds.links, holds.named, holds.carries.flush count⟩

/-- A thread notices nothing of what happens to other files. -/
theorem Sound.of_sameFile (sound : Sound server disk request pc)
    (same : forall binaryPath, pc.opened = some binaryPath ->
      SameFile disk after (tmpPath binaryPath)) : Sound server after request pc := by
  cases pc with
  | streaming binaryPath file received =>
      exact ⟨sound.1, sound.2.1.of_sameFile (same binaryPath rfl), sound.2.2⟩
  | writing binaryPath file received chunk taken =>
      exact ⟨sound.1, sound.2.1.of_sameFile (same binaryPath rfl), sound.2.2⟩
  | closing binaryPath file received failure =>
      rcases sound with ⟨bytes, holds, verified⟩
      exact ⟨bytes, holds.of_sameFile (same binaryPath rfl), verified⟩
  | replacing binaryPath received lost =>
      rcases sound with ⟨links, verified, stored, read, whole⟩
      exact ⟨links, verified, stored, (same binaryPath rfl).read_eq.trans read, whole⟩
  | _ => exact sound

/-- The path a thread works with has room behind it. -/
theorem Sound.links (sound : Sound server disk request pc) (opened : pc.opened = some binaryPath) :
    server.Links binaryPath := by
  cases pc with
  | streaming path file received => exact Option.some.inj opened ▸ sound.2.1.links
  | writing path file received chunk taken => exact Option.some.inj opened ▸ sound.2.1.links
  | closing path file received failure =>
      rcases sound with ⟨bytes, holds, verified⟩
      exact Option.some.inj opened ▸ holds.links
  | unlinking path error => exact Option.some.inj opened ▸ sound
  | replacing path received lost => exact Option.some.inj opened ▸ sound.1
  | _ => exact absurd opened nofun

/-- The bytes read next continue the ones received. -/
theorem received_append_take {received body : List UInt8} (isPrefix : received <+: body) (count : Nat) :
    received ++ (body.drop received.length).take count <+: body := by
  rcases isPrefix with ⟨rest, rfl⟩
  rw [List.drop_left]
  exact (List.prefix_append_right_inj received).mpr (List.take_prefix count rest)

/-- Behind the loop only a complete body with the right checksum is renamed. -/
theorem sound_afterLoop {received : List UInt8} (accepted : Accepted request)
    (holds : Holds server disk binaryPath file bytes) (isPrefix : received <+: request.body)
    (given : (received.length : Int) = request.contentLength -> bytes = received) :
    Sound server disk request (afterLoop server request binaryPath file received) := by
  refine ⟨bytes, holds, fun succeeded => ?_⟩
  split at succeeded
  · exact absurd succeeded nofun
  next complete =>
    split at succeeded
    next checksum =>
      exact ⟨given (not_not.mp complete), accepted.parameter, isPrefix, not_not.mp complete, checksum⟩
    · exact absurd succeeded nofun

theorem sound_loopHead {received : List UInt8} (accepted : Accepted request)
    (holds : Holds server disk binaryPath file received) (isPrefix : received <+: request.body) :
    Sound server disk request (loopHead server request binaryPath file received) := by
  unfold loopHead
  split
  next more => exact ⟨accepted, holds, isPrefix, more⟩
  · exact sound_afterLoop accepted holds isPrefix (fun _ => rfl)

theorem sound_entry (request : Request) : Sound server disk request request.entry := by
  unfold Request.entry
  split
  · trivial
  next parameter =>
    split
    · trivial
    next positive => exact ⟨not_not.mp parameter, Int.not_le.mp positive⟩

theorem opened_entry (request : Request) : request.entry.opened = none := by
  unfold Request.entry
  split
  · rfl
  · split <;> rfl

theorem readlink_cases (server : Server) (disk : Disk (List UInt8)) :
    server.readlink disk = server.path ∨ server.readlink disk = server.deletedPath := by
  unfold Server.readlink
  split
  · exact Or.inl rfl
  · exact Or.inr rfl

/-- A path without room is the binary, which cannot be opened while it runs. -/
theorem links_of_fopen (link : binaryPath = server.path ∨ binaryPath = server.deletedPath)
    (running : server.path.length = 4095 -> disk.dir server.path = some server.exe)
    (writable : disk.dir (tmpPath binaryPath) ≠ some server.exe) : server.Links binaryPath := by
  refine ⟨?_, link⟩
  by_contra full
  have exact_ : server.path.length = 4095 := by
    have short := server.short
    omega
  rw [tmpPath_eq_path exact_ link] at writable
  exact writable (running exact_)

/-- A step keeps what its thread relies on. -/
theorem next_sound (moved : pc.next server request disk action = some (next, after))
    (running : server.path.length = 4095 -> disk.dir server.path = some server.exe)
    (sound : Sound server disk request pc) : Sound server after request next := by
  unfold Pc.next at moved
  split at moved
  next =>
    rcases Prod.mk.inj (Option.some.inj moved) with ⟨rfl, rfl⟩
    exact ⟨sound, readlink_cases server disk⟩
  next =>
    rcases Prod.mk.inj (Option.some.inj moved) with ⟨rfl, rfl⟩
    trivial
  next path =>
    split at moved
    · exact absurd moved nofun
    next writable =>
      rcases Prod.mk.inj (Option.some.inj moved) with ⟨rfl, rfl⟩
      have links := links_of_fopen sound.2 running writable
      refine ⟨sound.1, ⟨links, dir_openTrunc disk _, Stream.carries_openTrunc disk _⟩,
        List.nil_prefix, ?_⟩
      exact sound.1.positive
  next path errno =>
    rcases Prod.mk.inj (Option.some.inj moved) with ⟨rfl, rfl⟩
    trivial
  next path file received =>
    rcases Prod.mk.inj (Option.some.inj moved) with ⟨rfl, rfl⟩
    rcases sound with ⟨accepted, holds, isPrefix, _⟩
    exact sound_afterLoop accepted holds isPrefix (fun _ => rfl)
  next path file received count =>
    dsimp only at moved
    split at moved
    next reads =>
      rcases Prod.mk.inj (Option.some.inj moved) with ⟨rfl, rfl⟩
      rcases sound with ⟨accepted, holds, isPrefix, more⟩
      have size : ((request.body.drop received.length).take count).length = count :=
        List.length_take_of_le reads.2.2
      have bound : count ≤ request.contentLength.toNat - received.length :=
        Nat.le_trans reads.2.1 (Nat.min_le_left _ _)
      refine ⟨accepted, ?_, ?_, by omega, ?_⟩
      · rw [List.take_zero, List.append_nil]
        exact holds
      · exact received_append_take isPrefix count
      · rw [List.length_append, size]
        omega
    · exact absurd moved nofun
  next path file received chunk taken count =>
    split at moved
    · rcases Prod.mk.inj (Option.some.inj moved) with ⟨rfl, rfl⟩
      rcases sound with ⟨accepted, holds, isPrefix, positive, bound⟩
      refine ⟨accepted, ⟨holds.links, holds.named, ?_⟩, isPrefix, positive, bound⟩
      have given := holds.carries.put ((chunk.drop taken).take count)
      rw [List.append_assoc, ← List.take_add] at given
      exact given
    · exact absurd moved nofun
  next path file received chunk taken count =>
    rcases Prod.mk.inj (Option.some.inj moved) with ⟨rfl, rfl⟩
    rcases sound with ⟨accepted, holds, isPrefix, positive, bound⟩
    exact ⟨accepted, holds.flush count, isPrefix, positive, bound⟩
  next path file received chunk taken =>
    rcases sound with ⟨accepted, holds, isPrefix, positive, bound⟩
    split at moved
    next all =>
      rcases Prod.mk.inj (Option.some.inj moved) with ⟨rfl, rfl⟩
      rw [all, List.take_length] at holds
      exact sound_loopHead accepted holds isPrefix
    · rcases Prod.mk.inj (Option.some.inj moved) with ⟨rfl, rfl⟩
      -- The chunk does not count as received, so the body is not complete.
      refine sound_afterLoop accepted holds ((List.prefix_append _ _).trans isPrefix) (fun complete => ?_)
      rw [List.length_append] at bound
      omega
  next path file received failure count =>
    rcases Prod.mk.inj (Option.some.inj moved) with ⟨rfl, rfl⟩
    rcases sound with ⟨bytes, holds, verified⟩
    exact ⟨bytes, holds.flush count, verified⟩
  next path file received =>
    rcases Prod.mk.inj (Option.some.inj moved) with ⟨rfl, rfl⟩
    rcases sound with ⟨bytes, holds, verified⟩
    rcases verified rfl with ⟨rfl, complete⟩
    refine ⟨holds.links, complete, disk.contents file.inode, ?_, holds.carries.bytes⟩
    rw [Disk.read, holds.named]
    rfl
  next path file received error =>
    rcases Prod.mk.inj (Option.some.inj moved) with ⟨rfl, rfl⟩
    rcases sound with ⟨bytes, holds, _⟩
    exact holds.links
  next =>
    rcases Prod.mk.inj (Option.some.inj moved) with ⟨rfl, rfl⟩
    trivial
  next =>
    rcases Prod.mk.inj (Option.some.inj moved) with ⟨rfl, rfl⟩
    trivial
  next path received lost =>
    rcases Option.map_eq_some_iff.mp moved with ⟨renamed, _, same⟩
    rcases Prod.mk.inj same with ⟨rfl, rfl⟩
    trivial
  next =>
    rcases Prod.mk.inj (Option.some.inj moved) with ⟨rfl, rfl⟩
    trivial
  next =>
    rcases Prod.mk.inj (Option.some.inj moved) with ⟨rfl, rfl⟩
    trivial
  · exact absurd moved nofun

/-- A step that leaves the disk alone changes no file. -/
theorem sameFile_of_moved {other : List UInt8} {reached : Pc}
    (moved : some (reached, disk) = some (next, after)) : SameFile disk after other := by
  rw [← (Prod.mk.inj (Option.some.inj moved)).2]
  exact SameFile.refl disk other

/-- What a thread has open after a step is read off the position reached. -/
theorem opened_of_moved {reached : Pc} {changed : Disk (List UInt8)} {path : Option (List UInt8)}
    (moved : some (reached, changed) = some (next, after)) (works : reached.opened = path)
    (opened : next.opened = some binaryPath) : path = some binaryPath := by
  rw [← (Prod.mk.inj (Option.some.inj moved)).1, works] at opened
  exact opened

/-- A step of a thread changes files at its temporary path and at the path it
renames to only. -/
theorem next_sameFile {other : List UInt8}
    (moved : pc.next server request disk action = some (next, after))
    (sound : Sound server disk request pc)
    (notTmp : forall path, pc.changes action = some path -> other ≠ tmpPath path)
    (notTarget : pc.replaces action ≠ some other) : SameFile disk after other := by
  unfold Pc.next at moved
  split at moved
  next => exact sameFile_of_moved moved
  next => exact sameFile_of_moved moved
  next path =>
    split at moved
    · exact absurd moved nofun
    · rcases Prod.mk.inj (Option.some.inj moved) with ⟨_, rfl⟩
      exact sameFile_openTrunc (notTmp path rfl)
  next => exact sameFile_of_moved moved
  next => exact sameFile_of_moved moved
  next =>
    dsimp only at moved
    split at moved
    · exact sameFile_of_moved moved
    · exact absurd moved nofun
  next =>
    split at moved
    · exact sameFile_of_moved moved
    · exact absurd moved nofun
  next path file received chunk taken count =>
    rcases Prod.mk.inj (Option.some.inj moved) with ⟨_, rfl⟩
    exact sameFile_write sound.2.1.named (notTmp path rfl)
  next =>
    split at moved <;> exact sameFile_of_moved moved
  next path file received failure count =>
    rcases Prod.mk.inj (Option.some.inj moved) with ⟨_, rfl⟩
    rcases sound with ⟨bytes, holds, _⟩
    exact sameFile_write holds.named (notTmp path rfl)
  next => exact sameFile_of_moved moved
  next => exact sameFile_of_moved moved
  next path error =>
    rcases Prod.mk.inj (Option.some.inj moved) with ⟨_, rfl⟩
    exact sameFile_unlink (notTmp path rfl)
  next => exact sameFile_of_moved moved
  next path received lost =>
    rcases Option.map_eq_some_iff.mp moved with ⟨renamed, took, same⟩
    rcases Prod.mk.inj same with ⟨_, rfl⟩
    exact (rename_spec took).2 other (notTmp path rfl) (fun target => notTarget (congrArg some target.symm))
  next => exact sameFile_of_moved moved
  next => exact sameFile_of_moved moved
  · exact absurd moved nofun

/-- A thread that has its temporary file open had it open before, or opened it. -/
theorem changes_of_opened (moved : pc.next server request disk action = some (next, after))
    (opened : next.opened = some binaryPath) : pc.changes action = some binaryPath := by
  unfold Pc.next at moved
  split at moved
  next => exact absurd (opened_of_moved moved rfl opened) nofun
  next => exact absurd (opened_of_moved moved rfl opened) nofun
  next path =>
    split at moved
    · exact absurd moved nofun
    · exact opened_of_moved moved rfl opened
  next => exact absurd (opened_of_moved moved rfl opened) nofun
  next => exact opened_of_moved moved rfl opened
  next =>
    dsimp only at moved
    split at moved
    · exact opened_of_moved moved rfl opened
    · exact absurd moved nofun
  next =>
    split at moved
    · exact opened_of_moved moved rfl opened
    · exact absurd moved nofun
  next => exact opened_of_moved moved rfl opened
  next =>
    split at moved
    · refine opened_of_moved moved ?_ opened
      unfold loopHead
      split <;> rfl
    · exact opened_of_moved moved rfl opened
  next => exact opened_of_moved moved rfl opened
  next => exact opened_of_moved moved rfl opened
  next => exact opened_of_moved moved rfl opened
  next => exact absurd (opened_of_moved moved rfl opened) nofun
  next => exact absurd (opened_of_moved moved rfl opened) nofun
  next =>
    rcases Option.map_eq_some_iff.mp moved with ⟨renamed, _, same⟩
    rw [← (Prod.mk.inj same).1] at opened
    exact absurd opened nofun
  next => exact absurd (opened_of_moved moved rfl opened) nofun
  next => exact absurd (opened_of_moved moved rfl opened) nofun
  · exact absurd moved nofun

/-- The path beside which a step changes a file has room behind it. -/
theorem links_of_changes (moved : pc.next server request disk action = some (next, after))
    (running : server.path.length = 4095 -> disk.dir server.path = some server.exe)
    (sound : Sound server disk request pc) (changes : pc.changes action = some binaryPath) :
    server.Links binaryPath := by
  unfold Pc.changes at changes
  split at changes
  next path =>
    simp only [Pc.next] at moved
    split at moved
    · exact absurd moved nofun
    next writable => exact Option.some.inj changes ▸ links_of_fopen sound.2 running writable
  · exact sound.links changes

end OneThread

end Update
end Handler
end AdbBridge
