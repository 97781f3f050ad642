import AdbBridge.Handler.Update

namespace AdbBridge
namespace Handler

open Library Library.Numeral Library.Files

/-!
# What self-updates install

The invariant of the server puts the threads of `handle_update` together: each thread
relies on its own temporary file, and no step of another thread touches it as long as
a temporary file is opened by one request at a time.  The server does not see to
that, and it does not look at the result of `fclose`; both conditions are stated on
the steps of a run.
-/

namespace Update

/-! ## The invariant of the server -/

/-- A temporary file is opened only while no other request has it open: between its
`fopen` and its `unlink` or `rename`. -/
def Exclusive (state : State) (event : Event) : Prop :=
  match state.threads[event.thread]?, event.action with
  | some ⟨_, .opening binaryPath⟩, .fopen none =>
      forall index, index < state.threads.length -> index ≠ event.thread ->
        forall other, other ∈ state.threads[index]? ->
          forall otherPath, otherPath ∈ other.pc.opened -> tmpPath otherPath ≠ tmpPath binaryPath
  | _, _ => True

instance (state : State) (event : Event) : Decidable (Exclusive state event) := by
  unfold Exclusive
  split <;> infer_instance

/-- The disk and the threads agree, no two threads have one temporary file open, and
the binary is what was installed last. -/
structure Inv (server : Server) (requests : List Request) (old : List UInt8) (state : State) : Prop where
  requests : state.threads.map Thread.request = requests
  sound : forall (index : Nat) (thread : Thread), state.threads[index]? = some thread ->
    Sound server state.disk thread.request thread.pc
  apart : forall (first second : Nat) (firstThread secondThread : Thread) firstPath secondPath,
    first ≠ second -> state.threads[first]? = some firstThread ->
      state.threads[second]? = some secondThread -> firstThread.pc.opened = some firstPath ->
        secondThread.pc.opened = some secondPath -> tmpPath firstPath ≠ tmpPath secondPath
  running : server.path.length = 4095 -> state.disk.dir server.path = some server.exe
  binary : state.disk.read server.path = some (state.installed.headD old)

section Server

variable {server : Server} {requests : List Request} {old : List UInt8} {state next : State}
  {event : Event}

/-- A step of the server is a step of one of its threads. -/
theorem step_cases (stepped : step server state event = some next) :
    Exists fun thread => Exists fun reached => Exists fun disk =>
      state.threads[event.thread]? = some thread ∧
        thread.pc.next server thread.request state.disk event.action = some (reached, disk) ∧
        next.disk = disk ∧
        next.threads = state.threads.set event.thread ⟨thread.request, reached⟩ ∧
        next.installed =
          if thread.pc.replaces event.action = some server.path then
            (disk.read server.path).toList ++ state.installed
          else state.installed := by
  unfold step at stepped
  split at stepped
  · exact absurd stepped nofun
  · rcases Option.bind_eq_some_iff.mp stepped with ⟨thread, at_, moving⟩
    rcases Option.map_eq_some_iff.mp moving with ⟨⟨reached, disk⟩, moved, rfl⟩
    exact ⟨thread, reached, disk, at_, moved, rfl, rfl, rfl⟩

/-- A temporary file that a step changes is no other thread's. -/
theorem Inv.changes_apart (inv : Inv server requests old state) (exclusive : Exclusive state event)
    {thread other : Thread} {index : Nat} {path otherPath : List UInt8}
    (at_ : state.threads[event.thread]? = some thread) (changes : thread.pc.changes event.action = some path)
    (otherIndex : index ≠ event.thread) (otherAt : state.threads[index]? = some other)
    (opened : other.pc.opened = some otherPath) : tmpPath otherPath ≠ tmpPath path := by
  unfold Pc.changes at changes
  split at changes
  next opening action pc called =>
    obtain ⟨request, at'⟩ := thread
    dsimp only at pc
    subst pc
    simp only [Exclusive, at_, called] at exclusive
    rw [← Option.some.inj changes]
    exact exclusive index (List.getElem?_eq_some_iff.mp otherAt).1 otherIndex other otherAt otherPath opened
  · exact inv.apart index event.thread other thread otherPath path otherIndex otherAt at_ opened changes

/-- A rename to the binary installs what the temporary file holds. -/
theorem replaces_cases {request : Request} {disk after : Disk (List UInt8)} {pc reached : Pc}
    {action : Action} {target : List UInt8}
    (moved : pc.next server request disk action = some (reached, after))
    (sound : Sound server disk request pc) (replaces : pc.replaces action = some target) :
    Exists fun received => Exists fun lost => Exists fun stored =>
      pc = .replacing target received lost ∧ action = .rename none ∧
        IsVerifiedBody server request received ∧ stored ++ lost = received ∧
          after.read target = some stored ∧ reached = .execing := by
  unfold Pc.replaces at replaces
  split at replaces
  next path received lost =>
    rcases Option.some.inj replaces with rfl
    rcases sound with ⟨_, verified, stored, read, whole⟩
    rcases Option.map_eq_some_iff.mp moved with ⟨renamed, took, same⟩
    rcases Prod.mk.inj same with ⟨rfl, rfl⟩
    exact ⟨received, lost, stored, rfl, rfl, verified, whole, (rename_spec took).1.trans read, rfl⟩
  · exact absurd replaces nofun

section Moved

variable {thread : Thread} {reached : Pc} {disk : Disk (List UInt8)}

/-- What another thread has open is neither changed by a step nor the target of its rename. -/
theorem Inv.sameFile_other (inv : Inv server requests old state) (exclusive : Exclusive state event)
    (at_ : state.threads[event.thread]? = some thread)
    (moved : thread.pc.next server thread.request state.disk event.action = some (reached, disk))
    {other : Thread} {index : Nat} {otherPath : List UInt8} (otherIndex : index ≠ event.thread)
    (otherAt : state.threads[index]? = some other) (opened : other.pc.opened = some otherPath) :
    SameFile state.disk disk (tmpPath otherPath) := by
  have sound := inv.sound event.thread thread at_
  have different : forall path, thread.pc.changes event.action = some path ->
      tmpPath otherPath ≠ tmpPath path :=
    fun path changes => inv.changes_apart exclusive at_ changes otherIndex otherAt opened
  refine next_sameFile moved sound different (fun target => ?_)
  rcases replaces_cases moved sound target with ⟨received, lost, stored, pc, called, _⟩
  have changes : thread.pc.changes event.action = some (tmpPath otherPath) := by
    rw [pc, called]
    rfl
  exact ne_tmpPath (links_of_changes moved inv.running sound changes)
    ((inv.sound index other otherAt).links opened) (different _ changes) rfl

/-- Only a rename to the binary changes it. -/
theorem Inv.sameFile_binary (inv : Inv server requests old state)
    (at_ : state.threads[event.thread]? = some thread)
    (moved : thread.pc.next server thread.request state.disk event.action = some (reached, disk))
    (notTarget : thread.pc.replaces event.action ≠ some server.path) :
    SameFile state.disk disk server.path := by
  have sound := inv.sound event.thread thread at_
  exact next_sameFile moved sound
    (fun path changes => path_ne_tmpPath (links_of_changes moved inv.running sound changes)) notTarget

end Moved

/-- One step keeps the invariant, if it opens no temporary file that another request has open. -/
theorem step_inv (stepped : step server state event = some next) (exclusive : Exclusive state event)
    (inv : Inv server requests old state) : Inv server requests old next := by
  rcases step_cases stepped with ⟨thread, reached, disk, at_, moved, diskIs, threadsAre, installedIs⟩
  have inside := (List.getElem?_eq_some_iff.mp at_).1
  have sound := inv.sound event.thread thread at_
  have lookup : forall index other, next.threads[index]? = some other ->
      (index = event.thread ∧ other = ⟨thread.request, reached⟩) ∨
        (index ≠ event.thread ∧ state.threads[index]? = some other) := by
    intro index other otherAt
    rw [threadsAre] at otherAt
    by_cases here : index = event.thread
    · rw [here, List.getElem?_set_self inside] at otherAt
      exact Or.inl ⟨here, (Option.some.inj otherAt).symm⟩
    · rw [List.getElem?_set_ne (fun same => here same.symm)] at otherAt
      exact Or.inr ⟨here, otherAt⟩
  refine ⟨?_, ?_, ?_, ?_, ?_⟩
  · have own : (state.threads.map Thread.request)[event.thread]? = some thread.request := by
      rw [List.getElem?_map, at_]
      rfl
    rcases List.getElem?_eq_some_iff.mp own with ⟨bound, same⟩
    rw [threadsAre, List.map_set, ← inv.requests, ← same]
    exact List.set_getElem_self bound
  · intro index other otherAt
    rw [diskIs]
    rcases lookup index other otherAt with ⟨_, rfl⟩ | ⟨otherIndex, before⟩
    · exact next_sound moved inv.running sound
    · exact (inv.sound index other before).of_sameFile
        (fun path opened => inv.sameFile_other exclusive at_ moved otherIndex before opened)
  · intro first second firstThread secondThread firstPath secondPath different firstAt secondAt
      firstOpened secondOpened
    rcases lookup first firstThread firstAt with ⟨firstIs, rfl⟩ | ⟨firstNot, firstBefore⟩ <;>
      rcases lookup second secondThread secondAt with ⟨secondIs, rfl⟩ | ⟨secondNot, secondBefore⟩
    · exact absurd (firstIs.trans secondIs.symm) different
    · exact (inv.changes_apart exclusive at_ (changes_of_opened moved firstOpened) secondNot
        secondBefore secondOpened).symm
    · exact inv.changes_apart exclusive at_ (changes_of_opened moved secondOpened) firstNot
        firstBefore firstOpened
    · exact inv.apart first second firstThread secondThread firstPath secondPath different firstBefore
        secondBefore firstOpened secondOpened
  · intro full
    rw [diskIs]
    have notTarget : thread.pc.replaces event.action ≠ some server.path := by
      intro target
      rcases replaces_cases moved sound target with ⟨received, lost, stored, pc, called, _⟩
      rw [pc] at sound
      exact absurd full (Nat.ne_of_lt sound.1.room)
    exact (inv.sameFile_binary at_ moved notTarget).dir.trans (inv.running full)
  · rw [diskIs, installedIs]
    split
    next target =>
      rcases replaces_cases moved sound target with ⟨received, lost, stored, _, _, _, _, read, _⟩
      rw [read]
      rfl
    next notTarget => exact (inv.sameFile_binary at_ moved notTarget).read_eq.trans inv.binary

theorem initial_inv {disk : Disk (List UInt8)} (linked : disk.dir server.path = some server.exe)
    (requests : List Request) :
    Inv server requests (disk.contents server.exe) (initial disk requests) := by
  have entries : forall (index : Nat) (thread : Thread),
      (initial disk requests).threads[index]? = some thread ->
        Exists fun request : Request => thread = ⟨request, request.entry⟩ := by
    intro index thread at_
    rcases List.mem_map.mp (List.mem_of_getElem? at_) with ⟨request, _, rfl⟩
    exact ⟨request, rfl⟩
  refine ⟨?_, ?_, ?_, fun _ => linked, ?_⟩
  · rw [initial, List.map_map]
    exact List.map_id requests
  · intro index thread at_
    rcases entries index thread at_ with ⟨request, rfl⟩
    exact sound_entry request
  · intro first second firstThread secondThread firstPath secondPath _ firstAt _ firstOpened
    rcases entries first firstThread firstAt with ⟨request, rfl⟩
    rw [opened_entry] at firstOpened
    exact absurd firstOpened nofun
  · rw [initial, Disk.read, linked]
    rfl

/-- The request of a thread is one of those the server got. -/
theorem Inv.request_mem (inv : Inv server requests old state) {index : Nat} {thread : Thread}
    (at_ : state.threads[index]? = some thread) : thread.request ∈ requests :=
  inv.requests ▸ List.mem_map_of_mem (List.mem_of_getElem? at_)

/-! ## Overlapping updates -/

/-- The binary is replaced only by a file whose `fclose` wrote every pending byte. -/
def Flushed (server : Server) (state : State) (event : Event) : Prop :=
  match state.threads[event.thread]?, event.action with
  | some ⟨_, .replacing binaryPath _ lost⟩, .rename none => binaryPath = server.path -> lost = []
  | _, _ => True

instance (server : Server) (state : State) (event : Event) :
    Decidable (Flushed server state event) := by
  unfold Flushed
  split <;> infer_instance

/-- Everything installed so far is the complete body of a request with its checksum. -/
def InstalledVerified (server : Server) (requests : List Request) (state : State) : Prop :=
  forall content, content ∈ state.installed ->
    Exists fun request => request ∈ requests ∧ IsVerifiedBody server request content

theorem step_installedVerified (stepped : step server state event = some next)
    (flushed : Flushed server state event) (inv : Inv server requests old state)
    (before : InstalledVerified server requests state) : InstalledVerified server requests next := by
  rcases step_cases stepped with ⟨thread, reached, disk, at_, moved, _, _, installedIs⟩
  intro content member
  rw [installedIs] at member
  split at member
  next target =>
    rcases replaces_cases moved (inv.sound event.thread thread at_) target with
      ⟨received, lost, stored, pc, called, verified, whole, read, _⟩
    rw [read] at member
    rcases List.mem_cons.mp member with rfl | older
    · have nothingLost : lost = [] := by
        obtain ⟨request, at'⟩ := thread
        dsimp only at pc
        subst pc
        simpa only [Flushed, at_, called, forall_const] using flushed
      rw [nothingLost, List.append_nil] at whole
      exact ⟨thread.request, inv.request_mem at_, whole ▸ verified⟩
    · exact before content older
  · exact before content member

/-- In every run that opens a temporary file only while no other request has it open,
and replaces the binary only by a file whose `fclose` wrote everything, whatever
replaces the binary is the complete body of one of the requests, with its checksum. -/
theorem handleUpdate_installs_verified {disk : Disk (List UInt8)} {events : List Event}
    {final : State} (linked : disk.dir server.path = some server.exe)
    (run : Machine.exec (step server) (initial disk requests) events = some final)
    (met : Machine.AllSteps (step server)
      (fun state event => Exclusive state event ∧ Flushed server state event)
      (initial disk requests) events) :
    InstalledVerified server requests final ∧
      final.disk.read server.path = some (final.installed.headD (disk.contents server.exe)) := by
  have preserved : forall state event next, Exclusive state event ∧ Flushed server state event ->
      step server state event = some next ->
      InstalledVerified server requests state ∧
        Inv server requests (disk.contents server.exe) state ->
      InstalledVerified server requests next ∧
        Inv server requests (disk.contents server.exe) next :=
    fun _ _ _ fine stepped kept =>
      ⟨step_installedVerified stepped fine.2 kept.2 kept.1, step_inv stepped fine.1 kept.2⟩
  have reached := Machine.invariant_exec_of_allSteps preserved run met
    ⟨fun _ member => absurd member List.not_mem_nil, initial_inv linked requests⟩
  exact ⟨reached.1, reached.2.binary⟩

end Server

/-- SHA-256 at the bodies of the sample requests. -/
def sampleSha256 (data : List UInt8) : List UInt8 :=
  if data = ascii "a" then
    [202, 151, 129, 18, 202, 27, 189, 202, 250, 194, 49, 179, 154, 35, 220, 77, 167, 134, 239, 248,
      20, 124, 78, 114, 185, 128, 119, 133, 175, 238, 72, 187]
  else if data = ascii "b" then
    [62, 35, 232, 22, 0, 57, 89, 74, 51, 137, 79, 101, 100, 225, 177, 52, 139, 189, 122, 0, 136,
      212, 44, 74, 203, 115, 238, 174, 213, 156, 0, 157]
  else []

/-- A server running `/b`. -/
def sampleServer : Server := ⟨ascii "/b", 0, sampleSha256, by decide⟩

/-- The disk with the binary as its only file. -/
def sampleDisk : Disk (List UInt8) where
  dir path := if path = ascii "/b" then some 0 else none
  contents _ := ascii "old"
  next := 1
  one_name := by
    intro first second inode firstNamed secondNamed
    grind
  used := by
    intro path inode named
    grind

/-- Updates to the one-byte binaries `a` and `b`. -/
def requestA : Request :=
  ⟨ascii "sha256=ca978112ca1bbdcafac231b39a23dc4da786eff8147c4e72b9807785afee48bb", 1, ascii "a"⟩

def requestB : Request :=
  ⟨ascii "sha256=3e23e8160039594a33894f6564e1b1348bbd7a0088d42c4acb73eeaed59c009d", 1, ascii "b"⟩

/-- The actions of an update up to its `fclose`, with the bytes the `fclose` writes. -/
def upload (flushed : Nat) : List Action :=
  [.readlink true, .fopen none, .sslRead (some 1), .buffer 1, .fwrite, .write flushed, .fclose]

/-- The connection of the second request breaks; its file is gone when the first opens it. -/
def turns : List Event :=
  [Action.readlink true, .fopen none, .sslRead none, .fclose, .unlink true].map (Event.mk 1) ++
    (upload 1 ++ [Action.rename none]).map (Event.mk 0)

/-- The state after `turns`. -/
def turnsState : State :=
  (Machine.exec (step sampleServer) (initial sampleDisk [requestA, requestB]) turns).get (by decide)

theorem handleUpdate_installs_verified_turns :
    InstalledVerified sampleServer [requestA, requestB] turnsState ∧
      turnsState.disk.read (ascii "/b") = some (turnsState.installed.headD (ascii "old")) :=
  handleUpdate_installs_verified
    (show sampleDisk.dir sampleServer.path = some sampleServer.exe from rfl)
    (Option.some_get _).symm (by decide)

/-- The second request opens, and empties, the file that the first one has closed
and is about to rename: an empty binary is installed. -/
theorem overlapping_updates_install_nothing :
    (Machine.exec (step sampleServer) (initial sampleDisk [requestA, requestB])
        ((upload 1).map (Event.mk 0) ++ [⟨1, .readlink true⟩, ⟨1, .fopen none⟩, ⟨0, .rename none⟩])).map
        (fun state => (state.installed, state.disk.read (ascii "/b"))) = some ([[]], some []) ∧
      forall request, request ∈ [requestA, requestB] -> ¬ IsVerifiedBody sampleServer request [] := by
  refine ⟨by decide, fun request member verified => ?_⟩
  have complete := verified.complete
  rcases List.mem_cons.mp member with rfl | member
  · exact absurd complete (by decide)
  · rcases List.mem_singleton.mp member with rfl
    exact absurd complete (by decide)

/-! ## A single update -/

section Single

variable {server : Server} {request : Request} {old content : List UInt8} {state next : State}
  {event : Event}

/-- Where the binary is replaced, `fclose` wrote everything, or what it wrote is the
binary that was there before. -/
def FlushedOrOld (server : Server) (old : List UInt8) (state : State) (event : Event) : Prop :=
  match state.threads[event.thread]?, event.action with
  | some ⟨_, .replacing binaryPath received lost⟩, .rename none =>
      binaryPath = server.path -> lost = [] ∨ received = old ++ lost
  | _, _ => True

instance (server : Server) (old : List UInt8) (state : State) (event : Event) :
    Decidable (FlushedOrOld server old state event) := by
  unfold FlushedOrOld
  split <;> infer_instance

/-- The binary is the old one, or the complete body of the request with its checksum. -/
def OldOrVerified (server : Server) (request : Request) (old : List UInt8) (state : State) : Prop :=
  state.disk.read server.path = some old ∨
    Exists fun content => state.disk.read server.path = some content ∧
      IsVerifiedBody server request content

theorem Inv.length_threads (inv : Inv server [request] old state) : state.threads.length = 1 := by
  rw [← List.length_map Thread.request, inv.requests]
  rfl

/-- A single request has its temporary file for itself. -/
theorem Inv.exclusive (inv : Inv server [request] old state) (event : Event) :
    Exclusive state event := by
  unfold Exclusive
  split
  next at_ called =>
    intro index inside otherIndex
    have one := inv.length_threads
    have own := (List.getElem?_eq_some_iff.mp at_).1
    exact absurd (by omega) otherIndex
  · trivial

theorem step_oldOrVerified (stepped : step server state event = some next)
    (flushed : FlushedOrOld server old state event) (inv : Inv server [request] old state)
    (before : OldOrVerified server request old state) : OldOrVerified server request old next := by
  rcases step_cases stepped with ⟨thread, reached, disk, at_, moved, diskIs, _, _⟩
  unfold OldOrVerified
  rw [diskIs]
  by_cases target : thread.pc.replaces event.action = some server.path
  · rcases replaces_cases moved (inv.sound event.thread thread at_) target with
      ⟨received, lost, stored, pc, called, verified, whole, read, _⟩
    have kept : lost = [] ∨ received = old ++ lost := by
      obtain ⟨request, at'⟩ := thread
      dsimp only at pc
      subst pc
      simpa only [FlushedOrOld, at_, called, forall_const] using flushed
    rcases kept with nothingLost | same
    · rw [nothingLost, List.append_nil] at whole
      have only := List.mem_singleton.mp (inv.request_mem at_)
      exact Or.inr ⟨stored, read, whole ▸ only ▸ verified⟩
    · exact Or.inl (List.append_cancel_right (whole.trans same) ▸ read)
  · rw [(inv.sameFile_binary at_ moved target).read_eq]
    exact before

/-- Every thread has renamed its file; the binary does not change any more. -/
structure Settled (server : Server) (content : List UInt8) (state : State) : Prop where
  binary : state.disk.read server.path = some content
  threads : forall thread, thread ∈ state.threads -> thread.pc = .execing ∨ thread.pc = .exited

theorem step_settled (stepped : step server state event = some next)
    (settled : Settled server content state) : Settled server content next := by
  rcases step_cases stepped with ⟨thread, reached, disk, at_, moved, diskIs, threadsAre, _⟩
  have same : disk = state.disk ∧ reached = .exited := by
    rcases settled.threads thread (List.mem_of_getElem? at_) with pc | pc <;> rw [pc] at moved
    · cases called : event.action with
      | execv =>
          rw [called] at moved
          have parts := Prod.mk.inj (Option.some.inj moved)
          exact ⟨parts.2.symm, parts.1.symm⟩
      | _ =>
          rw [called] at moved
          exact absurd moved nofun
    · exact absurd moved nofun
  refine ⟨?_, fun other member => ?_⟩
  · rw [diskIs, same.1]
    exact settled.binary
  · rw [threadsAre] at member
    rcases List.mem_or_eq_of_mem_set member with older | new
    · exact settled.threads other older
    · exact Or.inr (new ▸ same.2)

/-- A rename of an incomplete file settles on contents that are neither. -/
theorem settled_of_not_flushed (stepped : step server state event = some next)
    (inv : Inv server [request] old state) (missed : ¬ FlushedOrOld server old state event) :
    Exists fun stored => Settled server stored next ∧ stored ≠ old ∧
      ¬ IsVerifiedBody server request stored := by
  rcases step_cases stepped with ⟨thread, reached, disk, at_, moved, diskIs, threadsAre, _⟩
  have replaces : Exists fun received => Exists fun lost =>
      thread.pc = .replacing server.path received lost ∧ event.action = .rename none ∧
        lost ≠ [] ∧ received ≠ old ++ lost := by
    unfold FlushedOrOld at missed
    split at missed
    next request' path received lost found called =>
      rcases Classical.not_imp.mp missed with ⟨rfl, neither⟩
      rw [Option.some.inj (at_.symm.trans found)]
      exact ⟨received, lost, rfl, called, not_or.mp neither⟩
    · exact absurd trivial missed
  rcases replaces with ⟨received, lost, pc, called, lostSome, notOld⟩
  have target : thread.pc.replaces event.action = some server.path := by
    rw [pc, called]
    rfl
  rcases replaces_cases moved (inv.sound event.thread thread at_) target with
    ⟨received', lost', stored, pc', _, verified, whole, read, reachedIs⟩
  rcases Pc.replacing.inj (pc.symm.trans pc') with ⟨_, rfl, rfl⟩
  have only := List.mem_singleton.mp (inv.request_mem at_)
  refine ⟨stored, ⟨?_, fun other member => ?_⟩, ?_, fun complete => ?_⟩
  · rw [diskIs]
    exact read
  · rcases List.length_eq_one_iff.mp inv.length_threads with ⟨single, alone⟩
    have own := (List.getElem?_eq_some_iff.mp at_).1
    rw [inv.length_threads] at own
    rw [threadsAre, alone, Nat.lt_one_iff.mp own, List.set_cons_zero] at member
    rw [List.mem_singleton.mp member]
    exact Or.inl reachedIs
  · rintro rfl
    exact notOld whole.symm
  · have size := complete.complete.trans (only ▸ verified.complete).symm
    rw [← whole, List.length_append] at size
    exact lostSome (List.eq_nil_of_length_eq_zero (by omega))

/-- After a single update the binary is the old one or the verified body of the
request if and only if the `fclose` before the rename wrote every pending byte, or
the part that was written is the old binary. -/
theorem handleUpdate_single_verified_iff {disk : Disk (List UInt8)} {events : List Event}
    {final : State} (linked : disk.dir server.path = some server.exe)
    (run : Machine.exec (step server) (initial disk [request]) events = some final) :
    OldOrVerified server request (disk.contents server.exe) final ↔
      Machine.AllSteps (step server) (FlushedOrOld server (disk.contents server.exe))
        (initial disk [request]) events := by
  have start := initial_inv linked [request]
  have keeps : forall state event next, step server state event = some next ->
      Inv server [request] (disk.contents server.exe) state ->
        Inv server [request] (disk.contents server.exe) next :=
    fun _ event _ stepped inv => step_inv stepped (inv.exclusive event) inv
  constructor
  · intro good
    by_contra missed
    rcases Machine.exists_step_of_not_allSteps run missed with
      ⟨before, event, after, middle, next, _, reached, notOk, stepped, ending⟩
    rcases settled_of_not_flushed stepped (Machine.invariant_exec keeps reached start) notOk with
      ⟨stored, settled, notOld, notVerified⟩
    have binary := (Machine.invariant_exec (fun _ _ _ => step_settled) ending settled).binary
    rcases good with same | ⟨content, read, verified⟩
    · exact notOld (Option.some.inj (binary.symm.trans same))
    · exact notVerified (Option.some.inj (binary.symm.trans read) ▸ verified)
  · intro met
    have preserved : forall state event next,
        FlushedOrOld server (disk.contents server.exe) state event ->
        step server state event = some next ->
        OldOrVerified server request (disk.contents server.exe) state ∧
          Inv server [request] (disk.contents server.exe) state ->
        OldOrVerified server request (disk.contents server.exe) next ∧
          Inv server [request] (disk.contents server.exe) next :=
      fun _ _ _ flushed stepped kept =>
        ⟨step_oldOrVerified stepped flushed kept.2 kept.1, keeps _ _ _ stepped kept.2⟩
    exact (Machine.invariant_exec_of_allSteps preserved run met ⟨Or.inl start.binary, start⟩).1

end Single

/-- An update of one byte, installed. -/
def installedState : State :=
  (Machine.exec (step sampleServer) (initial sampleDisk [requestA])
    ((upload 1 ++ [Action.rename none]).map (Event.mk 0))).get (by decide)

theorem handleUpdate_single_verified_iff_installed :
    OldOrVerified sampleServer requestA (ascii "old") installedState ↔
      Machine.AllSteps (step sampleServer) (FlushedOrOld sampleServer (ascii "old"))
        (initial sampleDisk [requestA]) ((upload 1 ++ [Action.rename none]).map (Event.mk 0)) :=
  handleUpdate_single_verified_iff
    (show sampleDisk.dir sampleServer.path = some sampleServer.exe from rfl)
    (Option.some_get _).symm

/-- The disk is full when `fclose` writes the only byte: an empty binary is installed. -/
theorem failed_flush_installs_nothing :
    (Machine.exec (step sampleServer) (initial sampleDisk [requestA])
        ((upload 0 ++ [Action.rename none]).map (Event.mk 0))).map
        (fun state => state.disk.read (ascii "/b")) = some (some []) ∧
      sampleDisk.read (ascii "/b") = some (ascii "old") ∧
        ¬ IsVerifiedBody sampleServer requestA [] :=
  ⟨by decide, by decide, fun verified => absurd verified.complete (by decide)⟩

end Update
end Handler
end AdbBridge
