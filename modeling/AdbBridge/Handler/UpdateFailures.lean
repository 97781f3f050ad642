import AdbBridge.Handler.UpdateRuns

namespace AdbBridge
namespace Handler

open Library Library.Numeral Library.Files

/-!
# What a failed self-update leaves behind

`handle_update` has seven error responses.  Three are sent before the temporary file is
opened, two behind the loop that receives the body, where the file is unlinked first, and
one when the rename fails.  That last one leaves the file behind.

The run is that of a single request, so that what is found at `<binary>.tmp` afterwards is
its own file or was there before.
-/

namespace Update

/-- The temporary file of a request that reads its path now. -/
def Server.tmp (server : Server) (disk : Disk (List UInt8)) : List UInt8 := tmpPath (server.readlink disk)

/-- The binary is the same file with the same contents, and at the temporary path there is no
file that was not there before. -/
structure LeavesNoTrace (server : Server) (before after : Disk (List UInt8)) : Prop where
  binary : SameFile before after server.path
  temporary : forall inode, after.dir (server.tmp before) = some inode ->
    before.dir (server.tmp before) = some inode

/-- The answers of `unlink` and `rename` with which the temporary file stays where it is. -/
def Action.leavesFile : Action -> Bool
  | .unlink false | .rename (some _) => true
  | _ => false

/-- Each `unlink` and each `rename` of the run did what it should. -/
def CleansUp (events : List Event) : Prop := forall event, event ∈ events -> event.action.leavesFile = false

instance (events : List Event) : Decidable (CleansUp events) :=
  inferInstanceAs (Decidable (forall event, event ∈ events -> _))

/-- There was a file at the temporary path before. -/
def HadFile (server : Server) (before : Disk (List UInt8)) : Prop :=
  Exists fun inode => before.dir (server.tmp before) = some inode

/-! ## One thread -/

/-- The temporary file is open: it is the only file that was touched, and if there was one it
is the same. -/
structure Touched (server : Server) (before disk : Disk (List UInt8)) : Prop where
  links : server.Links (server.readlink before)
  others : forall other, other ≠ server.tmp before -> SameFile before disk other
  named : Exists fun inode => disk.dir (server.tmp before) = some inode ∧
    forall old, before.dir (server.tmp before) = some old -> old = inode

/-- What has become of the disk at each position.  Behind a rename it is another binary. -/
def Kept (server : Server) (before : Disk (List UInt8)) (past : List Event) (disk : Disk (List UInt8)) :
    Pc -> Prop
  | .entered => disk = before ∧ CleansUp past
  | .opening binaryPath => disk = before ∧ binaryPath = server.readlink before ∧ CleansUp past
  | .returned _ => LeavesNoTrace server before disk ↔ HadFile server before ∨ CleansUp past
  | pc => forall binaryPath, pc.opened = some binaryPath ->
      binaryPath = server.readlink before ∧ Touched server before disk ∧ CleansUp past

section OneThread

variable {server : Server} {request : Request} {before disk after : Disk (List UInt8)}
  {binaryPath : List UInt8} {pc next : Pc} {past : List Event} {event : Event}

theorem cleansUp_append_singleton :
    CleansUp (past ++ [event]) ↔ CleansUp past ∧ event.action.leavesFile = false := by
  unfold CleansUp
  rw [List.forall_mem_append, List.forall_mem_singleton]

theorem leavesNoTrace_refl (server : Server) (disk : Disk (List UInt8)) : LeavesNoTrace server disk disk :=
  ⟨SameFile.refl disk server.path, fun _ same => same⟩

/-- A file that stays is a trace unless there was one. -/
theorem Touched.leavesNoTrace_iff (touched : Touched server before disk) :
    LeavesNoTrace server before disk ↔ HadFile server before := by
  rcases touched.named with ⟨inode, named, same⟩
  constructor
  · intro noTrace
    exact ⟨inode, noTrace.temporary inode named⟩
  · rintro ⟨old, had⟩
    refine ⟨touched.others _ (path_ne_tmpPath touched.links), fun other found => ?_⟩
    rw [had, same old had, ← found, named]

/-- The file is unlinked, whoever made it. -/
theorem Touched.unlink (touched : Touched server before disk) :
    LeavesNoTrace server before (disk.unlink (server.tmp before)) := by
  have different := path_ne_tmpPath touched.links
  refine ⟨(touched.others _ different).trans (sameFile_unlink different), fun inode found => ?_⟩
  have gone : (disk.unlink (server.tmp before)).dir (server.tmp before) = none :=
    Function.update_self _ _ _
  exact absurd (gone.symm.trans found) (Option.some_ne_none inode).symm

/-- A step that touches nothing but the contents of the open file. -/
theorem Touched.write {inode offset : Nat} {bytes : List UInt8} (touched : Touched server before disk)
    (named : disk.dir (server.tmp before) = some inode) :
    Touched server before (disk.write inode offset bytes) :=
  ⟨touched.links, fun other different => (touched.others other different).trans
    (sameFile_write named different),
    touched.named⟩

/-- The file is opened. -/
theorem touched_openTrunc (links : server.Links (server.readlink before)) :
    Touched server before (before.openTrunc (server.tmp before)).1 :=
  ⟨links, fun _ different => sameFile_openTrunc different, _, dir_openTrunc before _,
    fun _ had => (openTrunc_of_dir had).symm⟩

/-- An error response before the file is opened. -/
theorem kept_untouched (same : disk = before) (cleans : CleansUp past) :
    LeavesNoTrace server before disk ↔ HadFile server before ∨ CleansUp past := by
  subst same
  exact ⟨fun _ => Or.inr cleans, fun _ => leavesNoTrace_refl server disk⟩

/-- An error response behind a failed `unlink` or `rename`. -/
theorem Touched.kept_leavesFile (touched : Touched server before disk)
    (leaves : event.action.leavesFile = true) :
    LeavesNoTrace server before disk ↔ HadFile server before ∨ CleansUp (past ++ [event]) := by
  rw [touched.leavesNoTrace_iff, cleansUp_append_singleton, leaves]
  simp

/-- An error response behind an `unlink` that removed the file. -/
theorem Touched.kept_unlink (touched : Touched server before disk) (cleans : CleansUp past) :
    LeavesNoTrace server before (disk.unlink (server.tmp before)) ↔
      HadFile server before ∨ CleansUp past :=
  ⟨fun _ => Or.inr cleans, fun _ => touched.unlink⟩

theorem CleansUp.goesOn {action : Action} (cleans : CleansUp past) (called : event.action = action)
    (harmless : action.leavesFile = false) : CleansUp (past ++ [event]) :=
  cleansUp_append_singleton.mpr ⟨cleans, called ▸ harmless⟩

/-- From one position with the file open to the next. -/
theorem kept_opened {position : Pc} {action : Action} {result : Disk (List UInt8)}
    (here : binaryPath = server.readlink before ∧ Touched server before disk ∧ CleansUp past)
    (called : event.action = action) (harmless : action.leavesFile = false)
    (opened : position.opened = some binaryPath) (touched : Touched server before result) :
    forall path, position.opened = some path ->
      path = server.readlink before ∧ Touched server before result ∧ CleansUp (past ++ [event]) := by
  intro path other
  rw [opened] at other
  exact ⟨(Option.some.inj other).symm.trans here.1, touched, here.2.2.goesOn called harmless⟩

/-- A step keeps the account of the disk. -/
theorem next_kept (moved : pc.next server request disk event.action = some (next, after))
    (running : server.path.length = 4095 -> before.dir server.path = some server.exe)
    (sound : Sound server disk request pc) (kept : Kept server before past disk pc) :
    Kept server before (past ++ [event]) after next := by
  unfold Pc.next at moved
  split at moved
  next called =>
    rcases Prod.mk.inj (Option.some.inj moved) with ⟨rfl, rfl⟩
    exact ⟨kept.1, kept.1 ▸ rfl, kept.2.goesOn called rfl⟩
  next called =>
    rcases Prod.mk.inj (Option.some.inj moved) with ⟨rfl, rfl⟩
    exact kept_untouched kept.1 (kept.2.goesOn called rfl)
  next path called =>
    split at moved
    · cases moved
    next writable =>
      rcases Prod.mk.inj (Option.some.inj moved) with ⟨rfl, rfl⟩
      rcases kept with ⟨rfl, rfl, clean⟩
      have touched := touched_openTrunc (links_of_fopen sound.2 running writable)
      intro binaryPath opened
      exact ⟨(Option.some.inj opened).symm, touched, clean.goesOn called rfl⟩
  next path errno called =>
    rcases Prod.mk.inj (Option.some.inj moved) with ⟨rfl, rfl⟩
    exact kept_untouched kept.1 (kept.2.2.goesOn called rfl)
  next path file received called =>
    rcases Prod.mk.inj (Option.some.inj moved) with ⟨rfl, rfl⟩
    have here := kept path rfl
    exact kept_opened here called rfl rfl here.2.1
  next path file received count called =>
    dsimp only at moved
    split at moved
    · rcases Prod.mk.inj (Option.some.inj moved) with ⟨rfl, rfl⟩
      have here := kept path rfl
      exact kept_opened here called rfl rfl here.2.1
    · cases moved
  next path file received chunk taken count called =>
    split at moved
    · rcases Prod.mk.inj (Option.some.inj moved) with ⟨rfl, rfl⟩
      have here := kept path rfl
      exact kept_opened here called rfl rfl here.2.1
    · cases moved
  next path file received chunk taken count called =>
    rcases Prod.mk.inj (Option.some.inj moved) with ⟨rfl, rfl⟩
    have here := kept path rfl
    have named := sound.2.1.named
    rw [here.1] at named
    exact kept_opened here called rfl rfl (here.2.1.write named)
  next path file received chunk taken called =>
    have here := kept path rfl
    split at moved
    · rcases Prod.mk.inj (Option.some.inj moved) with ⟨rfl, rfl⟩
      unfold loopHead
      split <;> exact kept_opened here called rfl rfl here.2.1
    · rcases Prod.mk.inj (Option.some.inj moved) with ⟨rfl, rfl⟩
      exact kept_opened here called rfl rfl here.2.1
  next path file received failure count called =>
    rcases Prod.mk.inj (Option.some.inj moved) with ⟨rfl, rfl⟩
    rcases sound with ⟨bytes, holds, _⟩
    have here := kept path rfl
    have named := holds.named
    rw [here.1] at named
    exact kept_opened here called rfl rfl (here.2.1.write named)
  next path file received called =>
    rcases Prod.mk.inj (Option.some.inj moved) with ⟨rfl, rfl⟩
    have here := kept path rfl
    exact kept_opened here called rfl rfl here.2.1
  next path file received error called =>
    rcases Prod.mk.inj (Option.some.inj moved) with ⟨rfl, rfl⟩
    have here := kept path rfl
    exact kept_opened here called rfl rfl here.2.1
  next path error called =>
    rcases Prod.mk.inj (Option.some.inj moved) with ⟨rfl, rfl⟩
    rcases kept path rfl with ⟨isPath, touched, clean⟩
    rw [isPath]
    exact touched.kept_unlink (clean.goesOn called rfl)
  next path error called =>
    rcases Prod.mk.inj (Option.some.inj moved) with ⟨rfl, rfl⟩
    exact (kept path rfl).2.1.kept_leavesFile (called ▸ rfl)
  next path received lost called =>
    rcases Option.map_eq_some_iff.mp moved with ⟨renamed, _, same⟩
    rcases Prod.mk.inj same with ⟨rfl, rfl⟩
    exact fun binaryPath opened => absurd opened (Option.some_ne_none binaryPath).symm
  next path received lost errno called =>
    rcases Prod.mk.inj (Option.some.inj moved) with ⟨rfl, rfl⟩
    exact (kept path rfl).2.1.kept_leavesFile (called ▸ rfl)
  next called =>
    rcases Prod.mk.inj (Option.some.inj moved) with ⟨rfl, rfl⟩
    exact fun binaryPath opened => absurd opened (Option.some_ne_none binaryPath).symm
  · cases moved

theorem kept_entry (server : Server) (request : Request) (disk : Disk (List UInt8)) :
    Kept server disk [] disk request.entry := by
  have clean : CleansUp [] := fun _ member => absurd member List.not_mem_nil
  unfold Request.entry
  split
  · exact kept_untouched rfl clean
  · split
    · exact kept_untouched rfl clean
    · exact ⟨rfl, clean⟩

end OneThread

/-! ## The run of one request -/

section Single

variable {server : Server} {request : Request} {before : Disk (List UInt8)} {state next : State}
  {past : List Event} {event : Event}

/-- The state of a server with a single request. -/
structure Alone (server : Server) (request : Request) (before : Disk (List UInt8)) (past : List Event)
    (state : State) (pc : Pc) : Prop where
  thread : state.threads = [⟨request, pc⟩]
  sound : Sound server state.disk request pc
  kept : Kept server before past state.disk pc
  running : server.path.length = 4095 -> state.disk.dir server.path = some server.exe

/-- Its steps are those of one thread. -/
theorem step_single {pc : Pc} (thread : state.threads = [⟨request, pc⟩])
    (stepped : step server state event = some next) : Exists fun reached =>
      pc.next server request state.disk event.action = some (reached, next.disk) ∧
        next.threads = [⟨request, reached⟩] := by
  rcases step_cases stepped with ⟨mover, reached, disk, at_, moved, diskIs, threadsAre, _⟩
  rw [thread] at at_ threadsAre
  have first : event.thread = 0 := Nat.lt_one_iff.mp (List.getElem?_eq_some_iff.mp at_).1
  rw [first] at at_ threadsAre
  have own : ⟨request, pc⟩ = mover := Option.some.inj at_
  rw [← own] at moved threadsAre
  exact ⟨reached, diskIs ▸ moved, threadsAre⟩

/-- A path without room is neither renamed to nor beside a temporary file. -/
theorem next_running {pc reached : Pc} {disk after : Disk (List UInt8)} {action : Action}
    (moved : pc.next server request disk action = some (reached, after))
    (running : server.path.length = 4095 -> disk.dir server.path = some server.exe)
    (sound : Sound server disk request pc) (full : server.path.length = 4095) :
    after.dir server.path = some server.exe := by
  have noRoom : forall path, server.Links path -> False :=
    fun path links => Nat.ne_of_lt links.room full
  have same : SameFile disk after server.path := by
    refine next_sameFile moved sound (fun path changes => ?_) (fun target => ?_)
    · exact (noRoom path (links_of_changes moved running sound changes)).elim
    · rcases replaces_cases moved sound target with ⟨received, lost, stored, pc, _⟩
      rw [pc] at sound
      exact noRoom _ sound.1
  exact same.dir.trans (running full)

theorem step_alone {pc : Pc} (running : server.path.length = 4095 -> before.dir server.path = some server.exe)
    (stepped : step server state event = some next) (alone : Alone server request before past state pc) :
    Exists fun reached => Alone server request before (past ++ [event]) next reached := by
  rcases step_single alone.thread stepped with ⟨reached, moved, thread⟩
  exact ⟨reached, thread, next_sound moved alone.running alone.sound,
    next_kept moved running alone.sound alone.kept, next_running moved alone.running alone.sound⟩

/-- An update that fails leaves no trace if and only if each `unlink` and `rename` it called did
what it should, or there was a file at the temporary path before. -/
theorem failed_update_leaves_no_trace_iff {events : List Event} {final : State} {error : UpdateError}
    (running : server.path.length = 4095 -> before.dir server.path = some server.exe)
    (run : Machine.exec (step server) (initial before [request]) events = some final)
    (failed : final.threads = [⟨request, .returned error⟩]) :
    LeavesNoTrace server before final.disk ↔ HadFile server before ∨ CleansUp events := by
  have preserved : forall past state event next, step server state event = some next ->
      (Exists fun pc => Alone server request before past state pc) ->
      Exists fun pc => Alone server request before (past ++ [event]) next pc := by
    rintro past state event next stepped ⟨pc, alone⟩
    exact step_alone running stepped alone
  have begins : Exists fun pc => Alone server request before [] (initial before [request]) pc :=
    ⟨request.entry, rfl, sound_entry request, kept_entry server request before, running⟩
  rcases Machine.history_exec preserved run begins with ⟨pc, alone⟩
  have returned : pc = .returned error := by
    have same := List.singleton_inj.mp (alone.thread.symm.trans failed)
    exact (Thread.mk.inj same).2
  have kept := alone.kept
  rw [returned] at kept
  exact kept

end Single

/-- The body has the wrong checksum. -/
def requestWrong : Request :=
  ⟨ascii "sha256=3e23e8160039594a33894f6564e1b1348bbd7a0088d42c4acb73eeaed59c009d", 1, ascii "a"⟩

/-- The run of a mismatch. -/
def mismatchEvents : List Event := (upload 1 ++ [Action.unlink true]).map (Event.mk 0)

def mismatchState : State :=
  (Machine.exec (step sampleServer) (initial sampleDisk [requestWrong]) mismatchEvents).get (by decide)

/-- The file of a mismatch is unlinked. -/
theorem failed_update_leaves_no_trace_iff_mismatch :
    LeavesNoTrace sampleServer sampleDisk mismatchState.disk := by
  have returned : mismatchState.threads = [⟨requestWrong, .returned
      (.mismatch (expectedSha requestWrong.query) (hexText (sampleSha256 (ascii "a"))))⟩] := by decide
  exact (failed_update_leaves_no_trace_iff (fun full => absurd full (by decide))
    (Option.some_get _).symm returned).mpr (Or.inr (by decide))

/-- The run of a `rename` that fails. -/
def renameFailsEvents : List Event := (upload 1 ++ [Action.rename (some (ascii "EACCES"))]).map (Event.mk 0)

def renameFailsState : State :=
  (Machine.exec (step sampleServer) (initial sampleDisk [requestA]) renameFailsEvents).get (by decide)

/-- The verified file stays when it cannot be renamed. -/
theorem failed_rename_leaves_file :
    Machine.exec (step sampleServer) (initial sampleDisk [requestA]) renameFailsEvents =
        some renameFailsState ∧
      renameFailsState.threads =
        [⟨requestA, .returned (.renameFailed (ascii "/b") (ascii "EACCES"))⟩] ∧
      sampleDisk.dir (ascii "/b.tmp") = none ∧
        renameFailsState.disk.read (ascii "/b.tmp") = some (ascii "a") ∧
          ¬ LeavesNoTrace sampleServer sampleDisk renameFailsState.disk := by
  refine ⟨(Option.some_get _).symm, by decide, by decide, by decide, fun noTrace => ?_⟩
  have named := noTrace.temporary 1 (by decide)
  exact absurd named (by decide)

end Update
end Handler
end AdbBridge
