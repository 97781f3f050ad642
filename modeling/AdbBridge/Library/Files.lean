import Mathlib.Logic.Function.Basic

namespace Library
namespace Files

universe u

variable {Path : Type u}

/-!
# Files with names, and buffered streams

A disk has directory entries that name inodes, and contents of inodes.  A path is
an atomic name.  No inode has two names, so what is done to the file at one path
cannot be seen at another.

A stream of the C library is open for writing: its position is its own, and bytes
handed to it are pending until a write takes them to the file.  Every operation has a
lemma about the path it works on and one that says that the files at the other
paths stay the same.
-/

/-! ## Disks -/

/-- Directory entries and contents.  Inodes from `next` on have never been used. -/
structure Disk (Path : Type u) where
  dir : Path -> Option Nat
  contents : Nat -> List UInt8
  next : Nat
  one_name : forall first second inode,
    dir first = some inode -> dir second = some inode -> first = second
  used : forall path inode, dir path = some inode -> inode < next

/-- The bytes a file has after a write at an offset.  A gap before the offset
reads as zeros; a write of no bytes does nothing. -/
def writeAt (file : List UInt8) (offset : Nat) (bytes : List UInt8) : List UInt8 :=
  if bytes.isEmpty then file
  else
    (file ++ List.replicate (offset - file.length) 0).take offset ++ bytes ++
      file.drop (offset + bytes.length)

namespace Disk

/-- What a reader finds at a path. -/
def read (disk : Disk Path) (path : Path) : Option (List UInt8) :=
  (disk.dir path).map disk.contents

/-- `write` through a descriptor of the inode. -/
def write (disk : Disk Path) (inode offset : Nat) (bytes : List UInt8) :
    Disk Path :=
  { disk with
    contents := Function.update disk.contents inode (writeAt (disk.contents inode) offset bytes) }

end Disk

/-! ## What stays the same -/

/-- The path names the same file before and after, with the same contents. -/
structure SameFile (before after : Disk Path) (path : Path) : Prop where
  dir : after.dir path = before.dir path
  contents : forall inode, before.dir path = some inode ->
    after.contents inode = before.contents inode

namespace SameFile

variable {before middle after : Disk Path} {path : Path}

theorem refl (disk : Disk Path) (path : Path) : SameFile disk disk path :=
  ⟨rfl, fun _ _ => rfl⟩

theorem trans (first : SameFile before middle path) (second : SameFile middle after path) :
    SameFile before after path :=
  ⟨second.dir.trans first.dir, fun inode named =>
    (second.contents inode (first.dir.trans named)).trans (first.contents inode named)⟩

/-- The same file reads the same. -/
theorem read_eq (same : SameFile before after path) : after.read path = before.read path := by
  unfold Disk.read
  rw [same.dir]
  cases named : before.dir path with
  | none => rfl
  | some inode => exact congrArg some (same.contents inode named)

end SameFile

variable {disk after : Disk Path} {path source target other : Path}

theorem sameFile_write {inode offset : Nat} {bytes : List UInt8}
    (named : disk.dir path = some inode) (different : other ≠ path) :
    SameFile disk (disk.write inode offset bytes) other := by
  refine ⟨rfl, fun otherInode otherNamed => Function.update_of_ne ?_ _ _⟩
  rintro rfl
  exact different (disk.one_name other path otherInode otherNamed named)

/-! ## Operations on names -/

namespace Disk

variable [DecidableEq Path]

/-- `open` with `O_CREAT | O_TRUNC`: the file is emptied where there is one,
and created where there is none. -/
def openTrunc (disk : Disk Path) (path : Path) : Disk Path × Nat :=
  match disk.dir path with
  | some inode => ({ disk with contents := Function.update disk.contents inode [] }, inode)
  | none =>
      ({ dir := Function.update disk.dir path (some disk.next)
         contents := Function.update disk.contents disk.next []
         next := disk.next + 1
         one_name := by
           intro first second inode firstNamed secondNamed
           have fresh := fun other otherNamed => disk.used other inode otherNamed
           rw [Function.update_apply] at firstNamed secondNamed
           have one := disk.one_name first second inode
           grind
         used := by
           intro other inode named
           have old := disk.used other inode
           rw [Function.update_apply] at named
           grind }, disk.next)

/-- `unlink`: the name goes, the inode stays. -/
def unlink (disk : Disk Path) (path : Path) : Disk Path where
  dir := Function.update disk.dir path none
  contents := disk.contents
  next := disk.next
  one_name := by
    intro first second inode firstNamed secondNamed
    rw [Function.update_apply] at firstNamed secondNamed
    have one := disk.one_name first second inode
    grind
  used := by
    intro other inode named
    have old := disk.used other inode
    rw [Function.update_apply] at named
    grind

/-- `rename`: the file at `source` gets the name `target`, which whatever had it
loses.  It needs a file; a file renamed to its own name stays as it is. -/
def rename (disk : Disk Path) (source target : Path) : Option (Disk Path) :=
  match found : disk.dir source with
  | none => none
  | some inode =>
      if source = target then some disk
      else
        some
          { dir := Function.update (Function.update disk.dir source none) target (some inode)
            contents := disk.contents
            next := disk.next
            one_name := by
              intro first second other firstNamed secondNamed
              rw [Function.update_apply, Function.update_apply] at firstNamed secondNamed
              have one := disk.one_name first second other
              have sourceFirst := disk.one_name source first inode found
              have sourceSecond := disk.one_name source second inode found
              grind
            used := by
              intro path other named
              have old := disk.used path other
              have sourceOld := disk.used source inode found
              rw [Function.update_apply, Function.update_apply] at named
              grind }

end Disk

section Names

variable [DecidableEq Path]

theorem dir_openTrunc (disk : Disk Path) (path : Path) :
    (disk.openTrunc path).1.dir path = some (disk.openTrunc path).2 := by
  unfold Disk.openTrunc
  split
  next inode found => exact found
  · exact Function.update_self _ _ _

/-- A file that was there keeps its inode. -/
theorem openTrunc_of_dir {inode : Nat} (found : disk.dir path = some inode) :
    (disk.openTrunc path).2 = inode := by
  unfold Disk.openTrunc
  split
  next other named => exact Option.some.inj (named.symm.trans found)
  next none => exact absurd (none.symm.trans found) (Option.some_ne_none inode).symm

theorem contents_openTrunc (disk : Disk Path) (path : Path) :
    (disk.openTrunc path).1.contents (disk.openTrunc path).2 = [] := by
  unfold Disk.openTrunc
  split <;> exact Function.update_self _ _ _

theorem sameFile_openTrunc (different : other ≠ path) :
    SameFile disk (disk.openTrunc path).1 other := by
  unfold Disk.openTrunc
  split
  next inode found =>
    refine ⟨rfl, fun named otherNamed => Function.update_of_ne ?_ _ _⟩
    rintro rfl
    exact different (disk.one_name other path named otherNamed found)
  · refine ⟨Function.update_of_ne different _ _, fun named otherNamed => Function.update_of_ne ?_ _ _⟩
    exact Nat.ne_of_lt (disk.used other named otherNamed)

theorem sameFile_unlink (different : other ≠ path) : SameFile disk (disk.unlink path) other :=
  ⟨Function.update_of_ne different _ _, fun _ _ => rfl⟩

/-- A rename says where its file is now, and that no other path was involved. -/
theorem rename_spec (renamed : disk.rename source target = some after) :
    after.read target = disk.read source ∧
      forall other, other ≠ source -> other ≠ target -> SameFile disk after other := by
  unfold Disk.rename at renamed
  split at renamed
  · exact absurd renamed nofun
  next inode found =>
    split at renamed
    next same =>
      have result := Option.some.inj renamed
      subst result same
      exact ⟨rfl, fun other _ _ => SameFile.refl disk other⟩
    · have result := Option.some.inj renamed
      subst result
      refine ⟨?_, fun other notSource notTarget => ⟨?_, fun _ _ => rfl⟩⟩
      · have named : disk.read source = some (disk.contents inode) := by
          rw [Disk.read, found]
          rfl
        rw [named]
        simp only [Disk.read, Function.update_self, Option.map_some]
      · dsimp only
        rw [Function.update_of_ne notTarget, Function.update_of_ne notSource]

end Names

/-! ## Streams -/

/-- A stream open for writing: its file, its position there and the bytes that
have not been written to the file yet. -/
structure Stream where
  inode : Nat
  offset : Nat
  pending : List UInt8
deriving DecidableEq, Repr

namespace Stream

/-- Bytes go to the buffer of the stream. -/
def put (stream : Stream) (bytes : List UInt8) : Stream :=
  { stream with pending := stream.pending ++ bytes }

/-- One `write` of the first pending bytes: the stream, and the disk. -/
def flush (stream : Stream) (disk : Disk Path) (count : Nat) :
    Stream × Disk Path :=
  ({ stream with
      offset := stream.offset + (stream.pending.take count).length
      pending := stream.pending.drop count },
    disk.write stream.inode stream.offset (stream.pending.take count))

/-- The stream has been given these bytes since its file was emptied, and nobody
else wrote to the file. -/
structure Carries (stream : Stream) (disk : Disk Path) (bytes : List UInt8) : Prop where
  bytes : disk.contents stream.inode ++ stream.pending = bytes
  position : stream.offset = (disk.contents stream.inode).length

variable {stream : Stream} {bytes : List UInt8}

/-- A stream on a file that has just been emptied. -/
theorem carries_openTrunc [DecidableEq Path] (disk : Disk Path) (path : Path) :
    Carries ⟨(disk.openTrunc path).2, 0, []⟩ (disk.openTrunc path).1 [] := by
  have empty := contents_openTrunc disk path
  exact ⟨by rw [empty, List.append_nil], by rw [empty, List.length_nil]⟩

/-- The bytes reach the file or wait, in the order they were given. -/
theorem Carries.put (carries : Carries stream disk bytes) (more : List UInt8) :
    Carries (stream.put more) disk (bytes ++ more) := by
  refine ⟨?_, carries.position⟩
  rw [← carries.bytes, List.append_assoc]
  rfl

/-- A write at the end of a file appends. -/
theorem writeAt_length (file more : List UInt8) :
    writeAt file file.length more = file ++ more := by
  unfold writeAt
  split
  next none => rw [List.isEmpty_iff.mp none, List.append_nil]
  · rw [Nat.sub_self, List.replicate_zero, List.append_nil, List.take_length,
      List.drop_eq_nil_of_le (Nat.le_add_right _ _), List.append_nil]

/-- A write moves pending bytes to the file and loses none. -/
theorem Carries.flush (carries : Carries stream disk bytes) (count : Nat) :
    Carries (stream.flush disk count).1 (stream.flush disk count).2 bytes := by
  have written : (stream.flush disk count).2.contents stream.inode =
      disk.contents stream.inode ++ stream.pending.take count := by
    rw [← writeAt_length, ← carries.position]
    exact Function.update_self _ _ _
  refine ⟨?_, ?_⟩
  · change (stream.flush disk count).2.contents stream.inode ++ stream.pending.drop count = bytes
    rw [written, List.append_assoc, List.take_append_drop, carries.bytes]
  · change stream.offset + (stream.pending.take count).length =
      ((stream.flush disk count).2.contents stream.inode).length
    rw [written, List.length_append, carries.position]

/-- What a stream carries depends on its own file only. -/
theorem Carries.of_sameFile (carries : Carries stream disk bytes)
    (named : disk.dir path = some stream.inode) (same : SameFile disk after path) :
    Carries stream after bytes := by
  have kept := same.contents stream.inode named
  exact ⟨kept ▸ carries.bytes, kept ▸ carries.position⟩

end Stream

end Files
end Library
