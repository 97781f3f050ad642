import AdbBridge.Forward.Table
import Mathlib.Data.List.TakeDrop

namespace AdbBridge
namespace Forward

open Library Library.Numeral

/-!
# The socket behind a forward

A forward is asked for with the path of a Unix socket, or with `@` and an abstract name.
`connect_unix` puts the path of the record into a `sockaddr_un`, whose `sun_path` has 108
bytes.  The record holds 255 bytes at most, `sun_path` is filled with 107 bytes of a path
or 106 of a name, and the length of an abstract address counts all of the name.

The kernel reads an address by its length: behind a leading NUL every byte belongs to the
name, otherwise the path ends at its first NUL.
-/

/-! ## Names -/

/-- What a Unix socket is bound to. -/
inductive UnixName where
  | pathname (path : List UInt8)
  | abstract (name : List UInt8)
deriving DecidableEq, Repr

/-- The socket a `unix_path` asks for. -/
def socketName (unixPath : List UInt8) : UnixName :=
  match unixPath with
  | 64 :: name => .abstract name
  | path => .pathname path

def sunPathSize : Nat := 108

/-- `offsetof(struct sockaddr_un, sun_path)`. -/
def sunPathOffset : Nat := 2

def sockaddrUnSize : Nat := sunPathOffset + sunPathSize

/-- The two arguments of `connect` that give the address. -/
structure UnixAddress where
  sunPath : List UInt8
  length : Nat
  full : sunPath.length = sunPathSize
deriving DecidableEq, Repr

/-- A text in an array that `memset` zeroed, as much of it as fits. -/
def zeroPadded (size : Nat) (text : List UInt8) : List UInt8 :=
  text.take size ++ List.replicate (size - text.length) 0

theorem length_zeroPadded (size : Nat) (text : List UInt8) : (zeroPadded size text).length = size := by
  rw [zeroPadded, List.length_append, List.length_take, List.length_replicate]
  omega

/-- The address `connect_unix` builds from a path. -/
def unixAddress (path : List UInt8) : UnixAddress :=
  if path.head? = some 64 then
    { sunPath := 0 :: zeroPadded (sunPathSize - 1) ((path.drop 1).take (sunPathSize - 2))
      length := sunPathOffset + 1 + (path.drop 1).length
      full := by rw [List.length_cons, length_zeroPadded]; rfl }
  else
    { sunPath := zeroPadded sunPathSize (path.take (sunPathSize - 1))
      length := sockaddrUnSize
      full := length_zeroPadded _ _ }

/-- The name the kernel takes an address for; a length beyond the structure, or without
any byte of `sun_path`, is refused. -/
def UnixAddress.name (address : UnixAddress) : Option UnixName :=
  if address.length ≤ sunPathOffset ∨ sockaddrUnSize < address.length then none
  else
    match address.sunPath.take (address.length - sunPathOffset) with
    | 0 :: name => some (.abstract name)
    | path => some (.pathname (cString path))

/-! ## What an address names -/

variable {path name : List UInt8}

/-- A shorter text is padded with NULs. -/
theorem zeroPadded_of_length_le {size : Nat} (short : name.length ≤ size) :
    zeroPadded size name = name ++ List.replicate (size - name.length) 0 := by
  rw [zeroPadded, List.take_of_length_le short]

/-- The address of an abstract name. -/
theorem unixAddress_abstract (name : List UInt8) :
    (unixAddress (64 :: name)).sunPath = 0 :: zeroPadded 107 (name.take 106) ∧
      (unixAddress (64 :: name)).length = 3 + name.length := by
  have at_ : ((64 : UInt8) :: name).head? = some 64 := rfl
  rw [unixAddress, if_pos at_]
  exact ⟨rfl, rfl⟩

/-- The address of a path. -/
theorem unixAddress_path (noAt : path.head? ≠ some 64) :
    (unixAddress path).sunPath = zeroPadded 108 (path.take 107) ∧ (unixAddress path).length = 110 := by
  rw [unixAddress, if_neg noAt]
  exact ⟨rfl, rfl⟩

/-- The kernel refuses an address that is longer than the structure. -/
theorem name_abstract_of_long (long : 107 < name.length) : (unixAddress (64 :: name)).name = none := by
  have sizes : sockaddrUnSize = 110 := rfl
  rw [UnixAddress.name, (unixAddress_abstract name).2, sizes, if_pos (Or.inr (by omega))]

/-- Otherwise it takes as many bytes behind the leading NUL as the name has. -/
theorem name_abstract_of_le (fits : name.length ≤ 107) :
    (unixAddress (64 :: name)).name = some (.abstract ((zeroPadded 107 (name.take 106)).take name.length)) := by
  rcases unixAddress_abstract name with ⟨bytes, length⟩
  have sizes : sunPathOffset = 2 ∧ sockaddrUnSize = 110 := ⟨rfl, rfl⟩
  have rest : 3 + name.length - 2 = name.length + 1 := by omega
  rw [UnixAddress.name, bytes, length, sizes.1, sizes.2, if_neg (by omega), rest, List.take_succ_cons]
  rfl

/-- A name of at most 106 bytes is in `sun_path` as a whole. -/
theorem name_abstract_of_short (short : name.length ≤ 106) :
    (unixAddress (64 :: name)).name = some (.abstract name) := by
  rw [name_abstract_of_le (by omega), List.take_of_length_le short, zeroPadded_of_length_le (by omega),
    List.take_left]

/-- A name of 107 bytes loses its last byte to the terminator, which the length counts. -/
theorem name_abstract_of_cut (cut : name.length = 107) :
    (unixAddress (64 :: name)).name = some (.abstract (name.take 106 ++ [0])) := by
  have taken : (name.take 106).length = 106 := by
    rw [List.length_take]
    omega
  have padded : (zeroPadded 107 (name.take 106)).take 107 = name.take 106 ++ [0] := by
    rw [zeroPadded_of_length_le (by omega), taken]
    exact List.take_of_length_le (by rw [List.length_append, taken]; rfl)
  rw [name_abstract_of_le (by omega), cut, padded]

/-- An empty path gives the abstract address of 107 NULs. -/
theorem name_empty : (unixAddress []).name = some (.abstract (List.replicate 107 0)) := rfl

/-- A path is cut to 107 bytes. -/
theorem name_path (noAt : path.head? ≠ some 64) (noZero : (0 : UInt8) ∉ path) (nonempty : path ≠ []) :
    (unixAddress path).name = some (.pathname (path.take 107)) := by
  rcases unixAddress_path noAt with ⟨bytes, length⟩
  have sizes : sunPathOffset = 2 ∧ sockaddrUnSize = 110 := ⟨rfl, rfl⟩
  have short : (path.take 107).length ≤ 107 := List.length_take_le _ _
  have padded : zeroPadded 108 (path.take 107) =
      path.take 107 ++ 0 :: List.replicate (107 - (path.take 107).length) 0 := by
    rw [zeroPadded_of_length_le (by omega), ← List.replicate_succ]
    congr 2
    omega
  have all : (zeroPadded 108 (path.take 107)).take (110 - 2) = zeroPadded 108 (path.take 107) :=
    List.take_of_length_le (by rw [length_zeroPadded])
  have free : forall byte, byte ∈ path.take 107 -> byte ≠ 0 :=
    fun byte member zero => noZero (zero ▸ List.mem_of_mem_take member)
  rw [UnixAddress.name, bytes, length, sizes.1, sizes.2, if_neg (by omega), all, padded]
  split
  next name same =>
    cases path with
    | nil => exact absurd rfl nonempty
    | cons first rest =>
        rw [List.take_succ_cons, List.cons_append] at same
        exact absurd (List.cons.inj same).1 (fun zero => noZero (zero ▸ List.mem_cons_self))
  next => rw [cString_append_zero free]

/-- Only a text with `@` asks for an abstract name. -/
theorem socketName_eq_abstract_iff : socketName path = .abstract name ↔ path = 64 :: name := by
  unfold socketName
  split
  next found => rw [UnixName.abstract.injEq, List.cons.injEq, eq_self, true_and]
  next noAt => exact iff_of_false UnixName.noConfusion (fun equal => noAt name equal)

/-- Every other text asks for itself. -/
theorem socketName_eq_pathname_iff : socketName path = .pathname name ↔ path = name ∧ path.head? ≠ some 64 := by
  unfold socketName
  split
  next found => exact iff_of_false UnixName.noConfusion (fun both => both.2 rfl)
  next noAt =>
    rw [UnixName.pathname.injEq]
    refine (and_iff_left ?_).symm
    intro at_
    rcases List.head?_eq_some_iff.mp at_ with ⟨found, isPath⟩
    exact noAt found isPath

/-! ## When the address is the one asked for -/

/-- What `connect_unix` reads gives the address of the socket behind a path: it is the
path, or for a path without `@` starts with it and is cut behind it. -/
def Addresses (path read : List UInt8) : Prop :=
  path ≠ [] ∧ read.take 107 = path ∧ (path.head? = some 64 -> read = path)

instance (path read : List UInt8) : Decidable (Addresses path read) :=
  inferInstanceAs (Decidable (_ ∧ _ ∧ (_ -> _)))

/-- The address made from a text names the socket behind a path if and only if the text
addresses the path. -/
theorem name_unixAddress_iff {read : List UInt8} (readFree : (0 : UInt8) ∉ read) (noZero : (0 : UInt8) ∉ path) :
    (unixAddress read).name = some (socketName path) ↔ Addresses path read := by
  by_cases readAt : read.head? = some 64
  · rcases List.head?_eq_some_iff.mp readAt with ⟨name, isRead⟩
    -- an abstract address is only right for the very same text
    have same : Addresses path read ↔ path = 64 :: name ∧ name.length ≤ 106 := by
      constructor
      · rintro ⟨_, taken, whole⟩
        have pathAt : path.head? = some 64 := by
          rw [← taken, isRead]
          rfl
        have lengths := congrArg List.length taken
        rw [← whole pathAt, isRead, List.length_take, List.length_cons] at lengths
        exact ⟨(whole pathAt).symm.trans isRead, by omega⟩
      · rintro ⟨equal, short⟩
        rw [equal, isRead]
        refine ⟨List.cons_ne_nil _ _, List.take_of_length_le ?_, fun _ => rfl⟩
        rw [List.length_cons]
        omega
    rw [same, isRead]
    by_cases short : name.length ≤ 106
    · rw [name_abstract_of_short short, Option.some.injEq, eq_comm, socketName_eq_abstract_iff]
      exact (and_iff_left short).symm
    · refine iff_of_false ?_ (fun equal => short equal.2)
      by_cases cut : name.length = 107
      · rw [name_abstract_of_cut cut, Option.some.injEq, eq_comm, socketName_eq_abstract_iff]
        intro equal
        rw [equal] at noZero
        exact noZero (List.mem_cons_of_mem _ (List.mem_append_right _ List.mem_cons_self))
      · rw [name_abstract_of_long (by omega)]
        exact (Option.some_ne_none _).symm
  · by_cases empty : read = []
    · rw [empty, name_empty, Option.some.injEq, eq_comm, socketName_eq_abstract_iff]
      refine iff_of_false (fun equal => ?_) (fun right => right.1 right.2.1.symm)
      rw [equal] at noZero
      exact noZero (List.mem_cons_of_mem _ List.mem_cons_self)
    · rw [name_path readAt readFree empty, Option.some.injEq, eq_comm, socketName_eq_pathname_iff]
      have sameHead : (read.take 107).head? = read.head? := by cases read <;> rfl
      constructor
      · rintro ⟨equal, pathNoAt⟩
        refine ⟨?_, equal.symm, fun pathAt => absurd pathAt pathNoAt⟩
        intro nothing
        rw [nothing] at equal
        exact empty ((List.take_eq_nil_iff.mp equal.symm).resolve_left (by decide))
      · rintro ⟨_, taken, _⟩
        rw [← taken, sameHead]
        exact ⟨rfl, readAt⟩

/-- What a record keeps of a path starts like the path. -/
theorem head?_copied (path : List UInt8) : (copied 256 path).head? = path.head? := by
  cases path <;> rfl

/-- What a record keeps of a path addresses it if and only if the path, with its `@` if it
has one, has between 1 and 107 bytes. -/
theorem addresses_copied_iff (path : List UInt8) :
    Addresses path (copied 256 path) ↔ 1 ≤ path.length ∧ path.length ≤ 107 := by
  have cut : (copied 256 path).take 107 = path.take 107 := by
    rw [copied, List.take_take]
    rfl
  unfold Addresses
  rw [cut, ← List.length_pos_iff, List.take_eq_self_iff]
  constructor
  · exact fun known => ⟨known.1, known.2.1⟩
  · rintro ⟨positive, short⟩
    exact ⟨positive, short, fun _ => List.take_of_length_le (by omega)⟩

/-- The length of an address stays within a `sockaddr_un` if and only if a text that starts
with `@` has at most 108 bytes. -/
theorem length_unixAddress_le_iff (read : List UInt8) :
    (unixAddress read).length ≤ sockaddrUnSize ↔ (read.head? = some 64 -> read.length ≤ 108) := by
  have size : sockaddrUnSize = 110 := rfl
  by_cases at_ : read.head? = some 64
  · rcases List.head?_eq_some_iff.mp at_ with ⟨name, isRead⟩
    rw [isRead, (unixAddress_abstract name).2, size, List.length_cons]
    constructor
    · intro short _
      omega
    · intro short
      have known := short rfl
      omega
  · rw [(unixAddress_path at_).2, size]
    exact iff_of_true (Nat.le_refl _) (fun isAt => absurd isAt at_)

end Forward
end AdbBridge
