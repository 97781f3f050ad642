import AdbBridge.Library.Numeral

namespace Library

open Numeral

/-!
# Arrays with checked stores

An array has a fixed size.  A store that would reach outside of it is `none`, so
a computation that gives a result has kept to the array.
-/

/-- The contents of an array of `size` bytes. -/
structure Region (size : Nat) where
  bytes : List UInt8
  length_eq : bytes.length = size
deriving DecidableEq, Repr

namespace Region

variable {size : Nat}

/-- A text is stored from `offset` on. -/
def write (region : Region size) (offset : Nat) (text : List UInt8) : Option (Region size) :=
  if fits : offset + text.length ≤ size then
    some {
      bytes := region.bytes.take offset ++ text ++ region.bytes.drop (offset + text.length)
      length_eq := by
        have whole := region.length_eq
        simp only [List.length_append, List.length_take, List.length_drop]
        omega }
  else none

/-- `snprintf` to `offset`, told that there is room for `room` bytes: the text is
cut so that its terminator fits, and nothing is stored without room. -/
def snprintf (region : Region size) (offset room : Nat) (text : List UInt8) : Option (Region size) :=
  if room = 0 then some region else region.write offset (text.take (room - 1) ++ [0])

variable {region after : Region size} {offset : Nat} {held text : List UInt8}

/-- A store behind what the array is known to begin with extends it. -/
theorem write_begins (begins : held <+: region.bytes) (fits : held.length + text.length ≤ size) :
    Exists fun after => region.write held.length text = some after ∧ held ++ text <+: after.bytes := by
  have kept : region.bytes.take held.length = held := (List.prefix_iff_eq_take.mp begins).symm
  refine ⟨_, dif_pos fits, ?_⟩
  change held ++ text <+: region.bytes.take held.length ++ text ++ _
  rw [kept]
  exact List.prefix_append _ _

/-- An `snprintf` with room for the whole text stores it with its terminator. -/
theorem snprintf_begins {room : Nat} (begins : held <+: region.bytes) (whole : text.length < room)
    (inside : held.length + room ≤ size) :
    Exists fun after => region.snprintf held.length room text = some after ∧
      held ++ (text ++ [0]) <+: after.bytes := by
  have cut : text.take (room - 1) = text := List.take_of_length_le (by omega)
  rw [snprintf, if_neg (by omega), cut]
  exact write_begins begins (by
    rw [List.length_append, List.length_singleton]
    omega)

/-! ## A text put together by `snprintf` -/

/-- `size - pos` in 64-bit unsigned arithmetic. -/
def roomAt (size pos : Nat) : Nat := (((size : Int) - pos) % 2 ^ 64).toNat

theorem roomAt_of_le {pos : Nat} (inside : pos ≤ size) (small : size < 2 ^ 64) :
    roomAt size pos = size - pos := by
  rw [roomAt, Int.emod_eq_of_lt (by omega) (by omega)]
  omega

/-- Pieces are printed one behind the other at `pos`, which advances by the length
each would have without being cut. -/
def print : List (List UInt8) -> Region size -> Nat -> Option (Region size × Nat)
  | [], region, pos => some (region, pos)
  | text :: rest, region, pos =>
      (region.snprintf pos (roomAt size pos) text).bind (fun after => print rest after (pos + text.length))

/-- The positions before and after the pieces. -/
def positions (pos : Nat) : List (List UInt8) -> List Nat
  | [] => [pos]
  | text :: rest => pos :: positions (pos + text.length) rest

variable {pieces : List (List UInt8)} {pos : Nat}

/-- The last position is the largest. -/
theorem positions_le_iff (bound : Nat) :
    (forall position, position ∈ positions pos pieces -> position ≤ bound) ↔
      pos + pieces.flatten.length ≤ bound := by
  induction pieces generalizing pos with
  | nil =>
      rw [positions, List.flatten_nil, List.length_nil, Nat.add_zero]
      exact ⟨fun all => all pos List.mem_cons_self, fun last position member =>
        List.mem_singleton.mp member ▸ last⟩
  | cons text rest inductionHypothesis =>
      have later := @inductionHypothesis (pos + text.length)
      rw [positions, List.flatten_cons, List.length_append, ← Nat.add_assoc, ← later]
      constructor
      · exact fun all position member => all position (List.mem_cons_of_mem _ member)
      · intro all position member
        rcases List.mem_cons.mp member with first | second
        · have last := later.mp all
          omega
        · exact all position second

/-- An `snprintf` at a position that is not behind the array keeps to it, and
leaves a terminator in it if there was one or there is room for one. -/
theorem snprintf_inside (small : size < 2 ^ 64) (inside : pos ≤ size) :
    Exists fun after => region.snprintf pos (roomAt size pos) text = some after ∧
      (pos < size ∨ 0 ∈ region.bytes -> 0 ∈ after.bytes) := by
  rw [roomAt_of_le inside small, snprintf]
  by_cases full : size - pos = 0
  · rw [if_pos full]
    refine ⟨region, rfl, ?_⟩
    rintro (room | terminated)
    · omega
    · exact terminated
  · have fits : pos + (text.take (size - pos - 1) ++ [0]).length ≤ size := by
      rw [List.length_append, List.length_take, List.length_singleton]
      omega
    rw [if_neg full, write, dif_pos fits]
    refine ⟨_, rfl, fun _ => ?_⟩
    exact List.mem_append_left _ (List.mem_append_right _ (List.mem_append_right _ List.mem_cons_self))

/-- As long as the position is not behind the array, printing keeps to it and
leaves a terminator. -/
theorem print_inside (small : size < 2 ^ 64) (inside : pos + pieces.flatten.length ≤ size)
    (terminates : pos < size ∧ pieces ≠ [] ∨ 0 ∈ region.bytes) :
    Exists fun after => print pieces region pos = some (after, pos + pieces.flatten.length) ∧
      0 ∈ after.bytes := by
  induction pieces generalizing pos region with
  | nil => exact ⟨region, rfl, terminates.resolve_left (fun room => room.2 rfl)⟩
  | cons text rest inductionHypothesis =>
      rw [List.flatten_cons, List.length_append, ← Nat.add_assoc] at inside
      rcases @snprintf_inside size region text pos small (by omega) with ⟨after, printed, terminated⟩
      have ends : 0 ∈ after.bytes := terminated (terminates.imp (fun room => room.1) id)
      rcases inductionHypothesis inside (Or.inr ends) with ⟨final, rest, isTerminated⟩
      refine ⟨final, ?_, isTerminated⟩
      rw [print, printed, Option.bind_some, rest, List.flatten_cons, List.length_append, Nat.add_assoc]

/-- With room to spare the array holds the text of all pieces and its terminator. -/
theorem print_begins (small : size < 2 ^ 64) (begins : held ++ [0] <+: region.bytes)
    (fits : held.length + pieces.flatten.length < size) :
    Exists fun after =>
      print pieces region held.length = some (after, held.length + pieces.flatten.length) ∧
        held ++ pieces.flatten ++ [0] <+: after.bytes := by
  induction pieces generalizing held region with
  | nil =>
      rw [List.flatten_nil, List.append_nil]
      exact ⟨region, rfl, begins⟩
  | cons text rest inductionHypothesis =>
      rw [List.flatten_cons, List.length_append, ← Nat.add_assoc] at fits
      have room : roomAt size held.length = size - held.length := roomAt_of_le (by omega) small
      rcases @snprintf_begins size region held text (size - held.length)
        ((List.prefix_append _ _).trans begins) (by omega) (by omega) with ⟨after, printed, holdsText⟩
      rw [← List.append_assoc] at holdsText
      rw [← List.length_append] at fits
      rcases inductionHypothesis holdsText fits with ⟨final, isFinal, holdsAll⟩
      refine ⟨final, ?_, ?_⟩
      · rw [print, room, printed, Option.bind_some, ← List.length_append, isFinal, List.length_append,
          List.flatten_cons, List.length_append, Nat.add_assoc]
      · rw [List.flatten_cons, ← List.append_assoc]
        exact holdsAll

end Region
end Library
