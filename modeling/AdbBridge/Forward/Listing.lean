import AdbBridge.Forward.TableRuns
import AdbBridge.Library.Region

namespace AdbBridge
namespace Forward

open Library Library.Numeral

/-!
# Listing the forwards

`forward_list_json` prints the table into the 8192 bytes of
`handle_tcpforward_get`, piece by piece.  `pos` advances by the length each piece
would have, whether or not it fitted, and `size - pos` is unsigned: once `pos` is
behind the buffer the next piece is stored there too.
-/

/-- The size of the buffer of `handle_tcpforward_get`. -/
def listBuf : Nat := 8192

/-- One forward as it is printed. -/
def Tcpforward.text (f : Tcpforward) : List UInt8 :=
  ascii "\x7b\"id\":" ++ formatDec f.id ++
    ascii ",\"unix_path\":\"" ++ f.unixPath ++
    ascii "\",\"host\":\"" ++ f.host ++
    ascii "\",\"port\":" ++ formatDec f.port ++
    ascii ",\"secure\":" ++ (if f.secure then ascii "true" else ascii "false") ++
    ascii ",\"connections\":" ++ formatDec f.activeConnections ++ ascii "\x7d"

/-- The pieces of the loop: a comma before every forward but the first. -/
def forwardPieces (first : Bool) : List Tcpforward -> List (List UInt8)
  | [] => []
  | f :: rest => (if first then [] else [ascii ","]) ++ f.text :: forwardPieces false rest

/-- All pieces that advance `pos`. -/
def listPieces (forwards : List Tcpforward) : List (List UInt8) :=
  ascii "\x7b\"forwards\":[" :: forwardPieces true forwards

/-- `forward_list_json`: the buffer and `pos` afterwards, or `none` if a byte was
stored outside of the buffer. -/
def forwardListJson {size : Nat} (buf : Region size) (forwards : List Tcpforward) :
    Option (Region size × Nat) :=
  (Region.print (listPieces forwards) buf 0).bind (fun (buf, pos) =>
    (buf.snprintf pos (Region.roomAt size pos) (ascii "]\x7d")).map (fun buf => (buf, pos)))

/-- The text of the list before its end. -/
def openListing (forwards : List Tcpforward) : List UInt8 := (listPieces forwards).flatten

/-- `pos` stays in the buffer, no byte is stored outside, and the result is
terminated within the buffer. -/
structure ListsInside (buf : Region listBuf) (forwards : List Tcpforward) : Prop where
  positions : forall position, position ∈ Region.positions 0 (listPieces forwards) -> position ≤ listBuf
  terminated : Exists fun after => Exists fun pos =>
    forwardListJson buf forwards = some (after, pos) ∧ 0 ∈ after.bytes

/-- While the text before the closing brackets fits, so does the rest. -/
theorem forwardListJson_inside {size : Nat} (buf : Region size) {forwards : List Tcpforward}
    (small : 0 < size ∧ size < 2 ^ 64) (fits : (openListing forwards).length ≤ size) :
    Exists fun after => Exists fun pos =>
      forwardListJson buf forwards = some (after, pos) ∧ 0 ∈ after.bytes := by
  have inside : 0 + (listPieces forwards).flatten.length ≤ size := by
    rw [Nat.zero_add]
    exact fits
  rcases @Region.print_inside size buf (listPieces forwards) 0 small.2 inside
    (Or.inl ⟨small.1, List.cons_ne_nil _ _⟩) with ⟨after, printed, terminated⟩
  rcases @Region.snprintf_inside size after (ascii "]\x7d") _ small.2 inside with ⟨final, closed, stays⟩
  refine ⟨final, 0 + (listPieces forwards).flatten.length, ?_, stays (Or.inr terminated)⟩
  rw [forwardListJson, printed, Option.bind_some]
  dsimp only
  rw [closed, Option.map_some]

/-- Listing stays inside the buffer if and only if the text before the closing
brackets has at most 8192 bytes. -/
theorem listsInside_iff (buf : Region listBuf) (forwards : List Tcpforward) :
    ListsInside buf forwards ↔ (openListing forwards).length ≤ 8192 := by
  have small : 0 < listBuf ∧ listBuf < 2 ^ 64 := by
    unfold listBuf
    omega
  have bound := @Region.positions_le_iff (listPieces forwards) 0 listBuf
  rw [Nat.zero_add] at bound
  exact ⟨fun inside => bound.mp inside.positions, fun fits =>
    ⟨bound.mpr fits, forwardListJson_inside buf small fits⟩⟩

/-- A forward is printed with its path and at least six bytes more. -/
theorem length_text_ge (f : Tcpforward) : f.unixPath.length + 6 ≤ f.text.length := by
  have opening : (ascii "\x7b\"id\":").length = 6 := rfl
  rw [Tcpforward.text]
  simp only [List.length_append, opening]
  omega

/-- The printed forwards are at least as long as their paths together. -/
theorem length_pieces_ge (first : Bool) (forwards : List Tcpforward) :
    (forwards.map (fun f => f.unixPath.length + 6)).sum ≤ (forwardPieces first forwards).flatten.length := by
  induction forwards generalizing first with
  | nil => exact Nat.zero_le _
  | cons f rest inductionHypothesis =>
      have later := inductionHypothesis false
      have here := length_text_ge f
      rw [forwardPieces, List.map_cons, List.sum_cons, List.flatten_append, List.flatten_cons,
        List.length_append, List.length_append]
      omega

/-- What the kernel answers when everything succeeds and the descriptor is `fd`. -/
def succeedingWith (fd : Nat) : AddOutcomes := ⟨some fd, true, 1, true, true, by decide⟩

/-- As many forwards as the table takes, with paths of 255 bytes. -/
def longCalls : List Call :=
  (List.range maxForwards).map (fun count : Nat =>
    .add (List.replicate 255 97) (ascii "127.0.0.1") (8000 + count) false (succeedingWith (count + 5)))

/-- They can all be added, and then `pos` runs out of the buffer. -/
theorem forwardListJson_overruns :
    Exists fun table => Machine.exec (tableStep dottedQuad) .initial longCalls = some table ∧
      forall buf, ¬ ListsInside buf table.forwards := by
  refine ⟨(Machine.exec (tableStep dottedQuad) .initial longCalls).get (by decide +kernel),
    (Option.some_get (by decide +kernel)).symm, fun buf inside => ?_⟩
  have long : 8192 < (((Machine.exec (tableStep dottedQuad) .initial longCalls).get
      (by decide +kernel)).forwards.map (fun f => f.unixPath.length + 6)).sum := by decide +kernel
  have overruns := inside.positions
  rw [Region.positions_le_iff, listPieces, List.flatten_cons, List.length_append] at overruns
  have size : listBuf = 8192 := rfl
  have pieces := Nat.lt_of_lt_of_le long (length_pieces_ge true _)
  omega

end Forward
end AdbBridge
