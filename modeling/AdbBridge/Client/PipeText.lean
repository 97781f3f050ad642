import AdbBridge.Client.ParseSse
import Mathlib.Algebra.Order.BigOperators.Group.List

namespace AdbBridge
namespace Client

open Library Library.Numeral Library.Lines Library.ChunkedCoding
open Executor Executor.PipeLoop

/-!
# Text through the pipe

A text written to stdout reaches the client as the pieces its reads were cut
into, each printed as a line of its own.  The client therefore prints the text
when the pieces are its lines: no line is empty, none is shared by two reads, and
none looks like an option of `echo`.

That nothing else prints the text is a matter of counting.  A piece with a tag
loses its bracket, one that forges an exit event its brace, an option its dash;
no piece gains one of these.  What is left are pieces shown as they are or behind
`data: `, and the latter gain a letter.
-/

/-! ## Counting -/

/-- Two ways to print pieces, of which the first never prints a byte more often, print it
equally often in all only if they do so for each piece. -/
theorem count_eq_of_flatMap {pieces : List (List UInt8)} {first second : List UInt8 -> List UInt8}
    {byte : UInt8} (fewer : forall piece, piece ∈ pieces ->
      (first piece).count byte ≤ (second piece).count byte)
    (same : (pieces.flatMap first).count byte = (pieces.flatMap second).count byte) :
    forall piece, piece ∈ pieces -> (first piece).count byte = (second piece).count byte := by
  intro piece member
  by_contra differs
  have less := List.sum_lt_sum (List.count byte ∘ first) (List.count byte ∘ second) fewer
    ⟨piece, member, Nat.lt_of_le_of_ne (fewer piece member) differs⟩
  rw [← List.count_flatMap, ← List.count_flatMap, same] at less
  exact Nat.lt_irrefl _ less

/-- A piece that is printed as it is, on a line of its own. -/
structure Plain (piece : List UInt8) : Prop where
  untagged : ¬ ascii "[STDERR] " <+: piece
  unbraced : ¬ ascii "\x7b" <+: piece
  printed : isEchoOption (piece.map UInt8.toNat) = false

variable {charset : Charset} {piece : List UInt8} {pieces ls : List (List UInt8)}

theorem shown_of_plain (plain : Plain piece) : shown piece = piece ++ [10] := by
  rw [shown, if_neg plain.untagged, if_neg plain.unbraced, echoBytes, echo_of_not_option plain.printed]

theorem flatMap_shown (plain : forall piece, piece ∈ pieces -> Plain piece) :
    pieces.flatMap shown = unlines 10 pieces := by
  induction pieces with
  | nil => rfl
  | cons piece pieces inductionHypothesis =>
      rw [List.flatMap_cons, shown_of_plain (plain piece List.mem_cons_self),
        inductionHypothesis (fun other member => plain other (List.mem_cons_of_mem piece member)),
        unlines_cons, List.append_assoc]
      rfl

/-- Only the bytes of `data: ` and the newline can be gained. -/
theorem count_shown_le {byte : UInt8} (notNewline : byte ≠ 10) (notData : byte ∉ ascii "data: ")
    (piece : List UInt8) : (shown piece).count byte ≤ piece.count byte := by
  have newline : List.count byte [10] = 0 := List.count_eq_zero.mpr (by simpa using notNewline)
  have data : List.count byte (ascii "data: ") = 0 := List.count_eq_zero.mpr notData
  rw [shown]
  by_cases tagged : ascii "[STDERR] " <+: piece
  · rw [if_pos tagged]
    exact Nat.zero_le _
  · rw [if_neg tagged]
    by_cases braced : ascii "\x7b" <+: piece
    · rw [if_pos braced, List.count_append, List.count_append, newline, data]
      omega
    · rw [if_neg braced]
      by_cases option : isEchoOption (piece.map UInt8.toNat) = true
      · have lost : (echoBytes piece).count byte = 0 :=
          List.count_eq_zero.mpr (fun member => notNewline (mem_echo_of_option option member))
        rw [lost]
        exact Nat.zero_le _
      · rw [echoBytes, echo_of_not_option (Bool.eq_false_iff.mpr option), List.count_append, newline]
        omega

/-- A piece with a tag loses its bracket. -/
theorem untagged_of_count (same : (shown piece).count 91 = piece.count 91) :
    ¬ ascii "[STDERR] " <+: piece := by
  intro tagged
  have bracket : 91 ∈ piece := tagged.subset (by decide)
  have positive := List.count_pos_iff.mpr bracket
  rw [← same, shown, if_pos tagged] at positive
  exact absurd positive (Nat.lt_irrefl 0)

/-- An option loses its dash. -/
theorem printed_of_count (same : (shown piece).count 45 = piece.count 45) :
    isEchoOption (piece.map UInt8.toNat) = false := by
  apply Bool.eq_false_iff.mpr
  intro option
  have dash : piece.head? = some 45 := by
    have head := dash_of_option option
    rw [List.head?_map] at head
    rcases Option.map_eq_some_iff.mp head with ⟨byte, isHead, isDash⟩
    have same : byte = 45 := UInt8.toNat_inj.mp isDash
    rw [isHead, same]
  rcases List.head?_eq_some_iff.mp dash with ⟨rest, isPiece⟩
  have untagged : ¬ ascii "[STDERR] " <+: piece := by
    rw [isPiece]
    exact fun tagged => absurd (List.cons_prefix_cons.mp tagged).1 (by decide)
  have unbraced : ¬ ascii "\x7b" <+: piece := by
    rw [isPiece]
    exact fun braced => absurd (List.cons_prefix_cons.mp braced).1 (by decide)
  have lost : (echoBytes piece).count 45 = 0 :=
    List.count_eq_zero.mpr (fun member => absurd (mem_echo_of_option option member) (by decide))
  rw [shown, if_neg untagged, if_neg unbraced, lost, isPiece, List.count_cons_self] at same
  exact absurd same.symm (Nat.succ_ne_zero _)

/-- A piece behind `data: ` gains a letter, and no other piece loses one but an option. -/
theorem count_le_shown (untagged : ¬ ascii "[STDERR] " <+: piece)
    (printed : isEchoOption (piece.map UInt8.toNat) = false) :
    piece.count 100 + (if ascii "\x7b" <+: piece then 1 else 0) ≤ (shown piece).count 100 := by
  rw [shown, if_neg untagged]
  by_cases braced : ascii "\x7b" <+: piece
  · have data : List.count 100 (ascii "data: ") = 1 := by decide
    rw [if_pos braced, if_pos braced, List.count_append, List.count_append, data]
    omega
  · rw [if_neg braced, if_neg braced, echoBytes, echo_of_not_option printed, List.count_append]
    omega

/-- Pieces that show as many bytes of each kind as they have are plain. -/
theorem plain_of_count (same : forall byte, byte ≠ 10 ->
    (pieces.flatMap shown).count byte = pieces.flatten.count byte) :
    forall piece, piece ∈ pieces -> Plain piece := by
  have flat : pieces.flatten = pieces.flatMap id := List.flatMap_id.symm
  have kept : forall byte, byte ≠ 10 -> byte ∉ ascii "data: " ->
      forall piece, piece ∈ pieces -> (shown piece).count byte = piece.count byte := by
    intro byte notNewline notData
    have fewer : forall piece, piece ∈ pieces -> (shown piece).count byte ≤ (id piece).count byte :=
      fun piece _ => count_shown_le notNewline notData piece
    exact count_eq_of_flatMap fewer (flat ▸ same byte notNewline)
  have untagged : forall piece, piece ∈ pieces -> ¬ ascii "[STDERR] " <+: piece :=
    fun piece member => untagged_of_count (kept 91 (by decide) (by decide) piece member)
  have printed : forall piece, piece ∈ pieces -> isEchoOption (piece.map UInt8.toNat) = false :=
    fun piece member => printed_of_count (kept 45 (by decide) (by decide) piece member)
  have more : forall piece, piece ∈ pieces -> (id piece).count 100 ≤ (shown piece).count 100 :=
    fun piece member => Nat.le_trans (Nat.le_add_right _ _)
      (count_le_shown (untagged piece member) (printed piece member))
  have letters := count_eq_of_flatMap more (flat ▸ (same 100 (by decide)).symm)
  intro piece member
  refine ⟨untagged piece member, fun braced => ?_, printed piece member⟩
  have gained := count_le_shown (untagged piece member) (printed piece member)
  rw [if_pos braced, ← letters piece member] at gained
  exact absurd gained (Nat.not_succ_le_self _)

/-- The reader never prints more braces than the pieces of stdout have, and fewer if one
of them forges an exit event. -/
theorem count_brace_parseSse (pieces : List (Bool × List UInt8)) {rest : List (List UInt8)}
    (nothing : (parseSse charset rest).stdout = []) :
    (parseSse charset (pieces.flatMap pieceLines ++ rest)).stdout.count 123 +
        (if Exists fun piece => piece ∈ stdoutPieces pieces ∧ Forges charset piece then 1 else 0) ≤
      (stdoutPieces pieces).flatten.count 123 := by
  induction pieces with
  | nil =>
      have none : ¬ Exists fun piece => piece ∈ stdoutPieces [] ∧ Forges charset piece :=
        fun some => absurd some.choose_spec.1 List.not_mem_nil
      rw [if_neg none, List.flatMap_nil, List.nil_append, nothing]
      exact Nat.le_refl 0
  | cons piece pieces inductionHypothesis =>
      rcases piece with ⟨isErr, piece⟩
      rw [List.flatMap_cons, List.append_assoc]
      cases isErr with
      | true =>
          rw [parseSse_stderr]
          exact inductionHypothesis
      | false =>
          have split : stdoutPieces ((false, piece) :: pieces) = piece :: stdoutPieces pieces := rfl
          rw [split, List.flatten_cons, List.count_append]
          by_cases forges : Forges charset piece
          · have brace : 123 ∈ piece := forges.1.subset (by decide)
            have positive := List.count_pos_iff.mpr brace
            rw [parseSse_forged forges, if_pos ⟨piece, List.mem_cons_self, forges⟩]
            change 0 + 1 ≤ _
            omega
          · have later : (Exists fun other => other ∈ piece :: stdoutPieces pieces ∧ Forges charset other) ↔
                Exists fun other => other ∈ stdoutPieces pieces ∧ Forges charset other := by
              constructor
              · rintro ⟨other, member, isForged⟩
                rcases List.mem_cons.mp member with same | inRest
                · exact absurd (same ▸ isForged) forges
                · exact ⟨other, inRest, isForged⟩
              · rintro ⟨other, inRest, isForged⟩
                exact ⟨other, List.mem_cons_of_mem piece inRest, isForged⟩
            have here : (shown piece).count 123 ≤ piece.count 123 :=
              count_shown_le (by decide) (by decide) piece
            rw [(parseSse_shown forges _).1, List.count_append]
            simp only [later]
            omega

/-! ## A whole call -/

/-- The pieces of a read without NUL hold its bytes, without the newlines. -/
theorem flatten_pieces {read : Read} (noZero : forall byte, byte ∈ read.bytes -> byte ≠ 0) :
    read.pieces.flatten = read.bytes.filter (fun byte => byte != 10) := by
  rw [Read.pieces, flatten_filter_ne_nil, Read.cut, cString_eq_self noZero, flatten_splitOn]

theorem flatten_flatMap_pieces {reads : List Read}
    (noZero : forall byte, byte ∈ reads.flatMap Read.bytes -> byte ≠ 0) :
    (reads.flatMap Read.pieces).flatten =
      (reads.flatMap Read.bytes).filter (fun byte => byte != 10) := by
  induction reads with
  | nil => rfl
  | cons read reads inductionHypothesis =>
      rw [List.flatMap_cons] at noZero
      rw [List.flatMap_cons, List.flatMap_cons, List.flatten_append, List.filter_append,
        flatten_pieces (fun byte member => noZero byte (List.mem_append_left _ member)),
        inductionHypothesis (fun byte member => noZero byte (List.mem_append_right _ member))]

/-- The pieces that make up a text are printed as this text exactly when they are its lines and
none is an option of `echo`. -/
theorem printed_iff {pieces : List (Bool × List UInt8)} {rest : List (List UInt8)}
    (nothing : (parseSse charset rest).stdout = [])
    (pieceEnds : forall piece, piece ∈ stdoutPieces pieces -> 10 ∉ piece)
    (lineEnds : forall line, line ∈ ls -> 10 ∉ line)
    (unmarked : forall line, line ∈ ls -> ¬ ascii "\x7b" <+: line ∧ ¬ ascii "[STDERR] " <+: line)
    (content : (stdoutPieces pieces).flatten = ls.flatten) :
    (parseSse charset (pieces.flatMap pieceLines ++ rest)).stdout = unlines 10 ls ↔
      stdoutPieces pieces = ls ∧
        forall line, line ∈ ls -> isEchoOption (line.map UInt8.toNat) = false := by
  constructor
  · intro printed
    have counts : forall byte, byte ≠ 10 -> (unlines 10 ls).count byte =
        (stdoutPieces pieces).flatten.count byte := by
      intro byte notNewline
      rw [content, ← filter_unlines lineEnds]
      exact (List.count_filter (p := fun symbol => symbol != 10) (bne_iff_ne.mpr notNewline)).symm
    have honest : forall piece, piece ∈ stdoutPieces pieces -> ¬ Forges charset piece := by
      intro piece member forges
      have braces := count_brace_parseSse pieces nothing
      rw [printed, counts 123 (by decide), if_pos ⟨piece, member, forges⟩] at braces
      exact absurd braces (Nat.not_succ_le_self _)
    have shows := (parseSse_pieces honest rest).1
    rw [nothing, List.append_nil, printed] at shows
    have plain : forall piece, piece ∈ stdoutPieces pieces -> Plain piece :=
      plain_of_count (fun byte notNewline => shows ▸ counts byte notNewline)
    rw [flatMap_shown plain] at shows
    have same := congrArg (lines 10) shows
    rw [lines_unlines lineEnds, lines_unlines pieceEnds] at same
    exact ⟨same.symm, fun line member => (plain line (same ▸ member)).printed⟩
  · rintro ⟨same, options⟩
    have plain : forall piece, piece ∈ stdoutPieces pieces -> Plain piece := by
      intro piece member
      rw [same] at member
      exact ⟨(unmarked piece member).2, (unmarked piece member).1, options piece member⟩
    have honest : forall piece, piece ∈ stdoutPieces pieces -> ¬ Forges charset piece :=
      fun piece member forges => (plain piece member).unbraced forges.1
    rw [(parseSse_pieces honest rest).1, nothing, List.append_nil, flatMap_shown plain, same]

variable {call : Call} {incoming : List UInt8} {events : List Event} {final : State}

end Client
end AdbBridge
