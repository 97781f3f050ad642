import AdbBridge.Executor.SseBuffer
import AdbBridge.Library.Search

namespace AdbBridge
namespace Executor
namespace PipeLoop

open Library Library.Numeral Library.Search

/-!
# The loop that splits a read into lines

`frameLines` is handed the lines of a read.  Here is the loop that finds them: a pointer
moves through `out_buf`, where `strchr` looks for the next newline, the newline becomes a
terminator, and `strlen` and `snprintf` read the line in front of it.  Every index it
touches is recorded.

A read may fill the buffer.  The terminator that the loop needs is then stored behind it.
-/

/-! ## The loop -/

/-- The locals of the loop.  `memory` is `out_buf` and what lies behind it, `line` is the
index of the pointer, or none for the null pointer; `accesses` are the indices read and
written so far, and `visited` the values of `line` the body was entered with. -/
structure Splitter where
  memory : List UInt8
  line : Option Nat
  sseBuf : List UInt8
  accesses : List Nat
  visited : List Nat
deriving DecidableEq, Repr

/-- The indices of a scan, from its first to its last. -/
def scan (first last : Nat) : List Nat := List.range' first (last + 1 - first)

/-- The index at which `strchr(line, '\n')` ends: a newline, or the terminator. -/
def strchrEnd (memory : List UInt8) (line : Nat) : Nat :=
  line + ((memory.drop line).takeWhile (fun byte => byte != 10 && byte != 0)).length

/-- The index at which `strlen(line)` ends. -/
def strlenEnd (memory : List UInt8) (line : Nat) : Nat := line + (cString (memory.drop line)).length

/-- The body of the loop. -/
def Splitter.visit (beyond : Nat -> UInt8) (isErr : Bool) (line : Nat) (splitter : Splitter) : Splitter :=
  let nl := strchrEnd splitter.memory line
  let found : Bool := splitter.memory[nl]? = some 10
  let memory := if found then splitter.memory.set nl 0 else splitter.memory
  let text := cString (memory.drop line)
  { memory := memory
    line := if found then some (nl + 1) else none
    sseBuf := frameLine beyond isErr splitter.sseBuf text
    accesses := splitter.accesses ++ (scan line nl ++ (if found then [nl] else []) ++
      line :: (if text = [] then [] else scan line (strlenEnd memory line)))
    visited := splitter.visited ++ [line] }

/-- The loop, with fuel. -/
def Splitter.run (beyond : Nat -> UInt8) (isErr : Bool) : Nat -> Splitter -> Option Splitter
  | 0, _ => none
  | fuel + 1, splitter =>
      match splitter.line with
      | none => some splitter
      | some line =>
          if splitter.sseBuf.length < sseBufSize - 512 then
            Splitter.run beyond isErr fuel (splitter.visit beyond isErr line)
          else some splitter

/-- The terminator is stored at the number of bytes read, and the pointer is at the first. -/
def Splitter.start (sseBuf memory : List UInt8) (count : Nat) : Splitter :=
  ⟨memory.set count 0, some 0, sseBuf, [count], []⟩

/-! ## Where lines start -/

/-- The indices behind the newlines of a text that starts at an index. -/
def newlineEnds : Nat -> List UInt8 -> List Nat
  | _, [] => []
  | start, byte :: rest =>
      if byte = 10 then (start + 1) :: newlineEnds (start + 1) rest else newlineEnds (start + 1) rest

/-- The indices at which the lines of a text start. -/
def lineStarts (text : List UInt8) : List Nat := 0 :: newlineEnds 0 text

/-- What a line adds to `sse_buf_len`. -/
def lineSize (isErr : Bool) (line : List UInt8) : Nat := if line = [] then 0 else frameSize isErr line

/-- The lines visited, the first of which starts at an index. -/
def visits (isErr : Bool) : Nat -> Nat -> List (List UInt8) -> List Nat
  | _, _, [] => []
  | used, start, line :: rest =>
      if used < sseBufSize - 512 then
        start :: visits isErr (used + lineSize isErr line) (start + line.length + 1) rest
      else []

variable {beyond : Nat -> UInt8} {isErr : Bool} {text rest before line : List UInt8} {used start : Nat}

theorem length_frameLine_eq (beyond : Nat -> UInt8) (isErr : Bool) (sseBuf line : List UInt8) :
    (frameLine beyond isErr sseBuf line).length = sseBuf.length + lineSize isErr line := by
  unfold lineSize
  by_cases empty : line = []
  · rw [if_pos empty, frameLine, if_pos empty, Nat.add_zero]
  · rw [if_neg empty, length_frameLine beyond isErr sseBuf empty]

theorem newlineEnds_append (start : Nat) (text rest : List UInt8) :
    newlineEnds start (text ++ rest) = newlineEnds start text ++ newlineEnds (start + text.length) rest := by
  induction text generalizing start with
  | nil => rfl
  | cons byte text inductionHypothesis =>
      have index : start + (byte :: text).length = start + 1 + text.length := by
        rw [List.length_cons]
        omega
      rw [List.cons_append, newlineEnds, newlineEnds, inductionHypothesis, index]
      split <;> rfl

theorem newlineEnds_eq_nil_iff : newlineEnds start text = [] ↔ 10 ∉ text := by
  induction text generalizing start with
  | nil => exact ⟨fun _ => List.not_mem_nil, fun _ => rfl⟩
  | cons byte text inductionHypothesis =>
      rw [newlineEnds, List.mem_cons, not_or]
      by_cases newline : byte = 10
      · rw [if_pos newline]
        exact ⟨fun none => absurd none (List.cons_ne_nil _ _), fun absent => absurd newline.symm absent.1⟩
      · rw [if_neg newline, inductionHypothesis]
        exact ⟨fun absent => ⟨fun same => newline same.symm, absent⟩, fun absent => absent.2⟩

/-- The starts of a text whose first line is known. -/
theorem newlineEnds_line (free : 10 ∉ line) (start : Nat) (rest : List UInt8) :
    newlineEnds start (line ++ 10 :: rest) =
      (start + line.length + 1) :: newlineEnds (start + line.length + 1) rest := by
  rw [newlineEnds_append, newlineEnds_eq_nil_iff.mpr free, List.nil_append, newlineEnds, if_pos rfl]

/-- The loop visits lines in their order, and all of them if and only if there is room in
front of the last. -/
theorem visits_splitOn (text : List UInt8) (used start : Nat) :
    visits isErr used start (text.splitOn 10) <+: start :: newlineEnds start text ∧
      (visits isErr used start (text.splitOn 10) = start :: newlineEnds start text ↔
        used + ((text.splitOn 10).dropLast.map (lineSize isErr)).sum < sseBufSize - 512) := by
  induction length : text.length using Nat.strong_induction_on generalizing text used start with
  | _ length inductionHypothesis =>
      subst length
      by_cases newline : 10 ∈ text
      · rcases Lines.exists_first_line newline with ⟨line, rest, split, free, pieces⟩
        have shorter : rest.length < text.length := by
          have lengths := congrArg List.length split
          rw [List.length_append, List.length_cons] at lengths
          omega
        rcases inductionHypothesis rest.length shorter rest (used + lineSize isErr line)
          (start + line.length + 1) rfl with ⟨isPrefix, whole⟩
        have ends : newlineEnds start text =
            (start + line.length + 1) :: newlineEnds (start + line.length + 1) rest := by
          rw [split]
          exact newlineEnds_line free start rest
        rw [ends, pieces, visits, List.dropLast_cons_of_ne_nil (List.splitOn_ne_nil 10 rest), List.map_cons,
          List.sum_cons]
        by_cases room : used < sseBufSize - 512
        · rw [if_pos room]
          refine ⟨(List.prefix_cons_inj start).mpr isPrefix, ?_⟩
          rw [List.cons_inj_right, whole, Nat.add_assoc]
        · rw [if_neg room]
          refine ⟨List.nil_prefix, fun none => absurd none (List.cons_ne_nil _ _).symm, fun less => ?_⟩
          omega
      · have pieces : text.splitOn 10 = [text] := List.splitOn_eq_singleton newline
        rw [newlineEnds_eq_nil_iff.mpr newline, pieces, visits, visits]
        by_cases room : used < sseBufSize - 512
        · rw [if_pos room]
          exact ⟨List.prefix_refl _, fun _ => room, fun _ => rfl⟩
        · rw [if_neg room]
          refine ⟨List.nil_prefix, fun none => absurd none (List.cons_ne_nil _ _).symm, fun less => ?_⟩
          exact absurd less room

/-! ## One line -/

variable {splitter : Splitter} {behind : List UInt8} {byte : UInt8}

/-- A text without a newline and a terminator. -/
def Unbroken (text : List UInt8) : Prop := forall byte, byte ∈ text -> byte ≠ 10 ∧ byte ≠ 0

/-- `strchr` ends behind the line. -/
theorem strchrEnd_eq (unbroken : Unbroken line) (ends : byte = 10 ∨ byte = 0) (before behind : List UInt8) :
    strchrEnd (before ++ (line ++ byte :: behind)) before.length = before.length + line.length := by
  have stop : (byte != 10 && byte != 0) = false := by
    rcases ends with isEnd | isEnd <;> rw [isEnd] <;> decide
  have taken : (line ++ byte :: behind).takeWhile (fun byte => byte != 10 && byte != 0) = line := by
    rw [List.takeWhile_append_of_pos (fun other member => ?_), List.takeWhile_cons_of_neg (by simp [stop]),
      List.append_nil]
    have differs := unbroken other member
    rw [bne_iff_ne.mpr differs.1, bne_iff_ne.mpr differs.2]
    rfl
  rw [strchrEnd, List.drop_left, taken]

/-- The string at the pointer is the line. -/
theorem cString_drop_eq (unbroken : Unbroken line) (before behind : List UInt8) :
    cString ((before ++ (line ++ 0 :: behind)).drop before.length) = line := by
  rw [List.drop_left]
  exact cString_append_zero (fun byte member => (unbroken byte member).2)

theorem mem_scan {first last index : Nat} (member : index ∈ scan first last) : index ≤ last := by
  have bounds := List.mem_range'_1.mp member
  omega

/-- What is accessed lies between the pointer and the end of the line. -/
theorem visit_accesses_le {found : Bool} {nl : Nat} {text : List UInt8} (inside : start ≤ nl) {index : Nat}
    (member : index ∈ scan start nl ++ (if found then [nl] else []) ++
      start :: (if text = [] then [] else scan start nl)) : index ≤ nl := by
  rcases List.mem_append.mp member with first | later
  · rcases List.mem_append.mp first with scanned | stored
    · exact mem_scan scanned
    · split at stored
      · exact Nat.le_of_eq (List.mem_singleton.mp stored)
      · exact absurd stored List.not_mem_nil
  · rcases List.mem_cons.mp later with here | scanned
    · rw [here]
      exact inside
    · split at scanned
      · exact absurd scanned List.not_mem_nil
      · exact mem_scan scanned

/-- The splitter behind a line: the line is framed, and nothing behind its end was accessed. -/
structure Visited (beyond : Nat -> UInt8) (isErr : Bool) (start : Nat) (line : List UInt8)
    (splitter next : Splitter) : Prop where
  sseBuf : next.sseBuf = frameLine beyond isErr splitter.sseBuf line
  visited : next.visited = splitter.visited ++ [start]
  accesses : Exists fun new => next.accesses = splitter.accesses ++ new ∧
    forall index, index ∈ new -> index ≤ start + line.length

/-- The body of the loop, once it is known what its scans find. -/
theorem visited_visit {found : Bool} {after : List UInt8}
    (nl : strchrEnd splitter.memory start = start + line.length)
    (isFound : decide (splitter.memory[start + line.length]? = some 10) = found)
    (stored : (if found then splitter.memory.set (start + line.length) 0 else splitter.memory) = after)
    (text : cString (after.drop start) = line) :
    Visited beyond isErr start line splitter (splitter.visit beyond isErr start) ∧
      (splitter.visit beyond isErr start).memory = after ∧
        (splitter.visit beyond isErr start).line = if found then some (start + line.length + 1) else none := by
  have strlen : strlenEnd after start = start + line.length := by
    rw [strlenEnd, text]
  unfold Splitter.visit
  rw [nl]
  dsimp only
  rw [isFound, stored, text, strlen]
  refine ⟨⟨rfl, rfl, _, rfl, fun index member => ?_⟩, rfl, rfl⟩
  exact visit_accesses_le (Nat.le_add_right _ _) member

/-- A line that ends with a newline. -/
theorem visit_newline (unbroken : Unbroken line)
    (memory : splitter.memory = before ++ (line ++ 10 :: behind)) :
    Visited beyond isErr before.length line splitter (splitter.visit beyond isErr before.length) ∧
      (splitter.visit beyond isErr before.length).memory = (before ++ (line ++ [0])) ++ behind ∧
        (splitter.visit beyond isErr before.length).line = some (before.length + line.length + 1) := by
  have nl : strchrEnd splitter.memory before.length = before.length + line.length := by
    rw [memory]
    exact strchrEnd_eq unbroken (Or.inl rfl) before behind
  have whole : splitter.memory = (before ++ line) ++ 10 :: behind := by
    rw [memory, List.append_assoc]
  have index : before.length + line.length = (before ++ line).length := List.length_append.symm
  have found : splitter.memory[before.length + line.length]? = some 10 := by
    rw [whole, index]
    exact getElem?_length_append _ 10 behind
  have stored : splitter.memory.set (before.length + line.length) 0 = before ++ (line ++ 0 :: behind) := by
    rw [whole, index, set_length_append, List.append_assoc]
  rcases visited_visit nl (decide_eq_true found) stored (cString_drop_eq unbroken before behind) with
    ⟨visited, after, next⟩
  refine ⟨visited, ?_, next⟩
  rw [after, List.append_assoc, List.append_assoc]
  rfl

/-- A line that ends with the terminator. -/
theorem visit_last (unbroken : Unbroken line)
    (memory : splitter.memory = before ++ (line ++ 0 :: behind)) :
    Visited beyond isErr before.length line splitter (splitter.visit beyond isErr before.length) ∧
      (splitter.visit beyond isErr before.length).line = none := by
  have nl : strchrEnd splitter.memory before.length = before.length + line.length := by
    rw [memory]
    exact strchrEnd_eq unbroken (Or.inr rfl) before behind
  have found : splitter.memory[before.length + line.length]? = some 0 := by
    rw [memory, ← List.append_assoc, ← List.length_append]
    exact getElem?_length_append _ 0 behind
  have text : cString (splitter.memory.drop before.length) = line := by
    rw [memory]
    exact cString_drop_eq unbroken before behind
  have notFound : decide (splitter.memory[before.length + line.length]? = some 10) = false := by
    rw [found]
    decide
  rcases visited_visit nl notFound rfl text with ⟨visited, _, next⟩
  exact ⟨visited, next⟩

/-! ## The whole loop -/

/-- The splitter behind the loop over a text that starts at the pointer. -/
structure Finished (beyond : Nat -> UInt8) (isErr : Bool) (start : Nat) (text : List UInt8)
    (splitter final : Splitter) : Prop where
  sseBuf : final.sseBuf = frameLines beyond isErr splitter.sseBuf (text.splitOn 10)
  visited : final.visited =
    splitter.visited ++ visits isErr splitter.sseBuf.length start (text.splitOn 10)
  accesses : Exists fun new => final.accesses = splitter.accesses ++ new ∧
    forall index, index ∈ new -> index ≤ start + text.length

theorem run_stopped (full : ¬ splitter.sseBuf.length < sseBufSize - 512) (at_ : splitter.line = some start)
    (fuel : Nat) : splitter.run beyond isErr (fuel + 1) = some splitter := by
  rw [Splitter.run, at_]
  exact if_neg full

theorem run_visit (room : splitter.sseBuf.length < sseBufSize - 512) (at_ : splitter.line = some start)
    (fuel : Nat) :
    splitter.run beyond isErr (fuel + 1) = (splitter.visit beyond isErr start).run beyond isErr fuel := by
  rw [Splitter.run, at_]
  exact if_pos room

/-- A full buffer ends the loop at once. -/
theorem finished_stopped (full : ¬ splitter.sseBuf.length < sseBufSize - 512) :
    Finished beyond isErr start text splitter splitter := by
  cases pieces : text.splitOn 10 with
  | nil => exact absurd pieces (List.splitOn_ne_nil 10 text)
  | cons first others =>
      refine ⟨?_, ?_, [], (List.append_nil _).symm, fun _ member => absurd member List.not_mem_nil⟩
      · rw [pieces, frameLines, if_neg full]
      · rw [pieces, visits, if_neg full, List.append_nil]

/-- Enough fuel for one step more than the text has bytes brings the loop to its end, over every
line in front of the terminator. -/
theorem run_finished (noZero : 0 ∉ text) (at_ : splitter.line = some before.length)
    (memory : splitter.memory = before ++ (text ++ 0 :: behind)) {fuel : Nat} (enough : text.length < fuel) :
    Exists fun final => splitter.run beyond isErr (fuel + 1) = some final ∧
      Finished beyond isErr before.length text splitter final := by
  induction fuel generalizing text before splitter with
  | zero => exact absurd enough (Nat.not_lt_zero _)
  | succ fuel inductionHypothesis =>
      by_cases room : splitter.sseBuf.length < sseBufSize - 512
      · rw [run_visit room at_]
        by_cases newline : 10 ∈ text
        · rcases Lines.exists_first_line newline with ⟨line, rest, split, free, pieces⟩
          have unbroken : Unbroken line := by
            intro byte member
            refine ⟨fun same => free (same ▸ member), fun same => noZero ?_⟩
            rw [split]
            exact List.mem_append_left _ (same ▸ member)
          have lengths : text.length = line.length + (rest.length + 1) := by
            have both := congrArg List.length split
            rw [List.length_append, List.length_cons] at both
            exact both
          have layout : splitter.memory = before ++ (line ++ 10 :: (rest ++ 0 :: behind)) := by
            rw [memory, split, List.append_assoc]
            rfl
          rcases @visit_newline beyond isErr before line splitter _ unbroken layout with ⟨visited, after, next⟩
          have start : before.length + line.length + 1 = (before ++ (line ++ [0])).length := by
            rw [List.length_append, List.length_append, List.length_singleton, Nat.add_assoc]
          rw [start] at next
          have restNoZero : 0 ∉ rest := fun member => noZero (split ▸ List.mem_append_right _
            (List.mem_cons_of_mem _ member))
          rcases inductionHypothesis restNoZero next after (by omega) with ⟨final, run, finished⟩
          refine ⟨final, run, ?_, ?_, ?_⟩
          · rw [finished.sseBuf, visited.sseBuf, pieces, frameLines, if_pos room]
          · rw [finished.visited, visited.visited, visited.sseBuf, length_frameLine_eq, pieces, visits,
              if_pos room, start, List.append_assoc]
            rfl
          · rcases visited.accesses with ⟨here, isHere, hereInside⟩
            rcases finished.accesses with ⟨later, isLater, laterInside⟩
            refine ⟨here ++ later, by rw [isLater, isHere, List.append_assoc], fun index member => ?_⟩
            rcases List.mem_append.mp member with first | second
            · have inside := hereInside index first
              omega
            · have inside := laterInside index second
              rw [← start] at inside
              omega
        · have unbroken : Unbroken text :=
            fun byte member => ⟨fun same => newline (same ▸ member), fun same => noZero (same ▸ member)⟩
          have pieces : text.splitOn 10 = [text] := List.splitOn_eq_singleton newline
          rcases @visit_last beyond isErr before text splitter _ unbroken memory with ⟨visited, next⟩
          refine ⟨splitter.visit beyond isErr before.length, ?_, ?_, ?_, visited.accesses⟩
          · rw [Splitter.run, next]
          · rw [visited.sseBuf, pieces, frameLines, if_pos room]
            rfl
          · rw [visited.visited, pieces, visits, if_pos room]
            rfl
      · exact ⟨splitter, run_stopped room at_ _, finished_stopped room⟩

/-! ## A read -/

/-- Behind the terminator that is stored, memory begins with the C string of the read. -/
theorem append_zero_eq (bytes behind : List UInt8) :
    Exists fun rest => bytes ++ 0 :: behind = cString bytes ++ 0 :: rest := by
  by_cases zero : 0 ∈ bytes
  · have split : bytes = cString bytes ++ 0 :: bytes.drop ((cString bytes).length + 1) := split_at_first zero
    refine ⟨bytes.drop ((cString bytes).length + 1) ++ 0 :: behind, ?_⟩
    calc
      bytes ++ 0 :: behind
        = (cString bytes ++ 0 :: bytes.drop ((cString bytes).length + 1)) ++ 0 :: behind :=
          congrArg (fun text => text ++ 0 :: behind) split
      _ = cString bytes ++ 0 :: (bytes.drop ((cString bytes).length + 1) ++ 0 :: behind) :=
          List.append_assoc _ _ _
  · have whole : cString bytes = bytes := cString_eq_self (fun byte member same => zero (same ▸ member))
    exact ⟨behind, by rw [whole]⟩

/-- The loop over a read of any size ends, and what it leaves in `sse_buf` is what `frameLines`
makes of the lines in front of the first zero. -/
theorem run_start (beyond : Nat -> UInt8) (isErr : Bool) (sseBuf bytes : List UInt8) (old : UInt8)
    (behind : List UInt8) : Exists fun final =>
      (Splitter.start sseBuf (bytes ++ old :: behind) bytes.length).run beyond isErr (bytes.length + 2) =
          some final ∧
        final.sseBuf = frameLines beyond isErr sseBuf ((cString bytes).splitOn 10) ∧
          final.visited = visits isErr sseBuf.length 0 ((cString bytes).splitOn 10) ∧
            bytes.length ∈ final.accesses ∧ forall index, index ∈ final.accesses -> index ≤ bytes.length := by
  rcases append_zero_eq bytes behind with ⟨rest, layout⟩
  have stored : (bytes ++ old :: behind).set bytes.length 0 = [] ++ (cString bytes ++ 0 :: rest) := by
    rw [set_length_append, List.nil_append, layout]
  have noZero : 0 ∉ cString bytes := not_mem_takeWhile 0 bytes
  have short : (cString bytes).length ≤ bytes.length := (List.takeWhile_prefix _).length_le
  have enough : (cString bytes).length < bytes.length + 1 := by omega
  rcases @run_finished beyond isErr (cString bytes) []
    (Splitter.start sseBuf (bytes ++ old :: behind) bytes.length) rest noZero rfl stored _ enough with
    ⟨final, run, finished⟩
  rcases finished.accesses with ⟨new, isNew, inside⟩
  refine ⟨final, run, finished.sseBuf, finished.visited, ?_, fun index member => ?_⟩
  · rw [isNew]
    exact List.mem_append_left new List.mem_cons_self
  · rw [isNew] at member
    rcases List.mem_append.mp member with terminator | scanned
    · exact Nat.le_of_eq (List.mem_singleton.mp terminator)
    · have bound := inside index scanned
      rw [List.length_nil] at bound
      omega

/-- Every index accessed is one of `out_buf`. -/
def Splitter.Inside (splitter : Splitter) : Prop :=
  forall index, index ∈ splitter.accesses -> index < outBufSize

/-- What stands behind the first zero of a read, and the zero. -/
def fromZero (bytes : List UInt8) : List UInt8 := bytes.dropWhile (fun byte => byte != 0)

/-- In front of the last line more than 512 bytes of `sse_buf` are free. -/
def RoomForLines (isErr : Bool) (used : Nat) (bytes : List UInt8) : Prop :=
  used + (((cString bytes).splitOn 10).dropLast.map (lineSize isErr)).sum < sseBufSize - 512

/-- The lines visited are those of the whole read if and only if no newline stands behind a zero
and there is room for all. -/
theorem visits_eq_lineStarts_iff (isErr : Bool) (used : Nat) (bytes : List UInt8) :
    visits isErr used 0 ((cString bytes).splitOn 10) = lineStarts bytes ↔
      10 ∉ fromZero bytes ∧ RoomForLines isErr used bytes := by
  have whole : cString bytes ++ fromZero bytes = bytes := List.takeWhile_append_dropWhile
  have starts : lineStarts bytes = (0 :: newlineEnds 0 (cString bytes)) ++
      newlineEnds (0 + (cString bytes).length) (fromZero bytes) := by
    rw [List.cons_append, ← newlineEnds_append, whole]
    rfl
  rcases @visits_splitOn isErr (cString bytes) used 0 with ⟨isPrefix, all⟩
  rw [starts, RoomForLines, ← all, ← @newlineEnds_eq_nil_iff _ (0 + (cString bytes).length)]
  constructor
  · intro same
    have lengths := congrArg List.length same
    have short := isPrefix.length_le
    rw [List.length_append] at lengths
    have none := List.eq_nil_of_length_eq_zero
      (by omega : (newlineEnds (0 + (cString bytes).length) (fromZero bytes)).length = 0)
    rw [none, List.append_nil] at same
    exact ⟨none, same⟩
  · rintro ⟨none, same⟩
    rw [none, List.append_nil]
    exact same

/-- The loop over a read always ends.  Everything it accesses is in `out_buf`, and it visits each
line once, if and only if the read does not fill the buffer, no newline stands behind a zero
in it, and `sse_buf` has room in front of the last line. -/
theorem sse_splitter_inside_iff (beyond : Nat -> UInt8) (isErr : Bool) (sseBuf bytes : List UInt8)
    (old : UInt8) (behind : List UInt8) : Exists fun final =>
      (Splitter.start sseBuf (bytes ++ old :: behind) bytes.length).run beyond isErr (bytes.length + 2) =
          some final ∧
        ((final.Inside ∧ final.visited = lineStarts bytes) ↔
          bytes.length < outBufSize ∧ 10 ∉ fromZero bytes ∧ RoomForLines isErr sseBuf.length bytes) := by
  rcases run_start beyond isErr sseBuf bytes old behind with ⟨final, run, _, visited, terminator, inside⟩
  refine ⟨final, run, ?_⟩
  have bound : final.Inside ↔ bytes.length < outBufSize :=
    ⟨fun all => all _ terminator, fun short index member => Nat.lt_of_le_of_lt (inside index member) short⟩
  rw [bound, visited, visits_eq_lineStarts_iff]

/-- A read that fills the buffer. -/
def fullRead : List UInt8 := List.replicate 65536 97

/-- Its terminator is stored behind the buffer. -/
theorem full_read_stores_behind : Exists fun final =>
    (Splitter.start [] (fullRead ++ [0]) fullRead.length).run (fun _ => 0) false (fullRead.length + 2) =
        some final ∧
      fullRead.length = outBufSize ∧ outBufSize ∈ final.accesses ∧ ¬ final.Inside := by
  have size : fullRead.length = outBufSize := List.length_replicate
  rcases run_start (fun _ => 0) false [] fullRead 0 [] with ⟨final, run, _, _, terminator, _⟩
  rw [size] at terminator
  exact ⟨final, run, size, terminator, fun inside => Nat.lt_irrefl _ (inside _ terminator)⟩

end PipeLoop
end Executor
end AdbBridge
