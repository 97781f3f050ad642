import AdbBridge.Client.Shell
import AdbBridge.Executor.ExitCode
import AdbBridge.Executor.SseOutput
import AdbBridge.Library.Charset
import AdbBridge.Library.Search

namespace AdbBridge
namespace Client

open Library Library.Numeral Library.Lines Library.Search Library.ChunkedCoding
open Executor Executor.PipeLoop

/-!
# `parse_sse`: the reader of the event stream

The client reads the de-chunked body line by line and takes the first of three
prefixes that matches.  Output of the child and the exit event share the text
behind `data: `, so a line of output that begins with a brace is searched for
an exit code like the exit event itself.
-/

/-! ## The reader -/

/-- A character the pattern `[0-9-]` matches. -/
def isCodeSymbol (byte : UInt8) : Bool := isDigit byte || byte == 45

/-- The key in front of the exit code. -/
def exitCodeKey : List UInt8 := ascii "\"exit_code\":"

/-- `sed 's/.*"exit_code":\([0-9-]*\).*/\1/'` within the fuel given. -/
def exitCodeWithin (charset : Charset) : Nat -> List UInt8 -> List UInt8
  | 0, text => text
  | fuel + 1, text =>
      match afterLast exitCodeKey (charset.span text).1, (charset.span text).2 with
      | some behind, others => behind.takeWhile isCodeSymbol ++ others
      | none, [] => text
      | none, byte :: later => (charset.span text).1 ++ byte :: exitCodeWithin charset fuel later

/-- The expression on a line.  A dot matches the characters of the charset only: the match is the
first run of characters with a key, and becomes the code behind the last key in this run. -/
def exitCodeOf (charset : Charset) (line : List UInt8) : List UInt8 :=
  exitCodeWithin charset line.length line

/-- `echo "$text"` for a text of bytes. -/
def echoBytes (text : List UInt8) : List UInt8 := echo UInt8.toNat 10 text

/-- `${line#data: [STDERR] }`: between the brackets stand the letters of which one is removed. -/
def withoutTag (line : List UInt8) : List UInt8 :=
  match line.drop 6 with
  | letter :: space :: text =>
      if ascii "data: " <+: line ∧ letter ∈ ascii "STDERR" ∧ space = 32 then text else line
  | _ => line

/-- What the reader does with a line. -/
inductive SseCase where
  | stderr (text : List UInt8)
  | stop (status : Nat)
  | stdout (text : List UInt8)
  | ignored
deriving DecidableEq, Repr

/-- The `case` on a line. -/
def sseCase (charset : Charset) (line : List UInt8) : SseCase :=
  if ascii "data: [STDERR] " <+: line then .stderr (echoBytes (withoutTag line))
  else if ascii "data: \x7b" <+: line then
    let exitCode := exitCodeOf charset line
    if exitCode ≠ [] ∧ exitCode ≠ line then .stop (returnStatus exitCode)
    else .stdout (echoBytes line)
  else if ascii "data: " <+: line then .stdout (echoBytes (line.drop 6))
  else .ignored

/-- What was printed, the status returned, and the lines not read. -/
structure Parsed where
  stdout : List UInt8
  stderr : List UInt8
  status : Nat
  unread : List (List UInt8)
deriving DecidableEq, Repr

/-- `parse_sse` on the lines of its input. -/
def parseSse (charset : Charset) : List (List UInt8) -> Parsed
  | [] => ⟨[], [], 0, []⟩
  | line :: rest =>
      match sseCase charset line with
      | .stderr text =>
          { parseSse charset rest with stderr := text ++ (parseSse charset rest).stderr }
      | .stop status => ⟨[], [], status, rest⟩
      | .stdout text =>
          { parseSse charset rest with stdout := text ++ (parseSse charset rest).stdout }
      | .ignored => parseSse charset rest

/-! ## The exit code in a line -/

section Code

variable {charset : Charset} {text : List UInt8} {fuel : Nat}

theorem exitCodeKey_ne_nil : exitCodeKey ≠ [] := by decide

/-- A byte that ends a run is not in the key. -/
theorem not_mem_exitCodeKey {byte : UInt8} (notAscii : 128 ≤ byte) : byte ∉ exitCodeKey := by
  have isAscii : forall symbol, symbol ∈ exitCodeKey -> symbol < 128 := forall_mem_of_all (by decide)
  exact fun member => UInt8.not_lt.mpr notAscii (isAscii byte member)

/-- A key stands in the first run of characters, or behind the byte that ends it. -/
theorem exitCodeKey_infix_iff {byte : UInt8} {later : List UInt8}
    (ends : (charset.span text).2 = byte :: later) :
    exitCodeKey <:+: text ↔ exitCodeKey <:+: (charset.span text).1 ∨ exitCodeKey <:+: later := by
  have parts := charset.span_append text
  rw [ends] at parts
  conv_lhs => rw [← parts]
  exact infix_append_cons_iff exitCodeKey_ne_nil (not_mem_exitCodeKey (charset.le_of_span ends)) _

/-- What is left for the later runs. -/
theorem length_later_lt {byte : UInt8} {later : List UInt8}
    (ends : (charset.span text).2 = byte :: later) : later.length < text.length := by
  have parts := congrArg List.length (charset.span_append text)
  rw [ends, List.length_append, List.length_cons] at parts
  omega

/-- The code and the text behind it are shorter than the text. -/
theorem length_code_lt {behind : List UInt8}
    (found : afterLast exitCodeKey (charset.span text).1 = some behind) :
    (behind.takeWhile isCodeSymbol ++ (charset.span text).2).length < text.length := by
  have parts := congrArg List.length (charset.span_append text)
  have shorter := length_afterLast found
  have taken : (behind.takeWhile isCodeSymbol).length ≤ behind.length :=
    (List.takeWhile_prefix isCodeSymbol).length_le
  have key : exitCodeKey.length = 12 := by decide
  rw [List.length_append] at parts
  rw [List.length_append]
  omega

/-- The expression changes a text exactly when a key occurs in it. -/
theorem exitCodeWithin_eq_self_iff (enough : text.length ≤ fuel) :
    exitCodeWithin charset fuel text = text ↔ ¬ exitCodeKey <:+: text := by
  induction fuel generalizing text with
  | zero =>
      rw [List.eq_nil_of_length_eq_zero (Nat.le_zero.mp enough)]
      exact ⟨fun _ => by decide, fun _ => rfl⟩
  | succ fuel inductionHypothesis =>
      rw [exitCodeWithin]
      cases run : afterLast exitCodeKey (charset.span text).1 with
      | some behind =>
          have found : exitCodeKey <:+: text := by
            have within : exitCodeKey <:+: (charset.span text).1 := by
              by_contra absent
              rw [(afterLast_eq_none_iff exitCodeKey_ne_nil).mpr absent] at run
              exact absurd run nofun
            rw [← charset.span_append text]
            exact List.infix_append_of_infix_left within
          refine ⟨fun same => ?_, fun absent => absurd found absent⟩
          have shorter := length_code_lt run
          have sameLength := congrArg List.length same
          dsimp only at sameLength
          omega
      | none =>
          have absent := (afterLast_eq_none_iff exitCodeKey_ne_nil).mp run
          have parts := charset.span_append text
          cases ends : (charset.span text).2 with
          | nil =>
              rw [ends, List.append_nil] at parts
              rw [parts] at absent
              exact ⟨fun _ => absent, fun _ => rfl⟩
          | cons byte later =>
              have shorter := length_later_lt ends
              have rest : exitCodeWithin charset fuel later = later ↔ ¬ exitCodeKey <:+: later :=
                inductionHypothesis (by omega)
              rw [ends] at parts
              rw [exitCodeKey_infix_iff ends, not_or, ← rest]
              dsimp only
              conv_lhs => rhs; rw [← parts]
              rw [List.append_right_inj, List.cons_inj_right]
              exact ⟨fun same => ⟨absent, same⟩, fun both => both.2⟩

/-- The expression leaves nothing of a text with a key exactly when the text is one run of
characters, with no code behind its last key. -/
theorem exitCodeWithin_eq_nil_iff {behind : List UInt8} (enough : text.length ≤ fuel)
    (found : afterLast exitCodeKey text = some behind) :
    exitCodeWithin charset fuel text = [] ↔
      (charset.span text).2 = [] ∧ behind.takeWhile isCodeSymbol = [] := by
  have parts := charset.span_append text
  cases fuel with
  | zero =>
      rw [List.eq_nil_of_length_eq_zero (Nat.le_zero.mp enough)] at found
      exact absurd found nofun
  | succ fuel =>
      rw [exitCodeWithin]
      cases ends : (charset.span text).2 with
      | nil =>
          rw [ends, List.append_nil] at parts
          rw [parts, found]
          dsimp only
          rw [List.append_nil]
          exact ⟨fun none => ⟨rfl, none⟩, fun both => both.2⟩
      | cons byte later =>
          refine ⟨fun empty => ?_, fun both => absurd both.1 nofun⟩
          cases run : afterLast exitCodeKey (charset.span text).1 with
          | some other =>
              rw [run] at empty
              exact absurd (List.append_eq_nil_iff.mp empty).2 nofun
          | none =>
              rw [run] at empty
              exact absurd (List.append_eq_nil_iff.mp empty).2 nofun

end Code

/-! ## The lines of the server's events -/

/-- A piece of stdout that the reader takes for the exit event: it begins with a brace and holds
the key, and a digit or a minus sign stands behind the last key, or some byte of the piece
belongs to no character. -/
def Forges (charset : Charset) (piece : List UInt8) : Prop :=
  ascii "\x7b" <+: piece ∧
    match afterLast exitCodeKey piece with
    | some rest => (charset.span piece).2 ≠ [] ∨ rest.takeWhile isCodeSymbol ≠ []
    | none => False

instance (charset : Charset) (piece : List UInt8) : Decidable (Forges charset piece) := by
  unfold Forges
  cases afterLast exitCodeKey piece with
  | some rest => exact inferInstanceAs (Decidable (_ ∧ (_ ≠ _ ∨ _ ≠ _)))
  | none => exact inferInstanceAs (Decidable (_ ∧ False))

variable {charset : Charset}

theorem sseCase_nil : sseCase charset [] = .ignored := rfl

/-- The tag stays where it is, as a bracket is none of the letters. -/
theorem withoutTag_tagged (text : List UInt8) :
    withoutTag (ascii "data: [STDERR] " ++ text) = ascii "data: [STDERR] " ++ text := by
  have start : ascii "data: [STDERR] " ++ text =
      ascii "data: " ++ (91 :: 83 :: (ascii "TDERR] " ++ text)) := rfl
  have noLetter : (91 : UInt8) ∉ ascii "STDERR" := by decide
  rw [withoutTag, start]
  exact if_neg (fun all => noLetter all.2.1)

/-- A line of stderr is printed to stderr, tag and all. -/
theorem sseCase_tagged (text : List UInt8) :
    sseCase charset (ascii "data: [STDERR] " ++ text) =
      .stderr (ascii "data: [STDERR] " ++ text ++ [10]) := by
  have plain : echoBytes (ascii "data: [STDERR] " ++ text) = ascii "data: [STDERR] " ++ text ++ [10] :=
    echo_of_not_option rfl
  rw [sseCase, if_pos (List.prefix_append _ _), withoutTag_tagged, plain]

/-- The exit code is searched for in the piece. -/
theorem afterLast_dataLine (piece : List UInt8) :
    afterLast exitCodeKey (dataLine false piece) = afterLast exitCodeKey piece := by
  have absent : (34 : UInt8) ∉ ascii "data: " := by decide
  exact afterLast_append_of_absent absent piece

theorem isAscii_data : forall byte, byte ∈ ascii "data: " -> byte < 128 := forall_mem_of_all (by decide)

/-- The bytes of the piece decide whether the line is all characters. -/
theorem span_dataLine (piece : List UInt8) :
    (charset.span (dataLine false piece)).2 = (charset.span piece).2 := by
  have split := charset.span_append_left isAscii_data piece
  exact congrArg (fun parts => parts.2) split

/-- A braced piece forges exactly when the reader finds an exit code in its line. -/
theorem forges_iff {piece : List UInt8} (braced : ascii "\x7b" <+: piece) :
    Forges charset piece ↔ exitCodeOf charset (dataLine false piece) ≠ [] ∧
      exitCodeOf charset (dataLine false piece) ≠ dataLine false piece := by
  rw [exitCodeOf, ne_eq, ne_eq, exitCodeWithin_eq_self_iff (Nat.le_refl _),
    ← afterLast_eq_none_iff exitCodeKey_ne_nil, afterLast_dataLine, Forges]
  cases search : afterLast exitCodeKey piece with
  | none => exact ⟨fun both => absurd both.2 id, fun both => absurd rfl both.2⟩
  | some rest =>
      have found := (afterLast_dataLine piece).trans search
      rw [exitCodeWithin_eq_nil_iff (Nat.le_refl _) found, span_dataLine, not_and_or]
      exact ⟨fun both => ⟨both.2, nofun⟩, fun both => ⟨braced, both.1⟩⟩

/-- What the reader does with a piece of stdout. -/
theorem sseCase_stdout (piece : List UInt8) :
    sseCase charset (dataLine false piece) =
      if ascii "[STDERR] " <+: piece then .stderr (ascii "data: " ++ piece ++ [10])
      else if ascii "\x7b" <+: piece then
        if Forges charset piece then .stop (returnStatus (exitCodeOf charset (dataLine false piece)))
        else .stdout (ascii "data: " ++ piece ++ [10])
      else .stdout (echoBytes piece) := by
  have shape : dataLine false piece = ascii "data: " ++ piece := rfl
  have length : (ascii "data: ").length = 6 := by decide
  have tagged : ascii "data: [STDERR] " <+: dataLine false piece ↔ ascii "[STDERR] " <+: piece :=
    List.prefix_append_right_inj (ascii "data: ")
  have braced : ascii "data: \x7b" <+: dataLine false piece ↔ ascii "\x7b" <+: piece :=
    List.prefix_append_right_inj (ascii "data: ")
  by_cases isTagged : ascii "[STDERR] " <+: piece
  · rcases isTagged with ⟨text, isPiece⟩
    rw [if_pos ⟨text, isPiece⟩, ← isPiece]
    exact sseCase_tagged text
  · rw [sseCase, if_neg (fun found => isTagged (tagged.mp found)), if_neg isTagged]
    by_cases isBraced : ascii "\x7b" <+: piece
    · rw [if_pos (braced.mpr isBraced), if_pos isBraced]
      by_cases forges : Forges charset piece
      · rw [if_pos forges, if_pos ((forges_iff isBraced).mp forges)]
      · have plain : echoBytes (dataLine false piece) = dataLine false piece ++ [10] :=
          echo_of_not_option rfl
        rw [if_neg forges, if_neg (fun found => forges ((forges_iff isBraced).mpr found)), plain, shape]
    · have isData : ascii "data: " <+: dataLine false piece := List.prefix_append _ _
      rw [if_neg (fun found => isBraced (braced.mp found)), if_neg isBraced, if_pos isData, shape,
        ← length, List.drop_left]

/-- A byte of no character in front of the key, and no code behind it. -/
example : sseCase .utf8 (dataLine false (123 :: 255 :: (exitCodeKey ++ ascii "x"))) = .stop 2 := by decide

example : sseCase .bytewise (dataLine false (123 :: 255 :: (exitCodeKey ++ ascii "x"))) =
    .stdout (dataLine false (123 :: 255 :: (exitCodeKey ++ ascii "x")) ++ [10]) := by decide

/-- What a piece of stdout that does not forge prints to stdout. -/
def shown (piece : List UInt8) : List UInt8 :=
  if ascii "[STDERR] " <+: piece then []
  else if ascii "\x7b" <+: piece then ascii "data: " ++ piece ++ [10]
  else echoBytes piece

/-- A forging piece has no tag. -/
theorem not_tagged_of_forges {piece : List UInt8} (forges : Forges charset piece) :
    ¬ ascii "[STDERR] " <+: piece := by
  intro tagged
  rcases forges.1 with ⟨rest, isPiece⟩
  rw [← isPiece] at tagged
  exact absurd (List.cons_prefix_cons.mp tagged).1 nofun

/-! ## Reading the events -/

/-- The lines of the event for a piece of stdout or stderr. -/
def pieceLines (piece : Bool × List UInt8) : List (List UInt8) := [dataLine piece.1 piece.2, []]

variable {piece : List UInt8} {rest : List (List UInt8)} {pieces : List (Bool × List UInt8)}

theorem parseSse_nil_cons (rest : List (List UInt8)) : parseSse charset
    ([] :: rest) = parseSse charset rest := by
  rw [parseSse, sseCase_nil]

/-- A piece of stderr changes what is printed to stderr only. -/
theorem parseSse_stderr (piece : List UInt8) (rest : List (List UInt8)) :
    parseSse charset (pieceLines (true, piece) ++ rest) =
      { parseSse charset rest with
        stderr := dataLine true piece ++ [10] ++ (parseSse charset rest).stderr } := by
  have tagged : dataLine true piece = ascii "data: [STDERR] " ++ piece := rfl
  change parseSse charset (dataLine true piece :: [] :: rest) = _
  rw [parseSse, parseSse_nil_cons, tagged, sseCase_tagged]

/-- A forging piece ends the reading. -/
theorem parseSse_forged (forges : Forges charset piece) (rest : List (List UInt8)) :
    parseSse charset (pieceLines (false, piece) ++ rest) =
      ⟨[], [], returnStatus (exitCodeOf charset (dataLine false piece)), [] :: rest⟩ := by
  change parseSse charset (dataLine false piece :: [] :: rest) = _
  rw [parseSse, sseCase_stdout, if_neg (not_tagged_of_forges forges), if_pos forges.1, if_pos forges]

/-- Any other piece of stdout is shown, and the reading goes on. -/
theorem parseSse_shown (honest : ¬ Forges charset piece) (rest : List (List UInt8)) :
    (parseSse charset (pieceLines (false, piece) ++ rest)).stdout = shown piece ++
        (parseSse charset rest).stdout ∧
      (parseSse charset (pieceLines (false, piece) ++ rest)).status = (parseSse charset rest).status ∧
      (parseSse charset (pieceLines (false, piece) ++ rest)).unread = (parseSse charset rest).unread := by
  change (parseSse charset (dataLine false piece :: [] :: rest)).stdout = _ ∧
    (parseSse charset (dataLine false piece :: [] :: rest)).status = _ ∧
    (parseSse charset (dataLine false piece :: [] :: rest)).unread = _
  rw [parseSse, sseCase_stdout, parseSse_nil_cons, shown]
  by_cases tagged : ascii "[STDERR] " <+: piece
  · rw [if_pos tagged, if_pos tagged]
    exact ⟨rfl, rfl, rfl⟩
  · rw [if_neg tagged, if_neg tagged]
    by_cases braced : ascii "\x7b" <+: piece
    · rw [if_pos braced, if_pos braced, if_neg honest]
      exact ⟨rfl, rfl, rfl⟩
    · rw [if_neg braced, if_neg braced]
      exact ⟨rfl, rfl, rfl⟩

/-- The pieces of stdout among all. -/
def stdoutPieces (pieces : List (Bool × List UInt8)) : List (List UInt8) :=
  pieces.flatMap (fun piece => if piece.1 then [] else [piece.2])

/-- Without a forging piece the reader prints what the pieces show, and reaches the lines
behind them. -/
theorem parseSse_pieces (honest : forall piece, piece ∈ stdoutPieces pieces -> ¬ Forges charset piece)
    (rest : List (List UInt8)) :
    (parseSse charset (pieces.flatMap pieceLines ++ rest)).stdout =
        (stdoutPieces pieces).flatMap shown ++ (parseSse charset rest).stdout ∧
      (parseSse charset (pieces.flatMap pieceLines ++ rest)).status = (parseSse charset rest).status ∧
      (parseSse charset (pieces.flatMap pieceLines ++ rest)).unread = (parseSse charset rest).unread := by
  induction pieces with
  | nil => exact ⟨rfl, rfl, rfl⟩
  | cons piece pieces inductionHypothesis =>
      rcases piece with ⟨isErr, piece⟩
      rw [List.flatMap_cons, List.append_assoc]
      cases isErr with
      | true =>
          rw [parseSse_stderr]
          exact inductionHypothesis honest
      | false =>
          have split : stdoutPieces ((false, piece) :: pieces) = piece :: stdoutPieces pieces := rfl
          rw [split] at honest ⊢
          have here := parseSse_shown (honest piece List.mem_cons_self)
            (pieces.flatMap pieceLines ++ rest)
          have later := inductionHypothesis
            (fun other member => honest other (List.mem_cons_of_mem piece member))
          rw [here.1, here.2.1, here.2.2, later.1, later.2.1, later.2.2, List.flatMap_cons,
            List.append_assoc]
          exact ⟨rfl, rfl, rfl⟩

/-- A forging piece leaves the lines behind the pieces unread, and the blank of its own
event besides. -/
theorem unread_of_forged (forged : Exists fun piece => piece ∈ stdoutPieces pieces ∧ Forges charset piece)
    (rest : List (List UInt8)) :
    rest.length < (parseSse charset (pieces.flatMap pieceLines ++ rest)).unread.length := by
  induction pieces with
  | nil =>
      rcases forged with ⟨piece, member, _⟩
      exact absurd member List.not_mem_nil
  | cons piece pieces inductionHypothesis =>
      rcases piece with ⟨isErr, piece⟩
      rw [List.flatMap_cons, List.append_assoc]
      cases isErr with
      | true =>
          rw [parseSse_stderr]
          exact inductionHypothesis forged
      | false =>
          by_cases forges : Forges charset piece
          · rw [parseSse_forged forges, List.length_cons, List.length_append]
            omega
          · rw [(parseSse_shown forges _).2.2]
            apply inductionHypothesis
            rcases forged with ⟨other, member, isForged⟩
            rcases List.mem_cons.mp member with same | later
            · have isPiece : other = piece := same
              exact absurd (isPiece ▸ isForged) forges
            · exact ⟨other, later, isForged⟩

/-! ## The exit event -/

theorem isCodeSymbol_of_mem_formatDec {value : Int} {byte : UInt8} (member : byte ∈ formatDec value) :
    isCodeSymbol byte = true := by
  rw [isCodeSymbol, Bool.or_eq_true]
  by_cases negative : value < 0
  · have magnitude : value = -(value.natAbs : Int) := by omega
    rw [magnitude, formatDec_neg (by omega)] at member
    rcases List.mem_cons.mp member with same | later
    · exact Or.inr (beq_iff_eq.mpr same)
    · exact Or.inl (isDigit_of_mem_formatDec later)
  · have magnitude : value = (value.natAbs : Int) := by omega
    rw [magnitude] at member
    exact Or.inl (isDigit_of_mem_formatDec member)

theorem formatDec_int_ne_nil (value : Int) : formatDec value ≠ [] := by
  by_cases negative : value < 0
  · have magnitude : value = -(value.natAbs : Int) := by omega
    rw [magnitude, formatDec_neg (by omega)]
    exact List.cons_ne_nil _ _
  · have magnitude : value = (value.natAbs : Int) := by omega
    rw [magnitude]
    exact formatDec_ne_nil _

/-- The object of the exit event. -/
def exitObject (exitCode : Int) : List UInt8 :=
  ascii "\x7b\"event\":\"exit\"," ++ (exitCodeKey ++ (formatDec exitCode ++ ascii "\x7d"))

/-- The exit event is framed like a piece of stdout. -/
theorem exitLine_eq (exitCode : Int) : exitLine exitCode = dataLine false (exitObject exitCode) := by
  have start : ascii "data: \x7b\"event\":\"exit\",\"exit_code\":" =
      ascii "data: " ++ [] ++ (ascii "\x7b\"event\":\"exit\"," ++ exitCodeKey) := by decide
  have data : dataLine false (exitObject exitCode) = ascii "data: " ++ [] ++ exitObject exitCode := rfl
  rw [exitLine, start, data, exitObject, ← formatDec]
  simp only [List.append_assoc]

theorem afterLast_exitObject (exitCode : Int) :
    afterLast exitCodeKey (exitObject exitCode) = some (formatDec exitCode ++ ascii "\x7d") := by
  have absentName : (34 : UInt8) ∉ ascii "exit_code" := by decide
  have absentRest : (34 : UInt8) ∉ (58 : UInt8) :: (formatDec exitCode ++ ascii "\x7d") := by
    intro member
    rcases List.mem_cons.mp member with colon | later
    · exact absurd colon (by decide)
    · rcases List.mem_append.mp later with digit | brace
      · exact absurd (isCodeSymbol_of_mem_formatDec digit) (by decide)
      · exact absurd brace (by decide)
  have notHere : ¬ exitCodeKey <+: 34 :: 58 :: (formatDec exitCode ++ ascii "\x7d") := by
    intro isPrefix
    exact absurd (List.cons_prefix_cons.mp (List.cons_prefix_cons.mp isPrefix).2).1 (by decide)
  have ending : afterLast exitCodeKey (34 :: 58 :: (formatDec exitCode ++ ascii "\x7d")) = none := by
    rw [afterLast, if_neg notHere]
    have nothing : afterLast exitCodeKey (58 :: (formatDec exitCode ++ ascii "\x7d")) = none :=
      afterLast_eq_none absentRest
    rw [nothing]
  exact afterLast_append (ascii "\x7b\"event\":\"exit\",")
    ((afterLast_append_of_absent absentName _).trans ending)

/-- The code of the exit event is the number printed. -/
theorem takeWhile_exitCode (exitCode : Int) :
    (formatDec exitCode ++ ascii "\x7d").takeWhile isCodeSymbol = formatDec exitCode := by
  have brace : (ascii "\x7d").takeWhile isCodeSymbol = [] := by decide
  rw [List.takeWhile_append_of_pos (fun _ member => isCodeSymbol_of_mem_formatDec member), brace,
    List.append_nil]

/-- The object is ASCII text. -/
theorem isAscii_exitObject (exitCode : Int) :
    forall byte, byte ∈ exitObject exitCode -> byte < 128 := by
  have start : forall byte, byte ∈ ascii "\x7b\"event\":\"exit\"," -> byte < 128 :=
    forall_mem_of_all (by decide)
  have key : forall byte, byte ∈ exitCodeKey -> byte < 128 := forall_mem_of_all (by decide)
  have ending : forall byte, byte ∈ ascii "\x7d" -> byte < 128 := forall_mem_of_all (by decide)
  have symbols : forall byte, isCodeSymbol byte = true -> byte < 128 := by
    intro byte isSymbol
    rw [isCodeSymbol, isDigit, Bool.or_eq_true, Bool.and_eq_true, beq_iff_eq] at isSymbol
    rcases isSymbol with digit | minus
    · exact UInt8.lt_of_le_of_lt (of_decide_eq_true digit.2) (by decide)
    · rw [minus]
      decide
  simp only [exitObject, List.forall_mem_append]
  exact ⟨start, key, fun byte member => symbols byte (isCodeSymbol_of_mem_formatDec member), ending⟩

/-- The expression leaves the code of the exit event. -/
theorem exitCodeOf_exitLine (exitCode : Int) :
    exitCodeOf charset (dataLine false (exitObject exitCode)) = formatDec exitCode := by
  have found := (afterLast_dataLine (exitObject exitCode)).trans (afterLast_exitObject exitCode)
  have isAscii : forall byte, byte ∈ dataLine false (exitObject exitCode) -> byte < 128 := by
    have shape : dataLine false (exitObject exitCode) = ascii "data: " ++ exitObject exitCode := rfl
    rw [shape]
    exact List.forall_mem_append.mpr ⟨isAscii_data, isAscii_exitObject exitCode⟩
  have some : (dataLine false (exitObject exitCode)).length =
      (ascii "data:" ++ exitObject exitCode).length + 1 := rfl
  rw [exitCodeOf, some, exitCodeWithin, charset.span_ascii isAscii, found]
  dsimp only
  rw [takeWhile_exitCode, List.append_nil]

/-- The reader stops at the exit event, with the code it carries. -/
theorem parseSse_exit (exitCode : Int) :
    parseSse charset [exitLine exitCode, []] = ⟨[], [], returnStatus (formatDec exitCode), [[]]⟩ := by
  have code := takeWhile_exitCode exitCode
  have forges : Forges charset (exitObject exitCode) := by
    refine ⟨⟨_, rfl⟩, ?_⟩
    rw [afterLast_exitObject exitCode]
    exact Or.inr (fun empty => formatDec_int_ne_nil exitCode (code.symm.trans empty))
  have stops := parseSse_forged forges []
  rw [exitCodeOf_exitLine] at stops
  rw [exitLine_eq]
  exact stops

/-! ## A whole call -/

/-- The pieces that are framed, each with its stream. -/
def framedPieces (reads : List Read) : List (Bool × List UInt8) :=
  reads.flatMap (fun read => read.framed.map (fun piece => (read.isErr, piece)))

theorem flatMap_eventLines (reads : List Read) :
    reads.flatMap Read.eventLines = (framedPieces reads).flatMap pieceLines := by
  rw [framedPieces, List.flatMap_assoc]
  congr 1
  funext read
  rw [List.flatMap_map]
  rfl

theorem stdoutPieces_framedPieces (reads : List Read) :
    stdoutPieces (framedPieces reads) = (ofStdout reads).flatMap Read.framed := by
  induction reads with
  | nil => rfl
  | cons read reads inductionHypothesis =>
      have split : stdoutPieces (framedPieces (read :: reads)) =
          stdoutPieces (read.framed.map (fun piece => (read.isErr, piece))) ++
            stdoutPieces (framedPieces reads) := by
        rw [framedPieces, List.flatMap_cons, stdoutPieces, List.flatMap_append]
        rfl
      have own : stdoutPieces (read.framed.map (fun piece => (read.isErr, piece))) =
          if read.isErr then [] else read.framed := by
        rw [stdoutPieces, List.flatMap_map]
        cases read.isErr
        · simp
        · simp
      rw [split, own, inductionHypothesis, ofStdout, ofStdout]
      cases isErr : read.isErr
      · rw [List.filter_cons_of_pos (by simp [isErr])]
        rfl
      · rw [List.filter_cons_of_neg (by simp [isErr])]
        rfl

/-- No line of the body contains a newline. -/
theorem newline_not_mem_bodyLines {reads : List Read} {exitCode : Int} {line : List UInt8}
    (member : line ∈ bodyLines reads exitCode) : 10 ∉ line := by
  rcases List.mem_append.mp member with event | ending
  · rcases List.mem_flatMap.mp event with ⟨read, _, isLine⟩
    exact Read.newline_not_mem_eventLines isLine
  · rcases List.mem_cons.mp ending with exit | blank
    · rw [exit, exitLine, List.mem_append, List.mem_append, not_or, not_or]
      refine ⟨⟨by decide, fun digit => ?_⟩, by decide⟩
      exact absurd (isCodeSymbol_of_mem_formatDec digit) (by decide)
    · rw [List.mem_singleton.mp blank]
      exact List.not_mem_nil

variable {call : Call} {incoming : List UInt8} {events : List Event} {final : State} {code : UInt8}

/-- What the reader makes of the lines of a body. -/
theorem parseSse_bodyLines (reads : List Read) (exitCode : Int) :
    parseSse charset (bodyLines reads exitCode) =
      parseSse charset ((framedPieces reads).flatMap pieceLines ++ [exitLine exitCode, []]) := by
  rw [bodyLines, flatMap_eventLines]

/-- The reader stops at the exit event exactly when no piece of stdout forges one, and then
returns the code of the exit event. -/
theorem parseSse_honest_iff (reads : List Read) {exitCode : Int} (low : -(2 ^ 63 : Nat) ≤ exitCode)
    (high : exitCode < (2 ^ 63 : Nat)) (status : Nat) :
    ((parseSse charset (bodyLines reads exitCode)).status = status ∧
        (parseSse charset (bodyLines reads exitCode)).unread = [[]]) ↔
      (forall read, read ∈ ofStdout reads -> forall piece, piece ∈ read.framed -> ¬ Forges charset piece) ∧
        (exitCode % 256).toNat = status := by
  have asPieces : (forall read, read ∈ ofStdout reads -> forall piece, piece ∈ read.framed ->
      ¬ Forges charset piece) ↔
      (forall piece, piece ∈ stdoutPieces (framedPieces reads) -> ¬ Forges charset piece) := by
    rw [stdoutPieces_framedPieces]
    constructor
    · intro honest piece member
      rcases List.mem_flatMap.mp member with ⟨read, isRead, isPiece⟩
      exact honest read isRead piece isPiece
    · intro honest read isRead piece isPiece
      exact honest piece (List.mem_flatMap.mpr ⟨read, isRead, isPiece⟩)
  rw [asPieces, parseSse_bodyLines]
  by_cases honest : forall piece, piece ∈ stdoutPieces (framedPieces reads) -> ¬ Forges charset piece
  · rcases parseSse_pieces honest [exitLine exitCode, []] with ⟨_, isStatus, isUnread⟩
    rw [isStatus, isUnread, parseSse_exit, returnStatus_formatDec low high]
    exact ⟨fun both => ⟨honest, both.1⟩, fun both => ⟨both.2, rfl⟩⟩
  · have forged : Exists fun piece => piece ∈ stdoutPieces (framedPieces reads) ∧ Forges charset piece := by
      by_contra none
      exact honest (fun piece member forges => none ⟨piece, member, forges⟩)
    have left := unread_of_forged forged [exitLine exitCode, []]
    refine ⟨fun both => ?_, fun both => absurd both.1 honest⟩
    rw [both.2] at left
    exact absurd left nofun

/-- The child writes a block, which is read at once, and exits; the client accepts the
given number of bytes. -/
def oneWrite (block : List UInt8) (accepted : Nat) (status : UInt8) : List Event :=
  [.childWrite false block, .poll false (.ready false false false true false), .read block.length,
    .waitpid false, .childExit (.exited status), .childClose false, .childClose true,
    .poll false (.ready false true false true true), .sslWrite (.wrote accepted), .read 0, .read 0,
    .waitpid true, .leave, .finalWrite .all]

end Client
end AdbBridge
