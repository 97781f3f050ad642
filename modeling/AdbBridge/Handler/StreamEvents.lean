import AdbBridge.Handler.Streams

namespace AdbBridge
namespace Handler

open Library Library.Numeral Library.ChunkedCoding Executor

/-!
# The events of a stream

`stream_callback` cuts a block into pieces and sends an event for each.  Whatever the
bytes are, the pieces are the block and each event fits the array, so the framing of the
response cannot go wrong.

What stands between the prefix and the blank line of an event is another matter.  A
piece is printed with `%.*s`, which stops at a NUL; and its line ends are sent as they
are, so that an empty line of the output ends the event there and leaves the rest of the
piece behind it.
-/

/-! ## Pieces -/

/-- What one turn of the loop after the other takes off the data. -/
def pieces (isStderr : Bool) : Nat -> List UInt8 -> List (List UInt8)
  | 0, _ => []
  | fuel + 1, data =>
      if data = [] then []
      else data.take (maxPiece isStderr) :: pieces isStderr fuel (data.drop (maxPiece isStderr))

/-- The pieces of a block. -/
def blockPieces (block : Bool × List UInt8) : List (List UInt8) :=
  pieces block.1 block.2.length block.2

/-- How the loop of `stream_callback` is left, if it is. -/
inductive CallbackEnd where
  | covered
  | overflow
  | running
deriving DecidableEq, Repr

/-- The end of the loop after at most so many turns: the whole block is covered, or the
`break` is taken. -/
def callbackEnd (isStderr : Bool) : Nat -> List UInt8 -> CallbackEnd
  | 0, data => if data = [] then .covered else .running
  | fuel + 1, data =>
      if data = [] then .covered
      else if (pieceEvent isStderr (data.take (maxPiece isStderr))).length < callbackBuf then
        callbackEnd isStderr fuel (data.drop (maxPiece isStderr))
      else .overflow

variable {isStderr : Bool} {fuel : Nat} {data piece event : List UInt8} {block : Bool × List UInt8}

theorem maxPiece_positive (isStderr : Bool) : 0 < maxPiece isStderr := by cases isStderr <;> decide

/-- A turn leaves less data than there was. -/
theorem length_drop_le (nonempty : data ≠ []) (enough : data.length ≤ fuel + 1) :
    (data.drop (maxPiece isStderr)).length ≤ fuel := by
  have some := List.length_pos_iff.mpr nonempty
  have positive := maxPiece_positive isStderr
  rw [List.length_drop]
  omega

/-- The loop sends one event for each piece. -/
theorem streamCallback_eq (isStderr : Bool) (fuel : Nat) (data : List UInt8) :
    streamCallback isStderr fuel data = (pieces isStderr fuel data).map (pieceEvent isStderr) := by
  induction fuel generalizing data with
  | zero => rfl
  | succ fuel inductionHypothesis =>
      rw [streamCallback, pieces]
      split
      · rfl
      · rw [if_pos (length_pieceEvent_lt isStderr data), List.map_cons, inductionHypothesis]

theorem blockEvents_eq (block : Bool × List UInt8) :
    blockEvents block = (blockPieces block).map (pieceEvent block.1) :=
  streamCallback_eq block.1 block.2.length block.2

/-- The pieces are the data. -/
theorem flatten_pieces (enough : data.length ≤ fuel) : (pieces isStderr fuel data).flatten = data := by
  induction fuel generalizing data with
  | zero => exact (List.length_eq_zero_iff.mp (Nat.le_zero.mp enough)).symm
  | succ fuel inductionHypothesis =>
      rw [pieces]
      split
      next empty => exact empty.symm
      next nonempty =>
        rw [List.flatten_cons, inductionHypothesis (length_drop_le nonempty enough),
          List.take_append_drop]

theorem flatten_blockPieces (block : Bool × List UInt8) : (blockPieces block).flatten = block.2 :=
  flatten_pieces (Nat.le_refl _)

/-- A turn for each byte is enough: the loop covers its block and never breaks off. -/
theorem callbackEnd_covered (isStderr : Bool) (enough : data.length ≤ fuel) :
    callbackEnd isStderr fuel data = .covered := by
  induction fuel generalizing data with
  | zero => rw [callbackEnd, if_pos (List.length_eq_zero_iff.mp (Nat.le_zero.mp enough))]
  | succ fuel inductionHypothesis =>
      rw [callbackEnd]
      split
      · rfl
      next nonempty =>
        rw [if_pos (length_pieceEvent_lt isStderr data)]
        exact inductionHypothesis (length_drop_le nonempty enough)

/-- A piece is not empty, and not longer than its event has room for. -/
theorem mem_pieces (member : piece ∈ pieces isStderr fuel data) :
    piece ≠ [] ∧ piece.length ≤ maxPiece isStderr := by
  induction fuel generalizing data with
  | zero => exact absurd member List.not_mem_nil
  | succ fuel inductionHypothesis =>
      rw [pieces] at member
      split at member
      · exact absurd member List.not_mem_nil
      next nonempty =>
        rcases List.mem_cons.mp member with here | later
        · have positive := maxPiece_positive isStderr
          refine ⟨fun empty => ?_, here ▸ List.length_take_le _ _⟩
          rcases List.take_eq_nil_iff.mp (here.symm.trans empty) with none | none
          · omega
          · exact nonempty none
        · exact inductionHypothesis later

/-! ## The bytes between the prefix and the blank line -/

/-- An event without its prefix and without the two newlines at its end. -/
def eventText (isStderr : Bool) (event : List UInt8) : List UInt8 :=
  ((event.drop (6 + (tag isStderr).length)).dropLast).dropLast

/-- It is what `%.*s` printed. -/
theorem eventText_pieceEvent (isStderr : Bool) (piece : List UInt8) :
    eventText isStderr (pieceEvent isStderr piece) = cString piece := by
  have start : (ascii "data: " ++ tag isStderr).length = 6 + (tag isStderr).length := by
    rw [List.length_append]
    rfl
  have blank : ascii "\n\n" = [10] ++ [10] := by decide
  rw [eventText, pieceEvent, List.append_assoc (ascii "data: " ++ tag isStderr), ← start, List.drop_left,
    blank, ← List.append_assoc, List.dropLast_concat, List.dropLast_concat]

/-- Texts cut at their first NUL are the texts themselves if and only if there is none. -/
theorem flatMap_cString_iff (texts : List (List UInt8)) :
    texts.flatMap cString = texts.flatten ↔ 0 ∉ texts.flatten := by
  have shorter : forall texts : List (List UInt8),
      (texts.flatMap cString).length ≤ texts.flatten.length := by
    intro texts
    induction texts with
    | nil => exact Nat.le_refl _
    | cons text rest inductionHypothesis =>
        rw [List.flatMap_cons, List.flatten_cons, List.length_append, List.length_append]
        exact Nat.add_le_add (List.takeWhile_sublist _).length_le inductionHypothesis
  induction texts with
  | nil => exact ⟨fun _ => List.not_mem_nil, fun _ => rfl⟩
  | cons text rest inductionHypothesis =>
      rw [List.flatMap_cons, List.flatten_cons, List.mem_append, not_or]
      constructor
      · intro same
        have lengths := congrArg List.length same
        rw [List.length_append, List.length_append] at lengths
        have whole : cString text = text := by
          apply (List.takeWhile_sublist _).eq_of_length_le
          have bound := shorter rest
          change text.length ≤ (cString text).length
          omega
        rw [whole] at same
        refine ⟨fun zero => ?_, inductionHypothesis.mp (List.append_cancel_left same)⟩
        have nonzero := List.mem_takeWhile_imp (whole ▸ zero)
        exact absurd nonzero (by decide)
      · rintro ⟨free, later⟩
        rw [cString_eq_self (fun byte member zero => free (zero ▸ member)), inductionHypothesis.mpr later]

/-- The events of a block carry all its bytes if and only if none of them is NUL. -/
theorem no_byte_dropped_iff (block : Bool × List UInt8) :
    (blockEvents block).flatMap (eventText block.1) = block.2 ↔ 0 ∉ block.2 := by
  have texts : (blockEvents block).flatMap (eventText block.1) = (blockPieces block).flatMap cString := by
    rw [blockEvents_eq, List.flatMap_map]
    exact List.flatMap_congr (fun piece _ => eventText_pieceEvent block.1 piece)
  have iff := flatMap_cString_iff (blockPieces block)
  rwa [flatten_blockPieces, ← texts] at iff

/-- The output `a`, NUL, `b` is sent as `a`. -/
theorem byte_dropped_after_nul :
    blockEvents (false, [97, 0, 98]) = [ascii "data: a\n\n"] ∧
      (blockEvents (false, [97, 0, 98])).flatMap (eventText false) ≠ [97, 0, 98] := by
  decide

/-! ## One event -/

/-- Somewhere behind an empty line there is a line that is not empty. -/
def goesOnAfterBlank : List UInt8 -> Bool
  | [] => false
  | byte :: rest =>
      (byte == 10 && rest.head? == some 10 && (rest.drop 1).head?.any (fun next => next != 10)) ||
        goesOnAfterBlank rest

/-- A payload that is one event: lines of which the first starts with `data: `, then a
blank line, and nothing but empty lines from there. -/
structure IsEvent (payload : List UInt8) : Prop where
  starts : ascii "data: " <+: payload
  ends : ascii "\n\n" <:+ payload
  single : goesOnAfterBlank payload = false

/-- In front of an empty line there is a newline. -/
theorem goesOnAfterBlank_append (free : 10 ∉ piece) (rest : List UInt8) :
    goesOnAfterBlank (piece ++ rest) = goesOnAfterBlank rest := by
  induction piece with
  | nil => rfl
  | cons byte piece inductionHypothesis =>
      rw [List.mem_cons, not_or] at free
      have different : (byte == 10) = false := beq_eq_false_iff_ne.mpr (Ne.symm free.1)
      rw [List.cons_append, goesOnAfterBlank, different, inductionHypothesis free.2]
      rfl

/-- The blank line at the end is followed by nothing. -/
theorem goesOnAfterBlank_ended (text : List UInt8) :
    goesOnAfterBlank (text ++ ascii "\n\n") = goesOnAfterBlank text := by
  have blank : ascii "\n\n" = [10, 10] := by decide
  rw [blank]
  induction text with
  | nil => decide
  | cons byte text inductionHypothesis =>
      rw [List.cons_append, goesOnAfterBlank, inductionHypothesis, goesOnAfterBlank]
      congr 1
      cases text with
      | nil => simp
      | cons second text =>
          cases text with
          | nil => simp
          | cons third text => rfl

/-- The payload for a piece is one event if and only if what is printed of the piece
does not go on after an empty line. -/
theorem isEvent_pieceEvent_iff (isStderr : Bool) (piece : List UInt8) :
    IsEvent (pieceEvent isStderr piece) ↔ goesOnAfterBlank (cString piece) = false := by
  have opening : 10 ∉ ascii "data: " ++ tag isStderr := by cases isStderr <;> decide
  have scanned : goesOnAfterBlank (pieceEvent isStderr piece) = goesOnAfterBlank (cString piece) := by
    rw [pieceEvent, goesOnAfterBlank_ended, goesOnAfterBlank_append opening]
  constructor
  · exact fun event => scanned.symm.trans event.single
  · intro single
    refine ⟨?_, List.suffix_append _ _, scanned.trans single⟩
    rw [pieceEvent, List.append_assoc, List.append_assoc]
    exact List.prefix_append _ _

/-! ## The response -/

/-- The payload of the last chunk before the zero chunk. -/
def exitEvent (exitCode : Int) : List UInt8 := PipeLoop.exitLine exitCode ++ ascii "\n\n"

/-- The payloads of a stream. -/
def streamPayloads (blocks : List (Bool × List UInt8)) (exitCode : Int) : List (List UInt8) :=
  blocks.flatMap blockEvents ++ [exitEvent exitCode]

/-- What is sent for the blocks and the exit code is framed: the headers, then exactly
one chunk for each payload and the zero chunk; every payload fits the array, starts like
an event and ends in a blank line; every call of `stream_callback` covers its block. -/
structure Framed (sent : List UInt8) (blocks : List (Bool × List UInt8)) (exitCode : Int) : Prop where
  chunked : Exists fun body => sent = sendChunkedHeaders ++ body ∧
    body = (streamPayloads blocks exitCode).flatMap encodeChunk ++ lastChunk ∧
    decodeChunks body = some (streamPayloads blocks exitCode)
  payloads : forall payload, payload ∈ streamPayloads blocks exitCode ->
    payload ≠ [] ∧ payload.length < callbackBuf ∧ ascii "data: " <+: payload ∧ ascii "\n\n" <:+ payload
  covers : forall block, block ∈ blocks ->
    callbackEnd block.1 block.2.length block.2 = .covered ∧
      blockEvents block = (blockPieces block).map (pieceEvent block.1) ∧
      (blockPieces block).flatten = block.2

/-- It is well framed if, besides, every payload is one event. -/
structure WellFramed (sent : List UInt8) (blocks : List (Bool × List UInt8)) (exitCode : Int) : Prop
    extends Framed sent blocks exitCode where
  events : forall payload, payload ∈ streamPayloads blocks exitCode -> IsEvent payload

/-- The exit event is one event that fits its array. -/
theorem isEvent_exitEvent (exitCode : Int) : IsEvent (exitEvent exitCode) := by
  have noNewline : 10 ∉ PipeLoop.exitLine exitCode := by
    intro member
    rw [PipeLoop.exitLine, List.mem_append, List.mem_append] at member
    rcases member with (opening | number) | closing
    · exact absurd opening (by decide)
    · exact absurd (formatDec_bounds number).1 (by decide)
    · exact absurd closing (by decide)
  refine ⟨?_, List.suffix_append _ _, ?_⟩
  · have opening : ascii "data: \x7b\"event\":\"exit\",\"exit_code\":" =
        ascii "data: " ++ ascii "\x7b\"event\":\"exit\",\"exit_code\":" := by decide
    rw [exitEvent, PipeLoop.exitLine, opening, List.append_assoc, List.append_assoc, List.append_assoc]
    exact List.prefix_append _ _
  · rw [exitEvent, goesOnAfterBlank_append noNewline]
    decide

/-- The number of an exit code takes at most eleven bytes. -/
theorem length_exitEvent_lt {exitCode : Int} (isInt : -2147483648 ≤ exitCode ∧ exitCode ≤ 2147483647) :
    (exitEvent exitCode).length < finalMsgSize := by
  have digits : (formatDec exitCode).length ≤ 11 := by
    rcases Int.eq_nat_or_neg exitCode with ⟨magnitude, same | same⟩
    · rw [same]
      have number : (formatDec (magnitude : Int)).length ≤ 9 + 1 := length_formatDec_le (by omega)
      omega
    · by_cases zero : magnitude = 0
      · rw [same, zero]
        decide
      · rw [same, formatDec_neg (Nat.pos_of_ne_zero zero), List.length_cons]
        have number : (formatDec (magnitude : Int)).length ≤ 9 + 1 := length_formatDec_le (by omega)
        omega
  have fixed : (ascii "data: \x7b\"event\":\"exit\",\"exit_code\":").length = 34 ∧
      (ascii "\x7d").length = 1 ∧ (ascii "\n\n").length = 2 := by decide
  change ((ascii "data: \x7b\"event\":\"exit\",\"exit_code\":" ++ formatDec exitCode ++ ascii "\x7d") ++
    ascii "\n\n").length < 256
  rw [List.length_append, List.length_append, List.length_append, fixed.1, fixed.2.1, fixed.2.2]
  omega

/-- An event of a block is the event of one of its pieces. -/
theorem mem_blockEvents {payload : List UInt8} (member : payload ∈ blockEvents block) :
    Exists fun piece => piece ∈ blockPieces block ∧ payload = pieceEvent block.1 piece := by
  rw [blockEvents_eq] at member
  rcases List.mem_map.mp member with ⟨piece, isPiece, same⟩
  exact ⟨piece, isPiece, same.symm⟩

theorem length_pieceEvent_of_mem (member : piece ∈ blockPieces block) :
    (pieceEvent block.1 piece).length < callbackBuf := by
  have whole : piece.take (maxPiece block.1) = piece := List.take_of_length_le (mem_pieces member).2
  have fits := length_pieceEvent_lt block.1 piece
  rwa [whole] at fits

theorem pieceEvent_prefix (isStderr : Bool) (piece : List UInt8) :
    ascii "data: " <+: pieceEvent isStderr piece := by
  rw [pieceEvent, List.append_assoc, List.append_assoc]
  exact List.prefix_append _ _

variable {printer : Printer} {parse : List UInt8 -> CommandItem} {body text : List UInt8}
  {execRunStream : List UInt8 -> Option Streaming.State}

/-- Whatever the blocks and the exit code are, the response is framed. -/
theorem framed_stream (isCommand : parse body = .command text)
    (isInt : -2147483648 ≤ (streamResult (execRunStream text)).2 ∧
      (streamResult (execRunStream text)).2 ≤ 2147483647) :
    Framed (handleExecStream printer parse execRunStream body) (streamResult (execRunStream text)).1
      (streamResult (execRunStream text)).2 := by
  have payloads : forall payload,
      payload ∈ streamPayloads (streamResult (execRunStream text)).1 (streamResult (execRunStream text)).2 ->
      payload ≠ [] ∧ payload.length < callbackBuf ∧ ascii "data: " <+: payload ∧
        ascii "\n\n" <:+ payload := by
    intro payload member
    rcases List.mem_append.mp member with event | exit
    · rcases List.mem_flatMap.mp event with ⟨block, _, isEvent⟩
      rcases mem_blockEvents isEvent with ⟨piece, isPiece, same⟩
      rw [same]
      exact ⟨pieceEvent_ne_nil _ _, length_pieceEvent_of_mem isPiece, pieceEvent_prefix _ _,
        List.suffix_append _ _⟩
    · rw [List.mem_singleton.mp exit]
      have shape := isEvent_exitEvent (streamResult (execRunStream text)).2
      refine ⟨fun empty => ?_, Nat.lt_trans (length_exitEvent_lt isInt) (by decide), shape.starts, shape.ends⟩
      exact absurd (List.prefix_nil.mp (empty ▸ shape.starts)) (by decide)
  have printed : sentFrom finalMsgSize printer.beyond
      (PipeLoop.exitLine (streamResult (execRunStream text)).2 ++ ascii "\n\n") =
      exitEvent (streamResult (execRunStream text)).2 :=
    sentFrom_of_fits printer.beyond (length_exitEvent_lt isInt)
  refine ⟨⟨_, ?_, rfl, ?_⟩, payloads, fun block _ => ?_⟩
  · rw [handleExecStream, isCommand]
    dsimp only
    rw [printed, streamPayloads, List.flatMap_append, List.flatMap_singleton, List.append_assoc]
  · exact decodeChunks_encode _ (fun payload member => (payloads payload member).1)
  · exact ⟨callbackEnd_covered block.1 (Nat.le_refl _), blockEvents_eq block, flatten_blockPieces block⟩

/-- The response to a command is framed, and well framed if and only if no piece of its
output, as far as it is printed, goes on after an empty line. -/
theorem wellFramed_stream_iff (isCommand : parse body = .command text)
    (isInt : -2147483648 ≤ (streamResult (execRunStream text)).2 ∧
      (streamResult (execRunStream text)).2 ≤ 2147483647) :
    Framed (handleExecStream printer parse execRunStream body) (streamResult (execRunStream text)).1
      (streamResult (execRunStream text)).2 ∧
    (WellFramed (handleExecStream printer parse execRunStream body) (streamResult (execRunStream text)).1
        (streamResult (execRunStream text)).2 ↔
      forall block, block ∈ (streamResult (execRunStream text)).1 ->
        forall piece, piece ∈ blockPieces block -> goesOnAfterBlank (cString piece) = false) := by
  have framed : Framed (handleExecStream printer parse execRunStream body)
      (streamResult (execRunStream text)).1 (streamResult (execRunStream text)).2 :=
    framed_stream isCommand isInt
  refine ⟨framed, fun well block isBlock piece isPiece => ?_, fun single => ⟨framed, fun payload member => ?_⟩⟩
  · apply (isEvent_pieceEvent_iff block.1 piece).mp
    apply well.events
    refine List.mem_append_left _ (List.mem_flatMap.mpr ⟨block, isBlock, ?_⟩)
    rw [blockEvents_eq]
    exact List.mem_map_of_mem isPiece
  · rcases List.mem_append.mp member with event | exit
    · rcases List.mem_flatMap.mp event with ⟨block, isBlock, isEvent⟩
      rcases mem_blockEvents isEvent with ⟨piece, isPiece, same⟩
      rw [same]
      exact (isEvent_pieceEvent_iff block.1 piece).mpr (single block isBlock piece isPiece)
    · rw [List.mem_singleton.mp exit]
      exact isEvent_exitEvent _

/-- A command writes a text and exits: what happens until `exec_run_stream` returns. -/
def printingRun (output : List UInt8) : List Streaming.Event :=
  [.childWrite false output, .poll (.ready true false), .read output.length, .callback true,
    .childExit (.exited 0), .poll (.ready false false), .waitpid .reaped]

/-- The state it returns in. -/
def afterPrinting (output : List UInt8) : Option Streaming.State :=
  Machine.exec Streaming.step Streaming.start (printingRun output)

/-- A printer of empty texts. -/
def blankPrinter : Printer := ⟨fun _ => 0, fun _ => [], fun _ => by decide⟩

theorem wellFramed_stream_iff_two_lines :
    WellFramed (handleExecStream blankPrinter .command (fun _ => afterPrinting (ascii "a\nb\n")) (ascii "seq"))
      [(false, ascii "a\nb\n")] 0 :=
  (@wellFramed_stream_iff blankPrinter .command (ascii "seq") (ascii "seq")
    (fun _ => afterPrinting (ascii "a\nb\n")) rfl (by decide)).2.mpr (by decide)

/-- The output `a`, an empty line, `b` is sent in one chunk, which holds an event for `a`
and goes on with a line that belongs to no event. -/
theorem empty_line_ends_event :
    handleExecStream blankPrinter .command (fun _ => afterPrinting (ascii "a\n\nb")) (ascii "seq") =
        sendChunkedHeaders ++ (encodeChunk (ascii "data: a\n\nb\n\n") ++
          (encodeChunk (exitEvent 0) ++ lastChunk)) ∧
      ¬ IsEvent (ascii "data: a\n\nb\n\n") ∧
      ¬ WellFramed
        (handleExecStream blankPrinter .command (fun _ => afterPrinting (ascii "a\n\nb")) (ascii "seq"))
        [(false, ascii "a\n\nb")] 0 := by
  have event : ¬ IsEvent (ascii "data: a\n\nb\n\n") := fun event => absurd event.single (by decide)
  refine ⟨by decide +kernel, event, fun well => event (well.events _ ?_)⟩
  decide

end Handler
end AdbBridge
