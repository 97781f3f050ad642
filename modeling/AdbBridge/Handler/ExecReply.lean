import AdbBridge.Handler.Replies
import AdbBridge.Library.JsonText

namespace AdbBridge
namespace Handler

open Library Library.Numeral Library.Search Library.Json Library.ResponseFraming Executor

/-!
# The reply of `handle_exec`

cJSON escapes a string byte by byte, so whatever C strings it prints are read back from
the body.  But a captured stream is handed to it as a C string: its length is known to
`exec_run` and not used, and the reply ends where the first NUL of the stream stands.
-/

/-! ## `cJSON_PrintUnformatted` -/

/-- What `print_string_ptr` counts for a byte besides the byte itself. -/
def extraBytes (byte : UInt8) : Nat :=
  if byte ∈ [34, 92, 8, 12, 10, 13, 9] then 1 else if byte < 32 then 5 else 0

/-- The variable `escape_characters` of `print_string_ptr`. -/
def escapeCharacters (input : List UInt8) : Nat := (input.map extraBytes).sum

/-- What the copying loop of `print_string_ptr` writes for a byte. -/
def escapeByte (byte : UInt8) : List UInt8 :=
  if 31 < byte ∧ byte ≠ 34 ∧ byte ≠ 92 then [byte]
  else if byte = 92 then [92, 92]
  else if byte = 34 then [92, 34]
  else if byte = 8 then [92, 98]
  else if byte = 12 then [92, 102]
  else if byte = 10 then [92, 110]
  else if byte = 13 then [92, 114]
  else if byte = 9 then [92, 116]
  else 92 :: 117 :: formatHex04 byte.toNat

/-- `print_string_ptr` of a C string. -/
def printStringPtr (input : List UInt8) : List UInt8 :=
  if escapeCharacters input = 0 then 34 :: (input ++ [34])
  else 34 :: (input.flatMap escapeByte ++ [34])

/-- `print_number` of an integer; `printDouble` is the text of one that is no `int`. -/
def printNumber (printDouble : Int -> List UInt8) (value : Int) : List UInt8 :=
  if -2147483648 ≤ value ∧ value ≤ 2147483647 then formatDec value else printDouble value

/-- `print_value` of a string or a number. -/
def printValue (printDouble : Int -> List UInt8) : Item -> List UInt8
  | .string text => printStringPtr text
  | .number value => printNumber printDouble value

/-- The loop of `print_object` over the members, without a format. -/
def printMembers (printDouble : Int -> List UInt8) : List (List UInt8 × Item) -> List UInt8
  | [] => []
  | (name, item) :: next =>
      printStringPtr name ++ 58 :: (printValue printDouble item ++
        ((if next = [] then [] else [44]) ++ printMembers printDouble next))

def printObject (printDouble : Int -> List UInt8) (members : List (List UInt8 × Item)) : List UInt8 :=
  123 :: (printMembers printDouble members ++ [125])

/-- `cJSON_PrintUnformatted` with enough memory: its buffer holds two bytes more than the
text, and does not grow beyond `INT_MAX`. -/
def printUnformatted (printDouble : Int -> List UInt8) (members : List (List UInt8 × Item)) :
    Option (List UInt8) :=
  if (printObject printDouble members).length + 2 ≤ 2147483647 then some (printObject printDouble members)
  else none

/-- The handlers print with cJSON, as far as it returns a text. -/
def Printer.IsCjson (printer : Printer) (printDouble : Int -> List UInt8) : Prop :=
  forall members text, printUnformatted printDouble members = some text -> printer.print members = text

/-! ## A printed string is read back -/

/-- What is written for a byte: itself, an escape of two characters, or one of six. -/
theorem escapeByte_cases (byte : UInt8) :
    (escapeByte byte = [byte] ∧ extraBytes byte = 0 ∧ byte ≠ 34 ∧ byte ≠ 92 ∧ 32 ≤ byte) ∨
      (Exists fun kind => escapeByte byte = [92, kind] ∧ extraBytes byte = 1 ∧ unescape kind = some byte) ∨
        (escapeByte byte = 92 :: 117 :: formatHex04 byte.toNat ∧ extraBytes byte = 5 ∧ byte < 32) := by
  by_cases short : byte ∈ ([34, 92, 8, 12, 10, 13, 9] : List UInt8)
  · refine Or.inr (Or.inl ?_)
    simp only [List.mem_cons, List.not_mem_nil, or_false] at short
    rcases short with rfl | rfl | rfl | rfl | rfl | rfl | rfl
    · exact ⟨34, by decide, by decide, by decide⟩
    · exact ⟨92, by decide, by decide, by decide⟩
    · exact ⟨98, by decide, by decide, by decide⟩
    · exact ⟨102, by decide, by decide, by decide⟩
    · exact ⟨110, by decide, by decide, by decide⟩
    · exact ⟨114, by decide, by decide, by decide⟩
    · exact ⟨116, by decide, by decide, by decide⟩
  · have others := short
    simp only [List.mem_cons, List.not_mem_nil, or_false, not_or] at others
    rcases others with ⟨quote, backslash, backspace, formFeed, newline, return_, tab⟩
    by_cases control : byte < 32
    · have notPlain : ¬ (31 < byte ∧ byte ≠ 34 ∧ byte ≠ 92) := by
        rintro ⟨high, _⟩
        simp only [UInt8.lt_iff_toNat_lt, UInt8.reduceToNat] at high control
        omega
      refine Or.inr (Or.inr ⟨?_, ?_, control⟩)
      · rw [escapeByte, if_neg notPlain, if_neg backslash, if_neg quote, if_neg backspace, if_neg formFeed,
          if_neg newline, if_neg return_, if_neg tab]
      · rw [extraBytes, if_neg short, if_pos control]
    · have high : 32 ≤ byte := UInt8.not_lt.mp control
      have plain : 31 < byte := by
        simp only [UInt8.lt_iff_toNat_lt, UInt8.reduceToNat] at control ⊢
        omega
      refine Or.inl ⟨?_, ?_, quote, backslash, high⟩
      · rw [escapeByte, if_pos ⟨plain, quote, backslash⟩]
      · rw [extraBytes, if_neg short, if_neg control]

/-- Every byte is read back. -/
theorem spells_escapeByte (byte : UInt8) : Spells (escapeByte byte) byte := by
  rcases escapeByte_cases byte with ⟨written, _, notQuote, notEscape, high⟩ | ⟨kind, written, _, means⟩ |
    ⟨written, _, control⟩
  · rw [written]
    exact spells_self notQuote notEscape high
  · rw [written]
    exact spells_short means
  · have small : byte.toNat < 65536 := Nat.lt_trans byte.toNat_lt (by decide)
    rcases formatHex04_of_lt small with ⟨four, hex, value⟩
    rw [written]
    exact spells_unicode four hex value (UInt8.lt_trans control (by decide))

/-- The loop writes what was counted: the closing quote, which is stored at the counted
length, stands right behind. -/
theorem length_escaped (input : List UInt8) :
    (input.flatMap escapeByte).length = input.length + escapeCharacters input := by
  induction input with
  | nil => rfl
  | cons byte input inductionHypothesis =>
      have here : (escapeByte byte).length = 1 + extraBytes byte := by
        rcases escapeByte_cases byte with ⟨written, extra, _⟩ | ⟨kind, written, extra, _⟩ | ⟨written, extra, _⟩
        · rw [written, extra]
          rfl
        · rw [written, extra]
          rfl
        · have small : byte.toNat < 65536 := Nat.lt_trans byte.toNat_lt (by decide)
          rw [written, extra, List.length_cons, List.length_cons, (formatHex04_of_lt small).1]
      rw [escapeCharacters] at inductionHypothesis
      rw [List.flatMap_cons, List.length_append, here, inductionHypothesis, List.length_cons, escapeCharacters,
        List.map_cons, List.sum_cons]
      omega

/-- Nothing was counted only where the loop would copy. -/
theorem printStringPtr_eq (input : List UInt8) :
    printStringPtr input = 34 :: (input.flatMap escapeByte ++ [34]) := by
  by_cases none : escapeCharacters input = 0
  · have copied : input.flatMap escapeByte = input := by
      induction input with
      | nil => rfl
      | cons byte input inductionHypothesis =>
          rw [escapeCharacters, List.map_cons, List.sum_cons] at none
          have later := inductionHypothesis (Nat.eq_zero_of_add_eq_zero_left none)
          have here : escapeByte byte = [byte] := by
            rcases escapeByte_cases byte with ⟨written, _⟩ | ⟨kind, _, extra, _⟩ | ⟨_, extra, _⟩
            · exact written
            · omega
            · omega
          rw [List.flatMap_cons, here, later, List.singleton_append]
    rw [printStringPtr, if_pos none, copied]
  · rw [printStringPtr, if_neg none]

/-- A byte is escaped with at most five more. -/
theorem escapeCharacters_le (input : List UInt8) : escapeCharacters input ≤ 5 * input.length := by
  induction input with
  | nil => exact Nat.le_refl 0
  | cons byte input inductionHypothesis =>
      have here : extraBytes byte ≤ 5 := by
        rw [extraBytes]
        split_ifs <;> omega
      rw [escapeCharacters] at inductionHypothesis
      rw [escapeCharacters, List.map_cons, List.sum_cons, List.length_cons]
      omega

theorem length_printStringPtr_le (input : List UInt8) :
    (printStringPtr input).length ≤ 6 * input.length + 2 := by
  have counted := escapeCharacters_le input
  rw [printStringPtr_eq, List.length_cons, List.length_append, length_escaped, List.length_singleton]
  omega

/-! ## A printed object is read back -/

variable {printDouble : Int -> List UInt8} {members : List (List UInt8 × Item)}

/-- The number of an item is an `int`. -/
def Item.FitsInt : Item -> Prop
  | .string _ => True
  | .number value => -2147483648 ≤ value ∧ value ≤ 2147483647

/-- The value of an item. -/
def Item.value : Item -> Value
  | .string text => .string text
  | .number value => .number (formatDec value)

theorem reads_printValue {item : Item} (fits : item.FitsInt) :
    Reads (printValue printDouble item) item.value := by
  cases item with
  | string text =>
      rw [printValue, printStringPtr_eq]
      exact reads_spelled (spelled_flatMap spells_escapeByte text)
  | number value =>
      have isInt : -2147483648 ≤ value ∧ value ≤ 2147483647 := fits
      rw [printValue, printNumber, if_pos isInt]
      exact reads_formatDec value

/-- The last member, with what follows the loop. -/
theorem printMembers_last (name : List UInt8) (item : Item) (rest : List UInt8) :
    printMembers printDouble [(name, item)] ++ rest =
      34 :: (name.flatMap escapeByte ++ 34 :: 58 :: (printValue printDouble item ++ rest)) := by
  rw [printMembers, if_pos rfl, printStringPtr_eq, printMembers]
  simp

theorem printMembers_more (name : List UInt8) (item : Item) {next : List (List UInt8 × Item)}
    (more : next ≠ []) (rest : List UInt8) :
    printMembers printDouble ((name, item) :: next) ++ rest =
      34 :: (name.flatMap escapeByte ++
        34 :: 58 :: (printValue printDouble item ++ 44 :: (printMembers printDouble next ++ rest))) := by
  rw [printMembers, if_neg more, printStringPtr_eq]
  simp

/-- The members are read up to the brace. -/
theorem readMembers_printMembers (some_ : members ≠ [])
    (fits : forall member, member ∈ members -> member.2.FitsInt)
    {fuel : Nat} (enough : members.length < fuel) (rest : List UInt8) :
    readMembers rfc8259 fuel (printMembers printDouble members ++ 125 :: rest) =
      some (members.map (fun member => (member.1, member.2.value)), rest) := by
  induction members generalizing fuel with
  | nil => exact absurd rfl some_
  | cons member next inductionHypothesis =>
      rcases member with ⟨name, item⟩
      have reads : Reads (printValue printDouble item) item.value :=
        reads_printValue (fits (name, item) List.mem_cons_self)
      have spelled : Spelled (name.flatMap escapeByte) name := spelled_flatMap spells_escapeByte name
      rcases Nat.exists_eq_add_of_lt enough with ⟨spare, isFuel⟩
      have twice : fuel = next.length + spare + 2 := by
        rw [isFuel, List.length_cons]
        omega
      rw [twice]
      by_cases last : next = []
      · rw [last, printMembers_last, readMembers_spelled spelled,
          reads _ _ (Stops.cons (Or.inr (Or.inr rfl)) rest)]
        rfl
      · have restFits : forall member, member ∈ next -> member.2.FitsInt :=
          fun member isMember => fits member (List.mem_cons_of_mem _ isMember)
        have later := inductionHypothesis last restFits (by omega : next.length < next.length + spare + 1)
        rw [printMembers_more name item last, readMembers_spelled spelled,
          reads _ _ (Stops.cons (Or.inl rfl) _), Option.bind_some, membersAfter_comma, later]
        rfl

theorem length_le_printMembers (members : List (List UInt8 × Item)) :
    members.length ≤ (printMembers printDouble members).length := by
  induction members with
  | nil => exact Nat.le_refl 0
  | cons member next inductionHypothesis =>
      rw [printMembers, List.length_append, List.length_cons, List.length_cons, List.length_append,
        List.length_append]
      omega

/-- An object with members is read back with its members in their order. -/
theorem parse_printObject (some_ : members ≠ [])
    (fits : forall member, member ∈ members -> member.2.FitsInt) :
    parse rfc8259 (printObject printDouble members) =
      some (.object (members.map (fun member => (member.1, member.2.value)))) := by
  have enough : members.length < (printObject printDouble members).length := by
    have inside : members.length ≤ (printMembers printDouble members).length := length_le_printMembers members
    rw [printObject, List.length_cons, List.length_append]
    omega
  have read := @readMembers_printMembers printDouble members some_ fits _ enough []
  have opened : forall fuel, readValue rfc8259 (fuel + 1) (printObject printDouble members) =
      (readMembers rfc8259 fuel (printMembers printDouble members ++ [125])).map
        (fun object => (.object object.1, object.2)) := by
    intro fuel
    cases members with
    | nil => exact absurd rfl some_
    | cons member next =>
        rw [printObject, printMembers, printStringPtr_eq, List.cons_append, List.cons_append]
        exact readValue_object fuel _
  rw [parse, opened, read]
  exact if_pos (Or.inr rfl)

/-! ## What `handle_exec` returns -/

/-- The members that `handle_exec` prints. -/
def execMembers (result : Capture.State) : List (List UInt8 × Item) :=
  [(ascii "stdout", .string (cString result.stdoutData)), (ascii "stderr", .string (cString result.stderrData)),
    (ascii "exit_code", .number result.exitCode)]

/-- The JSON body of a response has a string member with these bytes. -/
def ReturnsString (response name text : List UInt8) : Prop :=
  Exists fun body => Exists fun value => afterFirst emptyLine response = some body ∧
    parse rfc8259 body = some value ∧ value.member name = some (.string text)

variable {printer : Printer} {parseBody : List UInt8 -> CommandItem} {result : Capture.State}
  {execRun : List UInt8 -> Option Capture.State} {body command : List UInt8}

/-- Two streams of 10 MiB are printed, however they are escaped. -/
theorem printUnformatted_execMembers (produced : Capture.Produced result) :
    printUnformatted printDouble (execMembers result) =
      some (printObject printDouble (execMembers result)) := by
  have range := produced.exitCode_range
  have limit : Capture.execMaxOutput = 10485760 := rfl
  have stdout := length_printStringPtr_le (cString result.stdoutData)
  have stderr := length_printStringPtr_le (cString result.stderrData)
  have cut : forall data : List UInt8, (cString data).length ≤ data.length := fun _ =>
    (List.takeWhile_sublist _).length_le
  have stdoutCut := cut result.stdoutData
  have stderrCut := cut result.stderrData
  have stdoutData := produced.inv.out.length_le
  have stderrData := produced.inv.err.length_le
  have names : (printStringPtr (ascii "stdout")).length = 8 ∧ (printStringPtr (ascii "stderr")).length = 8 ∧
      (printStringPtr (ascii "exit_code")).length = 11 := by decide
  have code : (printNumber printDouble result.exitCode).length ≤ 4 := by
    have isInt : -2147483648 ≤ result.exitCode ∧ result.exitCode ≤ 2147483647 := by omega
    rw [printNumber, if_pos isInt]
    by_cases negative : result.exitCode < 0
    · have isMinusOne : result.exitCode = -1 := by omega
      rw [isMinusOne]
      decide
    · rcases Int.eq_ofNat_of_zero_le (Int.not_lt.mp negative) with ⟨code, isCode⟩
      have small : code < 10 ^ (2 + 1) := by omega
      have digits := length_formatDec_le small
      rw [isCode]
      omega
  refine if_pos ?_
  simp only [printObject, execMembers, printMembers, printValue, List.length_cons, List.length_append,
    List.length_nil, names.1, names.2.1, names.2.2, reduceCtorEq, if_false, if_true]
  omega

/-- The response to a command that was executed. -/
theorem handleExec_eq (isCjson : printer.IsCjson printDouble) (produced : Capture.Produced result)
    (isCommand : parseBody body = .command command) (ran : execRun command = some result) :
    handleExec printer parseBody execRun body =
      sendJson printer.beyond 200 (printObject printDouble (execMembers result)) := by
  have printed := isCjson _ _ (printUnformatted_execMembers produced)
  rw [← printed, handleExec, isCommand]
  simp only [ran]
  rfl

/-- The strings of the response are the C strings of the captured streams. -/
theorem returnsString_handleExec_iff (isCjson : printer.IsCjson printDouble)
    (produced : Capture.Produced result) (isCommand : parseBody body = .command command)
    (ran : execRun command = some result) (text : List UInt8) :
    (ReturnsString (handleExec printer parseBody execRun body) (ascii "stdout") text ↔
        text = cString result.stdoutData) ∧
      (ReturnsString (handleExec printer parseBody execRun body) (ascii "stderr") text ↔
        text = cString result.stderrData) := by
  have range := produced.exitCode_range
  have fits : forall member, member ∈ execMembers result -> member.2.FitsInt := by
    intro member isMember
    simp only [execMembers, List.mem_cons, List.not_mem_nil, or_false] at isMember
    rcases isMember with rfl | rfl | rfl
    · exact trivial
    · exact trivial
    · exact (by omega : -2147483648 ≤ result.exitCode ∧ result.exitCode ≤ 2147483647)
  have inMemory : (printObject printDouble (execMembers result)).length < 18446744073709551616 := by
    have printed := isCjson _ _ (printUnformatted_execMembers produced)
    rw [← printed]
    exact printer.inMemory _
  have isBody := afterFirst_sendJson (by decide : 200 ∈ statuses) inMemory printer.beyond
  have parsed : parse rfc8259 (printObject printDouble (execMembers result)) =
      some (.object ((execMembers result).map (fun member => (member.1, member.2.value)))) :=
    parse_printObject (List.cons_ne_nil _ _) fits
  rw [handleExec_eq isCjson produced isCommand ran]
  have returned : forall (name string : List UInt8), (Value.object ((execMembers result).map (fun member =>
      (member.1, member.2.value)))).member name = some (.string string) ->
      (ReturnsString (sendJson printer.beyond 200 (printObject printDouble (execMembers result))) name text ↔
        text = string) := by
    intro name string isMember
    constructor
    · rintro ⟨found, value, isFound, isValue, isString⟩
      rw [isBody] at isFound
      rw [← Option.some.inj isFound, parsed] at isValue
      rw [← Option.some.inj isValue, isMember] at isString
      exact (Value.string.inj (Option.some.inj isString)).symm
    · rintro rfl
      exact ⟨_, _, isBody, parsed, isMember⟩
  exact ⟨returned _ _ rfl, returned _ _ rfl⟩

/-- A C string is the whole memory if no byte of it is zero. -/
theorem eq_cString_iff {memory : List UInt8} : memory = cString memory ↔ (0 : UInt8) ∉ memory := by
  constructor
  · intro whole zero
    rw [whole] at zero
    exact not_mem_takeWhile 0 memory zero
  · intro noZero
    exact (cString_eq_self (fun byte member isZero => noZero (isZero ▸ member))).symm

/-- `handle_exec` returns both streams as they were captured if and only if no NUL was
captured of either. -/
theorem exec_returns_captured_iff (isCjson : printer.IsCjson printDouble) (produced : Capture.Produced result)
    (isCommand : parseBody body = .command command) (ran : execRun command = some result) :
    (ReturnsString (handleExec printer parseBody execRun body) (ascii "stdout") result.stdoutData ∧
        ReturnsString (handleExec printer parseBody execRun body) (ascii "stderr") result.stderrData) ↔
      (0 : UInt8) ∉ Capture.captured result.out ∧ (0 : UInt8) ∉ Capture.captured result.err := by
  have stdout := (returnsString_handleExec_iff isCjson produced isCommand ran result.stdoutData).1
  have stderr := (returnsString_handleExec_iff isCjson produced isCommand ran result.stderrData).2
  rw [stdout, stderr, eq_cString_iff, eq_cString_iff, ← produced.inv.out.eq_captured,
    ← produced.inv.err.eq_captured]

/-- The printer of the handlers, without a text where cJSON returns none. -/
def cjsonPrinter (beyond : Nat -> UInt8) (printDouble : Int -> List UInt8) : Printer where
  beyond := beyond
  print := fun members => (printUnformatted printDouble members).getD []
  inMemory := by
    intro members
    rw [printUnformatted]
    split
    next fits =>
      change (printObject printDouble members).length < _
      omega
    next => exact Nat.zero_lt_succ _

theorem isCjson_cjsonPrinter (beyond : Nat -> UInt8) (printDouble : Int -> List UInt8) :
    (cjsonPrinter beyond printDouble).IsCjson printDouble := by
  intro members text printed
  change (printUnformatted printDouble members).getD [] = text
  rw [printed, Option.getD_some]

/-- What `exec_run` returns for a command that writes a block to its standard output,
which is read before the command exits. -/
def wroteBlock (block : List UInt8) : Capture.State :=
  ⟨.done, ⟨[], block, true⟩, ⟨[], [], true⟩, .reaped, block, [], 0⟩

def wroteBlockEvents (block : List UInt8) : List Capture.Event :=
  [.childWrite false block, .selectReady true false, .read block.length, .waitpid false,
    .childExit (.exited 0), .selectTimeout, .waitpid true]

/-- The response of `handle_exec` to such a command. -/
def wroteBlockResponse (block : List UInt8) : List UInt8 :=
  handleExec (cjsonPrinter (fun _ => 0) formatDec) (fun _ => .command (ascii "./write-block"))
    (fun _ => some (wroteBlock block)) (ascii "\x7b\"command\":\"./write-block\"\x7d")

/-- A line with a quote, and a byte that is escaped with six characters. -/
theorem exec_returns_captured_iff_line :
    ReturnsString (wroteBlockResponse [34, 104, 105, 34, 27, 10]) (ascii "stdout") [34, 104, 105, 34, 27, 10] ∧
      ReturnsString (wroteBlockResponse [34, 104, 105, 34, 27, 10]) (ascii "stderr") [] :=
  (@exec_returns_captured_iff formatDec (cjsonPrinter (fun _ => 0) formatDec)
    (fun _ => .command (ascii "./write-block")) (wroteBlock [34, 104, 105, 34, 27, 10])
    (fun _ => some (wroteBlock [34, 104, 105, 34, 27, 10])) _ _ (isCjson_cjsonPrinter _ _)
    ⟨wroteBlockEvents [34, 104, 105, 34, 27, 10], by decide, rfl⟩ rfl rfl).mpr (by decide)

/-- A command that writes `a`, a NUL and `b`: the reply says that it wrote `a`. -/
theorem exec_reply_ends_at_nul :
    Capture.Produced (wroteBlock [97, 0, 98]) ∧ (wroteBlock [97, 0, 98]).stdoutData = [97, 0, 98] ∧
      ReturnsString (wroteBlockResponse [97, 0, 98]) (ascii "stdout") [97] ∧
      ¬ ReturnsString (wroteBlockResponse [97, 0, 98]) (ascii "stdout") [97, 0, 98] := by
  have produced : Capture.Produced (wroteBlock [97, 0, 98]) := ⟨wroteBlockEvents [97, 0, 98], by decide, rfl⟩
  have returned : forall text, ReturnsString (wroteBlockResponse [97, 0, 98]) (ascii "stdout") text ↔
      text = cString [97, 0, 98] := fun text =>
    (@returnsString_handleExec_iff formatDec (cjsonPrinter (fun _ => 0) formatDec)
      (fun _ => .command (ascii "./write-block")) (wroteBlock [97, 0, 98])
      (fun _ => some (wroteBlock [97, 0, 98])) _ _ (isCjson_cjsonPrinter _ _) produced rfl rfl text).1
  refine ⟨produced, rfl, ?_, ?_⟩
  · exact (returned _).mpr (by decide)
  · exact fun whole => absurd ((returned _).mp whole) (by decide)

end Handler
end AdbBridge
