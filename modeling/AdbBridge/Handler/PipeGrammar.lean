import AdbBridge.Handler.ExecPipe
import AdbBridge.Library.Lines

namespace AdbBridge
namespace Handler

open Library Library.Numeral Library.PercentCoding Library.Search

/-!
# The grammar of a pipe query

A query is a list of segments with `&` between them.  A segment names the command, sets
the raw mode, gives a variable, or means nothing; of several commands the last one
counts, and variables are passed on in their order.  `handle_exec_pipe` reads a query of
at most 1023 bytes, the most that `query` holds, as this grammar says: so few bytes hold
fewer variables than the handler has room for.
-/

/-! ## Segments -/

/-- The value of a segment `command=value`, which must not be empty. -/
def commandValue (segment : List UInt8) : Option (List UInt8) :=
  if ascii "command=" <+: segment ∧ segment.drop 8 ≠ [] then some (segment.drop 8) else none

/-- The pair of a segment `env_key=value`, cut at its first `=`, if both fit their arrays. -/
def envPair (segment : List UInt8) : Option (List UInt8 × List UInt8) :=
  let key := (segment.drop 4).takeWhile (fun byte => byte != 61)
  let value := (segment.drop 4).drop (key.length + 1)
  if ascii "env_" <+: segment ∧ 61 ∈ segment.drop 4 ∧ key.length < 256 ∧ value.length < 256 then
    some (key, value)
  else none

/-- The value of the last segment that names a command. -/
def lastCommand (query : List UInt8) : Option (List UInt8) :=
  ((query.splitOn 38).filterMap commandValue).getLast?

/-- The variables of the query, in order. -/
def queryEnv (query : List UInt8) : List (List UInt8 × List UInt8) := (query.splitOn 38).filterMap envPair

/-- A pair as the string that is put into the environment. -/
def envString (entry : List UInt8 × List UInt8) : List UInt8 := entry.1 ++ 61 :: entry.2

/-- Some segment is exactly `raw=1`. -/
def queryRaw (query : List UInt8) : Bool := decide (ascii "raw=1" ∈ query.splitOn 38)

/-- What the grammar makes of a query. -/
def grammarAnswer (query : List UInt8) : PipeAnswer :=
  match lastCommand query with
  | none => .refused 400 (ascii "missing 'command' query parameter")
  | some value =>
      .runs (cString (percentDecode value.length value)) ((queryEnv query).map envString) (queryRaw query)

variable {segment value query : List UInt8} {entry : List UInt8 × List UInt8} {found : PipeQuery}

/-- A prefix splits off. -/
theorem eq_append_drop_iff {lead : List UInt8} {count : Nat} (length : lead.length = count) :
    lead <+: segment ↔ segment = lead ++ segment.drop count := by
  rw [List.prefix_iff_eq_append, length]
  exact eq_comm

theorem commandValue_eq_some_iff :
    commandValue segment = some value ↔ segment = ascii "command=" ++ value ∧ value ≠ [] := by
  have eight : (ascii "command=").length = 8 := rfl
  rw [commandValue, Option.ite_none_right_eq_some, Option.some.injEq, eq_append_drop_iff eight]
  constructor
  · rintro ⟨⟨split, nonempty⟩, same⟩
    rw [same] at split nonempty
    exact ⟨split, nonempty⟩
  · rintro ⟨split, nonempty⟩
    have same : segment.drop 8 = value := by
      rw [split, ← eight, List.drop_left]
    rw [same]
    exact ⟨⟨split, nonempty⟩, rfl⟩

theorem envPair_eq_some_iff :
    envPair segment = some entry ↔
      segment = ascii "env_" ++ (entry.1 ++ 61 :: entry.2) ∧ (61 : UInt8) ∉ entry.1 ∧
        entry.1.length < 256 ∧ entry.2.length < 256 := by
  have four : (ascii "env_").length = 4 := rfl
  rw [envPair, Option.ite_none_right_eq_some, Option.some.injEq, eq_append_drop_iff four]
  constructor
  · rintro ⟨⟨split, equal, short, room⟩, same⟩
    have cut := split_at_first equal
    have free := not_mem_takeWhile (61 : UInt8) (segment.drop 4)
    rw [cut] at split
    rw [← same]
    exact ⟨split, free, short, room⟩
  · rintro ⟨split, free, short, room⟩
    have rest : segment.drop 4 = entry.1 ++ 61 :: entry.2 := by
      rw [split, ← four, List.drop_left]
    have equal : (61 : UInt8) ∈ segment.drop 4 := by
      rw [rest]
      exact List.mem_append_right _ List.mem_cons_self
    have parts := split_inj ((split_at_first equal).symm.trans rest)
      (not_mem_takeWhile 61 (segment.drop 4)) free
    rw [parts.2, parts.1, rest]
    exact ⟨⟨split, List.mem_append_right _ List.mem_cons_self, short, room⟩, rfl⟩

/-! ## The fold over the segments -/

theorem isCommand_iff : IsCommand segment ↔ ascii "command=" <+: segment ∧ segment.drop 8 ≠ [] := by
  rw [IsCommand, List.isPrefixOf_iff_prefix, ne_eq, List.drop_eq_nil_iff, Nat.not_le]

/-- The three kinds of segments differ in their first byte. -/
theorem prefix_head {first : UInt8} {lead : List UInt8} (starts : first :: lead <+: segment) :
    segment.head? = some first := by
  rcases starts with ⟨rest, same⟩
  rw [← same]
  rfl

/-- A segment with room for its variable adds what the grammar says of it. -/
theorem segment_eq (room : found.env.length < maxEnv) :
    found.segment segment =
      ⟨(commandValue segment).or found.command, found.raw || decide (ascii "raw=1" = segment),
        found.env ++ (envPair segment).toList⟩ := by
  unfold PipeQuery.segment
  by_cases command : IsCommand segment
  · have starts := prefix_head (isCommand_iff.mp command).1
    have isValue : commandValue segment = some (segment.drop 8) := if_pos (isCommand_iff.mp command)
    have noPair : envPair segment = none := if_neg (fun both => by
      have other := prefix_head both.1
      rw [starts] at other
      exact absurd (Option.some.inj other) (by decide))
    have notRaw : ascii "raw=1" ≠ segment := by
      rintro rfl
      exact absurd starts (by decide)
    rw [if_pos command, isValue, noPair, decide_eq_false notRaw]
    simp
  · have noValue : commandValue segment = none := if_neg (fun both => command (isCommand_iff.mpr both))
    rw [if_neg command, noValue]
    by_cases raw : segment = ascii "raw=1"
    · have noPair : envPair (ascii "raw=1") = none := by decide
      rw [if_pos raw, raw, noPair]
      simp
    · have notRaw : ascii "raw=1" ≠ segment := Ne.symm raw
      rw [if_neg raw, decide_eq_false notRaw, envPair]
      by_cases starts : ascii "env_" <+: segment
      · rw [if_pos ⟨List.isPrefixOf_iff_prefix.mpr starts, room⟩]
        simp only [starts, true_and]
        split <;> simp
      · rw [if_neg (fun both => starts (List.isPrefixOf_iff_prefix.mp both.1)),
          if_neg (fun both => starts both.1)]
        simp

/-- The fold over some segments, as long as there is room for their variables. -/
theorem foldl_segment_eq (segments : List (List UInt8))
    (fits : found.env.length + (segments.filterMap envPair).length < maxEnv) :
    segments.foldl PipeQuery.segment found =
      ⟨((segments.filterMap commandValue).getLast?).or found.command,
        found.raw || decide (ascii "raw=1" ∈ segments), found.env ++ segments.filterMap envPair⟩ := by
  induction segments generalizing found with
  | nil => simp
  | cons segment rest inductionHypothesis =>
      have pairs : (segment :: rest).filterMap envPair =
          (envPair segment).toList ++ rest.filterMap envPair := by
        rw [List.filterMap_cons]
        cases envPair segment <;> rfl
      have last : ((segment :: rest).filterMap commandValue).getLast? =
          ((rest.filterMap commandValue).getLast?).or (commandValue segment) := by
        rw [List.filterMap_cons]
        cases commandValue segment with
        | none => simp
        | some value =>
            rw [List.getLast?_cons]
            cases (rest.filterMap commandValue).getLast? <;> rfl
      have raw : decide (ascii "raw=1" ∈ segment :: rest) =
          (decide (ascii "raw=1" = segment) || decide (ascii "raw=1" ∈ rest)) := by
        simp only [List.mem_cons, Bool.decide_or]
      rw [pairs, List.length_append] at fits
      rw [List.foldl_cons, segment_eq (by omega), inductionHypothesis (by
        rw [List.length_append]
        omega), pairs, last, raw, Option.or_assoc, Bool.or_assoc, List.append_assoc]

/-! ## A short query has few variables -/

/-- A variable takes at least five bytes, and a separator in front of the next. -/
theorem length_filterMap_envPair_le (query : List UInt8) :
    6 * ((query.splitOn 38).filterMap envPair).length ≤ query.length + 1 := by
  have one : forall segment : List UInt8, 6 * (envPair segment).toList.length ≤ segment.length + 1 := by
    intro segment
    cases pair : envPair segment with
    | none => exact Nat.zero_le _
    | some entry =>
        have length := congrArg List.length (envPair_eq_some_iff.mp pair).1
        rw [List.length_append, List.length_append, List.length_cons] at length
        have four : (ascii "env_").length = 4 := rfl
        rw [Option.toList_some, List.length_singleton]
        omega
  by_cases splits : (38 : UInt8) ∈ query
  · rcases List.eq_append_cons_of_mem splits with ⟨first, rest, split, free⟩
    have shorter : rest.length < query.length := by
      rw [split, List.length_append, List.length_cons]
      omega
    have pairs : ((first :: rest.splitOn 38).filterMap envPair).length =
        (envPair first).toList.length + ((rest.splitOn 38).filterMap envPair).length := by
      rw [List.filterMap_cons]
      cases envPair first
      · exact (Nat.zero_add _).symm
      · exact Nat.add_comm _ _
    have later := length_filterMap_envPair_le rest
    have here := one first
    rw [split, List.splitOn_append_cons_self_of_not_mem free, pairs, List.length_append, List.length_cons]
    omega
  · have single : [query].filterMap envPair = (envPair query).toList := by
      rw [List.filterMap_cons]
      cases envPair query <;> rfl
    rw [List.splitOn_eq_singleton splits, single]
    exact one query
termination_by query.length

/-- A query that `query` holds is read as the grammar says. -/
theorem parseQuery_eq (short : query.length ≤ 1023) :
    parseQuery query = ⟨lastCommand query, queryRaw query, queryEnv query⟩ := by
  have few := length_filterMap_envPair_le query
  have size : maxEnv = 256 := rfl
  rw [parseQuery, foldl_segment_eq _ (by
    rw [List.length_nil]
    omega), Option.or_none, Bool.false_or, List.nil_append]
  rfl

/-- The command is no longer than the query. -/
theorem length_lastCommand_le (found : lastCommand query = some value) : value.length ≤ query.length := by
  rcases List.mem_filterMap.mp (List.mem_of_getLast? found) with ⟨segment, member, isValue⟩
  have inQuery : segment.length ≤ ((query.splitOn 38).flatten).length :=
    (List.sublist_flatten_of_mem member).length_le
  have kept : ((query.splitOn 38).flatten).length ≤ query.length := by
    rw [Lines.flatten_splitOn]
    exact List.length_filter_le _ _
  have length := congrArg List.length (commandValue_eq_some_iff.mp isValue).1
  rw [List.length_append] at length
  omega

/-- `handle_exec_pipe` does what the grammar says with every query of at most 1023 bytes,
and runs exactly the command that is encoded in it, however that is written. -/
theorem handleExecPipe_grammar (short : query.length ≤ 1023) :
    handleExecPipe query = grammarAnswer query ∧
      forall value command, lastCommand query = some value -> Encodes command value ->
        (0 : UInt8) ∉ command ->
        handleExecPipe query = .runs command ((queryEnv query).map envString) (queryRaw query) := by
  have answer : handleExecPipe query = grammarAnswer query := by
    rw [handleExecPipe, parseQuery_eq short, grammarAnswer]
    cases found : lastCommand query with
    | none => rfl
    | some value =>
        have length := length_lastCommand_le found
        have room : value.length ≤ cmdBufSize - 1 := by
          have size : cmdBufSize = 4096 := rfl
          omega
        dsimp only
        rw [percentDecode_of_room room]
        rfl
  refine ⟨answer, fun value command found encodes noZero => ?_⟩
  have free : forall byte, byte ∈ command -> byte ≠ 0 := fun byte member zero => noZero (zero ▸ member)
  rw [answer, grammarAnswer, found]
  dsimp only
  rw [encodes.decode encodes.length_le, cString_eq_self free]

/-- Two commands, a variable, and an escape at the end of the query. -/
theorem handleExecPipe_grammar_two_commands :
    handleExecPipe (ascii "command=ls&env_A=b=c&raw=1&command=a+b%2F") =
      .runs (ascii "a b/") [ascii "A=b=c"] true :=
  (@handleExecPipe_grammar (ascii "command=ls&env_A=b=c&raw=1&command=a+b%2F") (by decide)).2
    (ascii "a+b%2F") (ascii "a b/") (by decide)
    (.literal (by decide) (.plus (.literal (by decide)
      (@Encodes.escape 50 70 [] [] (by decide) (by decide) .nil)))) (by decide)

end Handler
end AdbBridge
