import AdbBridge.Library.PercentCoding
import AdbBridge.Library.Search
import AdbBridge.Server.Client
import AdbBridge.Server.RequestStores

namespace AdbBridge
namespace Handler

open Library Library.Numeral Library.PercentCoding Library.Search Server

/-!
# `handle_exec_pipe`: the command in the query

The command of `/api/exec/pipe` is a parameter of the request target.  On its way
to the shell it passes the array `path` of `parse_request_line`, the array `query`
and the buffer `cmd_buf`; each stops copying when it is full and says nothing.
`query` is the narrowest.  The command that runs is the decoding of what is left
of the last nonempty `command=` segment, as long as the target has not been stored
over other memory on the way.
-/

/-! ## Parsing the query -/

def maxEnv : Nat := 256

/-- The parameters found so far: `env` holds keys and values. -/
structure PipeQuery where
  command : Option (List UInt8)
  raw : Bool
  env : List (List UInt8 × List UInt8)
deriving DecidableEq, Repr

/-- A segment that sets the command. -/
def IsCommand (segment : List UInt8) : Prop :=
  (ascii "command=").isPrefixOf segment = true ∧ 8 < segment.length

instance (segment : List UInt8) : Decidable (IsCommand segment) :=
  inferInstanceAs (Decidable (_ ∧ _))

/-- One segment of the query. -/
def PipeQuery.segment (found : PipeQuery) (segment : List UInt8) : PipeQuery :=
  if IsCommand segment then { found with command := some (segment.drop 8) }
  else if segment = ascii "raw=1" then { found with raw := true }
  else if (ascii "env_").isPrefixOf segment ∧ found.env.length < maxEnv then
    let entry := segment.drop 4
    let key := entry.takeWhile (fun byte => byte != 61)
    let value := entry.drop (key.length + 1)
    if 61 ∈ entry ∧ key.length < 256 ∧ value.length < 256 then
      { found with env := found.env ++ [(key, value)] }
    else found
  else found

/-- The loop over the segments.  It stops when nothing is left, so an empty last
segment is not looked at; an empty segment has no effect anyway. -/
def parseQuery (query : List UInt8) : PipeQuery :=
  (query.splitOn 38).foldl PipeQuery.segment ⟨none, false, []⟩

def cmdBufSize : Nat := 4096

/-- What the handler does: it refuses the request, or runs a command with the
environment entries given. -/
inductive PipeAnswer where
  | refused (status : Nat) (message : List UInt8)
  | runs (command : List UInt8) (env : List (List UInt8)) (raw : Bool)
deriving DecidableEq, Repr

/-- `handle_exec_pipe` up to the call of `exec_run_pipe`. -/
def handleExecPipe (query : List UInt8) : PipeAnswer :=
  let found := parseQuery query
  match found.command with
  | none => .refused 400 (ascii "missing 'command' query parameter")
  | some command =>
      .runs (cString (percentDecode (cmdBufSize - 1) command))
        (found.env.map (fun entry => entry.1 ++ 61 :: entry.2)) found.raw

/-- What becomes of a request that is not served from its body: it runs a piped
command, or it is refused. -/
def pipeAnswer : Outcome -> Option PipeAnswer
  | .execPipe query _ _ _ => some (handleExecPipe query)
  | .error status message => some (.refused status message)
  | .request line _ _ _ =>
      match Server.handleRequest line with
      | none => some (.refused 404 (ascii "not found"))
      | some _ => none
  | _ => none

/-! ## Which segment is the command -/

/-- The command after a segment, whatever the other parameters are. -/
def commandAfter (command : Option (List UInt8)) (segment : List UInt8) : Option (List UInt8) :=
  if IsCommand segment then some (segment.drop 8) else command

theorem foldl_segment_command (segments : List (List UInt8)) (found : PipeQuery) :
    (segments.foldl PipeQuery.segment found).command = segments.foldl commandAfter found.command := by
  induction segments generalizing found with
  | nil => rfl
  | cons segment rest inductionHypothesis =>
      have here : (found.segment segment).command = commandAfter found.command segment := by
        unfold PipeQuery.segment commandAfter
        split
        · rfl
        · split
          · rfl
          · split
            · dsimp only
              split <;> rfl
            · rfl
      rw [List.foldl_cons, List.foldl_cons, inductionHypothesis, here]

theorem foldl_commandAfter_of_none {segments : List (List UInt8)}
    (noCommand : forall segment, segment ∈ segments -> ¬ IsCommand segment)
    (command : Option (List UInt8)) : segments.foldl commandAfter command = command := by
  induction segments generalizing command with
  | nil => rfl
  | cons segment rest inductionHypothesis =>
      have here : commandAfter command segment = command :=
        if_neg (noCommand segment List.mem_cons_self)
      rw [List.foldl_cons, here]
      exact inductionHypothesis (fun other member => noCommand other (List.mem_cons_of_mem _ member)) command

/-- A segment of a prefix is a prefix of a segment. -/
theorem exists_prefix_of_mem_splitOn (separator : UInt8) (text more segment : List UInt8)
    (member : segment ∈ text.splitOn separator) :
    Exists fun whole => whole ∈ (text ++ more).splitOn separator ∧ segment <+: whole := by
  by_cases splits : separator ∈ text
  · rcases List.eq_append_cons_of_mem splits with ⟨first, rest, split, free⟩
    have shorter : rest.length < text.length := by
      rw [split, List.length_append, List.length_cons]
      omega
    rw [split, List.splitOn_append_cons_self_of_not_mem free] at member
    rw [split, List.append_assoc, List.cons_append, List.splitOn_append_cons_self_of_not_mem free]
    rcases List.mem_cons.mp member with same | later
    · exact ⟨first, List.mem_cons_self, same ▸ List.prefix_refl _⟩
    · rcases exists_prefix_of_mem_splitOn separator rest more segment later with ⟨whole, listed, isPrefix⟩
      exact ⟨whole, List.mem_cons_of_mem _ listed, isPrefix⟩
  · rw [List.splitOn_eq_singleton splits, List.mem_singleton] at member
    subst member
    by_cases later : separator ∈ more
    · rcases List.eq_append_cons_of_mem later with ⟨first, rest, split, free⟩
      have notIn : separator ∉ segment ++ first := by
        intro inside
        rcases List.mem_append.mp inside with left | right
        · exact splits left
        · exact free right
      refine ⟨segment ++ first, ?_, List.prefix_append _ _⟩
      rw [split, ← List.append_assoc, List.splitOn_append_cons_self_of_not_mem notIn]
      exact List.mem_cons_self
    · refine ⟨segment ++ more, ?_, List.prefix_append _ _⟩
      rw [List.splitOn_eq_singleton (fun inside => (List.mem_append.mp inside).elim splits later)]
      exact List.mem_singleton_self _
termination_by text.length

theorem IsCommand.of_prefix {segment whole : List UInt8} (isPrefix : segment <+: whole)
    (command : IsCommand segment) : IsCommand whole := by
  refine ⟨?_, Nat.lt_of_lt_of_le command.2 isPrefix.length_le⟩
  have starts := List.isPrefixOf_iff_prefix.mp command.1
  exact List.isPrefixOf_iff_prefix.mpr (starts.trans isPrefix)

/-- Cutting a text short puts no command into it. -/
theorem noCommand_take {text : List UInt8} (count : Nat)
    (noCommand : forall segment, segment ∈ text.splitOn 38 -> ¬ IsCommand segment) :
    forall segment, segment ∈ (text.take count).splitOn 38 -> ¬ IsCommand segment := by
  intro segment member command
  rcases exists_prefix_of_mem_splitOn 38 (text.take count) (text.drop count) segment member with
    ⟨whole, listed, isPrefix⟩
  rw [List.take_append_drop] at listed
  exact noCommand whole listed (command.of_prefix isPrefix)

/-! ## Where the variables come from -/

theorem mem_env_segment {found : PipeQuery} {segment : List UInt8} {entry : List UInt8 × List UInt8}
    (member : entry ∈ (found.segment segment).env) :
    entry ∈ found.env ∨
      (segment = ascii "env_" ++ (entry.1 ++ 61 :: entry.2) ∧ (61 : UInt8) ∉ entry.1) := by
  unfold PipeQuery.segment at member
  split at member
  · exact Or.inl member
  · split at member
    · exact Or.inl member
    · split at member
      next starts =>
        dsimp only at member
        split at member
        next equal =>
          rcases List.mem_append.mp member with earlier | here
          · exact Or.inl earlier
          · have isPrefix := List.isPrefixOf_iff_prefix.mp starts.1
            have named : segment = ascii "env_" ++ segment.drop 4 :=
              (List.prefix_iff_eq_append.mp isPrefix).symm
            rw [List.mem_singleton.mp here]
            refine Or.inr ⟨?_, ?_⟩
            · rw [← split_at_first equal.1]
              exact named
            · exact not_mem_takeWhile 61 _
        next => exact Or.inl member
      next => exact Or.inl member

/-- An entry of the environment is a segment of the query. -/
theorem segment_of_mem_env {query : List UInt8} {entry : List UInt8 × List UInt8}
    (member : entry ∈ (parseQuery query).env) :
    ascii "env_" ++ (entry.1 ++ 61 :: entry.2) ∈ query.splitOn 38 ∧ (61 : UInt8) ∉ entry.1 := by
  have fromSegments : forall (segments : List (List UInt8)) (found : PipeQuery),
      entry ∈ (segments.foldl PipeQuery.segment found).env -> entry ∈ found.env ∨
        (ascii "env_" ++ (entry.1 ++ 61 :: entry.2) ∈ segments ∧ (61 : UInt8) ∉ entry.1) := by
    intro segments
    induction segments with
    | nil => exact fun _ member => Or.inl member
    | cons segment segments inductionHypothesis =>
        intro found member
        rcases inductionHypothesis (found.segment segment) member with earlier | ⟨later, free⟩
        · rcases mem_env_segment earlier with before | ⟨here, free⟩
          · exact Or.inl before
          · exact Or.inr ⟨here ▸ List.mem_cons_self, free⟩
        · exact Or.inr ⟨List.mem_cons_of_mem segment later, free⟩
  exact (fromSegments _ _ member).resolve_left List.not_mem_nil

/-! ## Requests -/

/-- A query that encodes one command between other parameters. -/
structure PipeTarget where
  before : List (List UInt8)
  tokens : List Token
  after : List (List UInt8)
  noZero : forall byte, byte ∈ content tokens -> byte ≠ 0
  others : forall segment, segment ∈ before ++ after ->
    (forall byte, byte ∈ segment -> byte ≠ 38 ∧ byte ≠ 32 ∧ byte ≠ 0) ∧ ¬ IsCommand segment

/-- The query up to the encoded command. -/
def PipeTarget.lead (target : PipeTarget) : List UInt8 :=
  target.before.flatMap (fun segment => segment ++ [38]) ++ ascii "command="

/-- The parameters behind the command, each with its separator. -/
def PipeTarget.trail (target : PipeTarget) : List UInt8 :=
  target.after.flatMap (fun segment => 38 :: segment)

/-- The query. -/
def PipeTarget.query (target : PipeTarget) : List UInt8 :=
  target.lead ++ (render target.tokens ++ target.trail)

/-- The command the client asked for. -/
def PipeTarget.command (target : PipeTarget) : List UInt8 := content target.tokens

/-- The header block of such a request: its request line, and anything after the target. -/
def PipeTarget.headers (target : PipeTarget) (rest : List UInt8) : List UInt8 :=
  ascii "POST " ++ (ascii "/api/exec/pipe" ++ 63 :: (target.query ++ 32 :: rest))

variable {target : PipeTarget}

theorem PipeTarget.query_ne {byte : UInt8} (member : byte ∈ target.query) : byte ≠ 32 ∧ byte ≠ 0 := by
  simp only [query, lead, trail, List.mem_append, List.mem_flatMap, List.mem_singleton] at member
  rcases member with (⟨segment, listed, inside | rfl⟩ | inside) | inside | ⟨segment, listed, inside⟩
  · exact ((target.others segment (List.mem_append_left _ listed)).1 byte inside).2
  · decide
  · have all : forall byte, byte ∈ ascii "command=" -> byte ≠ 32 ∧ byte ≠ 0 :=
      forall_mem_of_all (by decide)
    exact all byte inside
  · exact (mem_render_ne inside).2
  · rcases List.mem_cons.mp inside with rfl | later
    · decide
    · exact ((target.others segment (List.mem_append_right _ listed)).1 byte later).2

theorem PipeTarget.free_of_mem {segment : List UInt8} (member : segment ∈ target.before ++ target.after) :
    (38 : UInt8) ∉ segment :=
  fun inside => ((target.others segment member).1 38 inside).1 rfl

/-- The segments in front are those of the query. -/
theorem splitOn_before {segments : List (List UInt8)} (text : List UInt8)
    (free : forall segment, segment ∈ segments -> (38 : UInt8) ∉ segment) :
    (segments.flatMap (fun segment => segment ++ [38]) ++ text).splitOn 38 =
      segments ++ text.splitOn 38 := by
  induction segments with
  | nil => rfl
  | cons segment rest inductionHypothesis =>
      rw [List.flatMap_cons, List.append_assoc, List.append_assoc, List.singleton_append,
        List.splitOn_append_cons_self_of_not_mem (free segment List.mem_cons_self),
        inductionHypothesis (fun other member => free other (List.mem_cons_of_mem _ member)),
        List.cons_append]

/-- The segments behind are those of the query. -/
theorem splitOn_behind {first : List UInt8} {segments : List (List UInt8)}
    (firstFree : (38 : UInt8) ∉ first)
    (free : forall segment, segment ∈ segments -> (38 : UInt8) ∉ segment) :
    (first ++ segments.flatMap (fun segment => 38 :: segment)).splitOn 38 = first :: segments := by
  induction segments generalizing first with
  | nil => rw [List.flatMap_nil, List.append_nil, List.splitOn_eq_singleton firstFree]
  | cons segment rest inductionHypothesis =>
      rw [List.flatMap_cons, List.cons_append, List.splitOn_append_cons_self_of_not_mem firstFree,
        inductionHypothesis (free segment List.mem_cons_self)
          (fun other member => free other (List.mem_cons_of_mem _ member))]

/-- Behind a first segment no command appears, also when the query is cut. -/
theorem noCommand_trail {segments : List (List UInt8)} (count : Nat)
    (free : forall segment, segment ∈ segments -> (38 : UInt8) ∉ segment ∧ ¬ IsCommand segment)
    {first : List UInt8} (firstFree : (38 : UInt8) ∉ first) :
    Exists fun rest =>
      (first ++ (segments.flatMap (fun segment => 38 :: segment)).take count).splitOn 38 =
          first :: rest ∧
        forall segment, segment ∈ rest -> ¬ IsCommand segment := by
  cases count with
  | zero => exact ⟨[], by rw [List.take_zero, List.append_nil, List.splitOn_eq_singleton firstFree], nofun⟩
  | succ count =>
      cases segments with
      | nil =>
          refine ⟨[], ?_, nofun⟩
          rw [List.flatMap_nil, List.take_nil, List.append_nil, List.splitOn_eq_singleton firstFree]
      | cons segment rest =>
          refine ⟨((segment ++ rest.flatMap (fun other => 38 :: other)).take count).splitOn 38, ?_, ?_⟩
          · rw [List.flatMap_cons, List.cons_append, List.take_succ_cons,
              List.splitOn_append_cons_self_of_not_mem firstFree]
          · apply noCommand_take
            intro other member
            rw [splitOn_behind (free segment List.mem_cons_self).1
              (fun last listed => (free last (List.mem_cons_of_mem _ listed)).1)] at member
            exact (free other member).2

theorem not_mem_separator (tokens : List Token) : (38 : UInt8) ∉ render tokens :=
  fun member => (mem_render_ne member).1 rfl

/-- The segment of a command sets it, unless there is nothing behind the name. -/
theorem commandAfter_command (value : List UInt8) :
    commandAfter none (ascii "command=" ++ value) = if value = [] then none else some value := by
  unfold commandAfter
  have starts : (ascii "command=").isPrefixOf (ascii "command=" ++ value) = true :=
    List.isPrefixOf_iff_prefix.mpr (List.prefix_append _ _)
  have eight : (ascii "command=").length = 8 := rfl
  by_cases empty : value = []
  · rw [if_pos empty, if_neg]
    rintro ⟨_, long⟩
    rw [empty, List.append_nil, eight] at long
    exact Nat.lt_irrefl _ long
  · have long : 8 < (ascii "command=" ++ value).length := by
      have positive := List.length_pos_iff.mpr empty
      rw [List.length_append, eight]
      omega
    rw [if_neg empty, if_pos ⟨starts, long⟩, ← eight, List.drop_left]

/-- What is found in a query that begins with the lead of a target and goes on
with a text free of separators, up to parameters that are no commands. -/
theorem parseQuery_lead (target : PipeTarget) {value : List UInt8} (free : (38 : UInt8) ∉ value) (count : Nat) :
    (parseQuery (target.lead ++ (value ++ target.trail.take count))).command =
      if value = [] then none else some value := by
  have beforeFree : forall segment, segment ∈ target.before -> (38 : UInt8) ∉ segment :=
    fun segment member => target.free_of_mem (List.mem_append_left _ member)
  have beforeNone : forall segment, segment ∈ target.before -> ¬ IsCommand segment := fun segment member =>
    (target.others segment (List.mem_append_left _ member)).2
  have afterFree : forall segment, segment ∈ target.after ->
      (38 : UInt8) ∉ segment ∧ ¬ IsCommand segment := by
    intro segment member
    have other := List.mem_append_right target.before member
    exact ⟨target.free_of_mem other, (target.others segment other).2⟩
  have valueFree : (38 : UInt8) ∉ ascii "command=" ++ value := by
    intro inside
    rcases List.mem_append.mp inside with left | right
    · exact absurd left (by decide)
    · exact free right
  rcases noCommand_trail count afterFree valueFree with ⟨rest, split, restNone⟩
  have segments : (target.lead ++ (value ++ target.trail.take count)).splitOn 38 =
      target.before ++ (ascii "command=" ++ value) :: rest := by
    rw [PipeTarget.lead, List.append_assoc, splitOn_before _ beforeFree, ← List.append_assoc, PipeTarget.trail,
      split]
  rw [parseQuery, foldl_segment_command, segments, List.foldl_append,
    foldl_commandAfter_of_none beforeNone, List.foldl_cons, foldl_commandAfter_of_none restNone]
  exact commandAfter_command value

/-- A lead cut short holds no command. -/
theorem parseQuery_lead_take (count : Nat) : (parseQuery (target.lead.take count)).command = none := by
  have beforeFree : forall segment, segment ∈ target.before -> (38 : UInt8) ∉ segment :=
    fun segment member => target.free_of_mem (List.mem_append_left _ member)
  rw [parseQuery, foldl_segment_command]
  apply foldl_commandAfter_of_none
  apply noCommand_take
  intro segment member
  rw [PipeTarget.lead, splitOn_before _ beforeFree] at member
  rcases List.mem_append.mp member with inBefore | isLast
  · exact (target.others segment (List.mem_append_left _ inBefore)).2
  · have last : segment = ascii "command=" := by
      rw [List.splitOn_eq_singleton (by decide)] at isLast
      exact List.mem_singleton.mp isLast
    rw [last]
    decide

/-! ## What reaches the handler -/

variable {placement : Placement} {tls : Tls} {body : RequestArray}

/-- The part of a query that survives `parse_request_line`. -/
def PipeTarget.kept (target : PipeTarget) : List UInt8 := target.query.take (queryCap - 1)

/-- Below the request buffer the path array takes the path; above it, nothing of it. -/
theorem parseRequestLine_pipe (target : PipeTarget) (rest : List UInt8) :
    parseRequestLine placement (target.headers rest) =
      some ⟨ascii "POST", if placement.displacement ≤ -1024 then ascii "/api/exec/pipe" else [],
        target.kept⟩ := by
  have method : ((target.headers rest).takeWhile (fun byte => byte != 32)).take (methodCap - 1) =
      ascii "POST" := by
    rw [PipeTarget.headers, show ascii "POST " = ascii "POST" ++ [32] from rfl, List.append_assoc,
      List.takeWhile_append_of_pos (forall_mem_of_all (by decide)), List.singleton_append,
      List.takeWhile_cons_of_neg (by decide)]
    rfl
  have tail : (target.headers rest).drop (ascii "POST").length =
      32 :: (ascii "/api/exec/pipe" ++ 63 :: (target.query ++ 32 :: rest)) := rfl
  have keptShort : target.kept.length ≤ queryCap - 1 := List.length_take_le _ _
  have keptZero : forall byte, byte ∈ target.kept -> byte ≠ 0 := fun byte member =>
    (PipeTarget.query_ne (List.mem_of_mem_take member)).2
  -- the query is collected behind whatever was stored of the path
  have collected : forall path : List UInt8,
      storeTarget placement ⟨path, none⟩ (63 :: (target.query ++ 32 :: rest)) =
        ⟨path ++ 0 :: target.kept, some (path.length + 1)⟩ := by
    intro path
    have step : storeTarget placement ⟨(path ++ [0]) ++ [], some (path ++ [0]).length⟩
        (target.query ++ 32 :: rest) =
        storeTarget placement
          ⟨(path ++ [0]) ++ ([] ++ target.query).take (queryCap - 1), some (path ++ [0]).length⟩
          (32 :: rest) :=
      storeTarget_query (path ++ [0]) (32 :: rest) (fun byte member => (PipeTarget.query_ne member).1)
        (Nat.zero_le _)
    rw [List.length_append, List.length_singleton, List.append_nil, List.nil_append] at step
    rw [storeTarget_mark, step, storeTarget_space, List.append_assoc, List.singleton_append]
    rfl
  have strings : forall path : List UInt8, (forall byte, byte ∈ path -> byte ≠ 0) ->
      (Target.mk (path ++ 0 :: target.kept) (some (path.length + 1))).requestLine (ascii "POST") =
        ⟨ascii "POST", path, target.kept⟩ := by
    intro path noZero
    simp only [Target.requestLine]
    rw [cString_append_zero noZero, drop_length_append, cString_eq_self keptZero,
      List.take_of_length_le keptShort]
  have plain : forall byte, byte ∈ ascii "/api/exec/pipe" -> byte ≠ 32 ∧ byte ≠ 63 :=
    forall_mem_of_all (by decide)
  rw [parseRequestLine, method, tail]
  simp only [Option.some.injEq]
  by_cases below : placement.displacement ≤ -1024
  · have fits : placement.displacement + ([] : List UInt8).length + (ascii "/api/exec/pipe").length ≤
        pathCap - 1 := by
      have size : (ascii "/api/exec/pipe").length = 14 := rfl
      have cap : pathCap = 1024 := rfl
      rw [size, cap, List.length_nil]
      omega
    rw [if_pos below, storeTarget_path _ plain fits, List.nil_append, collected]
    exact strings _ (forall_mem_of_all (by decide))
  · have above : pathCap - 1 ≤ placement.displacement + ([] : List UInt8).length := by
      have apart := placement.disjoint
      have cap : pathCap = 1024 := rfl
      rw [cap, List.length_nil]
      omega
    rw [if_neg below, storeTarget_path_above _ plain above, collected]
    exact strings [] nofun

/-- Below the request buffer the kept query goes to `handle_exec_pipe`; above it
no handler is found. -/
theorem pipeAnswer_pipe {rest : List UInt8} (read : requestHeaders tls = some (target.headers rest)) :
    pipeAnswer (handleClient placement .verified tls body) =
      some (if placement.displacement ≤ -1024 then handleExecPipe target.kept
        else .refused 404 (ascii "not found")) := by
  rcases Option.map_eq_some_iff.mp read with ⟨⟨buf, later⟩, block, same⟩
  dsimp only at same
  simp only [handleClient, block, same, parseRequestLine_pipe]
  by_cases below : placement.displacement ≤ -1024
  · simp only [if_pos below]
    rw [if_neg (by decide), if_neg (by decide), if_pos (by decide)]
    rfl
  · simp only [if_neg below]
    rw [if_neg (by decide), if_neg (by decide), if_neg (by decide)]
    rfl

/-! ## Complete or refused -/

/-- The answer is a refusal, or it runs the whole command. -/
def CompleteOrRefused (command : List UInt8) : Option PipeAnswer -> Prop
  | some (.refused _ _) => True
  | some (.runs run _ _) => run = command
  | none => False

/-- The command is not cut, or nothing of it is left, or its cut end decodes to
what it encodes; or the path array lies above the request buffer, and no handler
is found for the request. -/
def KeepsCommand (placement : Placement) (target : PipeTarget) : Prop :=
  65536 ≤ placement.displacement ∨
    target.lead.length + (render target.tokens).length ≤ queryCap - 1 ∨
      queryCap - 1 ≤ target.lead.length ∨
        LuckyCut (render target.tokens) (queryCap - 1 - target.lead.length)

/-- What is left of the query: a part of the lead, or the lead with the command,
or the lead with a part of the command. -/
theorem handleExecPipe_kept_iff (target : PipeTarget) :
    CompleteOrRefused target.command (some (handleExecPipe target.kept)) ↔
      target.lead.length + (render target.tokens).length ≤ queryCap - 1 ∨
        queryCap - 1 ≤ target.lead.length ∨
          LuckyCut (render target.tokens) (queryCap - 1 - target.lead.length) := by
  have runs : forall value, (parseQuery target.kept).command = some value ->
      (CompleteOrRefused target.command (some (handleExecPipe target.kept)) ↔
        cString (percentDecode (cmdBufSize - 1) value) = target.command) := by
    intro value found
    rw [handleExecPipe]
    simp only [found, CompleteOrRefused]
  have refuses : (parseQuery target.kept).command = none ->
      CompleteOrRefused target.command (some (handleExecPipe target.kept)) := by
    intro missing
    rw [handleExecPipe]
    simp only [missing, CompleteOrRefused]
  have sizes : queryCap - 1 = 1023 ∧ cmdBufSize - 1 = 4095 := ⟨rfl, rfl⟩
  by_cases lost : queryCap - 1 ≤ target.lead.length
  · have kept : target.kept = target.lead.take (queryCap - 1) := by
      rw [PipeTarget.kept, PipeTarget.query, List.take_append_of_le_length lost]
    refine iff_of_true (refuses ?_) (Or.inr (Or.inl lost))
    rw [kept, parseQuery_lead_take]
  · have room : queryCap - 1 = target.lead.length + (queryCap - 1 - target.lead.length) := by omega
    have split : target.kept =
        target.lead ++ (render target.tokens ++ target.trail).take (queryCap - 1 - target.lead.length) := by
      rw [PipeTarget.kept, PipeTarget.query, List.take_append, List.take_of_length_le (by omega)]
    by_cases whole : target.lead.length + (render target.tokens).length ≤ queryCap - 1
    · have found := parseQuery_lead target (not_mem_separator target.tokens)
        (queryCap - 1 - target.lead.length - (render target.tokens).length)
      have cut : (render target.tokens ++ target.trail).take (queryCap - 1 - target.lead.length) =
          render target.tokens ++ target.trail.take
            (queryCap - 1 - target.lead.length - (render target.tokens).length) := by
        rw [List.take_append, List.take_of_length_le (by omega)]
      rw [← cut, ← split] at found
      refine iff_of_true ?_ (Or.inl whole)
      by_cases empty : render target.tokens = []
      · rw [if_pos empty] at found
        exact refuses found
      · rw [if_neg empty] at found
        rw [runs _ found, percentDecode_render, cString_eq_self target.noZero]
        · rfl
        · have bound := length_le_render target.tokens
          omega
    · have inside : queryCap - 1 - target.lead.length < (render target.tokens).length := by omega
      have cut : (render target.tokens ++ target.trail).take (queryCap - 1 - target.lead.length) =
          (render target.tokens).take (queryCap - 1 - target.lead.length) ++ target.trail.take 0 := by
        rw [List.take_append_of_le_length (Nat.le_of_lt inside), List.take_zero, List.append_nil]
      have free : (38 : UInt8) ∉ (render target.tokens).take (queryCap - 1 - target.lead.length) :=
        fun member => not_mem_separator target.tokens (List.mem_of_mem_take member)
      have found := parseQuery_lead target free 0
      have some : (render target.tokens).take (queryCap - 1 - target.lead.length) ≠ [] := by
        apply List.ne_nil_of_length_pos
        rw [List.length_take]
        omega
      rw [← cut, ← split, if_neg some] at found
      rw [runs _ found, cString_eq_self (fun byte member =>
        percentDecode_take_ne_zero _ _ target.noZero member), PipeTarget.command,
        percentDecode_take_eq_iff inside (by omega)]
      constructor
      · exact fun lucky => Or.inr (Or.inr lucky)
      · rintro (fits | none | lucky)
        · exact absurd fits whole
        · exact absurd none lost
        · exact lucky

/-! ### What the frame allows -/

/-- The last byte stored for the target is in the array `path` or among the spare bytes. -/
def PipeTarget.StaysClear (layout : Layout) (target : PipeTarget) : Prop :=
  (if layout.displacement < 0 then 15 else 1) + min target.query.length (queryCap - 1) <
    pathCap + layout.spare

/-- The target of such a request is its path and its query. -/
theorem requestTarget_pipe (target : PipeTarget) (rest : List UInt8) :
    requestTarget (target.headers rest) = some (ascii "/api/exec/pipe" ++ 63 :: target.query) := by
  have line : target.headers rest =
      ascii "POST" ++ 32 :: ((ascii "/api/exec/pipe" ++ 63 :: target.query) ++ 32 :: rest) := by
    rw [PipeTarget.headers, List.append_assoc]
    rfl
  have noSpace : (32 : UInt8) ∉ ascii "/api/exec/pipe" ++ 63 :: target.query := by
    intro member
    rcases List.mem_append.mp member with inPath | inQuery
    · exact absurd inPath (by decide)
    · rcases List.mem_cons.mp inQuery with isMark | later
      · exact absurd isMark (by decide)
      · exact (PipeTarget.query_ne later).1 rfl
  rw [line, requestTarget, takeWhile_append_cons (by decide : (32 : UInt8) ∉ ascii "POST")]
  change some _ = _
  rw [takeWhile_append_cons noSpace]

theorem harmless_pipe_iff {layout : Layout} {rest : List UInt8} :
    Harmless layout (target.headers rest) ↔ target.StaysClear layout := by
  have path : pathOf (ascii "/api/exec/pipe" ++ 63 :: target.query) = ascii "/api/exec/pipe" :=
    takeWhile_append_cons (by decide) _
  have query : queryOf (ascii "/api/exec/pipe" ++ 63 :: target.query) = target.query := by
    rw [queryOf, path, drop_length_append]
  have size : (ascii "/api/exec/pipe").length = 14 := rfl
  have mark : (63 : UInt8) ∈ ascii "/api/exec/pipe" ++ 63 :: target.query :=
    List.mem_append_right _ List.mem_cons_self
  have index : terminatorIndex layout.toPlacement (ascii "/api/exec/pipe" ++ 63 :: target.query) =
      (if layout.displacement < 0 then 15 else 1) + min target.query.length (queryCap - 1) := by
    have apart := layout.disjoint
    rw [terminatorIndex, path, query, size, if_pos mark, queryCap]
    by_cases lower : layout.displacement < 0
    · rw [if_pos lower]
      omega
    · rw [if_neg lower]
      omega
  rw [harmless_iff]
  simp only [requestTarget_pipe, Option.some.injEq, forall_eq', TargetClear, index, PipeTarget.StaysClear]

/-- The outcomes a connection may have: none is known once `parse_request_line` has stored
over other memory. -/
def MayServe (layout : Layout) (tls : Tls) (body : RequestArray) (outcome : Outcome) : Prop :=
  (forall headers, requestHeaders tls = some headers -> Harmless layout headers) ->
    outcome = handleClient layout.toPlacement .verified tls body

/-- What the code does if no store strays is among them. -/
theorem mayServe_handleClient (layout : Layout) (tls : Tls) (body : RequestArray) :
    MayServe layout tls body (handleClient layout.toPlacement .verified tls body) :=
  fun _ => rfl

/-- The request of a target without further headers, delivered byte by byte. -/
def PipeTarget.request (target : PipeTarget) : Tls where
  incoming := target.headers (ascii "HTTP/1.1\r\n\r\n")
  answers := List.replicate (target.headers (ascii "HTTP/1.1\r\n\r\n")).length 1

/-- The command "ls". -/
def lsTarget : PipeTarget where
  before := []
  tokens := [.literal 108 (by decide), .literal 115 (by decide)]
  after := []
  noZero := forall_mem_of_all (by decide)
  others := nofun

/-- A frame of which nothing is known but that the path array ends at the request buffer. -/
def unknownFrame : Layout := ⟨below, 0, fun _ => Int.le_refl 0⟩

/-- A command of letters `a`. -/
def longTarget (count : Nat) : PipeTarget where
  before := []
  tokens := List.replicate count (.literal 97 (by decide))
  after := []
  noZero := by
    intro byte member
    rw [content, List.map_replicate] at member
    rw [List.eq_of_mem_replicate member]
    decide
  others := nofun

theorem render_replicate (count : Nat) :
    render (List.replicate count (.literal 97 (by decide))) = List.replicate count 97 := by
  induction count with
  | zero => rfl
  | succ count inductionHypothesis =>
      rw [List.replicate_succ, render_cons, inductionHypothesis, List.replicate_succ]
      rfl

theorem requestHeaders_longTarget {count : Nat} (fits : count ≤ 60000) :
    requestHeaders (longTarget count).request =
      some ((longTarget count).headers (ascii "HTTP/1.1\r\n\r\n")) := by
  let line := ascii "POST /api/exec/pipe?command=" ++ (List.replicate count 97 ++ ascii " HTTP/1.1")
  have headers : (longTarget count).headers (ascii "HTTP/1.1\r\n\r\n") =
      line ++ ascii "\r\n\r\n" ++ [] := by
    simp only [PipeTarget.headers, PipeTarget.query, PipeTarget.trail, longTarget, render_replicate,
      List.flatMap_nil, List.append_nil, line, List.append_assoc]
    rfl
  have absent : forall byte : UInt8, byte ∉ ascii "POST /api/exec/pipe?command=" -> byte ≠ 97 ->
      byte ∉ ascii " HTTP/1.1" -> byte ∉ line := by
    intro byte front letter back member
    rcases List.mem_append.mp member with inFront | later
    · exact front inFront
    · rcases List.mem_append.mp later with inCommand | inBack
      · exact letter (List.eq_of_mem_replicate inCommand)
      · exact back inBack
  have length : line.length = count + 37 := by
    simp only [line, List.length_append, List.length_replicate]
    have front : (ascii "POST /api/exec/pipe?command=").length = 28 := rfl
    have back : (ascii " HTTP/1.1").length = 9 := rfl
    omega
  have size : (line ++ ascii "\r\n\r\n" ++ []).length = line.length + 4 := by
    rw [List.append_nil, List.length_append]
    rfl
  rw [PipeTarget.request, headers, size]
  have known : requestBuf = 65536 := rfl
  rw [requestHeaders_of_line (absent 10 (by decide) (by decide) (by decide))
    (absent 0 (by decide) (by decide) (by decide)) (by omega), List.append_nil]

/-- A frame with room behind the path array: the stores past its end change nothing. -/
def roomyFrame : Layout := ⟨⟨-2048, Or.inl (by decide)⟩, 1024, by decide⟩

end Handler
end AdbBridge
