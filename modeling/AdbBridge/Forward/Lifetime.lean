import AdbBridge.Forward.Table
import AdbBridge.Library.Machine

namespace AdbBridge
namespace Forward

open Library Library.Numeral

/-!
# The lifetime of a forward's record

The accept thread of a forward and the relay threads it starts hold a pointer
to the forward's record.  `forward_add` allocates the record and links it in one
critical section, `forward_remove` unlinks it and frees it in another: the
record is alive exactly while it is linked.  Ids are never used twice, so an id
stands for the pointer, and a record is freed when its id was given out and is
not in the table.

Each access of a thread to its record is a step of its own, and so is each call
between two accesses.  A thread that reads a freed record may see any value.
-/

namespace Lifetime

/-! ## Threads -/

/-- Where an accept thread is.  `whileRunning` and `recheck` read `running`,
`setPoll`, `acceptCall` and `lastRead` read `listen_fd`, `connect` reads
`unix_path`, `counting` increments `active_connections` and `lastWrite` closes
and resets `listen_fd`. -/
inductive AcceptPc where
  | whileRunning
  | setPoll
  | polling
  | acceptCall
  | accepting
  | recheck
  | connect
  | connecting
  | allocating
  | counting
  | creating
  | lastRead
  | lastWrite
  | ended
deriving DecidableEq, Repr

/-- The next step of an accept thread reads or writes its record. -/
def AcceptPc.accesses : AcceptPc -> Bool
  | .whileRunning | .setPoll | .acceptCall | .recheck | .connect | .counting | .lastRead
  | .lastWrite => true
  | _ => false

/-- Where a relay thread is: relaying between its two descriptors, before the
critical section that decrements `active_connections`, or past it. -/
inductive RelayPc where
  | relaying
  | cleanup
  | ended
deriving DecidableEq, Repr

/-- An accept thread with the id of its record. -/
structure AcceptThread where
  fw : Int
  pc : AcceptPc
deriving DecidableEq, Repr

/-- A relay thread with the id of its job's record. -/
structure RelayThread where
  fw : Int
  pc : RelayPc
deriving DecidableEq, Repr

/-- The table and the threads that were started. -/
structure State where
  table : ForwardTable
  accepts : List AcceptThread
  relays : List RelayThread
deriving DecidableEq, Repr

/-- The server before the first forward. -/
def initial : State := ⟨.initial, [], []⟩

/-- What a thread's next access sees, or what its next call answers. -/
inductive Answer where
  | sees (value : Bool)
  | done
  | interrupted
  | failed
deriving DecidableEq, Repr

/-- One atomic step of the server. -/
inductive Event where
  | add (unixPath host : List UInt8) (port : Int) (secure : Bool) (outcomes : AddOutcomes)
      (threadStarts : Bool)
  | remove (id : Int)
  | list
  | shutdownAll
  | accept (thread : Nat) (answer : Answer)
  | relay (thread : Nat) (answer : Answer)

/-! ## Steps -/

/-- The record with an id is rewritten, if it is alive. -/
def modify (table : ForwardTable) (id : Int) (update : Tcpforward -> Tcpforward) : ForwardTable :=
  { table with forwards := table.forwards.map (fun f => if f.id = id then update f else f) }

/-- A read of a boolean of the record can yield the value: the one stored, or
anything once the record is freed. -/
def Shows (table : ForwardTable) (id : Int) (read : Tcpforward -> Bool) (value : Bool) : Prop :=
  forall f, table.find id = some f -> read f = value

instance (table : ForwardTable) (id : Int) (read : Tcpforward -> Bool) (value : Bool) :
    Decidable (Shows table id read value) :=
  match found : table.find id with
  | none => isTrue (fun _ impossible => absurd (found.symm.trans impossible) nofun)
  | some f =>
      if same : read f = value then
        isTrue (fun _ taken => Option.some.inj (found.symm.trans taken) ▸ same)
      else isFalse (fun shows => same (shows f found))

/-- The position after a step of an accept thread, without its effects. -/
def AcceptPc.next (table : ForwardTable) (fw : Int) :
    AcceptPc -> Answer -> Option AcceptPc
  | .whileRunning, .sees value =>
      if Shows table fw Tcpforward.running value then some (if value then .setPoll else .lastRead)
      else none
  | .setPoll, .done => some .polling
  | .polling, .done => some .acceptCall
  | .polling, .interrupted => some .whileRunning
  | .polling, .failed => some .lastRead
  | .acceptCall, .done => some .accepting
  | .accepting, .done => some .connect
  | .accepting, .interrupted => some .whileRunning
  | .accepting, .failed => some .recheck
  | .recheck, .sees value =>
      if Shows table fw Tcpforward.running value then
        some (if value then .whileRunning else .lastRead)
      else none
  | .connect, .done => some .connecting
  | .connecting, .done => some .allocating
  | .connecting, .failed => some .whileRunning
  | .allocating, .done => some .counting
  | .allocating, .failed => some .whileRunning
  | .counting, .done => some .creating
  | .creating, .done | .creating, .failed => some .whileRunning
  | .lastRead, .sees value =>
      if Shows table fw (fun f => 0 ≤ f.listenFd) value then some (if value then .lastWrite else .ended)
      else none
  | .lastWrite, .done => some .ended
  | _, _ => none

/-- What a step of an accept thread writes to the table. -/
def AcceptPc.writes (table : ForwardTable) (fw : Int) : AcceptPc -> ForwardTable
  | .counting => modify table fw (fun f => { f with activeConnections := f.activeConnections + 1 })
  | .lastWrite =>
      match table.find fw with
      | none => table
      | some f => modify (table.close f.listenFd.toNat) fw (fun f => { f with listenFd := -1 })
  | _ => table

/-- The relay threads after a step of an accept thread: `pthread_create` starts
one unless it fails. -/
def AcceptPc.starts (fw : Int) (pc : AcceptPc) (answer : Answer) : List RelayThread :=
  if pc = .creating ∧ answer = .done then [⟨fw, .relaying⟩] else []

/-- A step of one accept thread. -/
def acceptStep (state : State) (index : Nat) (answer : Answer) : Option State := do
  let thread <- state.accepts[index]?
  let pc <- thread.pc.next state.table thread.fw answer
  some
    { table := thread.pc.writes state.table thread.fw
      accepts := state.accepts.set index ⟨thread.fw, pc⟩
      relays := state.relays ++ thread.pc.starts thread.fw answer }

/-- A step of one relay thread: it leaves its loop, or runs its cleanup. -/
def relayStep (state : State) (index : Nat) (answer : Answer) : Option State :=
  match state.relays[index]?, answer with
  | some ⟨_, .relaying⟩, .done => some state
  | some ⟨fw, .relaying⟩, .failed => some { state with relays := state.relays.set index ⟨fw, .cleanup⟩ }
  | some ⟨fw, .cleanup⟩, .done =>
      some
        { state with
          table := modify state.table fw
            (fun f => { f with activeConnections := f.activeConnections - 1 })
          relays := state.relays.set index ⟨fw, .ended⟩ }
  | _, _ => none

/-- `forward_shutdown_all`: every record is stopped and its listener closed. -/
def shutdownAll (table : ForwardTable) : ForwardTable :=
  let closed := (table.forwards.filter (fun f => 0 ≤ f.listenFd)).foldl
    (fun closing f => closing.close f.listenFd.toNat) table
  { closed with
    forwards := table.forwards.map (fun f =>
      { f with running := false, listenFd := if 0 ≤ f.listenFd then -1 else f.listenFd }) }

variable (inetPton : InetPton)

/-- One step of the server: a call of the table under its mutex, or a step of a thread. -/
def step (state : State) : Event -> Option State
  | .add unixPath host port secure outcomes threadStarts =>
      let added := forwardAdd inetPton state.table unixPath host port secure outcomes
      some
        { state with
          table := added.1
          accepts :=
            if 0 < added.2 ∧ threadStarts = true then state.accepts ++ [⟨added.2, .whileRunning⟩]
            else state.accepts }
  | .remove id => some { state with table := (forwardRemove state.table id).1 }
  | .list => some state
  | .shutdownAll => some { state with table := shutdownAll state.table }
  | .accept index answer => acceptStep state index answer
  | .relay index answer => relayStep state index answer

/-! ## Freed records -/

/-- The record was allocated by `forward_add` and freed by `forward_remove`. -/
def Freed (table : ForwardTable) (id : Int) : Prop :=
  0 < id ∧ id < table.nextId ∧ table.find id = none

/-- The record a thread reads or writes in the step, if the step is a thread's.
The table operations touch linked records only. -/
def touched (state : State) : Event -> Option Int
  | .accept index _ =>
      (state.accepts[index]?).bind (fun thread => if thread.pc.accesses then some thread.fw else none)
  | .relay index _ =>
      (state.relays[index]?).bind (fun thread => if thread.pc = .cleanup then some thread.fw else none)
  | _ => none

/-- The step does not touch a freed record. -/
def TouchesLive (state : State) (event : Event) : Prop :=
  forall id, touched state event = some id -> ¬ Freed state.table id

/-- The condition on a step: a record is removed only after its accept thread
and its relay threads have ended. -/
def RemovesQuiet (state : State) : Event -> Prop
  | .remove id =>
      (state.table.find id).isSome = true ->
        (forall thread, thread ∈ state.accepts -> thread.fw = id -> thread.pc = .ended) ∧
          forall thread, thread ∈ state.relays -> thread.fw = id -> thread.pc = .ended
  | _ => True

instance (table : ForwardTable) (id : Int) : Decidable (Freed table id) :=
  inferInstanceAs (Decidable (0 < id ∧ id < table.nextId ∧ table.find id = none))

instance (state : State) (event : Event) : Decidable (RemovesQuiet state event) := by
  unfold RemovesQuiet
  split <;> infer_instance

/-! ## The invariant -/

/-- Every thread that has not ended holds a record that is alive. -/
structure Held (state : State) : Prop where
  accepts : forall thread, thread ∈ state.accepts -> thread.pc ≠ .ended ->
    thread.fw ∈ state.table.ids
  relays : forall thread, thread ∈ state.relays -> thread.pc ≠ .ended ->
    thread.fw ∈ state.table.ids

theorem initial_held : Held initial := ⟨nofun, nofun⟩

theorem ids_modify (table : ForwardTable) (id : Int) {update : Tcpforward -> Tcpforward}
    (same : forall f, (update f).id = f.id) : (modify table id update).ids = table.ids := by
  simp only [ForwardTable.ids, modify, List.map_map]
  apply List.map_congr_left
  intro f _
  dsimp only [Function.comp]
  split
  · exact same f
  · rfl

theorem ids_writes (table : ForwardTable) (fw : Int) (pc : AcceptPc) :
    (pc.writes table fw).ids = table.ids := by
  cases pc with
  | counting => exact ids_modify table fw (fun _ => rfl)
  | lastWrite =>
      simp only [AcceptPc.writes]
      split
      · rfl
      · exact ids_modify _ fw (fun _ => rfl)
  | _ => rfl

theorem ids_shutdownAll (table : ForwardTable) : (shutdownAll table).ids = table.ids := by
  simp only [shutdownAll, ForwardTable.ids, List.map_map]
  rfl

/-- `forward_add` keeps every record, and a positive result is a record. -/
theorem ids_forwardAdd {inetPton : InetPton} {table after : ForwardTable} {unixPath host : List UInt8}
    {port result : Int} {secure : Bool} {outcomes : AddOutcomes}
    (added : forwardAdd inetPton table unixPath host port secure outcomes = (after, result)) :
    (forall id, id ∈ table.ids -> id ∈ after.ids) ∧ (0 < result -> result ∈ after.ids) := by
  rcases forwardAdd_cases added with ⟨failed, same, _⟩ | ⟨fd, _, _, linked, _⟩
  · refine ⟨fun id member => ?_, fun success => absurd success (Int.not_lt.mpr (Int.le_of_lt failed))⟩
    rw [ForwardTable.ids, same]
    exact member
  · have ids : after.ids = result :: table.ids := by
      rw [ForwardTable.ids, linked]
      rfl
    exact ⟨fun id member => ids ▸ List.mem_cons_of_mem _ member, fun _ => ids ▸ List.mem_cons_self⟩

/-- `forward_remove` keeps every other record. -/
theorem ids_forwardRemove {table : ForwardTable} {id other : Int} (member : other ∈ table.ids)
    (different : other ≠ id) : other ∈ (forwardRemove table id).1.ids := by
  rcases forwardRemove_cases table id with ⟨_, same⟩ | ⟨_, _, erased, _⟩
  · rw [same]
    exact member
  · rcases List.mem_map.mp member with ⟨f, linked, rfl⟩
    rw [ForwardTable.ids, erased]
    apply List.mem_map_of_mem
    exact (List.mem_eraseP_of_neg (by simpa using different)).mpr linked

/-- A thread at an ended position takes no step. -/
theorem ne_ended_of_next {table : ForwardTable} {fw : Int} {pc next : AcceptPc} {answer : Answer}
    (moved : pc.next table fw answer = some next) : pc ≠ .ended := by
  rintro rfl
  cases answer <;> exact absurd moved nofun

/-! ## One step -/

variable {inetPton : InetPton} {state next : State}

/-- Operations on the table that keep the records keep the invariant. -/
theorem Held.of_ids {table : ForwardTable} (held : Held state)
    (kept : forall id, id ∈ state.table.ids -> id ∈ table.ids) :
    Held { state with table := table } :=
  ⟨fun thread member running => kept _ (held.accepts thread member running),
    fun thread member running => kept _ (held.relays thread member running)⟩

theorem acceptStep_held {index : Nat} {answer : Answer}
    (stepped : acceptStep state index answer = some next) (held : Held state) : Held next := by
  unfold acceptStep at stepped
  rcases Option.bind_eq_some_iff.mp stepped with ⟨thread, at_, moving⟩
  rcases Option.bind_eq_some_iff.mp moving with ⟨pc, moved, same⟩
  have member := List.mem_of_getElem? at_
  have alive := held.accepts thread member (ne_ended_of_next moved)
  have result := Option.some.inj same
  subst result
  have kept := ids_writes state.table thread.fw thread.pc
  constructor
  · intro other listed running
    change other.fw ∈ (thread.pc.writes state.table thread.fw).ids
    rw [kept]
    rcases List.mem_or_eq_of_mem_set listed with old | new
    · exact held.accepts other old running
    · rw [new]
      exact alive
  · intro other listed running
    change other.fw ∈ (thread.pc.writes state.table thread.fw).ids
    rw [kept]
    rcases List.mem_append.mp listed with old | new
    · exact held.relays other old running
    · unfold AcceptPc.starts at new
      split at new
      · rw [List.mem_singleton.mp new]
        exact alive
      · exact absurd new List.not_mem_nil

theorem relayStep_held {index : Nat} {answer : Answer}
    (stepped : relayStep state index answer = some next) (held : Held state) : Held next := by
  unfold relayStep at stepped
  split at stepped
  · exact Option.some.inj stepped ▸ held
  next fw at_ =>
    have alive := held.relays _ (List.mem_of_getElem? at_) nofun
    have result := Option.some.inj stepped
    subst result
    refine ⟨held.accepts, fun other listed running => ?_⟩
    rcases List.mem_or_eq_of_mem_set listed with old | new
    · exact held.relays other old running
    · rw [new]
      exact alive
  next fw at_ =>
    have result := Option.some.inj stepped
    subst result
    have kept : (modify state.table fw
        (fun f => { f with activeConnections := f.activeConnections - 1 })).ids = state.table.ids :=
      ids_modify state.table fw (fun _ => rfl)
    refine ⟨fun other listed running => kept ▸ held.accepts other listed running,
      fun other listed running => ?_⟩
    rcases List.mem_or_eq_of_mem_set listed with old | new
    · exact kept ▸ held.relays other old running
    · rw [new] at running
      exact absurd rfl running
  · exact absurd stepped nofun

/-- One step keeps the invariant, if it removes no record that a thread holds. -/
theorem step_held {event : Event} (stepped : step inetPton state event = some next)
    (quiet : RemovesQuiet state event) (held : Held state) : Held next := by
  cases event with
  | add unixPath host port secure outcomes threadStarts =>
      rcases added : forwardAdd inetPton state.table unixPath host port secure outcomes with
        ⟨after, result⟩
      simp only [step, added, Option.some.injEq] at stepped
      subst stepped
      have kept := ids_forwardAdd added
      refine ⟨fun thread member running => ?_, fun thread member running =>
        kept.1 _ (held.relays thread member running)⟩
      dsimp only at member
      split at member
      next starts =>
        rcases List.mem_append.mp member with old | new
        · exact kept.1 _ (held.accepts thread old running)
        · rw [List.mem_singleton.mp new]
          exact kept.2 starts.1
      · exact kept.1 _ (held.accepts thread member running)
  | remove id =>
      have result := Option.some.inj stepped
      subst result
      by_cases found : (state.table.find id).isSome = true
      · have quietly := quiet found
        constructor
        · intro thread member running
          exact ids_forwardRemove (held.accepts thread member running)
            (fun same => running (quietly.1 thread member same))
        · intro thread member running
          exact ids_forwardRemove (held.relays thread member running)
            (fun same => running (quietly.2 thread member same))
      · rcases forwardRemove_cases state.table id with ⟨_, same⟩ | ⟨some, _⟩
        · rw [same]
          exact held
        · exact absurd some found
  | list => exact Option.some.inj stepped ▸ held
  | shutdownAll =>
      have result := Option.some.inj stepped
      subst result
      exact held.of_ids (fun id member => ids_shutdownAll state.table ▸ member)
  | accept index answer => exact acceptStep_held stepped held
  | relay index answer => exact relayStep_held stepped held

/-- A thread that holds a live record touches no freed one. -/
theorem Held.touchesLive (held : Held state) (event : Event) : TouchesLive state event := by
  intro id touches freed
  have alive : id ∈ state.table.ids := by
    cases event with
    | accept index answer =>
        rcases Option.bind_eq_some_iff.mp touches with ⟨thread, at_, same⟩
        split at same
        next accesses =>
          rw [← Option.some.inj same]
          apply held.accepts thread (List.mem_of_getElem? at_)
          intro ended
          rw [ended] at accesses
          exact absurd accesses (by decide)
        · exact absurd same nofun
    | relay index answer =>
        rcases Option.bind_eq_some_iff.mp touches with ⟨thread, at_, same⟩
        split at same
        next cleanup =>
          rw [← Option.some.inj same]
          apply held.relays thread (List.mem_of_getElem? at_)
          rw [cleanup]
          nofun
        · exact absurd same nofun
    | add | remove | list | shutdownAll => exact absurd touches nofun
  have linked := (state.table.find_isSome_iff id).mpr alive
  rw [freed.2.2] at linked
  exact absurd linked (by decide)

/-! ## Whole runs -/

/-- In every run that removes a record only after its threads have ended, no
thread touches a freed record, whatever it does next. -/
theorem forward_records_live {events : List Event} {final : State}
    (run : Machine.exec (step inetPton) initial events = some final)
    (quiet : Machine.AllSteps (step inetPton) RemovesQuiet initial events) (event : Event) :
    TouchesLive final event :=
  (Machine.invariant_exec_of_allSteps (fun _ _ _ fine stepped held => step_held stepped fine held)
    run quiet initial_held).touchesLive event

/-- The forward is added, its accept thread polls and ends after
`forward_shutdown_all`; only then the record is removed and another one added. -/
def orderlyRun : List Event :=
  [.add (ascii "/tmp/s") (ascii "127.0.0.1") 8080 false succeeding true, .accept 0 (.sees true),
    .accept 0 .done, .shutdownAll, .accept 0 .interrupted, .accept 0 (.sees false),
    .accept 0 (.sees false), .remove 1,
    .add (ascii "/tmp/s") (ascii "127.0.0.1") 8080 false succeeding true]

/-- The table after `orderlyRun`. -/
def orderlyTable : ForwardTable :=
  ⟨[newForward 2 (ascii "/tmp/s") (ascii "127.0.0.1") 8080 false 5], 3,
    [(5, some ⟨⟨127, 0, 0, 1⟩, 8080⟩)], by decide⟩

theorem forward_records_live_orderly :
    TouchesLive ⟨orderlyTable, [⟨1, .ended⟩, ⟨2, .whileRunning⟩], []⟩ (.accept 1 (.sees true)) :=
  forward_records_live
    (by decide : Machine.exec (step dottedQuad) initial orderlyRun =
      some ⟨orderlyTable, [⟨1, .ended⟩, ⟨2, .whileRunning⟩], []⟩)
    (by decide) (.accept 1 (.sees true))

/-- The record is removed while its accept thread is in `poll`, as it is most of
the time: the next read of `running` is from freed memory. -/
theorem forwardRemove_under_polling_accept_thread :
    (Machine.exec (step dottedQuad) initial
        [.add (ascii "/tmp/s") (ascii "127.0.0.1") 8080 false succeeding true, .accept 0 (.sees true),
          .accept 0 .done, .remove 1, .accept 0 .interrupted]).map
        (fun state => (touched state (.accept 0 (.sees false)), decide (Freed state.table 1))) =
      some (some 1, true) := by
  decide

end Lifetime
end Forward
end AdbBridge
