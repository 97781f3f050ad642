import AdbBridge.Forward.UnixAddress
import AdbBridge.Library.Machine

namespace AdbBridge
namespace Forward

open Library Library.Numeral

/-!
# The connections of a forward

The accept thread of a forward takes one connection after the other to the Unix socket:
it accepts, connects, allocates a job, counts it and starts a relay thread.  It gives a
connection up, and closes it, if any call fails, except for `pthread_create`, whose
result it does not look at.  Each relay thread closes its two descriptors when it is
through and takes itself out of the count.

Every call of a thread is one step, and so is every read of the record that decides
where the thread goes.  The threads take their steps in any order, and the record may be
stopped or freed between any two of them.
-/

namespace Connections

/-! ## Threads -/

/-- A `relay_job_t`, with the socket its second descriptor is connected to. -/
structure Job where
  client : Nat
  unix : Nat
  peer : UnixName
deriving DecidableEq, Repr

/-- The next step of the accept thread, with the descriptors it holds.  `whileRunning`
and `rechecking` read `running`, `addressing` reads `unix_path`.  `closing` gives a
connection up: its descriptors are closed in this order. -/
inductive AcceptPc where
  | whileRunning
  | polling
  | accepting
  | rechecking
  | addressing (client : Nat)
  | socket (client : Nat) (path : List UInt8)
  | connecting (client unix : Nat) (path : List UInt8)
  | closing (first : Nat) (rest : List Nat)
  | allocating (job : Job)
  | counting (job : Job)
  | creating (job : Job)
  | stopping
  | ended
deriving DecidableEq, Repr

/-- Where a relay thread stands: in its loop, at the two closes of its cleanup, before
its critical section, before it frees the job, or past it. -/
inductive RelayPc where
  | relaying
  | closingClient
  | closingUnix
  | discounting
  | freeing
  | ended
deriving DecidableEq, Repr

/-- A relay thread. -/
structure Relay where
  job : Job
  pc : RelayPc
deriving DecidableEq, Repr

/-- What the accept thread did with a connection. -/
inductive Fate where
  | closed
  | relayed (peer : UnixName)
  | abandoned
deriving DecidableEq, Repr

/-- The record of the forward: in the table with `running` set or, after a shutdown,
without, or freed. -/
inductive Record where
  | running
  | stopped
  | freed
deriving DecidableEq, Repr

/-- A read of `running` can yield the value; a freed record can yield any. -/
def Record.shows (record : Record) (value : Bool) : Bool :=
  match record with
  | .running => value
  | .stopped => !value
  | .freed => true

/-- The record and the threads, `active_connections` while there is a record, and the
descriptors that were accepted or connected and are open.  `fates` are those of the
connections the accept thread is through with, `lengths` the address lengths it passed to
`connect`. -/
structure State where
  record : Record
  accept : AcceptPc
  relays : List Relay
  active : Option Nat
  descriptors : List Nat
  fates : List Fate
  lengths : List Nat
deriving DecidableEq, Repr

/-- The forward when its accept thread begins. -/
def initial : State := ⟨.running, .whileRunning, [], some 0, [], [], []⟩

/-- The outcomes of `poll`. -/
inductive PollResult where
  | ready
  | timeout
  | interrupted
  | failed
deriving DecidableEq, Repr

/-- The outcomes of `accept4`. -/
inductive AcceptResult where
  | accepted (client : Nat)
  | interrupted
  | failed
deriving DecidableEq, Repr

/-- The next step of a thread, with the result of its call or the value it reads, or a
call of `forward_remove` or `forward_shutdown_all`. -/
inductive Event where
  | check (running : Bool)
  | poll (result : PollResult)
  | accept (result : AcceptResult)
  | address (read : List UInt8)
  | socket (unix : Option Nat)
  | connect (succeeds : Bool)
  | close
  | malloc (succeeds : Bool)
  | count
  | create (succeeds : Bool)
  | stop
  | relay (thread : Nat)
  | remove
  | shutdownAll
deriving DecidableEq, Repr

/-! ## Steps -/

/-- A descriptor is closed. -/
def State.close (state : State) (fd : Nat) : State :=
  { state with descriptors := state.descriptors.filter (fun other => other != fd) }

/-- The loop after a poll. -/
def PollResult.next : PollResult -> AcceptPc
  | .ready => .accepting
  | .timeout | .interrupted => .whileRunning
  | .failed => .stopping

/-- The accept thread is through with a connection. -/
def State.finish (state : State) (fate : Fate) : State :=
  { state with accept := .whileRunning, fates := state.fates ++ [fate] }

/-- A relay thread is at another point, with the same job. -/
def State.moved (state : State) (thread : Nat) (relay : Relay) (pc : RelayPc) : State :=
  { state with relays := state.relays.set thread { relay with pc := pc } }

/-- The guarded decrement of the cleanup. -/
def discount (active : Nat) : Nat := if 0 < active then active - 1 else active

/-- A step of a relay thread. -/
def State.relayStep (state : State) (thread : Nat) (relay : Relay) : Option State :=
  match relay.pc with
  | .relaying => some (state.moved thread relay .closingClient)
  | .closingClient => some ((state.moved thread relay .closingUnix).close relay.job.client)
  | .closingUnix => some ((state.moved thread relay .discounting).close relay.job.unix)
  | .discounting => some { state.moved thread relay .freeing with active := state.active.map discount }
  | .freeing => some (state.moved thread relay .ended)
  | .ended => none

/-- One step of the accept thread or of a relay thread of a forward. -/
def step (fw : Tcpforward) (state : State) : Event -> Option State
  | .check running =>
      if state.record.shows running then
        match state.accept with
        | .whileRunning => some { state with accept := if running then .polling else .stopping }
        | .rechecking => some { state with accept := if running then .whileRunning else .stopping }
        | _ => none
      else none
  | .poll result =>
      match state.accept with
      | .polling => some { state with accept := result.next }
      | _ => none
  | .accept result =>
      match state.accept, result with
      | .accepting, .interrupted => some { state with accept := .whileRunning }
      | .accepting, .failed => some { state with accept := .rechecking }
      | .accepting, .accepted client =>
          if client ∉ state.descriptors then
            some { state with accept := .addressing client, descriptors := client :: state.descriptors }
          else none
      | _, _ => none
  | .address read =>
      match state.accept with
      | .addressing client =>
          if (0 : UInt8) ∉ read ∧ (state.record ≠ .freed -> read = fw.unixPath) then
            some { state with accept := .socket client read }
          else none
      | _ => none
  | .socket unix =>
      match state.accept, unix with
      | .socket client _, none => some { state with accept := .closing client [] }
      | .socket client path, some unix =>
          if unix ∉ state.descriptors then
            some
              { state with
                accept := .connecting client unix path
                descriptors := unix :: state.descriptors }
          else none
      | _, _ => none
  | .connect succeeds =>
      match state.accept with
      | .connecting client unix path =>
          let address := unixAddress path
          let passed : State := { state with lengths := state.lengths ++ [address.length] }
          if succeeds then
            address.name.map (fun peer => { passed with accept := .allocating ⟨client, unix, peer⟩ })
          else some { passed with accept := .closing unix [client] }
      | _ => none
  | .close =>
      match state.accept with
      | .closing first [] => some ((state.close first).finish .closed)
      | .closing first (next :: rest) => some { state.close first with accept := .closing next rest }
      | _ => none
  | .malloc succeeds =>
      match state.accept with
      | .allocating job =>
          some { state with accept := if succeeds then .counting job else .closing job.client [job.unix] }
      | _ => none
  | .count =>
      match state.accept with
      | .counting job => some { state with accept := .creating job, active := state.active.map (· + 1) }
      | _ => none
  | .create succeeds =>
      match state.accept with
      | .creating job =>
          if succeeds then
            some { state.finish (.relayed job.peer) with relays := state.relays ++ [⟨job, .relaying⟩] }
          else some (state.finish .abandoned)
      | _ => none
  | .stop =>
      match state.accept with
      | .stopping => some { state with accept := .ended }
      | _ => none
  | .relay thread =>
      match state.relays[thread]? with
      | some relay => state.relayStep thread relay
      | none => none
  | .remove => if state.record ≠ .freed then some { state with record := .freed, active := none } else none
  | .shutdownAll => if state.record ≠ .freed then some { state with record := .stopped } else none

/-! ## The list of transitions -/

/-- What one event can do to a state. -/
inductive Transition (fw : Tcpforward) (state : State) : Event -> State -> Prop where
  | checked (running : Bool) (pc : AcceptPc) (at_ : state.accept = .whileRunning ∨ state.accept = .rechecking)
      (goes : pc = .polling ∨ pc = .whileRunning ∨ pc = .stopping) :
      Transition fw state (.check running) { state with accept := pc }
  | polled (result : PollResult) (at_ : state.accept = .polling) :
      Transition fw state (.poll result) { state with accept := result.next }
  | interrupted (at_ : state.accept = .accepting) :
      Transition fw state (.accept .interrupted) { state with accept := .whileRunning }
  | acceptFailed (at_ : state.accept = .accepting) :
      Transition fw state (.accept .failed) { state with accept := .rechecking }
  | accepted (client : Nat) (at_ : state.accept = .accepting) (fresh : client ∉ state.descriptors) :
      Transition fw state (.accept (.accepted client))
        { state with accept := .addressing client, descriptors := client :: state.descriptors }
  | addressed (client : Nat) (read : List UInt8) (at_ : state.accept = .addressing client)
      (noZero : (0 : UInt8) ∉ read) (stored : state.record ≠ .freed -> read = fw.unixPath) :
      Transition fw state (.address read) { state with accept := .socket client read }
  | socketFailed (client : Nat) (path : List UInt8) (at_ : state.accept = .socket client path) :
      Transition fw state (.socket none) { state with accept := .closing client [] }
  | socket (client unix : Nat) (path : List UInt8) (at_ : state.accept = .socket client path)
      (fresh : unix ∉ state.descriptors) :
      Transition fw state (.socket (some unix))
        { state with accept := .connecting client unix path, descriptors := unix :: state.descriptors }
  | connected (client unix : Nat) (path : List UInt8) (peer : UnixName)
      (at_ : state.accept = .connecting client unix path) (named : (unixAddress path).name = some peer) :
      Transition fw state (.connect true)
        { state with
          accept := .allocating ⟨client, unix, peer⟩
          lengths := state.lengths ++ [(unixAddress path).length] }
  | connectFailed (client unix : Nat) (path : List UInt8) (at_ : state.accept = .connecting client unix path) :
      Transition fw state (.connect false)
        { state with
          accept := .closing unix [client]
          lengths := state.lengths ++ [(unixAddress path).length] }
  | closedLast (first : Nat) (at_ : state.accept = .closing first []) :
      Transition fw state .close ((state.close first).finish .closed)
  | closed (first next : Nat) (rest : List Nat) (at_ : state.accept = .closing first (next :: rest)) :
      Transition fw state .close { state.close first with accept := .closing next rest }
  | allocated (job : Job) (at_ : state.accept = .allocating job) :
      Transition fw state (.malloc true) { state with accept := .counting job }
  | mallocFailed (job : Job) (at_ : state.accept = .allocating job) :
      Transition fw state (.malloc false) { state with accept := .closing job.client [job.unix] }
  | counted (job : Job) (at_ : state.accept = .counting job) :
      Transition fw state .count { state with accept := .creating job, active := state.active.map (· + 1) }
  | created (job : Job) (at_ : state.accept = .creating job) :
      Transition fw state (.create true)
        { state.finish (.relayed job.peer) with relays := state.relays ++ [⟨job, .relaying⟩] }
  | createFailed (job : Job) (at_ : state.accept = .creating job) :
      Transition fw state (.create false) (state.finish .abandoned)
  | stopped (at_ : state.accept = .stopping) : Transition fw state .stop { state with accept := .ended }
  | left (thread : Nat) (relay : Relay) (found : state.relays[thread]? = some relay)
      (at_ : relay.pc = .relaying) :
      Transition fw state (.relay thread) (state.moved thread relay .closingClient)
  | clientClosed (thread : Nat) (relay : Relay) (found : state.relays[thread]? = some relay)
      (at_ : relay.pc = .closingClient) :
      Transition fw state (.relay thread) ((state.moved thread relay .closingUnix).close relay.job.client)
  | unixClosed (thread : Nat) (relay : Relay) (found : state.relays[thread]? = some relay)
      (at_ : relay.pc = .closingUnix) :
      Transition fw state (.relay thread) ((state.moved thread relay .discounting).close relay.job.unix)
  | discounted (thread : Nat) (relay : Relay) (found : state.relays[thread]? = some relay)
      (at_ : relay.pc = .discounting) :
      Transition fw state (.relay thread)
        { state.moved thread relay .freeing with active := state.active.map discount }
  | freedJob (thread : Nat) (relay : Relay) (found : state.relays[thread]? = some relay)
      (at_ : relay.pc = .freeing) :
      Transition fw state (.relay thread) (state.moved thread relay .ended)
  | removed (live : state.record ≠ .freed) :
      Transition fw state .remove { state with record := .freed, active := none }
  | shutDown (live : state.record ≠ .freed) :
      Transition fw state .shutdownAll { state with record := .stopped }

variable {fw : Tcpforward} {state next final : State} {event : Event} {events : List Event}

theorem transition_of_step (stepped : step fw state event = some next) : Transition fw state event next := by
  cases event with
  | check running =>
      rcases Option.ite_none_right_eq_some.mp stepped with ⟨_, taken⟩
      split at taken
      next at_ => cases running <;> exact Option.some.inj taken ▸ .checked _ _ (Or.inl at_) (by simp)
      next at_ => cases running <;> exact Option.some.inj taken ▸ .checked _ _ (Or.inr at_) (by simp)
      next => cases taken
  | poll result =>
      unfold step at stepped
      dsimp only at stepped
      split at stepped
      next at_ => exact Option.some.inj stepped ▸ .polled result at_
      next => cases stepped
  | accept result =>
      unfold step at stepped
      dsimp only at stepped
      split at stepped
      next at_ => exact Option.some.inj stepped ▸ .interrupted at_
      next at_ => exact Option.some.inj stepped ▸ .acceptFailed at_
      next client at_ =>
        rcases Option.ite_none_right_eq_some.mp stepped with ⟨fresh, same⟩
        exact Option.some.inj same ▸ .accepted client at_ fresh
      next => cases stepped
  | address read =>
      unfold step at stepped
      dsimp only at stepped
      split at stepped
      next client at_ =>
        rcases Option.ite_none_right_eq_some.mp stepped with ⟨⟨noZero, stored⟩, same⟩
        exact Option.some.inj same ▸ .addressed client read at_ noZero stored
      next => cases stepped
  | socket unix =>
      unfold step at stepped
      dsimp only at stepped
      split at stepped
      next client path at_ => exact Option.some.inj stepped ▸ .socketFailed client path at_
      next client path unix at_ =>
        rcases Option.ite_none_right_eq_some.mp stepped with ⟨fresh, same⟩
        exact Option.some.inj same ▸ .socket client unix path at_ fresh
      next => cases stepped
  | connect succeeds =>
      unfold step at stepped
      dsimp only at stepped
      split at stepped
      next client unix path at_ =>
        cases succeeds with
        | true =>
            rcases Option.map_eq_some_iff.mp stepped with ⟨peer, named, same⟩
            exact same ▸ .connected client unix path peer at_ named
        | false => exact Option.some.inj stepped ▸ .connectFailed client unix path at_
      next => cases stepped
  | close =>
      unfold step at stepped
      dsimp only at stepped
      split at stepped
      next first at_ => exact Option.some.inj stepped ▸ .closedLast first at_
      next first following rest at_ => exact Option.some.inj stepped ▸ .closed first following rest at_
      next => cases stepped
  | malloc succeeds =>
      unfold step at stepped
      dsimp only at stepped
      split at stepped
      next job at_ =>
        cases succeeds with
        | true => exact Option.some.inj stepped ▸ .allocated job at_
        | false => exact Option.some.inj stepped ▸ .mallocFailed job at_
      next => cases stepped
  | count =>
      unfold step at stepped
      dsimp only at stepped
      split at stepped
      next job at_ => exact Option.some.inj stepped ▸ .counted job at_
      next => cases stepped
  | create succeeds =>
      unfold step at stepped
      dsimp only at stepped
      split at stepped
      next job at_ =>
        cases succeeds with
        | true => exact Option.some.inj stepped ▸ .created job at_
        | false => exact Option.some.inj stepped ▸ .createFailed job at_
      next => cases stepped
  | stop =>
      unfold step at stepped
      dsimp only at stepped
      split at stepped
      next at_ => exact Option.some.inj stepped ▸ .stopped at_
      next => cases stepped
  | relay thread =>
      unfold step at stepped
      dsimp only at stepped
      split at stepped
      next relay found =>
        unfold State.relayStep at stepped
        split at stepped
        next at_ => exact Option.some.inj stepped ▸ .left thread relay found at_
        next at_ => exact Option.some.inj stepped ▸ .clientClosed thread relay found at_
        next at_ => exact Option.some.inj stepped ▸ .unixClosed thread relay found at_
        next at_ => exact Option.some.inj stepped ▸ .discounted thread relay found at_
        next at_ => exact Option.some.inj stepped ▸ .freedJob thread relay found at_
        next => cases stepped
      next => cases stepped
  | remove =>
      rcases Option.ite_none_right_eq_some.mp stepped with ⟨live, same⟩
      exact Option.some.inj same ▸ .removed live
  | shutdownAll =>
      rcases Option.ite_none_right_eq_some.mp stepped with ⟨live, same⟩
      exact Option.some.inj same ▸ .shutDown live

end Connections
end Forward
end AdbBridge
