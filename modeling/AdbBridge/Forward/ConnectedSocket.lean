import AdbBridge.Forward.ActiveConnections

namespace AdbBridge
namespace Forward

open Library Library.Numeral

/-!
# The socket a forward connects to

A path goes through two copies before `connect`: into the record, and from there into
`sun_path`.  Neither checks whether it fits.  Whether every connection of a forward is
closed or relayed to the socket the forward was created for is therefore decided at each
`connect` by what the accept thread read, and at each `pthread_create` by its success.
-/

namespace Connections

/-! ## What the threads know -/

/-- The path the accept thread has read. -/
def AcceptPc.read : AcceptPc -> Option (List UInt8)
  | .socket _ path | .connecting _ _ path => some path
  | _ => none

/-- The socket the accept thread is connected to. -/
def AcceptPc.peer : AcceptPc -> Option UnixName
  | .allocating job | .counting job | .creating job => some job.peer
  | _ => none

/-- Every connection is closed or relayed to the socket of the path, or on the way to one
of these, and no address was longer than a `sockaddr_un`. -/
structure ToItsSocket (path : List UInt8) (state : State) : Prop where
  fates : forall fate, fate ∈ state.fates -> fate = .closed ∨ fate = .relayed (socketName path)
  accepting : forall peer, state.accept.peer = some peer -> peer = socketName path
  relaying : forall relay, relay ∈ state.relays -> relay.job.peer = socketName path
  lengths : forall length, length ∈ state.lengths -> length ≤ sockaddrUnSize

/-- What a step has to do for that: a `connect` that succeeds was made with a text that
addresses the path, one that fails stays inside the structure, and the relay thread
starts. -/
def Meets (path : List UInt8) (state : State) : Event -> Prop
  | .connect succeeds => forall read, state.accept.read = some read ->
      if succeeds then Addresses path read else read.head? = some 64 -> read.length ≤ 108
  | .create succeeds => succeeds = true
  | _ => True

/-- The same for a record that is not removed. -/
def MeetsStored (path : List UInt8) : Event -> Prop
  | .connect succeeds =>
      if succeeds then 1 ≤ path.length ∧ path.length ≤ 107 else path.head? = some 64 -> path.length ≤ 108
  | .create succeeds => succeeds = true
  | _ => True

instance (path : List UInt8) : (event : Event) -> Decidable (MeetsStored path event)
  | .connect true => inferInstanceAs (Decidable (_ ∧ _))
  | .connect false => inferInstanceAs (Decidable (_ -> _))
  | .create _ => inferInstanceAs (Decidable (_ = _))
  | .check _ | .poll _ | .accept _ | .address _ | .socket _ | .close | .malloc _ | .count | .stop | .relay _
  | .remove | .shutdownAll => isTrue trivial

/-- The accept thread reads strings. -/
def ReadsString (state : State) : Prop :=
  forall read, state.accept.read = some read -> (0 : UInt8) ∉ read

/-- The record is there, and the accept thread reads its path. -/
def ReadsStored (stored : List UInt8) (state : State) : Prop :=
  state.record ≠ .freed ∧ forall read, state.accept.read = some read -> read = stored

/-! ## Steps -/

variable {fw : Tcpforward} {state next final : State} {event : Event} {events : List Event} {path : List UInt8}

/-- What the accept thread has read after a step it had read before, or it read it in
this step. -/
theorem read_step (stepped : step fw state event = some next) {read : List UInt8}
    (now : next.accept.read = some read) :
    state.accept.read = some read ∨ (0 : UInt8) ∉ read ∧ (state.record ≠ .freed -> read = fw.unixPath) := by
  cases transition_of_step stepped with
  | checked running pc at_ goes => rcases goes with rfl | rfl | rfl <;> cases now
  | polled result at_ => cases result <;> cases now
  | addressed client found at_ noZero stored =>
      rw [← Option.some.inj now]
      exact Or.inr ⟨noZero, stored⟩
  | socket client unix found at_ fresh =>
      rw [at_]
      exact Or.inl now
  | left | clientClosed | unixClosed | discounted | freedJob | removed | shutDown => exact Or.inl now
  | _ => cases now

theorem record_step (stepped : step fw state event = some next) (stays : event ≠ .remove)
    (live : state.record ≠ .freed) : next.record ≠ .freed := by
  cases transition_of_step stepped with
  | removed => exact absurd rfl stays
  | shutDown => exact Record.noConfusion
  | _ => exact live

theorem readsString_step (stepped : step fw state event = some next) (strings : ReadsString state) :
    ReadsString next :=
  fun read now => (read_step stepped now).elim (strings read) (fun known => known.1)

theorem readsStored_step (stepped : step fw state event = some next) (stays : event ≠ .remove)
    (stored : ReadsStored fw.unixPath state) : ReadsStored fw.unixPath next :=
  ⟨record_step stepped stays stored.1,
    fun read now => (read_step stepped now).elim (stored.2 read) (fun known => known.2 stored.1)⟩

theorem meets_connect_iff {read : List UInt8} {succeeds : Bool} (known : state.accept.read = some read) :
    Meets path state (.connect succeeds) ↔
      if succeeds then Addresses path read else read.head? = some 64 -> read.length ≤ 108 := by
  constructor
  · exact fun met => met read known
  · intro right other same
    rw [← Option.some.inj (known.symm.trans same)]
    exact right

/-- A text that addresses the path gives an address inside the structure. -/
theorem length_le_of_addresses {read : List UInt8} (right : Addresses path read) :
    (unixAddress read).length ≤ sockaddrUnSize := by
  refine (length_unixAddress_le_iff read).mpr (fun at_ => ?_)
  rcases right with ⟨_, taken, whole⟩
  have pathAt : path.head? = some 64 := by
    rw [← taken]
    rcases List.head?_eq_some_iff.mp at_ with ⟨name, isRead⟩
    rw [isRead]
    rfl
  have lengths := congrArg List.length taken
  rw [List.length_take, ← whole pathAt] at lengths
  omega

/-- Whether the connections go to their socket is decided by each `connect` and each
`pthread_create`. -/
theorem toItsSocket_step_iff (noZero : (0 : UInt8) ∉ path) (stepped : step fw state event = some next)
    (strings : ReadsString state) (right : ToItsSocket path state) :
    ToItsSocket path next ↔ Meets path state event := by
  have keeps : forall other : State, other.fates = state.fates -> other.lengths = state.lengths ->
      other.relays = state.relays ->
      (other.accept.peer = none ∨ other.accept.peer = state.accept.peer) -> ToItsSocket path other := by
    intro other fates lengths relays peers
    refine ⟨fates ▸ right.fates, fun peer now => ?_, relays ▸ right.relaying, lengths ▸ right.lengths⟩
    rcases peers with nobody | same
    · exact absurd (nobody.symm.trans now) (Option.some_ne_none _).symm
    · exact right.accepting peer (same ▸ now)
  have closes : forall fd : Nat, ToItsSocket path ((state.close fd).finish .closed) := by
    intro fd
    refine ⟨fun fate member => ?_, fun peer now => ?_, right.relaying, right.lengths⟩
    · rcases List.mem_append.mp member with older | new
      · exact right.fates fate older
      · exact Or.inl (List.mem_singleton.mp new)
    · cases now
  have moves : forall (thread : Nat) (relay : Relay) (pc : RelayPc) (active : Option Nat)
      (descriptors : List Nat), state.relays[thread]? = some relay ->
      ToItsSocket path { state.moved thread relay pc with active := active, descriptors := descriptors } := by
    intro thread relay pc active descriptors found
    refine ⟨right.fates, right.accepting, fun other member => ?_, right.lengths⟩
    rcases List.mem_or_eq_of_mem_set member with older | new
    · exact right.relaying other older
    · rw [new]
      exact right.relaying relay (List.mem_of_getElem? found)
  have quiet : forall other : State, other.fates = state.fates -> other.lengths = state.lengths ->
      other.relays = state.relays -> other.accept.peer = none -> Meets path state event ->
      (ToItsSocket path other ↔ Meets path state event) :=
    fun other fates lengths relays nobody met =>
      iff_of_true (keeps other fates lengths relays (Or.inl nobody)) met
  cases transition_of_step stepped with
  | checked running pc at_ goes =>
      refine quiet _ rfl rfl rfl ?_ trivial
      rcases goes with rfl | rfl | rfl <;> rfl
  | polled result at_ =>
      refine quiet _ rfl rfl rfl ?_ trivial
      cases result <;> rfl
  | interrupted => exact quiet _ rfl rfl rfl rfl trivial
  | acceptFailed => exact quiet _ rfl rfl rfl rfl trivial
  | accepted => exact quiet _ rfl rfl rfl rfl trivial
  | addressed => exact quiet _ rfl rfl rfl rfl trivial
  | socketFailed => exact quiet _ rfl rfl rfl rfl trivial
  | socket => exact quiet _ rfl rfl rfl rfl trivial
  | connected client unix read peer at_ named =>
      have known : state.accept.read = some read := by
        rw [at_]
        rfl
      have exactly := name_unixAddress_iff (strings read known) noZero
      rw [named, Option.some.injEq] at exactly
      rw [meets_connect_iff known, if_pos rfl]
      constructor
      · exact fun after => exactly.mp (after.accepting peer rfl)
      · intro addressed
        refine ⟨right.fates, fun other now => ?_, right.relaying, fun length member => ?_⟩
        · exact Option.some.inj now ▸ exactly.mpr addressed
        · rcases List.mem_append.mp member with older | new
          · exact right.lengths length older
          · rw [List.mem_singleton.mp new]
            exact length_le_of_addresses addressed
  | connectFailed client unix read at_ =>
      have known : state.accept.read = some read := by
        rw [at_]
        rfl
      rw [meets_connect_iff known, if_neg Bool.false_ne_true, ← length_unixAddress_le_iff]
      constructor
      · exact fun after => after.lengths _ (List.mem_append_right _ List.mem_cons_self)
      · intro inside
        refine ⟨right.fates, fun other now => ?_, right.relaying, fun length member => ?_⟩
        · cases now
        · rcases List.mem_append.mp member with older | new
          · exact right.lengths length older
          · rw [List.mem_singleton.mp new]
            exact inside
  | closedLast first => exact iff_of_true (closes first) trivial
  | closed => exact quiet _ rfl rfl rfl rfl trivial
  | allocated job at_ =>
      exact iff_of_true (keeps _ rfl rfl rfl (Or.inr (by rw [at_]; rfl))) trivial
  | mallocFailed => exact quiet _ rfl rfl rfl rfl trivial
  | counted job at_ =>
      exact iff_of_true (keeps _ rfl rfl rfl (Or.inr (by rw [at_]; rfl))) trivial
  | created job at_ =>
      have itsSocket : job.peer = socketName path := right.accepting job.peer (by rw [at_]; rfl)
      refine iff_of_true ⟨fun fate member => ?_, fun peer now => ?_, fun relay member => ?_, right.lengths⟩ rfl
      · rcases List.mem_append.mp member with older | new
        · exact right.fates fate older
        · exact Or.inr ((List.mem_singleton.mp new).trans (congrArg Fate.relayed itsSocket))
      · cases now
      · rcases List.mem_append.mp member with older | new
        · exact right.relaying relay older
        · rw [List.mem_singleton.mp new]
          exact itsSocket
  | createFailed job at_ =>
      refine iff_of_false (fun after => ?_) Bool.false_ne_true
      rcases after.fates .abandoned (List.mem_append_right _ List.mem_cons_self) with impossible | impossible
      · cases impossible
      · cases impossible
  | stopped => exact quiet _ rfl rfl rfl rfl trivial
  | left thread relay found => exact iff_of_true (moves thread relay _ _ _ found) trivial
  | clientClosed thread relay found => exact iff_of_true (moves thread relay _ _ _ found) trivial
  | unixClosed thread relay found => exact iff_of_true (moves thread relay _ _ _ found) trivial
  | discounted thread relay found => exact iff_of_true (moves thread relay _ _ _ found) trivial
  | freedJob thread relay found => exact iff_of_true (moves thread relay _ _ _ found) trivial
  | removed => exact iff_of_true (keeps _ rfl rfl rfl (Or.inr rfl)) trivial
  | shutDown => exact iff_of_true (keeps _ rfl rfl rfl (Or.inr rfl)) trivial

/-- For the text a record keeps of the path the condition is one on the path. -/
theorem meets_iff_of_stored (stepped : step fw state event = some next)
    (stored : ReadsStored (copied 256 path) state) : Meets path state event ↔ MeetsStored path event := by
  cases transition_of_step stepped with
  | connected client unix read peer at_ named =>
      have known : state.accept.read = some read := by
        rw [at_]
        rfl
      rw [meets_connect_iff known, if_pos rfl, stored.2 read known]
      exact addresses_copied_iff path
  | connectFailed client unix read at_ =>
      have known : state.accept.read = some read := by
        rw [at_]
        rfl
      rw [meets_connect_iff known, if_neg Bool.false_ne_true, stored.2 read known, head?_copied, copied,
        List.length_take]
      refine forall_congr' (fun _ => ?_)
      omega
  | _ => exact Iff.rfl

/-! ## Runs -/

variable {inetPton : InetPton} {table after : ForwardTable} {host : List UInt8} {port id : Int} {secure : Bool}
  {outcomes : AddOutcomes}

/-- Every forward of `forward_add` connects to the socket it was created for, or closes the
connection, as long as each `connect` that succeeds was made with a text that addresses
the path, each that fails stays inside `sockaddr_un`, and each relay thread starts.  If
the forward is not removed the text is the record's, and addresses the path if and only if
the path has between 1 and 107 bytes. -/
theorem connections_to_their_socket_iff
    (added : forwardAdd inetPton table path host port secure outcomes = (after, id)) (success : 0 < id)
    (noZero : (0 : UInt8) ∉ path) :
    Exists fun fw => after.find id = some fw ∧
      forall events final, Machine.exec (step fw) initial events = some final ->
        (Machine.Throughout (step fw) (ToItsSocket path) initial events ↔
          Machine.AllSteps (step fw) (Meets path) initial events) ∧
        ((forall event, event ∈ events -> event ≠ .remove) ->
          (Machine.Throughout (step fw) (ToItsSocket path) initial events ↔
            forall event, event ∈ events -> MeetsStored path event)) := by
  rcases forwardAdd_find added success with ⟨fd, found, _⟩
  refine ⟨_, found, fun events final run => ?_⟩
  have begins : ToItsSocket path initial :=
    ⟨fun _ member => absurd member List.not_mem_nil, fun _ now => absurd now (Option.some_ne_none _).symm,
      fun _ member => absurd member List.not_mem_nil, fun _ member => absurd member List.not_mem_nil⟩
  have nothingRead : forall holds : List UInt8 -> Prop, forall read,
      initial.accept.read = some read -> holds read :=
    fun _ _ now => absurd now (Option.some_ne_none _).symm
  constructor
  · exact Machine.throughout_iff_allSteps_of_invariant
      (fun _ _ _ _ stepped strings => readsString_step stepped strings)
      (fun _ _ _ _ stepped strings right => toItsSocket_step_iff noZero stepped strings right) run
      (Machine.allSteps_of_forall (fun _ => True) (fun _ _ => trivial)) (nothingRead _) begins
  · intro stays
    rw [← Machine.allSteps_iff_forall run]
    exact Machine.throughout_iff_allSteps_of_invariant
      (fun _ _ _ kept stepped both =>
        And.intro (readsString_step stepped both.1) (readsStored_step stepped kept both.2))
      (fun _ _ _ _ stepped both right =>
        (toItsSocket_step_iff noZero stepped both.1 right).trans (meets_iff_of_stored stepped both.2)) run
      (Machine.allSteps_of_forall (fun event : Event => event ≠ .remove) stays)
      ⟨nothingRead _, Record.noConfusion, nothingRead _⟩ begins

theorem connections_to_their_socket_iff_overlapping :
    Exists fun fw =>
      (forwardAdd dottedQuad .initial (ascii "/tmp/s") (ascii "127.0.0.1") 8080 false succeeding).1.find 1 =
          some fw ∧
        (Machine.exec (step fw) initial overlapping).isSome = true ∧
        Machine.Throughout (step fw) (ToItsSocket (ascii "/tmp/s")) initial overlapping := by
  rcases connections_to_their_socket_iff (Prod.mk.eta (p := forwardAdd dottedQuad .initial (ascii "/tmp/s")
    (ascii "127.0.0.1") 8080 false succeeding)).symm (by decide) (by decide) with ⟨fw, found, all⟩
  have isSample : fw = sampleForward := by
    have sample : (forwardAdd dottedQuad .initial (ascii "/tmp/s") (ascii "127.0.0.1") 8080 false
      succeeding).1.find 1 = some sampleForward := by decide
    exact Option.some.inj (found.symm.trans sample)
  have runs : (Machine.exec (step fw) initial overlapping).isSome = true := by
    rw [isSample]
    decide
  rcases Option.isSome_iff_exists.mp runs with ⟨final, run⟩
  exact ⟨fw, found, runs, ((all overlapping final run).2 (by decide)).mpr (by decide)⟩

set_option maxRecDepth 2000 in
/-- A forward is created for a path of 108 bytes, and its connection is relayed to the
socket of the first 107 of them.  For an abstract name of 108 bytes `connect` is called
with a length of 111. -/
theorem connections_of_long_paths :
    (Exists fun fw => Exists fun final =>
      (forwardAdd dottedQuad .initial (List.replicate 108 97) (ascii "127.0.0.1") 8080 false
          succeeding).1.find 1 = some fw ∧
        Machine.exec (step fw) initial
            [.check true, .poll .ready, .accept (.accepted 6), .address (List.replicate 108 97),
              .socket (some 7), .connect true, .malloc true, .count, .create true] = some final ∧
        final.fates = [.relayed (.pathname (List.replicate 107 97))] ∧
        ¬ ToItsSocket (List.replicate 108 97) final) ∧
      Exists fun fw => Exists fun final =>
        (forwardAdd dottedQuad .initial (64 :: List.replicate 108 97) (ascii "127.0.0.1") 8080 false
            succeeding).1.find 1 = some fw ∧
          Machine.exec (step fw) initial
              [.check true, .poll .ready, .accept (.accepted 6), .address (64 :: List.replicate 108 97),
                .socket (some 7), .connect false] = some final ∧
          final.lengths = [111] ∧ ¬ ToItsSocket (64 :: List.replicate 108 97) final := by
  refine ⟨⟨_, _, rfl, rfl, rfl, fun right => ?_⟩, ⟨_, _, rfl, rfl, rfl, fun right => ?_⟩⟩
  · rcases right.fates _ List.mem_cons_self with impossible | impossible
    · cases impossible
    · have names : List.replicate 107 (97 : UInt8) = List.replicate 108 97 :=
        UnixName.pathname.inj (Fate.relayed.inj impossible)
      exact absurd (congrArg List.length names) (by decide)
  · exact absurd (right.lengths 111 List.mem_cons_self) (by decide)

end Connections
end Forward
end AdbBridge
