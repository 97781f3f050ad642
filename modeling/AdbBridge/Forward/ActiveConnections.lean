import AdbBridge.Forward.Connections

namespace AdbBridge
namespace Forward

open Library Library.Numeral

/-!
# The count of active connections

`active_connections` should be the number of relays that were started, or are about to
be, and did not take themselves out of the count.  The increment, the thread creation
and the decrement are three steps of two threads, so the count is compared with the
positions of all threads after each step.

Each step changes both sides alike, with one exception: when `pthread_create` fails the
accept thread goes on, and neither the count nor the two descriptors are taken back.
-/

namespace Connections

/-! ## What the threads hold -/

/-- The descriptors the accept thread has to close or to hand over. -/
def AcceptPc.holds : AcceptPc -> List Nat
  | .addressing client | .socket client _ => [client]
  | .connecting client unix _ => [client, unix]
  | .closing first rest => first :: rest
  | .allocating job | .counting job | .creating job => [job.client, job.unix]
  | _ => []

/-- The relays the accept thread has counted and not started. -/
def AcceptPc.starts : AcceptPc -> Nat
  | .creating _ => 1
  | _ => 0

/-- The descriptors a relay thread has to close. -/
def Relay.holds (relay : Relay) : List Nat :=
  match relay.pc with
  | .relaying | .closingClient => [relay.job.client, relay.job.unix]
  | .closingUnix => [relay.job.unix]
  | _ => []

/-- The relay thread did not take itself out of the count. -/
def Relay.counts (relay : Relay) : Bool :=
  match relay.pc with
  | .relaying | .closingClient | .closingUnix | .discounting => true
  | .freeing | .ended => false

/-- The relays that were started, or are about to be, and are not through with their
cleanup. -/
def State.counted (state : State) : Nat := state.relays.countP Relay.counts + state.accept.starts

/-- A thread still has to close the descriptor. -/
def State.Holds (state : State) (fd : Nat) : Prop :=
  fd ∈ state.accept.holds ∨ Exists fun relay => relay ∈ state.relays ∧ fd ∈ relay.holds

/-- The count is that of the live relays, every descriptor that is open is held by a
thread, and the count is 0 when no connection is left. -/
structure CountsRelays (state : State) : Prop where
  counts : state.active = some state.counted
  held : forall fd, fd ∈ state.descriptors -> state.Holds fd
  returns : state.accept.holds = [] -> (forall relay, relay ∈ state.relays -> relay.pc = .ended) ->
    state.active = some 0

/-! ## The count -/

variable {fw : Tcpforward} {state next final : State} {event : Event} {events : List Event}
  {lost thread fd : Nat} {relay : Relay}

theorem counted_of_same (relays : next.relays = state.relays)
    (starts : next.accept.starts = state.accept.starts) : next.counted = state.counted := by
  rw [State.counted, State.counted, relays, starts]

/-- A relay thread that moves changes the count by itself only. -/
theorem counted_moved (found : state.relays[thread]? = some relay) (pc : RelayPc) :
    (state.moved thread relay pc).counted + (if relay.counts then 1 else 0) =
      state.counted + (if ({ relay with pc := pc } : Relay).counts then 1 else 0) := by
  rcases List.getElem?_eq_some_iff.mp found with ⟨inside, here⟩
  have changed := List.countP_set (p := Relay.counts) (a := { relay with pc := pc }) inside
  have member : relay ∈ state.relays := here ▸ List.getElem_mem inside
  have enough : (if relay.counts then 1 else 0) ≤ state.relays.countP Relay.counts := by
    split
    next counts => exact List.countP_pos_iff.mpr ⟨relay, member, counts⟩
    next => exact Nat.zero_le _
  rw [here] at changed
  change (state.relays.set thread { relay with pc := pc }).countP Relay.counts + state.accept.starts + _ = _
  rw [changed, State.counted]
  omega

/-- Every step of a forward that stays changes the count as it changes the number of
live relays, but for a `pthread_create` that fails. -/
theorem counts_step (stepped : step fw state event = some next) (stays : event ≠ .remove)
    (counts : state.active = some (state.counted + lost)) :
    next.active = some (next.counted + (lost + if event = .create false then 1 else 0)) := by
  have unchanged : forall other : State, other.active = state.active -> other.relays = state.relays ->
      other.accept.starts = state.accept.starts -> other.active = some (other.counted + lost) := by
    intro other active relays starts
    rw [counted_of_same relays starts, active, counts]
  have kept : forall pc : RelayPc, forall thread relay, state.relays[thread]? = some relay ->
      relay.counts = ({ relay with pc := pc } : Relay).counts ->
      state.active = some ((state.moved thread relay pc).counted + lost) := by
    intro pc thread relay found same
    have changed := counted_moved found pc
    rw [same] at changed
    rw [Nat.add_right_cancel changed, counts]
  cases transition_of_step stepped with
  | checked running pc at_ goes =>
      have starts : pc.starts = state.accept.starts := by
        rcases at_ with at_ | at_ <;> rcases goes with rfl | rfl | rfl <;> rw [at_] <;> rfl
      exact unchanged _ rfl rfl starts
  | polled result at_ =>
      have starts : result.next.starts = state.accept.starts := by
        rw [at_]
        cases result <;> rfl
      exact unchanged _ rfl rfl starts
  | interrupted at_ => exact unchanged _ rfl rfl (by rw [at_]; rfl)
  | acceptFailed at_ => exact unchanged _ rfl rfl (by rw [at_]; rfl)
  | accepted client at_ => exact unchanged _ rfl rfl (by rw [at_]; rfl)
  | addressed client read at_ => exact unchanged _ rfl rfl (by rw [at_]; rfl)
  | socketFailed client path at_ => exact unchanged _ rfl rfl (by rw [at_]; rfl)
  | socket client unix path at_ => exact unchanged _ rfl rfl (by rw [at_]; rfl)
  | connected client unix path peer at_ => exact unchanged _ rfl rfl (by rw [at_]; rfl)
  | connectFailed client unix path at_ => exact unchanged _ rfl rfl (by rw [at_]; rfl)
  | closedLast first at_ => exact unchanged _ rfl rfl (by rw [at_]; rfl)
  | closed first following rest at_ => exact unchanged _ rfl rfl (by rw [at_]; rfl)
  | allocated job at_ => exact unchanged _ rfl rfl (by rw [at_]; rfl)
  | mallocFailed job at_ => exact unchanged _ rfl rfl (by rw [at_]; rfl)
  | counted job at_ =>
      have one : state.counted = state.relays.countP Relay.counts := by
        rw [State.counted, at_]
        rfl
      change state.active.map (· + 1) = some (state.relays.countP Relay.counts + 1 + lost)
      rw [counts, one, Option.map_some, Nat.add_right_comm]
  | created job at_ =>
      have one : state.counted = state.relays.countP Relay.counts + 1 := by
        rw [State.counted, at_]
        rfl
      change state.active = some ((state.relays ++ [Relay.mk job .relaying]).countP Relay.counts + 0 + lost)
      rw [counts, one, List.countP_append]
      rfl
  | createFailed job at_ =>
      have one : state.counted = state.relays.countP Relay.counts + 1 := by
        rw [State.counted, at_]
        rfl
      change state.active = some (state.relays.countP Relay.counts + (lost + 1))
      rw [counts, one, Nat.add_assoc, Nat.add_comm 1 lost]
  | stopped at_ => exact unchanged _ rfl rfl (by rw [at_]; rfl)
  | left thread relay found at_ =>
      exact kept .closingClient thread relay found (by rw [Relay.counts, Relay.counts, at_])
  | clientClosed thread relay found at_ =>
      exact kept .closingUnix thread relay found (by rw [Relay.counts, Relay.counts, at_])
  | unixClosed thread relay found at_ =>
      exact kept .discounting thread relay found (by rw [Relay.counts, Relay.counts, at_])
  | discounted thread relay found at_ =>
      -- the relay itself is counted, so the guard of the decrement holds
      have changed := counted_moved found .freeing
      have live : relay.counts = true := by rw [Relay.counts, at_]
      have gone : ({ relay with pc := .freeing } : Relay).counts = false := rfl
      rw [live, gone, if_pos rfl, if_neg Bool.false_ne_true] at changed
      change state.active.map discount = some ((state.moved thread relay .freeing).counted + lost)
      rw [counts, Option.map_some, discount, if_pos (by omega)]
      exact congrArg some (by omega)
  | freedJob thread relay found at_ =>
      exact kept .ended thread relay found (by rw [Relay.counts, Relay.counts, at_])
  | removed => exact absurd rfl stays
  | shutDown => exact unchanged _ rfl rfl rfl

/-- After a run the count is that of the live relays and of the failed calls of
`pthread_create`. -/
theorem counts_exec (run : Machine.exec (step fw) initial events = some final)
    (stays : forall event, event ∈ events -> event ≠ .remove) :
    final.active = some (final.counted + events.count (.create false)) := by
  have start : initial.active = some (initial.counted + 0) := rfl
  suffices general : forall state lost, Machine.exec (step fw) state events = some final ->
      state.active = some (state.counted + lost) ->
      final.active = some (final.counted + (lost + events.count (.create false))) by
    have ends := general initial 0 run start
    rwa [Nat.zero_add] at ends
  clear run start
  induction events with
  | nil => exact fun state lost run counts => Option.some.inj run ▸ counts
  | cons event rest inductionHypothesis =>
      intro state lost run counts
      rcases Machine.exec_cons_eq_some_iff.mp run with ⟨next, taken, tail⟩
      have after := counts_step taken (stays event List.mem_cons_self) counts
      have ends := inductionHypothesis (fun other member => stays other (List.mem_cons_of_mem event member))
        next _ tail after
      rw [ends, List.count_cons, Nat.add_assoc lost, Nat.add_comm (List.count _ _)]
      simp only [beq_iff_eq]

/-! ## The descriptors -/

/-- A relay thread that moves releases only what its new position does not hold. -/
theorem holds_moved (found : state.relays[thread]? = some relay) {pc : RelayPc}
    (keeps : fd ∈ relay.holds -> fd ∈ ({ relay with pc := pc } : Relay).holds) (held : state.Holds fd) :
    (state.moved thread relay pc).Holds fd := by
  rcases held with accepting | ⟨other, member, holds⟩
  · exact Or.inl accepting
  · refine Or.inr ?_
    rcases List.mem_iff_getElem?.mp member with ⟨index, at_⟩
    by_cases same : index = thread
    · rw [same, found] at at_
      rw [← Option.some.inj at_] at holds
      have inside := (List.getElem?_eq_some_iff.mp found).1
      exact ⟨_, List.mem_set inside _, keeps holds⟩
    · refine ⟨other, List.mem_iff_getElem?.mpr ⟨index, ?_⟩, holds⟩
      exact (List.getElem?_set_ne (Ne.symm same)).trans at_

/-- A descriptor that stays open after a close is another one. -/
theorem mem_close {closed : Nat} :
    fd ∈ (state.close closed).descriptors ↔ fd ∈ state.descriptors ∧ fd ≠ closed := by
  rw [State.close, List.mem_filter, bne_iff_ne]

/-- Every descriptor that is open after a step is held by a thread, unless a call of
`pthread_create` failed. -/
theorem held_step (stepped : step fw state event = some next) (started : event ≠ .create false)
    (held : forall fd, fd ∈ state.descriptors -> state.Holds fd) :
    forall fd, fd ∈ next.descriptors -> next.Holds fd := by
  have passes : forall other : State, other.relays = state.relays -> other.descriptors = state.descriptors ->
      state.accept.holds ⊆ other.accept.holds -> forall fd, fd ∈ other.descriptors -> other.Holds fd := by
    intro other relays descriptors sub fd member
    rw [descriptors] at member
    rcases held fd member with accepting | ⟨relay, listed, holds⟩
    · exact Or.inl (sub accepting)
    · exact Or.inr ⟨relay, relays.symm ▸ listed, holds⟩
  have opens : forall (pc : AcceptPc) (opened : Nat), opened ∈ pc.holds -> state.accept.holds ⊆ pc.holds ->
      forall fd, fd ∈ opened :: state.descriptors ->
        ({ state with accept := pc, descriptors := opened :: state.descriptors } : State).Holds fd := by
    intro pc opened now sub fd member
    rcases List.mem_cons.mp member with isOpened | older
    · exact Or.inl (isOpened ▸ now)
    · rcases held fd older with accepting | relaying
      · exact Or.inl (sub accepting)
      · exact Or.inr relaying
  have moves : forall (thread : Nat) (relay : Relay) (pc : RelayPc), state.relays[thread]? = some relay ->
      ({ relay with pc := pc } : Relay).holds = relay.holds ->
      forall fd, fd ∈ state.descriptors -> (state.moved thread relay pc).Holds fd :=
    fun thread relay pc found same fd member => holds_moved found (fun holds => same ▸ holds) (held fd member)
  cases transition_of_step stepped with
  | checked running pc at_ goes =>
      refine passes _ rfl rfl ?_
      rcases at_ with at_ | at_ <;> rw [at_] <;> exact List.nil_subset _
  | polled result at_ => exact passes _ rfl rfl (by rw [at_]; exact List.nil_subset _)
  | interrupted at_ => exact passes _ rfl rfl (by rw [at_]; exact List.nil_subset _)
  | acceptFailed at_ => exact passes _ rfl rfl (by rw [at_]; exact List.nil_subset _)
  | accepted client at_ => exact opens _ _ List.mem_cons_self (by rw [at_]; exact List.nil_subset _)
  | addressed client read at_ => exact passes _ rfl rfl (by rw [at_]; exact List.Subset.refl _)
  | socketFailed client path at_ => exact passes _ rfl rfl (by rw [at_]; exact List.Subset.refl _)
  | socket client unix path at_ =>
      refine opens _ _ (List.mem_cons_of_mem _ List.mem_cons_self) ?_
      rw [at_]
      exact List.cons_subset_cons client (List.nil_subset _)
  | connected client unix path peer at_ => exact passes _ rfl rfl (by rw [at_]; exact List.Subset.refl _)
  | connectFailed client unix path at_ =>
      refine passes _ rfl rfl ?_
      rw [at_]
      exact fun fd member => (List.Perm.swap unix client []).mem_iff.mp member
  | closedLast first at_ =>
      intro fd member
      rcases mem_close.mp member with ⟨older, other⟩
      rcases held fd older with accepting | relaying
      · rw [at_] at accepting
        exact absurd (List.mem_singleton.mp accepting) other
      · exact Or.inr relaying
  | closed first following rest at_ =>
      intro fd member
      rcases mem_close.mp member with ⟨older, other⟩
      rcases held fd older with accepting | relaying
      · rw [at_] at accepting
        exact Or.inl (List.mem_of_ne_of_mem other accepting)
      · exact Or.inr relaying
  | allocated job at_ => exact passes _ rfl rfl (by rw [at_]; exact List.Subset.refl _)
  | mallocFailed job at_ => exact passes _ rfl rfl (by rw [at_]; exact List.Subset.refl _)
  | counted job at_ => exact passes _ rfl rfl (by rw [at_]; exact List.Subset.refl _)
  | created job at_ =>
      -- the new relay thread takes over what the accept thread held
      intro fd member
      rcases held fd member with accepting | ⟨relay, listed, holds⟩
      · rw [at_] at accepting
        exact Or.inr ⟨⟨job, .relaying⟩, List.mem_append_right _ List.mem_cons_self, accepting⟩
      · exact Or.inr ⟨relay, List.mem_append_left _ listed, holds⟩
  | createFailed => exact absurd rfl started
  | stopped at_ => exact passes _ rfl rfl (by rw [at_]; exact List.nil_subset _)
  | left thread relay found at_ =>
      exact moves thread relay .closingClient found (by rw [Relay.holds, Relay.holds, at_])
  | clientClosed thread relay found at_ =>
      intro fd member
      rcases mem_close.mp member with ⟨older, other⟩
      refine holds_moved found (fun holds => ?_) (held fd older)
      rw [Relay.holds, at_] at holds
      exact List.mem_of_ne_of_mem other holds
  | unixClosed thread relay found at_ =>
      intro fd member
      rcases mem_close.mp member with ⟨older, other⟩
      refine holds_moved found (fun holds => ?_) (held fd older)
      rw [Relay.holds, at_] at holds
      exact absurd (List.mem_singleton.mp holds) other
  | discounted thread relay found at_ =>
      exact moves thread relay .freeing found (by rw [Relay.holds, Relay.holds, at_])
  | freedJob thread relay found at_ =>
      exact moves thread relay .ended found (by rw [Relay.holds, Relay.holds, at_])
  | removed => exact passes _ rfl rfl (List.Subset.refl _)
  | shutDown => exact passes _ rfl rfl (List.Subset.refl _)

/-! ## The count along a run -/

/-- With no connection left nothing is counted. -/
theorem counted_of_quiet (quiet : state.accept.holds = [])
    (ended : forall relay, relay ∈ state.relays -> relay.pc = .ended) : state.counted = 0 := by
  have none : state.relays.countP Relay.counts = 0 := by
    refine List.countP_eq_zero.mpr (fun relay member => ?_)
    rw [Relay.counts, ended relay member]
    exact Bool.false_ne_true
  have idle : state.accept.starts = 0 := by
    cases at_ : state.accept with
    | creating job =>
        rw [at_] at quiet
        cases quiet
    | _ => rfl
  rw [State.counted, none, idle]

/-- Whether the count stays right is decided by each `pthread_create`. -/
theorem countsRelays_step_iff (stepped : step fw state event = some next) (right : CountsRelays state) :
    CountsRelays next ↔ event ≠ .remove ∧ event ≠ .create false := by
  by_cases removes : event = .remove
  · refine iff_of_false (fun after => ?_) (fun both => both.1 removes)
    rw [removes] at stepped
    cases transition_of_step stepped with
    | removed => exact absurd after.counts (Option.some_ne_none _).symm
  · have start : state.active = some (state.counted + 0) := right.counts
    have counts := counts_step stepped removes start
    constructor
    · intro after
      refine ⟨removes, fun failed => ?_⟩
      rw [if_pos failed, after.counts] at counts
      have impossible := Option.some.inj counts
      omega
    · rintro ⟨_, started⟩
      rw [if_neg started] at counts
      exact ⟨counts, held_step stepped started right.held,
        fun quiet ended => counts.trans (congrArg some (counted_of_quiet quiet ended))⟩

theorem countsRelays_initial : CountsRelays initial :=
  ⟨rfl, fun _ member => absurd member List.not_mem_nil, fun _ _ => rfl⟩

/-- In every run of a forward that is not removed, with any results of its calls and its
threads taking their steps in any order, the count exceeds the number of live relays by
the number of `pthread_create` calls that failed.  The count is right, no descriptor is
left behind and the count returns to 0 throughout the run if and only if none failed. -/
theorem activeConnections_iff (run : Machine.exec (step fw) initial events = some final)
    (stays : forall event, event ∈ events -> event ≠ .remove) :
    final.active = some (final.counted + events.count (.create false)) ∧
      (Machine.Throughout (step fw) CountsRelays initial events ↔
        forall event, event ∈ events -> event ≠ .create false) := by
  refine ⟨counts_exec run stays, ?_⟩
  rw [Machine.throughout_iff_allSteps (fun _ _ _ => countsRelays_step_iff) run countsRelays_initial,
    Machine.allSteps_iff_forall run]
  exact ⟨fun all event member => (all event member).2,
    fun started event member => ⟨stays event member, started event member⟩⟩

/-! ## Two runs -/

/-- A forward to `/tmp/s`. -/
def sampleForward : Tcpforward := newForward 1 (ascii "/tmp/s") (ascii "127.0.0.1") 8080 false 5

/-- The steps by which the accept thread takes a connection and counts it. -/
def takes (client unix : Nat) : List Event :=
  [.check true, .poll .ready, .accept (.accepted client), .address (ascii "/tmp/s"), .socket (some unix),
    .connect true, .malloc true, .count]

/-- Two connections overlap, the second one ends first, and a third one is closed for want
of memory. -/
def overlapping : List Event :=
  List.flatten
    [takes 4 5, [.create true], takes 6 7, [.create true, .relay 1, .relay 1, .relay 1, .relay 1],
      [.check true, .poll .ready, .accept (.accepted 6), .address (ascii "/tmp/s"), .socket (some 7)],
      [.connect true, .malloc false, .relay 0, .close, .relay 0, .close, .relay 0, .relay 0,
        .relay 0, .relay 1]]

theorem activeConnections_iff_overlapping :
    (Machine.exec (step sampleForward) initial overlapping).isSome = true ∧
      Machine.Throughout (step sampleForward) CountsRelays initial overlapping := by
  have runs : (Machine.exec (step sampleForward) initial overlapping).isSome = true := by decide
  rcases Option.isSome_iff_exists.mp runs with ⟨final, run⟩
  exact ⟨runs, (activeConnections_iff run (by decide)).2.mpr (by decide)⟩

/-- A relay thread that could not be started stays counted, and its descriptors stay open. -/
theorem uncounted_after_failed_create :
    Exists fun final =>
      Machine.exec (step sampleForward) initial (takes 4 5 ++ [.create false]) = some final ∧
        final.relays = [] ∧ final.accept.holds = [] ∧ final.active = some 1 ∧ final.descriptors = [5, 4] ∧
        ¬ CountsRelays final := by
  refine ⟨_, rfl, rfl, rfl, rfl, rfl, fun right => ?_⟩
  exact absurd right.counts (by decide)

end Connections
end Forward
end AdbBridge
