import AdbBridge.Library.Machine
import AdbBridge.Library.Numeral

namespace AdbBridge
namespace Forward

open Library

/-!
# `relay_thread`: two sockets joined

A relay copies what it reads from one socket to the other, in both directions.  A round
is `poll`, then for each descriptor with `POLLIN` or `POLLHUP` one `read` of at most
64 KiB and as many `write`s as it takes to pass that on.  A read that returns nothing, a
write that fails and, at the end of the round, any hang-up or error bit end the relay,
which then closes both descriptors.

Each socket has a peer behind it: the bytes it is still going to send, those it has sent
and the relay has not read, and those it was sent.  A peer that has sent everything may
end its stream, and go on receiving.
-/

namespace Relay

/-! ## The peers -/

def relayBuf : Nat := 65536

/-- The two sockets of a relay: `fd_a`, the accepted client, and `fd_b`, the Unix socket. -/
inductive Side where
  | a
  | b
deriving DecidableEq, Repr

/-- The side that receives what this one sends. -/
def Side.other : Side -> Side
  | .a => .b
  | .b => .a

/-- A peer: `toSend` it has not sent yet, `queued` waits in the socket, `taken` the relay
has read and `received` the relay has written to it. -/
structure Peer where
  toSend : List UInt8
  queued : List UInt8
  taken : List UInt8
  received : List UInt8
  ended : Bool
deriving DecidableEq, Repr

namespace Peer

/-- A peer that is going to send these bytes. -/
def fresh (stream : List UInt8) : Peer := ⟨stream, [], [], [], false⟩

/-- `read` does not block: bytes wait, or the stream has ended. -/
def Readable (peer : Peer) : Prop := peer.queued ≠ [] ∨ peer.ended = true

instance (peer : Peer) : Decidable peer.Readable := inferInstanceAs (Decidable (_ ∨ _))

/-- The peer sends some bytes. -/
def send (peer : Peer) (count : Nat) : Peer :=
  { peer with toSend := peer.toSend.drop count, queued := peer.queued ++ peer.toSend.take count }

/-- The relay reads some bytes. -/
def take (peer : Peer) (count : Nat) : Peer :=
  { peer with queued := peer.queued.drop count, taken := peer.taken ++ peer.queued.take count }

/-- The relay writes some bytes. -/
def receive (peer : Peer) (bytes : List UInt8) : Peer :=
  { peer with received := peer.received ++ bytes }

/-- What has not been read from the peer. -/
def rest (peer : Peer) : List UInt8 := peer.queued ++ peer.toSend

theorem rest_send (peer : Peer) (count : Nat) : (peer.send count).rest = peer.rest := by
  unfold rest send
  rw [List.append_assoc, List.take_append_drop]

theorem take_append_rest (peer : Peer) (count : Nat) :
    peer.queued.take count ++ (peer.take count).rest = peer.rest := by
  unfold rest take
  rw [← List.append_assoc, List.take_append_drop]

end Peer

/-! ## The relay -/

/-- The bits `poll` reports for a descriptor; `error` stands for `POLLERR` and `POLLNVAL`. -/
structure Bits where
  pollIn : Bool
  pollHup : Bool
  error : Bool
deriving DecidableEq, Repr

/-- Bits that make the relay read. -/
def Bits.reads (bits : Bits) : Bool := bits.pollIn || bits.pollHup

/-- Bits that end the relay after the round. -/
def Bits.ends (bits : Bits) : Bool := bits.error || bits.pollHup

/-- The bits `poll` can report for a socket: there is something to read, and a hang-up
comes after the end of the stream. -/
def Bits.Possible (bits : Bits) (peer : Peer) : Prop :=
  (bits.pollIn = true -> peer.Readable) ∧ (bits.pollHup = true -> peer.ended = true)

instance (bits : Bits) (peer : Peer) : Decidable (bits.Possible peer) :=
  inferInstanceAs (Decidable (_ ∧ _))

/-- `revents` of both descriptors. -/
structure Revents where
  a : Bits
  b : Bits
deriving DecidableEq, Repr

/-- Where the relay is.  `writing` still has the rest of what it read from the source to
write to the other side. -/
inductive Pc where
  | poll
  | reading (source : Side) (revents : Revents)
  | writing (source : Side) (revents : Revents) (rest : List UInt8)
  | cleanup
  | closed
deriving DecidableEq, Repr

/-- The relay and its two peers. -/
structure State where
  pc : Pc
  a : Peer
  b : Peer
deriving DecidableEq, Repr

/-- The relay of two peers that are going to send the two streams. -/
def start (streams : Side -> List UInt8) : State :=
  ⟨.poll, .fresh (streams .a), .fresh (streams .b)⟩

namespace State

/-- The peer on a side. -/
def peer (state : State) : Side -> Peer
  | .a => state.a
  | .b => state.b

/-- The peer on a side changes. -/
def setPeer (state : State) (side : Side) (peer : Peer) : State :=
  match side with
  | .a => { state with a := peer }
  | .b => { state with b := peer }

@[simp] theorem pc_setPeer (state : State) (side : Side) (peer : Peer) :
    (state.setPeer side peer).pc = state.pc := by
  cases side <;> rfl

@[simp] theorem peer_setPeer (state : State) (side : Side) (peer : Peer) :
    (state.setPeer side peer).peer side = peer := by
  cases side <;> rfl

theorem peer_setPeer_of_ne (state : State) {side third : Side} (peer : Peer)
    (different : third ≠ side) : (state.setPeer side peer).peer third = state.peer third := by
  cases side <;> cases third <;> first | rfl | exact absurd rfl different

end State

/-- The outcomes of `poll`; a timeout reports no bits. -/
inductive PollResult where
  | ready (revents : Revents)
  | interrupted
  | failed
deriving DecidableEq, Repr

/-- A step of a peer, or the relay's next call with its result. -/
inductive Event where
  | send (side : Side) (count : Nat)
  | finish (side : Side)
  | poll (result : PollResult)
  | read (count : Nat)
  | readFails
  | write (count : Nat)
  | writeFails
  | close
deriving DecidableEq, Repr

/-- The end of a round. -/
def afterReads (revents : Revents) : Pc :=
  if revents.a.ends || revents.b.ends then .cleanup else .poll

/-- The round from the second descriptor on. -/
def afterFirst (revents : Revents) : Pc :=
  if revents.b.reads then .reading .b revents else afterReads revents

/-- The round after `poll`. -/
def afterPoll (revents : Revents) : Pc :=
  if revents.a.reads then .reading .a revents else afterFirst revents

/-- The round after the bytes of one side were passed on. -/
def afterSide : Side -> Revents -> Pc
  | .a, revents => afterFirst revents
  | .b, revents => afterReads revents

/-- One step of a peer or of the relay. -/
def step (state : State) : Event -> Option State
  | .send side count =>
      if 0 < count ∧ count ≤ (state.peer side).toSend.length then
        some (state.setPeer side ((state.peer side).send count))
      else none
  | .finish side =>
      if (state.peer side).toSend = [] then
        some (state.setPeer side { state.peer side with ended := true })
      else none
  | .poll result =>
      if state.pc = .poll then
        match result with
        | .interrupted => some state
        | .failed => some { state with pc := .cleanup }
        | .ready revents =>
            if revents.a.Possible state.a ∧ revents.b.Possible state.b then
              some { state with pc := afterPoll revents }
            else none
      else none
  | .read count =>
      match state.pc with
      | .reading source revents =>
          if count = 0 then
            if (state.peer source).queued = [] ∧ (state.peer source).ended = true then
              some { state with pc := .cleanup }
            else none
          else if count ≤ relayBuf ∧ count ≤ (state.peer source).queued.length then
            some { state.setPeer source ((state.peer source).take count) with
              pc := .writing source revents ((state.peer source).queued.take count) }
          else none
      | _ => none
  | .readFails =>
      match state.pc with
      | .reading _ _ => some { state with pc := .cleanup }
      | _ => none
  | .write count =>
      match state.pc with
      | .writing source revents rest =>
          if 0 < count ∧ count ≤ rest.length then
            some { state.setPeer source.other ((state.peer source.other).receive (rest.take count)) with
              pc := if count < rest.length then .writing source revents (rest.drop count)
                else afterSide source revents }
          else none
      | _ => none
  | .writeFails =>
      match state.pc with
      | .writing _ _ _ => some { state with pc := .cleanup }
      | _ => none
  | .close => if state.pc = .cleanup then some { state with pc := .closed } else none

/-! ## The list of transitions -/

/-- What one event can do to a state. -/
inductive Transition (state : State) : Event -> State -> Prop where
  | sent (side : Side) (count : Nat) :
      Transition state (.send side count) (state.setPeer side ((state.peer side).send count))
  | finished (side : Side) :
      Transition state (.finish side) (state.setPeer side { state.peer side with ended := true })
  | interrupted (polling : state.pc = .poll) : Transition state (.poll .interrupted) state
  | pollFailed (polling : state.pc = .poll) :
      Transition state (.poll .failed) { state with pc := .cleanup }
  | polled (revents : Revents) (polling : state.pc = .poll) :
      Transition state (.poll (.ready revents)) { state with pc := afterPoll revents }
  | ended (source : Side) (revents : Revents) (reading : state.pc = .reading source revents) :
      Transition state (.read 0) { state with pc := .cleanup }
  | readSome (source : Side) (revents : Revents) (count : Nat)
      (reading : state.pc = .reading source revents) :
      Transition state (.read count)
        { state.setPeer source ((state.peer source).take count) with
          pc := .writing source revents ((state.peer source).queued.take count) }
  | readFailed (source : Side) (revents : Revents) (reading : state.pc = .reading source revents) :
      Transition state .readFails { state with pc := .cleanup }
  | wroteSome (source : Side) (revents : Revents) (rest : List UInt8) (count : Nat)
      (writing : state.pc = .writing source revents rest) (some : count < rest.length) :
      Transition state (.write count)
        { state.setPeer source.other ((state.peer source.other).receive (rest.take count)) with
          pc := .writing source revents (rest.drop count) }
  | wroteAll (source : Side) (revents : Revents) (rest : List UInt8) (count : Nat)
      (writing : state.pc = .writing source revents rest) (all : rest.length ≤ count) :
      Transition state (.write count)
        { state.setPeer source.other ((state.peer source.other).receive rest) with
          pc := afterSide source revents }
  | writeFailed (source : Side) (revents : Revents) (rest : List UInt8)
      (writing : state.pc = .writing source revents rest) :
      Transition state .writeFails { state with pc := .cleanup }
  | closes (leaving : state.pc = .cleanup) : Transition state .close { state with pc := .closed }

variable {state next : State} {event : Event} {streams : Side -> List UInt8}

/-- Every step is one of the listed transitions. -/
theorem transition_of_step (taken : step state event = some next) : Transition state event next := by
  cases event with
  | send side count =>
      rcases Option.ite_none_right_eq_some.mp taken with ⟨_, same⟩
      exact Option.some.inj same ▸ .sent side count
  | finish side =>
      rcases Option.ite_none_right_eq_some.mp taken with ⟨_, same⟩
      exact Option.some.inj same ▸ .finished side
  | poll result =>
      rcases Option.ite_none_right_eq_some.mp taken with ⟨polling, taken⟩
      cases result with
      | interrupted => exact Option.some.inj taken ▸ .interrupted polling
      | failed => exact Option.some.inj taken ▸ .pollFailed polling
      | ready revents =>
          rcases Option.ite_none_right_eq_some.mp taken with ⟨_, same⟩
          exact Option.some.inj same ▸ .polled revents polling
  | read count =>
      cases pc : state.pc with
      | reading source revents =>
          simp only [step, pc] at taken
          split_ifs at taken with zero atEnd bounds
          · rw [zero]
            exact Option.some.inj taken ▸ .ended source revents pc
          · exact Option.some.inj taken ▸ .readSome source revents count pc
      | _ => simp [step, pc] at taken
  | readFails =>
      cases pc : state.pc with
      | reading source revents =>
          simp only [step, pc] at taken
          exact Option.some.inj taken ▸ .readFailed source revents pc
      | _ => simp [step, pc] at taken
  | write count =>
      cases pc : state.pc with
      | writing source revents rest =>
          simp only [step, pc, Option.ite_none_right_eq_some] at taken
          rcases taken with ⟨bounds, same⟩
          by_cases some : count < rest.length
          · rw [if_pos some] at same
            exact Option.some.inj same ▸ .wroteSome source revents rest count pc some
          · have all : rest.length ≤ count := Nat.not_lt.mp some
            rw [if_neg some, List.take_of_length_le all] at same
            exact Option.some.inj same ▸ .wroteAll source revents rest count pc all
      | _ => simp [step, pc] at taken
  | writeFails =>
      cases pc : state.pc with
      | writing source revents rest =>
          simp only [step, pc] at taken
          exact Option.some.inj taken ▸ .writeFailed source revents rest pc
      | _ => simp [step, pc] at taken
  | close =>
      rcases Option.ite_none_right_eq_some.mp taken with ⟨leaving, same⟩
      exact Option.some.inj same ▸ .closes leaving

/-! ## Where the bytes are -/

/-- What was read from a side and has not been written to the other one. -/
def inFlight (side : Side) : Pc -> List UInt8
  | .writing source _ rest => if source = side then rest else []
  | _ => []

/-- The bytes of each stream are received, in flight or not read yet, in this order. -/
def Conserves (streams : Side -> List UInt8) (state : State) : Prop :=
  forall side, (state.peer side.other).received ++ inFlight side state.pc ++ (state.peer side).rest =
    streams side

/-- The relay has left its loop. -/
def Pc.left : Pc -> Bool
  | .cleanup | .closed => true
  | _ => false

theorem inFlight_afterReads (side : Side) (revents : Revents) :
    inFlight side (afterReads revents) = [] := by
  unfold afterReads
  split <;> rfl

theorem inFlight_afterFirst (side : Side) (revents : Revents) :
    inFlight side (afterFirst revents) = [] := by
  unfold afterFirst
  split
  · rfl
  · exact inFlight_afterReads side revents

theorem inFlight_afterPoll (side : Side) (revents : Revents) :
    inFlight side (afterPoll revents) = [] := by
  unfold afterPoll
  split
  · rfl
  · exact inFlight_afterFirst side revents

theorem inFlight_afterSide (side source : Side) (revents : Revents) :
    inFlight side (afterSide source revents) = [] := by
  cases source with
  | a => exact inFlight_afterFirst side revents
  | b => exact inFlight_afterReads side revents

theorem other_ne (side : Side) : side.other ≠ side := by
  cases side <;> exact nofun

theorem eq_other_of_ne {first second : Side} (different : first ≠ second) :
    first = second.other := by
  cases first <;> cases second <;> first | rfl | exact absurd rfl different

/-- A peer that changes its mind about neither what it received nor what it sends. -/
theorem Conserves.setPeer {side : Side} {peer : Peer} (conserves : Conserves streams state)
    (received : peer.received = (state.peer side).received)
    (rest : peer.rest = (state.peer side).rest) : Conserves streams (state.setPeer side peer) := by
  intro source
  rw [← conserves source, State.pc_setPeer]
  by_cases same : source = side
  · subst same
    rw [State.peer_setPeer, State.peer_setPeer_of_ne _ _ (other_ne source), rest]
  · have receiver : source.other = side := by
      rw [eq_other_of_ne same]
      cases side <;> rfl
    rw [receiver, State.peer_setPeer, State.peer_setPeer_of_ne _ _ same, received]

theorem Conserves.setPc {pc : Pc} (conserves : Conserves streams state)
    (same : forall side, inFlight side pc = inFlight side state.pc) :
    Conserves streams { state with pc := pc } := by
  intro side
  have held := conserves side
  rw [← same side] at held
  exact held

/-- A write moves bytes in flight to their receiver. -/
theorem Conserves.write {source : Side} {revents : Revents} {rest bytes left : List UInt8} {pc : Pc}
    (conserves : Conserves streams state) (writing : state.pc = .writing source revents rest)
    (split : bytes ++ left = rest)
    (flight : forall side, inFlight side pc = if source = side then left else []) :
    Conserves streams
      { state.setPeer source.other ((state.peer source.other).receive bytes) with pc := pc } := by
  intro side
  have held := conserves side
  rw [writing] at held
  change ((state.setPeer source.other _).peer side.other).received ++ inFlight side pc ++
    ((state.setPeer source.other _).peer side).rest = _
  rw [flight]
  by_cases same : source = side
  · subst same
    have flying : inFlight source (.writing source revents rest) = rest := if_pos rfl
    rw [flying, ← split] at held
    rw [if_pos rfl, State.peer_setPeer, State.peer_setPeer_of_ne _ _ (other_ne source).symm, ← held,
      Peer.receive, List.append_assoc _ bytes left]
  · have receiver : side = source.other := eq_other_of_ne (fun equal => same equal.symm)
    have sender : side.other ≠ source.other := receiver ▸ other_ne side
    have flying : inFlight side (.writing source revents rest) = [] := if_neg same
    rw [flying] at held
    rw [if_neg same, State.peer_setPeer_of_ne _ _ sender, ← held, ← receiver, State.peer_setPeer]
    rfl

/-- As long as no write fails, every byte has its place. -/
theorem conserves_transition (transition : Transition state event next) (writes : event ≠ .writeFails)
    (conserves : Conserves streams state) : Conserves streams next := by
  cases transition with
  | sent side count => exact conserves.setPeer rfl (Peer.rest_send _ count)
  | finished side => exact conserves.setPeer rfl rfl
  | interrupted polling => exact conserves
  | pollFailed polling => exact conserves.setPc (fun side => by rw [polling]; rfl)
  | polled revents polling =>
      refine conserves.setPc (fun side => ?_)
      rw [polling, inFlight_afterPoll]
      rfl
  | ended source revents reading => exact conserves.setPc (fun side => by rw [reading]; rfl)
  | readSome source revents count reading =>
      intro side
      have held := conserves side
      rw [reading] at held
      have nothing : inFlight side (.reading source revents) = [] := rfl
      rw [nothing, List.append_nil] at held
      rw [← held]
      by_cases same : source = side
      · subst same
        change ((state.setPeer source _).peer source.other).received ++
          (if source = source then _ else []) ++ ((state.setPeer source _).peer source).rest = _
        rw [State.peer_setPeer, State.peer_setPeer_of_ne _ _ (other_ne source), if_pos rfl,
          List.append_assoc, Peer.take_append_rest]
      · have receiver : source = side.other := eq_other_of_ne same
        change ((state.setPeer source _).peer side.other).received ++
          (if source = side then _ else []) ++ ((state.setPeer source _).peer side).rest = _
        rw [if_neg same, List.append_nil, ← receiver, State.peer_setPeer,
          State.peer_setPeer_of_ne _ _ (fun equal => same equal.symm)]
        rfl
  | readFailed source revents reading => exact conserves.setPc (fun side => by rw [reading]; rfl)
  | wroteSome source revents rest count writing some =>
      exact conserves.write writing (List.take_append_drop count rest) (fun _ => rfl)
  | wroteAll source revents rest count writing all =>
      refine conserves.write writing (List.append_nil rest) (fun side => ?_)
      rw [inFlight_afterSide]
      exact (ite_self _).symm
  | writeFailed source revents rest writing => exact absurd rfl writes
  | closes leaving => exact conserves.setPc (fun side => by rw [leaving]; rfl)

theorem conserves_step (taken : step state event = some next) (writes : event ≠ .writeFails)
    (conserves : Conserves streams state) : Conserves streams next :=
  conserves_transition (transition_of_step taken) writes conserves

theorem conserves_start (streams : Side -> List UInt8) : Conserves streams (start streams) := by
  intro side
  cases side <;> rfl

/-! ## When nothing is lost -/

/-- Each peer has received everything the other one sends. -/
def LosesNothing (streams : Side -> List UInt8) (state : State) : Prop :=
  forall side, (state.peer side.other).received = streams side

/-- Neither peer has anything left, in the socket or still to be sent. -/
def Exhausted (state : State) : Prop := forall side, (state.peer side).rest = []

/-- The condition on a step: it does not leave the loop as long as a peer has something
left. -/
def LeavesExhausted (state : State) (event : Event) : Prop :=
  state.pc.left = false ->
    forall next, step state event = some next -> next.pc.left = true -> Exhausted state

theorem left_iff_exhausted (conserves : Conserves streams state) (left : state.pc.left = true) :
    LosesNothing streams state ↔ Exhausted state := by
  refine forall_congr' (fun side => ?_)
  have held := conserves side
  have nothing : inFlight side state.pc = [] := by
    cases pc : state.pc with
    | cleanup | closed => rfl
    | _ =>
        rw [pc] at left
        exact absurd left nofun
  rw [nothing, List.append_nil] at held
  constructor
  · intro received
    rw [received] at held
    exact List.append_right_eq_self.mp held
  · intro none
    rw [none, List.append_nil] at held
    exact held

theorem exhausted_setPeer {side : Side} {peer : Peer} (same : peer.rest = (state.peer side).rest) :
    Exhausted (state.setPeer side peer) ↔ Exhausted state := by
  refine forall_congr' (fun other => ?_)
  by_cases isSide : other = side
  · subst isSide
    rw [State.peer_setPeer, same]
  · rw [State.peer_setPeer_of_ne _ _ isSide]

/-- A step out of the loop reads nothing, and neither does one behind it. -/
theorem exhausted_step (taken : step state event = some next) (left : next.pc.left = true) :
    Exhausted next ↔ Exhausted state := by
  cases transition_of_step taken with
  | sent side count => exact exhausted_setPeer (Peer.rest_send _ count)
  | finished side => exact exhausted_setPeer rfl
  | readSome source revents count reading => exact absurd left nofun
  | wroteSome source revents rest count writing some => exact absurd left nofun
  | wroteAll source revents rest count writing all => exact exhausted_setPeer rfl
  | interrupted | pollFailed | polled | ended | readFailed | writeFailed | closes => exact Iff.rfl

/-- The loop is left for good. -/
theorem left_transition (transition : Transition state event next) (left : state.pc.left = true) :
    next.pc.left = true := by
  cases transition with
  | sent side count => exact (State.pc_setPeer state side _).symm ▸ left
  | finished side => exact (State.pc_setPeer state side _).symm ▸ left
  | closes leaving => rfl
  | interrupted polling => exact left
  | pollFailed polling => rfl
  | polled revents polling => exact absurd (polling ▸ left) nofun
  | ended source revents reading => rfl
  | readSome source revents count reading => exact absurd (reading ▸ left) nofun
  | readFailed source revents reading => rfl
  | wroteSome source revents rest count writing some => exact absurd (writing ▸ left) nofun
  | wroteAll source revents rest count writing all => exact absurd (writing ▸ left) nofun
  | writeFailed source revents rest writing => rfl

variable {final : State} {events : List Event}

/-- The step that leaves the loop moves no byte, so its condition can be read off the
final state. -/
theorem leavesExhausted_iff (running : ¬ state.pc.left = true)
    (run : Machine.exec step state events = some final) (left : final.pc.left = true) :
    Machine.AllSteps step LeavesExhausted state events ↔ Exhausted final := by
  have early : forall state event next, True -> ¬ state.pc.left = true ->
      step state event = some next -> ¬ next.pc.left = true -> LeavesExhausted state event := by
    intro state event next _ _ taken stays _ other stepped left
    have same := Option.some.inj (taken.symm.trans stepped)
    exact absurd (same ▸ left) stays
  have crossing : forall state event next, True -> ¬ state.pc.left = true ->
      step state event = some next -> next.pc.left = true ->
        (LeavesExhausted state event ↔ Exhausted next) := by
    intro state event next _ outside taken left
    rw [exhausted_step taken left]
    constructor
    · intro leaves
      exact leaves (Bool.eq_false_iff.mpr outside) next taken left
    · intro exhausted _ _ _ _
      exact exhausted
  have late : forall state event next, True -> state.pc.left = true ->
      step state event = some next ->
        LeavesExhausted state event ∧ next.pc.left = true ∧ (Exhausted next ↔ Exhausted state) := by
    intro state event next _ left taken
    have stays := left_transition (transition_of_step taken) left
    exact ⟨fun running => absurd (left.symm.trans running) nofun, stays, exhausted_step taken stays⟩
  exact Machine.allSteps_iff_of_crossing (fun _ _ _ _ holds => holds) early crossing late trivial
    running run left

/-- If no write fails, a relay that closed its descriptors has passed on everything its
peers sent, or were going to, if and only if it left the loop when they had nothing left. -/
theorem relay_loses_nothing_iff (run : Machine.exec step (start streams) events = some final)
    (closed : final.pc = .closed) (writes : forall event, event ∈ events -> event ≠ .writeFails) :
    LosesNothing streams final ↔ Machine.AllSteps step LeavesExhausted (start streams) events := by
  have left : final.pc.left = true := by
    rw [closed]
    rfl
  have conserves : Conserves streams final :=
    Machine.invariant_exec_of_allSteps (fun _ _ _ fine taken => conserves_step taken fine) run
      (Machine.allSteps_of_forall _ writes) (conserves_start streams)
  have running : ¬ (start streams).pc.left = true := Bool.false_ne_true
  rw [left_iff_exhausted conserves left]
  exact (leavesExhausted_iff running run left).symm

/-- A client that sends a request and goes, and a server that has nothing to say. -/
def oneWay : Side -> List UInt8
  | .a => [71]
  | .b => []

/-- Bits of a descriptor with something to read, and of one without. -/
def readable : Bits := ⟨true, false, false⟩

def quiet : Bits := ⟨false, false, false⟩

/-- The client ends its stream behind the request, and the relay passes on the request first. -/
def oneWayEvents : List Event :=
  [.send .a 1, .finish .a, .poll (.ready ⟨readable, quiet⟩), .read 1, .write 1,
    .poll (.ready ⟨readable, quiet⟩), .read 0, .close]

theorem relay_loses_nothing_iff_oneWay :
    Machine.AllSteps step LeavesExhausted (start oneWay) oneWayEvents := by
  apply (relay_loses_nothing_iff (Option.some_get (by decide)).symm (by decide) (by decide)).mp
  intro side
  cases side <;> decide

/-- A client that asks and half-closes, and a server that answers. -/
def askAndAnswer : Side -> List UInt8
  | .a => [71]
  | .b => [79, 75]

/-- The request is passed on and the answer has arrived, when the relay finds the end of
the client's stream and leaves. -/
theorem relay_drops_answer_after_half_close : Exists fun final =>
    Machine.exec step (start askAndAnswer)
      [.send .a 1, .poll (.ready ⟨readable, quiet⟩), .read 1, .write 1, .finish .a,
        .send .b 2, .poll (.ready ⟨readable, readable⟩), .read 0, .close] = some final ∧
      final.pc = .closed ∧ final.b.queued = [79, 75] ∧ ¬ LosesNothing askAndAnswer final := by
  refine ⟨⟨.closed, ⟨[], [], [71], [], true⟩, ⟨[], [79, 75], [], [71], false⟩⟩, by decide, rfl, rfl, ?_⟩
  intro complete
  have lost : ([] : List UInt8) = [79, 75] := complete .b
  exact absurd lost nofun

end Relay
end Forward
end AdbBridge
