import AdbBridge.Forward.Relay

namespace AdbBridge
namespace Forward

open Library

/-!
# The two streams of a relay

What the relay has written to one socket is the beginning of what it has read from the
other one: both directions share one buffer, but the next `read` comes only after the last
byte of the previous one was written.  A write that fails ends the relay, so that what the
buffer still held is a gap at the end and nowhere else.

Nothing is assumed here about what the calls answer.  `poll` may report any bits, also
for a socket that has nothing to read, and a `read` may report the end of a stream at
any time.
-/

namespace Relay

/-- One step of a peer or of the relay, whatever `poll` and `read` answer. -/
def stepAnyAnswer (state : State) : Event -> Option State
  | .poll (.ready revents) => if state.pc = .poll then some { state with pc := afterPoll revents } else none
  | .read 0 =>
      match state.pc with
      | .reading _ _ => some { state with pc := .cleanup }
      | _ => none
  | event => step state event

variable {state next : State} {event : Event} {streams : Side -> List UInt8}

/-- These steps are transitions of the relay, too. -/
theorem transition_of_stepAnyAnswer (taken : stepAnyAnswer state event = some next) :
    Transition state event next := by
  unfold stepAnyAnswer at taken
  split at taken
  · next revents =>
      rcases Option.ite_none_right_eq_some.mp taken with ⟨polling, same⟩
      exact Option.some.inj same ▸ .polled revents polling
  · split at taken
    · next source revents reading => exact Option.some.inj taken ▸ .ended source revents reading
    · cases taken
  · exact transition_of_step taken

/-! ## The invariant -/

/-- What was read from a side comes first in its stream, and what was not read yet behind it. -/
def Accounts (streams : Side -> List UInt8) (state : State) : Prop :=
  forall side, (state.peer side).taken ++ (state.peer side).rest = streams side

/-- Each socket was given the beginning of what was read from the other one. -/
def GivesBeginnings (state : State) : Prop :=
  forall side, (state.peer side.other).received <+: (state.peer side).taken

/-- Inside the loop every byte that was read is written or in the buffer; behind it the end
may be missing. -/
structure Delivers (streams : Side -> List UInt8) (state : State) : Prop where
  accounts : Accounts streams state
  conserves : state.pc.left = false -> Conserves streams state
  beginnings : GivesBeginnings state

/-- A peer that neither is read nor changes what it sends. -/
theorem Accounts.setPeer {side : Side} {peer : Peer} (accounts : Accounts streams state)
    (same : peer.taken ++ peer.rest = (state.peer side).taken ++ (state.peer side).rest) :
    Accounts streams (state.setPeer side peer) := by
  intro source
  rw [← accounts source]
  by_cases isSide : source = side
  · subst isSide
    rw [State.peer_setPeer, same]
  · rw [State.peer_setPeer_of_ne _ _ isSide]

theorem accounts_transition (transition : Transition state event next)
    (accounts : Accounts streams state) : Accounts streams next := by
  cases transition with
  | sent side count =>
      apply accounts.setPeer
      rw [Peer.rest_send]
      rfl
  | finished side => exact accounts.setPeer rfl
  | readSome source revents count reading =>
      refine Accounts.setPeer accounts ?_
      calc
        ((state.peer source).taken ++ (state.peer source).queued.take count) ++
            ((state.peer source).take count).rest
          = (state.peer source).taken ++
              ((state.peer source).queued.take count ++ ((state.peer source).take count).rest) :=
            List.append_assoc _ _ _
        _ = (state.peer source).taken ++ (state.peer source).rest := by rw [Peer.take_append_rest]
  | wroteSome source revents rest count writing some => exact Accounts.setPeer accounts rfl
  | wroteAll source revents rest count writing all => exact Accounts.setPeer accounts rfl
  | interrupted | pollFailed | polled | ended | readFailed | writeFailed | closes => exact accounts

/-- What is received and in flight is what was taken. -/
theorem received_append_inFlight (accounts : Accounts streams state)
    (conserves : Conserves streams state) (side : Side) :
    (state.peer side.other).received ++ inFlight side state.pc = (state.peer side).taken := by
  have same := (conserves side).trans (accounts side).symm
  exact List.append_cancel_right same

theorem givesBeginnings_of_conserves (accounts : Accounts streams state)
    (conserves : Conserves streams state) : GivesBeginnings state :=
  fun side => ⟨_, received_append_inFlight accounts conserves side⟩

/-- Behind the loop nothing is read and nothing is written. -/
theorem givesBeginnings_of_left (transition : Transition state event next)
    (left : state.pc.left = true) (beginnings : GivesBeginnings state) : GivesBeginnings next := by
  have running : forall pc : Pc, state.pc = pc -> pc.left = true := fun _ same => same ▸ left
  cases transition with
  | sent side count =>
      intro source
      have held := beginnings source
      cases side <;> cases source <;> exact held
  | finished side =>
      intro source
      have held := beginnings source
      cases side <;> cases source <;> exact held
  | readSome source revents count reading => exact absurd (running _ reading) Bool.false_ne_true
  | wroteSome source revents rest count writing some => exact absurd (running _ writing) Bool.false_ne_true
  | wroteAll source revents rest count writing all => exact absurd (running _ writing) Bool.false_ne_true
  | interrupted | pollFailed | polled | ended | readFailed | writeFailed | closes => exact beginnings

/-- A failed write moves nothing; every other step in the loop leaves each byte in its place. -/
theorem givesBeginnings_of_running (transition : Transition state event next)
    (accounts : Accounts streams state) (conserves : Conserves streams state) : GivesBeginnings next := by
  by_cases fails : event = .writeFails
  · have here := givesBeginnings_of_conserves accounts conserves
    subst fails
    cases transition with
    | writeFailed source revents rest writing => exact here
  · exact givesBeginnings_of_conserves (accounts_transition transition accounts)
      (conserves_transition transition fails conserves)

theorem delivers_transition (transition : Transition state event next)
    (delivers : Delivers streams state) : Delivers streams next := by
  have accounts := accounts_transition transition delivers.accounts
  by_cases left : state.pc.left = true
  · have stays := left_transition transition left
    have beginnings := givesBeginnings_of_left transition left delivers.beginnings
    exact ⟨accounts, fun running => Bool.noConfusion (stays.symm.trans running), beginnings⟩
  · have conserves := delivers.conserves (Bool.eq_false_iff.mpr left)
    refine ⟨accounts, fun running => conserves_transition transition ?_ conserves,
      givesBeginnings_of_running transition delivers.accounts conserves⟩
    intro fails
    subst fails
    cases transition with
    | writeFailed source revents rest writing => exact Bool.noConfusion running

theorem delivers_start (streams : Side -> List UInt8) : Delivers streams (start streams) := by
  have accounts : Accounts streams (start streams) := by
    intro side
    cases side <;> rfl
  have conserves := conserves_start streams
  exact ⟨accounts, fun _ => conserves, givesBeginnings_of_conserves accounts conserves⟩

/-! ## What the sockets are given -/

/-- Both directions of a relay: what was written to a side is the beginning of what was read
from the other one, all of it when a round starts, and that is the beginning of what the
other one sends. -/
def KeepsStreams (streams : Side -> List UInt8) (state : State) : Prop :=
  forall side,
    (state.peer side.other).received <+: (state.peer side).taken ∧
      (state.pc = .poll -> (state.peer side.other).received = (state.peer side).taken) ∧
      (state.peer side).taken <+: streams side

/-- Whatever `poll`, `read` and `write` answer, in every state a relay reaches neither stream
is corrupted, and both are complete when a round starts. -/
theorem relay_keeps_streams {events : List Event}
    (run : Machine.exec stepAnyAnswer (start streams) events = some state) : KeepsStreams streams state := by
  have delivers : Delivers streams state :=
    Machine.invariant_exec (fun _ _ _ taken => delivers_transition (transition_of_stepAnyAnswer taken)) run
      (delivers_start streams)
  intro side
  refine ⟨delivers.beginnings side, fun polling => ?_, ⟨_, delivers.accounts side⟩⟩
  have conserves := delivers.conserves (by rw [polling]; rfl)
  have whole := received_append_inFlight delivers.accounts conserves side
  rw [polling] at whole
  exact (List.append_nil _).symm.trans whole

/-- The answer is written in two parts, and the second write fails. -/
theorem relay_keeps_streams_shortWrite :
    KeepsStreams askAndAnswer ⟨.cleanup, ⟨[71], [], [], [79], false⟩, ⟨[], [], [79, 75], [], false⟩⟩ := by
  let events : List Event :=
    [.send .b 2, .poll (.ready ⟨quiet, readable⟩), .read 2, .write 1, .writeFails]
  have run : Machine.exec stepAnyAnswer (start askAndAnswer) events =
      some ⟨.cleanup, ⟨[71], [], [], [79], false⟩, ⟨[], [], [79, 75], [], false⟩⟩ := by decide
  exact relay_keeps_streams run

end Relay
end Forward
end AdbBridge
