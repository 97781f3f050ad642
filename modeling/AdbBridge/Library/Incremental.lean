import Mathlib.Data.Nat.Init
import Mathlib.Data.List.Basic

namespace Library
namespace Incremental

/-!
# Readers of a stream that arrives in chunks

A reader keeps what it has not used yet, and with every chunk takes as many items off the front
as there are.  If more input never changes the item in front, it does not matter
where the stream is cut: the reader is in the state it comes to when the whole
stream arrives at once.
-/

universe u v w

/-- How items stand in a stream. -/
structure Format (Symbol : Type u) (Item : Type v) where
  next : List Symbol -> Option (Item × List Symbol)
  shorter : forall {buffer item rest}, next buffer = some (item, rest) -> rest.length < buffer.length
  extends_ : forall {buffer item rest}, next buffer = some (item, rest) ->
    forall more, next (buffer ++ more) = some (item, rest ++ more)

/-- A reader: the input that is left, its state, and whether it takes no more items. -/
structure Reader (Symbol : Type u) (State : Type w) where
  buffer : List Symbol
  state : State
  stopped : Bool

variable {Symbol : Type u} {Item : Type v} {State : Type w}

namespace Format

variable (format : Format Symbol Item) (handle : State -> Item -> State × Bool)

/-- The items in the buffer are handled until one of them stops the reader. -/
def loop : Nat -> Reader Symbol State -> Reader Symbol State
  | 0, reader => reader
  | fuel + 1, reader =>
      match format.next reader.buffer with
      | none => reader
      | some (item, rest) =>
          if (handle reader.state item).2 then ⟨rest, (handle reader.state item).1, true⟩
          else loop fuel ⟨rest, (handle reader.state item).1, false⟩

/-- A chunk arrives. -/
def receive (reader : Reader Symbol State) (chunk : List Symbol) : Reader Symbol State :=
  if reader.stopped then reader
  else loop format handle (reader.buffer ++ chunk).length { reader with buffer := reader.buffer ++ chunk }

/-- What becomes of a list of items. -/
def handleAll : State -> List Item -> State × Bool
  | state, [] => (state, false)
  | state, item :: rest =>
      if (handle state item).2 then ((handle state item).1, true) else handleAll (handle state item).1 rest

variable {format : Format Symbol Item} {handle : State -> Item -> State × Bool}

theorem next_nil : format.next [] = none := by
  cases found : format.next [] with
  | none => rfl
  | some result => exact absurd (format.shorter found) (Nat.not_lt_zero _)

theorem loop_none {reader : Reader Symbol State} (none_ : format.next reader.buffer = none) (fuel : Nat) :
    loop format handle fuel reader = reader := by
  cases fuel with
  | zero => rfl
  | succ fuel => rw [loop, none_]

/-- As many steps as there are symbols are enough. -/
theorem loop_fuel {fuel : Nat} {reader : Reader Symbol State} (enough : reader.buffer.length ≤ fuel) :
    loop format handle fuel reader = loop format handle reader.buffer.length reader := by
  induction fuel using Nat.strong_induction_on generalizing reader with
  | _ fuel inductionHypothesis =>
      cases found : format.next reader.buffer with
      | none => rw [loop_none found, loop_none found]
      | some result =>
          rcases result with ⟨item, rest⟩
          have shorter := format.shorter found
          rcases Nat.exists_eq_add_of_lt (Nat.lt_of_lt_of_le
            (Nat.zero_lt_of_lt shorter) enough) with ⟨less, rfl⟩
          rcases Nat.exists_eq_add_of_lt (Nat.zero_lt_of_lt shorter) with ⟨length, isLength⟩
          rw [isLength, Nat.zero_add, Nat.zero_add, loop, loop, found]
          dsimp only
          by_cases stops : (handle reader.state item).2 = true
          · rw [if_pos stops, if_pos stops]
          · rw [if_neg stops, if_neg stops]
            have fewer : forall steps, rest.length ≤ steps -> steps < 0 + less + 1 ->
                loop format handle steps ⟨rest, (handle reader.state item).1, false⟩ =
                  loop format handle rest.length ⟨rest, (handle reader.state item).1, false⟩ :=
              fun steps isEnough isFewer => inductionHypothesis steps isFewer isEnough
            exact (fewer less (by omega) (by omega)).trans (fewer length (by omega) (by omega)).symm

/-- All items in the buffer are handled. -/
def drain (format : Format Symbol Item) (handle : State -> Item -> State × Bool)
    (reader : Reader Symbol State) :
    Reader Symbol State := loop format handle reader.buffer.length reader

theorem drain_none {buffer : List Symbol} (none_ : format.next buffer = none) (state : State) :
    drain format handle ⟨buffer, state, false⟩ = ⟨buffer, state, false⟩ := loop_none none_ _

theorem drain_some {buffer rest : List Symbol} {item : Item} (found : format.next buffer = some (item, rest))
    (state : State) :
    drain format handle ⟨buffer, state, false⟩ =
      if (handle state item).2 then ⟨rest, (handle state item).1, true⟩
      else drain format handle ⟨rest, (handle state item).1, false⟩ := by
  have shorter := format.shorter found
  rcases Nat.exists_eq_add_of_lt (Nat.zero_lt_of_lt shorter) with ⟨length, isLength⟩
  rw [drain, isLength, loop, found]
  dsimp only
  split_ifs
  · rfl
  · exact loop_fuel (by dsimp only; omega)

/-- The readers agree, except for what a stopped reader has left. -/
def Agree (first second : Reader Symbol State) : Prop :=
  first.state = second.state ∧ first.stopped = second.stopped ∧
    (first.stopped = false -> first.buffer = second.buffer)

theorem Agree.refl (reader : Reader Symbol State) : Agree reader reader := ⟨rfl, rfl, fun _ => rfl⟩

theorem Agree.trans {first second third : Reader Symbol State} (earlier : Agree first second)
    (later : Agree second third) : Agree first third :=
  ⟨earlier.1.trans later.1, earlier.2.1.trans later.2.1, fun runs =>
    (earlier.2.2 runs).trans (later.2.2 (earlier.2.1 ▸ runs))⟩

/-- More input is handled after the items that are there. -/
theorem drain_append (buffer more : List Symbol) (state : State) :
    Agree (receive format handle (drain format handle ⟨buffer, state, false⟩) more)
      (drain format handle ⟨buffer ++ more, state, false⟩) := by
  induction size : buffer.length using Nat.strong_induction_on generalizing buffer state with
  | _ size inductionHypothesis =>
      cases found : format.next buffer with
      | none =>
          rw [drain_none found]
          exact Agree.refl _
      | some result =>
          rcases result with ⟨item, rest⟩
          rw [drain_some found, drain_some (format.extends_ found more)]
          split_ifs
          · exact ⟨rfl, rfl, fun runs => by cases runs⟩
          · exact inductionHypothesis rest.length (size ▸ format.shorter found) rest _ rfl

/-- After a chunk, another one is handled as if both had come at once. -/
theorem receive_receive (reader : Reader Symbol State) (chunk more : List Symbol) :
    Agree (receive format handle (receive format handle reader chunk) more)
      (receive format handle reader (chunk ++ more)) := by
  by_cases stopped : reader.stopped = true
  · have still : forall chunk, receive format handle reader chunk = reader := fun chunk => if_pos stopped
    rw [still, still, still]
    exact Agree.refl reader
  · have running : reader.stopped = false := Bool.not_eq_true _ ▸ stopped
    have starts : forall chunk, receive format handle reader chunk =
        drain format handle ⟨reader.buffer ++ chunk, reader.state, false⟩ := by
      intro chunk
      rw [receive, if_neg stopped, running]
      rfl
    rw [starts, starts, ← List.append_assoc]
    exact drain_append _ _ _

/-- Readers that agree go on agreeing. -/
theorem Agree.receive {first second : Reader Symbol State} (agree : Agree first second) (chunk : List Symbol) :
    Agree (receive format handle first chunk) (receive format handle second chunk) := by
  rcases first with ⟨buffer, state, stopped⟩
  rcases second with ⟨otherBuffer, otherState, otherStopped⟩
  rcases agree with ⟨isState, isStopped, isBuffer⟩
  dsimp only at isState isStopped isBuffer
  subst isState isStopped
  cases stopped with
  | true => exact ⟨rfl, rfl, fun runs => by cases runs⟩
  | false =>
      rw [isBuffer rfl]
      exact Agree.refl _

theorem foldl_agree {first second : Reader Symbol State} (agree : Agree first second)
    (chunks : List (List Symbol)) :
    Agree (chunks.foldl (Format.receive format handle) first)
      (chunks.foldl (Format.receive format handle) second) := by
  induction chunks generalizing first second with
  | nil => exact agree
  | cons chunk chunks inductionHypothesis => exact inductionHypothesis (agree.receive chunk)

/-- Where the stream is cut makes no difference. -/
theorem receive_chunks (reader : Reader Symbol State) (chunk : List Symbol) (chunks : List (List Symbol)) :
    Agree (chunks.foldl (receive format handle) (receive format handle reader chunk))
      (receive format handle reader (chunk ++ chunks.flatten)) := by
  induction chunks generalizing chunk with
  | nil =>
      rw [List.flatten_nil, List.append_nil]
      exact Agree.refl _
  | cons second chunks inductionHypothesis =>
      have joined : Agree (receive format handle _ second) _ := receive_receive reader chunk second
      have later := inductionHypothesis (chunk ++ second)
      rw [List.flatten_cons, ← List.append_assoc]
      exact (foldl_agree joined chunks).trans later

/-! ## Encoded items -/

variable {Encoded : Type v} {encode : Encoded -> List Symbol} {item : Encoded -> Item}

/-- The items that are encoded are handled in their order, and nothing else if the rest is not
an item. -/
theorem drain_encoded (encodes : forall encoded rest, format.next (encode encoded ++
    rest) = some (item encoded, rest))
    (sent : List Encoded) {rest : List Symbol} (partial_ : format.next rest = none) (state : State) :
    ((drain format handle ⟨sent.flatMap encode ++ rest, state, false⟩).state,
        (drain format handle ⟨sent.flatMap encode ++ rest, state, false⟩).stopped) =
      handleAll handle state (sent.map item) := by
  induction sent generalizing state with
  | nil =>
      rw [List.flatMap_nil, List.nil_append, drain_none partial_]
      rfl
  | cons first sent inductionHypothesis =>
      rw [List.flatMap_cons, List.append_assoc,
        drain_some (encodes first _), List.map_cons, handleAll]
      split_ifs
      · rfl
      · exact inductionHypothesis _

/-- However the encoded items are cut into chunks, a reader that starts with nothing handles them in
their order. -/
theorem receive_encoded (encodes : forall encoded rest, format.next (encode encoded ++
    rest) = some (item encoded, rest))
    {sent : List Encoded} {rest : List Symbol} (partial_ : format.next rest = none)
    {chunks : List (List Symbol)}
    (stream : chunks.flatten = sent.flatMap encode ++ rest) (state : State) :
    ((chunks.foldl (receive format handle) ⟨[], state, false⟩).state,
        (chunks.foldl (receive format handle) ⟨[], state, false⟩).stopped) =
      handleAll handle state (sent.map item) := by
  have waits : drain format handle ⟨[], state, false⟩ = ⟨[], state, false⟩ := drain_none next_nil state
  have nothing : receive format handle ⟨[], state, false⟩ [] = ⟨[], state, false⟩ := waits
  have agree : Agree _ (receive format handle ⟨[], state, false⟩ _) := receive_chunks _ [] chunks
  rw [nothing, List.nil_append, stream] at agree
  rw [agree.1, agree.2.1]
  exact drain_encoded encodes sent partial_ state

/-- What the handling of an item preserves, a chunk preserves. -/
theorem receive_preserves {holds : State -> Prop}
    (keeps : forall state item, holds state -> holds (handle state item).1)
    {reader : Reader Symbol State} (before : holds reader.state) (chunk : List Symbol) :
    holds (receive format handle reader chunk).state := by
  have inLoop : forall fuel (reader : Reader Symbol State), holds reader.state ->
      holds (loop format handle fuel reader).state := by
    intro fuel
    induction fuel with
    | zero => exact fun _ now => now
    | succ fuel inductionHypothesis =>
        intro reader now
        rw [loop]
        split
        · exact now
        · split_ifs
          · exact keeps _ _ now
          · exact inductionHypothesis _ (keeps _ _ now)
  rw [receive]
  split_ifs
  · exact before
  · exact inLoop _ _ before

end Format

end Incremental
end Library
