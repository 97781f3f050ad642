import Mathlib.Algebra.GroupWithZero.Nat
import Mathlib.Data.List.Basic

namespace Library
namespace Machine

universe u v

variable {State : Type u} {Event : Type v}

/-!
# Runs of executable step functions

A system is given by a partial step function: `step state event` is the next
state when the event can happen in the state, and `none` when it cannot.  The
event carries every choice of the environment, so a run is a list of events.

Two rules are derived once.  A property that every step preserves holds at the
end of every run.  A property that is preserved by the steps meeting a
condition holds at the end of every run all of whose steps meet it; since a
prefix of such a run is again one, the property then holds in every state the
run passes through.
-/

/-- The state reached by executing the events in order, if all of them can happen. -/
def exec (step : State -> Event -> Option State) : State -> List Event -> Option State
  | state, [] => some state
  | state, event :: rest => (step state event).bind (fun next => exec step next rest)

/-- A condition on states and events holds at each step of the run that can be taken. -/
def AllSteps (step : State -> Event -> Option State) (ok : State -> Event -> Prop) :
    State -> List Event -> Prop
  | _, [] => True
  | state, event :: rest =>
      ok state event ∧ forall next, step state event = some next -> AllSteps step ok next rest

/-- A decidable condition can be checked along a given run. -/
instance decidableAllSteps (step : State -> Event -> Option State) (ok : State -> Event -> Prop)
    [forall state event, Decidable (ok state event)] :
    (state : State) -> (events : List Event) -> Decidable (AllSteps step ok state events)
  | _, [] => isTrue trivial
  | state, event :: rest =>
      have (next : State) : Decidable (AllSteps step ok next rest) :=
        decidableAllSteps step ok next rest
      inferInstanceAs (Decidable (ok state event ∧
        forall next, next ∈ step state event -> AllSteps step ok next rest))

variable {step : State -> Event -> Option State}

@[simp] theorem exec_nil (state : State) : exec step state [] = some state := rfl

theorem exec_cons (state : State) (event : Event) (rest : List Event) :
    exec step state (event :: rest) = (step state event).bind (fun next => exec step next rest) :=
  rfl

/-- Extend a run that meets a condition at each step by a first step that meets it. -/
theorem extend_of_step {ok : State -> Event -> Prop} {state next final : State} {event : Event}
    {rest : List Event}
    (taken : step state event = some next) (met : ok state event)
    (later : exec step next rest = some final ∧ AllSteps step ok next rest) :
    exec step state (event :: rest) = some final ∧ AllSteps step ok state (event :: rest) := by
  refine ⟨by rw [exec_cons, taken, Option.bind_some, later.1], met, fun other same => ?_⟩
  rw [taken] at same
  exact Option.some.inj same ▸ later.2

/-- A nonempty run is its first step followed by a run of the remaining events. -/
theorem exec_cons_eq_some_iff {state final : State} {event : Event} {rest : List Event} :
    exec step state (event :: rest) = some final ↔
      Exists fun next => step state event = some next ∧ exec step next rest = some final := by
  rw [exec_cons, Option.bind_eq_some_iff]

/-- Extend a run by a known first step. -/
theorem exec_cons_of_step {state next : State} {event : Event} {rest : List Event}
    (taken : step state event = some next) :
    exec step state (event :: rest) = exec step next rest := by
  rw [exec_cons, taken, Option.bind_some]

theorem exec_append (state : State) (first second : List Event) :
    exec step state (first ++ second) =
      (exec step state first).bind (fun middle => exec step middle second) := by
  induction first generalizing state with
  | nil => rfl
  | cons event rest inductionHypothesis =>
      rw [List.cons_append, exec_cons, exec_cons]
      cases taken : step state event with
      | none => rfl
      | some next => exact inductionHypothesis next

/-- A system whose steps are the images of the steps of another has the images of its runs. -/
theorem exec_map {Other : Type u} {otherStep : Other -> Event -> Option Other} {project : State -> Other}
    (commutes : forall state event, (step state event).map project = otherStep (project state) event)
    (state : State) (events : List Event) :
    (exec step state events).map project = exec otherStep (project state) events := by
  induction events generalizing state with
  | nil => rfl
  | cons event rest inductionHypothesis =>
      rw [exec_cons, exec_cons, ← commutes]
      cases step state event with
      | none => rfl
      | some next => exact inductionHypothesis next

/-- A property of states that every step preserves survives a whole run. -/
theorem invariant_exec {holds : State -> Prop}
    (preserved : forall state event next, step state event = some next -> holds state -> holds next)
    {state final : State} {events : List Event}
    (run : exec step state events = some final) (start : holds state) : holds final := by
  induction events generalizing state with
  | nil => exact Option.some.inj run ▸ start
  | cons event rest inductionHypothesis =>
      rcases exec_cons_eq_some_iff.mp run with ⟨next, taken, tail⟩
      exact inductionHypothesis tail (preserved state event next taken start)

/-- A property preserved by the steps that meet a condition survives every
run that meets the condition at each of its steps. -/
theorem invariant_exec_of_allSteps {holds : State -> Prop} {ok : State -> Event -> Prop}
    (preserved : forall state event next,
      ok state event -> step state event = some next -> holds state -> holds next)
    {state final : State} {events : List Event}
    (run : exec step state events = some final) (met : AllSteps step ok state events)
    (start : holds state) : holds final := by
  induction events generalizing state with
  | nil => exact Option.some.inj run ▸ start
  | cons event rest inductionHypothesis =>
      rcases exec_cons_eq_some_iff.mp run with ⟨next, taken, tail⟩
      exact inductionHypothesis tail (met.2 next taken)
        (preserved state event next met.1 taken start)

/-- A property holds in every state a run passes through. -/
def Throughout (step : State -> Event -> Option State) (good : State -> Prop) : State -> List Event -> Prop
  | state, [] => good state
  | state, event :: rest =>
      good state ∧ forall next, step state event = some next -> Throughout step good next rest

/-- These are the states the beginnings of the run end in. -/
theorem throughout_iff {good : State -> Prop} {state : State} {events : List Event} :
    Throughout step good state events ↔ forall before after middle, events = before ++ after ->
      exec step state before = some middle -> good middle := by
  induction events generalizing state with
  | nil =>
      constructor
      · intro holds before after middle split run
        rw [(List.append_eq_nil_iff.mp split.symm).1] at run
        exact Option.some.inj run ▸ holds
      · exact fun all => all [] [] state rfl rfl
  | cons event rest inductionHypothesis =>
      constructor
      · rintro ⟨here, later⟩ before after middle split run
        cases before with
        | nil => exact Option.some.inj run ▸ here
        | cons first before =>
            rw [List.cons_append] at split
            have parts := List.cons.inj split
            rcases exec_cons_eq_some_iff.mp run with ⟨next, taken, tail⟩
            rw [← parts.1] at taken
            exact inductionHypothesis.mp (later next taken) before after middle parts.2 tail
      · intro all
        refine ⟨all [] (event :: rest) state rfl rfl, fun next taken => inductionHypothesis.mpr ?_⟩
        intro before after middle split run
        refine all (event :: before) after middle (by rw [split, List.cons_append]) ?_
        rw [exec_cons_of_step taken]
        exact run

/-- What a property of a state entails for the next step holds at each step of a run
throughout which the property holds. -/
theorem Throughout.allSteps {good : State -> Prop} {ok : State -> Event -> Prop}
    (entails : forall state event next, step state event = some next -> good state -> ok state event)
    {state final : State} {events : List Event} (holds : Throughout step good state events)
    (run : exec step state events = some final) : AllSteps step ok state events := by
  induction events generalizing state with
  | nil => trivial
  | cons event rest inductionHypothesis =>
      rcases exec_cons_eq_some_iff.mp run with ⟨next, taken, tail⟩
      refine ⟨entails state event next taken holds.1, fun other same => ?_⟩
      rw [taken] at same
      exact Option.some.inj same ▸ inductionHypothesis (holds.2 next taken) tail

/-- A relation between the events so far and the state that every step preserves
holds between a run and the state it ends in. -/
theorem history_exec {holds : List Event -> State -> Prop}
    (preserved : forall past state event next, step state event = some next -> holds past state ->
      holds (past ++ [event]) next)
    {past events : List Event} {state final : State}
    (run : exec step state events = some final) (start : holds past state) :
    holds (past ++ events) final := by
  induction events generalizing past state with
  | nil =>
      rw [List.append_nil]
      exact Option.some.inj run ▸ start
  | cons event rest inductionHypothesis =>
      rcases exec_cons_eq_some_iff.mp run with ⟨next, taken, tail⟩
      have later := inductionHypothesis tail (preserved past state event next taken start)
      rw [List.append_assoc] at later
      exact later

/-- What the steps of a run emit, in order. -/
def trace {α : Type v} (step : State -> Event -> Option State) (emit : State -> Event -> List α) :
    State -> List Event -> List α
  | _, [] => []
  | state, event :: rest =>
      emit state event ++
        (match step state event with
        | some next => trace step emit next rest
        | none => [])

/-- A relation between what was emitted so far and the state that the steps meeting a
condition preserve holds at the end of every run that meets it. -/
theorem trace_exec {α : Type v} {emit : State -> Event -> List α} {ok : State -> Event -> Prop}
    {holds : List α -> State -> Prop}
    (preserved : forall past state event next, ok state event -> step state event = some next ->
      holds past state -> holds (past ++ emit state event) next)
    {past : List α} {events : List Event} {state final : State}
    (run : exec step state events = some final) (met : AllSteps step ok state events)
    (start : holds past state) : holds (past ++ trace step emit state events) final := by
  induction events generalizing past state with
  | nil =>
      rw [trace, List.append_nil]
      exact Option.some.inj run ▸ start
  | cons event rest inductionHypothesis =>
      rcases exec_cons_eq_some_iff.mp run with ⟨next, taken, tail⟩
      have later := inductionHypothesis tail (met.2 next taken)
        (preserved past state event next met.1 taken start)
      rw [List.append_assoc] at later
      rw [trace, taken]
      exact later

/-- A condition on everything a run emits is one on each of its steps. -/
theorem allSteps_of_forall_mem_trace {α : Type v} {emit : State -> Event -> List α} {good : α -> Prop}
    {state : State} {events : List Event}
    (every : forall emitted, emitted ∈ trace step emit state events -> good emitted) :
    AllSteps step (fun s e => forall emitted, emitted ∈ emit s e -> good emitted) state events := by
  induction events generalizing state with
  | nil => trivial
  | cons event rest inductionHypothesis =>
      refine ⟨fun emitted member => every emitted (List.mem_append_left _ member), fun next taken => ?_⟩
      refine inductionHypothesis (fun emitted member => every emitted (List.mem_append_right _ ?_))
      rw [taken]
      exact member

/-- A condition that reads the events only is a condition on their list. -/
theorem allSteps_of_forall (ok : Event -> Prop) {state : State} {events : List Event}
    (every : forall event, event ∈ events -> ok event) :
    AllSteps step (fun _ event => ok event) state events := by
  induction events generalizing state with
  | nil => trivial
  | cons event rest inductionHypothesis =>
      exact ⟨every event List.mem_cons_self, fun next _ =>
        inductionHypothesis (fun other member => every other (List.mem_cons_of_mem event member))⟩

/-- Along a run that can be taken it is nothing else. -/
theorem allSteps_iff_forall {ok : Event -> Prop} {state final : State} {events : List Event}
    (run : exec step state events = some final) :
    AllSteps step (fun _ event => ok event) state events ↔ forall event, event ∈ events -> ok event := by
  refine ⟨?_, allSteps_of_forall ok⟩
  induction events generalizing state with
  | nil => exact fun _ event member => absurd member List.not_mem_nil
  | cons first rest inductionHypothesis =>
      rcases exec_cons_eq_some_iff.mp run with ⟨next, taken, tail⟩
      rintro ⟨here, later⟩ event member
      rcases List.mem_cons.mp member with isFirst | inRest
      · exact isFirst ▸ here
      · exact inductionHypothesis tail (later next taken) event inRest

/-- A property of which each step that can occur tells whether it is kept holds throughout
a run if and only if every step keeps it. -/
theorem throughout_iff_allSteps_of_invariant {inv good : State -> Prop} {required ok : State -> Event -> Prop}
    (preserved : forall state event next, required state event -> step state event = some next -> inv state ->
      inv next)
    (kept : forall state event next, required state event -> step state event = some next -> inv state ->
      good state -> (good next ↔ ok state event))
    {state final : State} {events : List Event} (run : exec step state events = some final)
    (met : AllSteps step required state events) (holds : inv state) (start : good state) :
    Throughout step good state events ↔ AllSteps step ok state events := by
  induction events generalizing state with
  | nil => exact ⟨fun _ => trivial, fun _ => start⟩
  | cons event rest inductionHypothesis =>
      rcases exec_cons_eq_some_iff.mp run with ⟨next, taken, tail⟩
      have here := kept state event next met.1 taken holds start
      have holdsNext := preserved state event next met.1 taken holds
      have only : forall other, step state event = some other -> other = next :=
        fun other same => Option.some.inj (same.symm.trans taken)
      constructor
      · rintro ⟨_, later⟩
        have rest := later next taken
        have goodNext : good next := throughout_iff.mp rest [] _ next rfl rfl
        exact ⟨here.mp goodNext, fun other same => only other same ▸
          (inductionHypothesis tail (met.2 next taken) holdsNext goodNext).mp rest⟩
      · rintro ⟨ok, later⟩
        exact ⟨start, fun other same => only other same ▸
          (inductionHypothesis tail (met.2 next taken) holdsNext (here.mpr ok)).mpr (later next taken)⟩

/-- No invariant is needed where every step tells it by itself. -/
theorem throughout_iff_allSteps {good : State -> Prop} {ok : State -> Event -> Prop}
    (kept : forall state event next, step state event = some next -> good state ->
      (good next ↔ ok state event))
    {state final : State} {events : List Event} (run : exec step state events = some final)
    (start : good state) : Throughout step good state events ↔ AllSteps step ok state events :=
  @throughout_iff_allSteps_of_invariant _ _ _ (fun _ => True) good (fun _ _ => True) ok
    (fun _ _ _ _ _ _ => trivial) (fun state event next _ taken _ => kept state event next taken)
    state final events run (allSteps_of_forall (fun _ => True) (fun _ _ => trivial)) trivial start

/-- Both conditions at each step are the conjunction at each step. -/
theorem AllSteps.and {first second : State -> Event -> Prop}
    {state : State} {events : List Event} (left : AllSteps step first state events)
    (right : AllSteps step second state events) :
    AllSteps step (fun s e => first s e ∧ second s e) state events := by
  induction events generalizing state with
  | nil => trivial
  | cons event rest inductionHypothesis =>
      exact ⟨⟨left.1, right.1⟩, fun next taken =>
        inductionHypothesis (left.2 next taken) (right.2 next taken)⟩

/-- A weaker condition is met too. -/
theorem AllSteps.mono {first second : State -> Event -> Prop}
    (weaker : forall state event, first state event -> second state event)
    {state : State} {events : List Event} (all : AllSteps step first state events) :
    AllSteps step second state events := by
  induction events generalizing state with
  | nil => trivial
  | cons event rest inductionHypothesis =>
      exact ⟨weaker state event all.1, fun next taken => inductionHypothesis (all.2 next taken)⟩

/-- A run that misses a condition somewhere splits at a step that misses it. -/
theorem exists_step_of_not_allSteps {ok : State -> Event -> Prop} {state final : State}
    {events : List Event} (run : exec step state events = some final)
    (missed : ¬ AllSteps step ok state events) :
    Exists fun before => Exists fun event => Exists fun after =>
      Exists fun middle => Exists fun next =>
        events = before ++ event :: after ∧ exec step state before = some middle ∧
          ¬ ok middle event ∧ step middle event = some next ∧ exec step next after = some final := by
  induction events generalizing state with
  | nil => exact absurd trivial missed
  | cons event rest inductionHypothesis =>
      rcases exec_cons_eq_some_iff.mp run with ⟨next, taken, tail⟩
      by_cases here : ok state event
      · have later : ¬ AllSteps step ok next rest := by
          intro met
          refine missed ⟨here, fun other stepped => ?_⟩
          have same := Option.some.inj (taken.symm.trans stepped)
          exact same ▸ met
        rcases inductionHypothesis tail later with
          ⟨before, bad, after, middle, reached, split, ran, notOk, stepped, ending⟩
        refine ⟨event :: before, bad, after, middle, reached, ?_, ?_, notOk, stepped, ending⟩
        · rw [split, List.cons_append]
        · rw [exec_cons_of_step taken]
          exact ran
      · exact ⟨[], event, rest, state, next, rfl, rfl, here, taken, tail⟩

/-- A condition that matters at one step only, the one by which a run enters a part of
the states that it never leaves, can be read off the state in which the run ends. -/
theorem allSteps_iff_of_crossing {inv crossed good : State -> Prop} {ok : State -> Event -> Prop}
    (kept : forall state event next, step state event = some next -> inv state -> inv next)
    (early : forall state event next, inv state -> ¬ crossed state -> step state event = some next ->
      ¬ crossed next -> ok state event)
    (crossing : forall state event next, inv state -> ¬ crossed state ->
      step state event = some next -> crossed next -> (ok state event ↔ good next))
    (late : forall state event next, inv state -> crossed state -> step state event = some next ->
      ok state event ∧ crossed next ∧ (good next ↔ good state))
    {state final : State} {events : List Event} (start : inv state) (outside : ¬ crossed state)
    (run : exec step state events = some final) (inside : crossed final) :
    AllSteps step ok state events ↔ good final := by
  have after : forall rest state, inv state -> crossed state -> exec step state rest = some final ->
      AllSteps step ok state rest ∧ (good final ↔ good state) := by
    intro rest
    induction rest with
    | nil =>
        intro state _ _ run
        rw [Option.some.inj run]
        exact ⟨trivial, Iff.rfl⟩
    | cons event rest inductionHypothesis =>
        intro state holds entered run
        rcases exec_cons_eq_some_iff.mp run with ⟨next, taken, tail⟩
        rcases late state event next holds entered taken with ⟨met, stays, same⟩
        rcases inductionHypothesis next (kept state event next taken holds) stays tail with
          ⟨metLater, sameLater⟩
        refine ⟨⟨met, fun other stepped => ?_⟩, sameLater.trans same⟩
        have isNext := Option.some.inj (taken.symm.trans stepped)
        exact isNext ▸ metLater
  induction events generalizing state with
  | nil => exact absurd (Option.some.inj run ▸ inside) outside
  | cons event rest inductionHypothesis =>
      rcases exec_cons_eq_some_iff.mp run with ⟨next, taken, tail⟩
      have holds := kept state event next taken start
      have reduced : AllSteps step ok state (event :: rest) ↔
          ok state event ∧ AllSteps step ok next rest := by
        refine and_congr_right (fun _ => ⟨fun all => all next taken, fun met other stepped => ?_⟩)
        have isNext := Option.some.inj (taken.symm.trans stepped)
        exact isNext ▸ met
      rw [reduced]
      by_cases entered : crossed next
      · rcases after rest next holds entered tail with ⟨metLater, same⟩
        rw [same, ← crossing state event next start outside taken entered]
        exact and_iff_left metLater
      · exact (and_iff_right (early state event next start outside taken entered)).trans
          (inductionHypothesis holds entered tail)

/-- A run ends well if each of its steps meets a condition, and badly otherwise: a step
that misses it spoils the state for good. -/
theorem judged_exec {inv good bad : State -> Prop} {required ok : State -> Event -> Prop}
    (kept : forall state event next, required state event -> step state event = some next ->
        inv state -> inv next)
    (stays : forall state event next, required state event -> step state event = some next -> inv state ->
      good state -> ok state event -> good next)
    (turns : forall state event next, required state event -> step state event = some next -> inv state ->
      good state -> ¬ ok state event -> bad next)
    (remains : forall state event next, required state event -> step state event = some next -> inv state ->
      bad state -> bad next)
    {state final : State} {events : List Event} (run : exec step state events = some final)
    (met : AllSteps step required state events) (start : inv state) (begins : good state) :
    inv final ∧ (AllSteps step ok state events ∧ good final ∨ ¬ AllSteps step ok state events ∧ bad final) := by
  have spoiled : forall rest state, exec step state rest = some final -> AllSteps step required state rest ->
      inv state -> bad state -> inv final ∧ bad final := by
    intro rest
    induction rest with
    | nil =>
        intro state run _ holds isBad
        rw [← Option.some.inj run]
        exact ⟨holds, isBad⟩
    | cons event rest inductionHypothesis =>
        intro state run met holds isBad
        rcases exec_cons_eq_some_iff.mp run with ⟨next, taken, tail⟩
        exact inductionHypothesis next tail (met.2 next taken) (kept state event next met.1 taken holds)
          (remains state event next met.1 taken holds isBad)
  induction events generalizing state with
  | nil => exact Option.some.inj run ▸ ⟨start, Or.inl ⟨trivial, begins⟩⟩
  | cons event rest inductionHypothesis =>
      rcases exec_cons_eq_some_iff.mp run with ⟨next, taken, tail⟩
      have holds := kept state event next met.1 taken start
      by_cases here : ok state event
      · rcases inductionHypothesis tail (met.2 next taken) holds
          (stays state event next met.1 taken start begins here) with ⟨ends, ⟨all, isGood⟩ | ⟨missed, isBad⟩⟩
        · refine ⟨ends, Or.inl ⟨⟨here, fun other stepped => ?_⟩, isGood⟩⟩
          have same := Option.some.inj (taken.symm.trans stepped)
          exact same ▸ all
        · exact ⟨ends, Or.inr ⟨fun all => missed (all.2 next taken), isBad⟩⟩
      · rcases spoiled rest next tail (met.2 next taken) holds
          (turns state event next met.1 taken start begins here) with ⟨ends, isBad⟩
        exact ⟨ends, Or.inr ⟨fun all => here all.1, isBad⟩⟩

/-- If a budget pays for every step, and some events add to it, then it pays for the run. -/
theorem spent_exec {holds : State -> Nat -> Prop} {cost gain : Event -> Nat} {ok : State -> Event -> Prop}
    (pays : forall state event next budget, ok state event -> step state event = some next ->
      holds state budget -> Exists fun left => holds next left ∧ left + cost event ≤ budget + gain event)
    {state final : State} {events : List Event} {budget : Nat}
    (run : exec step state events = some final) (met : AllSteps step ok state events)
    (start : holds state budget) :
    Exists fun left => holds final left ∧ left + (events.map cost).sum ≤ budget + (events.map gain).sum := by
  induction events generalizing state budget with
  | nil => exact ⟨budget, Option.some.inj run ▸ start, Nat.le_refl _⟩
  | cons event rest inductionHypothesis =>
      rcases exec_cons_eq_some_iff.mp run with ⟨next, taken, tail⟩
      rcases pays state event next budget met.1 taken start with ⟨middle, after, first⟩
      rcases inductionHypothesis tail (met.2 next taken) after with ⟨left, ends, later⟩
      refine ⟨left, ends, ?_⟩
      rw [List.map_cons, List.map_cons, List.sum_cons, List.sum_cons]
      omega

/-- A step that leads back to its state can be repeated. -/
theorem exec_replicate_of_self {ok : State -> Event -> Prop} {state : State} {event : Event}
    (self : step state event = some state) (met : ok state event) (times : Nat) :
    exec step state (List.replicate times event) = some state ∧
      AllSteps step ok state (List.replicate times event) := by
  induction times with
  | zero => exact ⟨rfl, trivial⟩
  | succ times inductionHypothesis =>
      rw [List.replicate_succ]
      exact extend_of_step self met inductionHypothesis

end Machine
end Library
