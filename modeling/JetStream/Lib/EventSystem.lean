import Mathlib.Data.List.Basic

/-- The scheduler offers events, and the system accepts an event by giving the next state. -/
structure EventSystem (S E : Type) where
  initial : S
  step : S → E → Option S

namespace EventSystem

variable {S E : Type}

/-- The run from a state stops at the first event that is not accepted. -/
def runFrom (system : EventSystem S E) (state : S) (events : List E) : Option S := events.foldlM system.step state

/-- A state is reachable when some run from the start ends there. -/
def Reachable (system : EventSystem S E) (state : S) : Prop :=
  ∃ events, system.runFrom system.initial events = some state

/-- The restricted system also refuses the events that are not allowed in a state. -/
def restrict (system : EventSystem S E) (allowed : S → E → Prop) [∀ state event, Decidable (allowed state event)] :
    EventSystem S E :=
  ⟨system.initial, fun state event => if allowed state event then system.step state event else none⟩

/-- The recorded system keeps the events that it has accepted beside its state. -/
def recorded (system : EventSystem S E) : EventSystem (S × List E) E :=
  ⟨(system.initial, []), fun state event => (system.step state.1 event).map fun next => (next, state.2 ++ [event])⟩

/-- Every state that the run passes through has the property. -/
def EveryState (system : EventSystem S E) (property : S → Prop) : S → List E → Prop
  | state, [] => property state
  | state, event :: events => property state ∧ ∀ next ∈ system.step state event, system.EveryState property next events

/-- Every step that the run takes meets the condition on the state before it. -/
def EveryStep (system : EventSystem S E) (condition : S → E → Prop) : S → List E → Prop
  | _, [] => True
  | state, event :: events =>
      ∀ next ∈ system.step state event, condition state event ∧ system.EveryStep condition next events

variable {system : EventSystem S E}

instance decidableEveryStep {condition : S → E → Prop} [∀ state event, Decidable (condition state event)] :
    ∀ (state : S) (events : List E), Decidable (system.EveryStep condition state events)
  | _, [] => isTrue trivial
  | state, event :: events =>
      match found : system.step state event with
      | none => isTrue (by simp [EveryStep, found])
      | some next =>
          have : Decidable (system.EveryStep condition next events) := decidableEveryStep next events
          decidable_of_iff (condition state event ∧ system.EveryStep condition next events) (by simp [EveryStep, found])

theorem restrict_step {allowed : S → E → Prop} [∀ state event, Decidable (allowed state event)] {state next : S}
    {event : E} :
    (system.restrict allowed).step state event = some next ↔
      allowed state event ∧ system.step state event = some next := Option.ite_none_right_eq_some

theorem recorded_step {state next : S × List E} {event : E} :
    system.recorded.step state event = some next ↔
      system.step state.1 event = some next.1 ∧ next.2 = state.2 ++ [event] := by
  rw [recorded, Option.map_eq_some_iff]
  constructor
  · rintro ⟨after, stepped, rfl⟩
    exact ⟨stepped, rfl⟩
  · rintro ⟨stepped, same⟩
    exact ⟨next.1, stepped, by rw [← same]⟩

theorem runFrom_cons (state : S) (event : E) (events : List E) :
    system.runFrom state (event :: events) = (system.step state event).bind fun next => system.runFrom next events := rfl

/-- What every step preserves is preserved by every run. -/
theorem runFrom_invariant (Inv : S → Prop)
    (preserved : ∀ state event next, Inv state → system.step state event = some next → Inv next)
    {state final : S} {events : List E} (start : Inv state) (ran : system.runFrom state events = some final) :
    Inv final := by
  induction events generalizing state with
  | nil =>
      obtain rfl := Option.some.inj ran
      exact start
  | cons event events ih =>
      rw [runFrom_cons, Option.bind_eq_some_iff] at ran
      obtain ⟨next, stepped, rest⟩ := ran
      exact ih (preserved state event next start stepped) rest

/-- What holds at the start and is preserved by every step holds in every reachable state. -/
theorem Reachable.invariant {state : S} (reachable : system.Reachable state) (Inv : S → Prop)
    (start : Inv system.initial)
    (preserved : ∀ state event next, Inv state → system.step state event = some next → Inv next) : Inv state := by
  obtain ⟨events, ran⟩ := reachable
  exact runFrom_invariant Inv preserved start ran

theorem Reachable.step {state next : S} {event : E} (reachable : system.Reachable state)
    (stepped : system.step state event = some next) : system.Reachable next := by
  obtain ⟨events, ran⟩ := reachable
  refine ⟨events ++ [event], ?_⟩
  rw [runFrom] at ran ⊢
  rw [List.foldlM_append, ran]
  simp [stepped]

theorem EveryState.head {property : S → Prop} {state : S} {events : List E}
    (every : system.EveryState property state events) : property state := by
  cases events with
  | nil => exact every
  | cons event events => exact every.1

/-- An invariant that the steps preserve under the condition gives the property along every run that meets it. -/
theorem EveryStep.everyState {condition : S → E → Prop} {property : S → Prop} (Inv : S → Prop)
    (preserved : ∀ state event next, Inv state → condition state event → system.step state event = some next → Inv next)
    (gives : ∀ state, Inv state → property state) {state : S} {events : List E} (start : Inv state)
    (met : system.EveryStep condition state events) : system.EveryState property state events := by
  induction events generalizing state with
  | nil => exact gives state start
  | cons event events ih =>
      constructor
      · exact gives state start
      · intro next stepped
        exact ih (preserved state event next start (met next stepped).1 stepped) (met next stepped).2

/-- What an invariant gives holds along every run. -/
theorem everyState_of_invariant {property : S → Prop} (Inv : S → Prop)
    (preserved : ∀ state event next, Inv state → system.step state event = some next → Inv next)
    (gives : ∀ state, Inv state → property state) {state : S} (events : List E) (start : Inv state) :
    system.EveryState property state events := by
  induction events generalizing state with
  | nil => exact gives state start
  | cons event events ih => exact ⟨gives state start, fun next stepped => ih (preserved state event next start stepped)⟩

/-- A condition that the invariant gives is met by every step of every run. -/
theorem everyStep_of_invariant {condition : S → E → Prop} (Inv : S → Prop)
    (preserved : ∀ state event next, Inv state → system.step state event = some next → Inv next)
    (gives : ∀ state event, Inv state → condition state event) {state : S} (events : List E) (start : Inv state) :
    system.EveryStep condition state events := by
  induction events generalizing state with
  | nil => trivial
  | cons event events ih =>
      intro next stepped
      exact ⟨gives state event start, ih (preserved state event next start stepped)⟩

/-- Conditions that the invariant makes equivalent for every step are met by the same runs. -/
theorem everyStep_congr {condition condition' : S → E → Prop} (Inv : S → Prop)
    (preserved : ∀ state event next, Inv state → system.step state event = some next → Inv next)
    (same : ∀ state event next, Inv state → system.step state event = some next →
      (condition state event ↔ condition' state event))
    {state : S} (events : List E) (start : Inv state) :
    system.EveryStep condition state events ↔ system.EveryStep condition' state events := by
  induction events generalizing state with
  | nil => exact Iff.rfl
  | cons event events ih =>
      refine forall_congr' fun next => forall_congr' fun stepped => ?_
      exact and_congr (same state event next start stepped) (ih (preserved state event next start stepped))

/-- When each step keeps the property exactly if it meets the condition, so does the whole run. -/
theorem everyState_iff {condition : S → E → Prop} {property : S → Prop} (Inv : S → Prop)
    (preserved : ∀ state event next, Inv state → system.step state event = some next → Inv next)
    (kept : ∀ state event next, Inv state → property state → system.step state event = some next →
      (property next ↔ condition state event))
    {state : S} (events : List E) (start : Inv state) (holds : property state) :
    system.EveryState property state events ↔ system.EveryStep condition state events := by
  induction events generalizing state with
  | nil => exact iff_of_true holds trivial
  | cons event events ih =>
      have following (next : S) (stepped : next ∈ system.step state event) :
          system.EveryState property next events ↔ condition state event ∧ system.EveryStep condition next events := by
        have exact_step := kept state event next start holds stepped
        constructor
        · intro every
          have nextHolds : property next := every.head
          exact ⟨exact_step.mp nextHolds, (ih (preserved state event next start stepped) nextHolds).mp every⟩
        · intro met
          exact (ih (preserved state event next start stepped) (exact_step.mpr met.1)).mpr met.2
      constructor
      · intro every next stepped
        exact (following next stepped).mp (every.2 next stepped)
      · intro met
        exact ⟨holds, fun next stepped => (following next stepped).mpr (met next stepped)⟩

end EventSystem
