import Mathlib.Data.List.Basic

/-- An attempt is done, is refused in the state it has reached, crashes, or is still running when its fuel is used up. -/
inductive Attempt (E S : Type) where
  | done (state : S)
  | refused (error : E) (state : S)
  | crashed
  | running
  deriving DecidableEq

namespace Attempt

variable {E S T A : Type}

def map (f : S → T) : Attempt E S → Attempt E T
  | .done state => .done (f state)
  | .refused error state => .refused error (f state)
  | .crashed => .crashed
  | .running => .running

def bind (attempt : Attempt E S) (next : S → Attempt E S) : Attempt E S :=
  match attempt with
  | .done state => next state
  | .refused error state => .refused error state
  | .crashed => .crashed
  | .running => .running

/-- A missing result is a crash. -/
def ofOption : Option S → Attempt E S
  | some state => .done state
  | none => .crashed

/-- The loop goes on as long as its steps are done. -/
def loop (step : S → A → Attempt E S) (state : S) : List A → Attempt E S
  | [] => .done state
  | item :: rest => (step state item).bind fun next => loop step next rest

theorem map_map {U : Type} (f : S → T) (g : T → U) (attempt : Attempt E S) :
    (attempt.map f).map g = attempt.map fun state => g (f state) := by
  cases attempt <;> rfl

theorem map_eq_done {f : S → T} {attempt : Attempt E S} {final : T} :
    attempt.map f = .done final ↔ ∃ state, attempt = .done state ∧ f state = final := by
  cases attempt <;> simp [map]

theorem map_eq_refused {f : S → T} {attempt : Attempt E S} {error : E} {final : T} :
    attempt.map f = .refused error final ↔ ∃ state, attempt = .refused error state ∧ f state = final := by
  cases attempt <;> simp [map]

theorem bind_eq_done {attempt : Attempt E S} {next : S → Attempt E S} {final : S} :
    attempt.bind next = .done final ↔ ∃ state, attempt = .done state ∧ next state = .done final := by
  cases attempt <;> simp [bind]

theorem bind_eq_refused {attempt : Attempt E S} {next : S → Attempt E S} {error : E} {final : S} :
    attempt.bind next = .refused error final ↔
      attempt = .refused error final ∨ ∃ state, attempt = .done state ∧ next state = .refused error final := by
  cases attempt <;> simp [bind]

theorem ofOption_eq_done {result : Option S} {final : S} :
    (ofOption result : Attempt E S) = .done final ↔ result = some final := by
  cases result <;> simp [ofOption]

theorem ofOption_ne_refused {result : Option S} {error : E} {final : S} : ofOption result ≠ .refused error final := by
  cases result <;> simp [ofOption]

variable {step : S → A → Attempt E S}

/-- A change of the state that every step carries along is carried along by the whole loop. -/
theorem loop_map (f : S → S) (carried : ∀ state item, step (f state) item = (step state item).map f) (state : S)
    (items : List A) : loop step (f state) items = (loop step state items).map f := by
  induction items generalizing state with
  | nil => rfl
  | cons item rest ih =>
      rw [loop, loop, carried]
      cases step state item with
      | done next => exact ih next
      | refused error next => rfl
      | crashed => rfl
      | running => rfl

/-- What every done step keeps is kept by the whole loop. -/
theorem loop_invariant {items : List A} {state final : S} (Inv : S → Prop)
    (preserved : ∀ item ∈ items, ∀ state next, Inv state → step state item = .done next → Inv next)
    (start : Inv state) (ran : loop step state items = .done final) : Inv final := by
  induction items generalizing state with
  | nil =>
      obtain rfl : state = final := by simpa [loop] using ran
      exact start
  | cons item rest ih =>
      obtain ⟨next, stepped, following⟩ := bind_eq_done.mp ran
      have kept : Inv next := preserved item List.mem_cons_self state next start stepped
      exact ih (fun other member => preserved other (List.mem_cons_of_mem item member)) kept following

/-- A loop that is done is done with every step function that does at least the same. -/
theorem loop_mono {more : S → A → Attempt E S} {items : List A} {state final : S}
    (same : ∀ state item next, step state item = .done next → more state item = .done next)
    (ran : loop step state items = .done final) : loop more state items = .done final := by
  induction items generalizing state with
  | nil => exact ran
  | cons item rest ih =>
      obtain ⟨next, stepped, following⟩ := bind_eq_done.mp ran
      exact bind_eq_done.mpr ⟨next, same state item next stepped, ih following⟩

/-- A relation to the items that are done is carried from item to item. -/
theorem loop_prefix (Done : List A → S → Prop) {items : List A} {state final : S}
    (grows : ∀ before item state next, Done before state → step state item = .done next →
      Done (before ++ [item]) next)
    (start : Done [] state) (ran : loop step state items = .done final) : Done items final := by
  suffices ∀ before, Done before state → Done (before ++ items) final from this [] start
  clear start
  induction items generalizing state with
  | nil =>
      obtain rfl : state = final := by simpa [loop] using ran
      intro before done
      rwa [List.append_nil]
  | cons item rest ih =>
      obtain ⟨next, stepped, following⟩ := bind_eq_done.mp ran
      intro before done
      have grown := ih following (before ++ [item]) (grows before item state next done stepped)
      rwa [List.append_assoc] at grown

/-- A refused loop has done the items before the refused one. -/
theorem loop_refused {items : List A} {state final : S} {error : E} (ran : loop step state items = .refused error final) :
    ∃ before item after reached, items = before ++ item :: after ∧ loop step state before = .done reached ∧
      step reached item = .refused error final := by
  induction items generalizing state with
  | nil => simp [loop] at ran
  | cons item rest ih =>
      rcases bind_eq_refused.mp ran with refused | ⟨next, stepped, following⟩
      · exact ⟨[], item, rest, state, rfl, rfl, refused⟩
      · obtain ⟨before, bad, after, reached, rfl, done, refused⟩ := ih following
        exact ⟨item :: before, bad, after, reached, rfl, bind_eq_done.mpr ⟨next, stepped, done⟩, refused⟩

/-- A loop whose steps are never refused is never refused. -/
theorem loop_ne_refused {items : List A} {state final : S} {error : E}
    (never : ∀ state item error final, step state item ≠ .refused error final) :
    loop step state items ≠ .refused error final := by
  intro ran
  obtain ⟨before, item, after, reached, -, -, refused⟩ := loop_refused ran
  exact never reached item error final refused

/-- The attempt is done or refused in this state. -/
def EndsIn (attempt : Attempt E S) (final : S) : Prop := attempt = .done final ∨ ∃ error, attempt = .refused error final

theorem endsIn_map {f : S → T} {attempt : Attempt E S} {final : T} (ends : (attempt.map f).EndsIn final) :
    ∃ state, attempt.EndsIn state ∧ f state = final := by
  rcases ends with done | ⟨error, refused⟩
  · obtain ⟨state, ran, same⟩ := map_eq_done.mp done
    exact ⟨state, Or.inl ran, same⟩
  · obtain ⟨state, ran, same⟩ := map_eq_refused.mp refused
    exact ⟨state, Or.inr ⟨error, ran⟩, same⟩

theorem endsIn_bind {attempt : Attempt E S} {next : S → Attempt E S} {final : S} (ends : (attempt.bind next).EndsIn final) :
    attempt.EndsIn final ∨ ∃ state, attempt = .done state ∧ (next state).EndsIn final := by
  rcases ends with done | ⟨error, refused⟩
  · obtain ⟨state, ran, following⟩ := bind_eq_done.mp done
    exact Or.inr ⟨state, ran, Or.inl following⟩
  · rcases bind_eq_refused.mp refused with first | ⟨state, ran, following⟩
    · exact Or.inl (Or.inr ⟨error, first⟩)
    · exact Or.inr ⟨state, ran, Or.inr ⟨error, following⟩⟩

/-- What two attempts keep is kept by one after the other. -/
theorem bind_keeps {attempt : Attempt E S} {next : S → Attempt E S} {final : S} (Inv : S → Prop)
    (first : ∀ state, attempt.EndsIn state → Inv state)
    (second : ∀ state, Inv state → ∀ last, (next state).EndsIn last → Inv last)
    (ends : (attempt.bind next).EndsIn final) : Inv final := by
  rcases endsIn_bind ends with here | ⟨state, ran, later⟩
  · exact first final here
  · exact second state (first state (Or.inl ran)) final later

/-- What every step keeps when it is done or refused is kept by the whole loop. -/
theorem loop_keeps {items : List A} {state final : S} (Inv : S → Prop)
    (preserved : ∀ item ∈ items, ∀ state, Inv state → ∀ next, (step state item).EndsIn next → Inv next)
    (start : Inv state) (ends : (loop step state items).EndsIn final) : Inv final := by
  induction items generalizing state final with
  | nil =>
      rcases ends with done | ⟨error, refused⟩
      · obtain rfl := Attempt.done.inj done
        exact start
      · cases refused
  | cons item rest ih =>
      have kept : ∀ next, (step state item).EndsIn next → Inv next := preserved item List.mem_cons_self state start
      apply bind_keeps Inv kept _ ends
      intro next nextKept last later
      exact ih (fun other member => preserved other (List.mem_cons_of_mem item member)) nextKept later

/-- A loop over two lists is done when it is done over one after the other. -/
theorem loop_append_done {first second : List A} {state final : S} :
    loop step state (first ++ second) = .done final ↔
      ∃ middle, loop step state first = .done middle ∧ loop step middle second = .done final := by
  induction first generalizing state with
  | nil => simp [loop]
  | cons item rest ih =>
      rw [List.cons_append, loop, bind_eq_done]
      constructor
      · rintro ⟨next, stepped, following⟩
        obtain ⟨middle, done, finished⟩ := ih.mp following
        exact ⟨middle, bind_eq_done.mpr ⟨next, stepped, done⟩, finished⟩
      · rintro ⟨middle, done, finished⟩
        obtain ⟨next, stepped, following⟩ := bind_eq_done.mp done
        exact ⟨next, stepped, ih.mpr ⟨middle, following, finished⟩⟩

/-- Every item is accepted after those before it. -/
def AllAccepted (accepts : List A → A → Prop) (items : List A) : Prop :=
  ∀ before item, before ++ [item] <+: items → accepts before item

theorem allAccepted_const {accepts : A → Prop} {items : List A} :
    AllAccepted (fun _ => accepts) items ↔ ∀ item ∈ items, accepts item := by
  constructor
  · intro accepted item member
    obtain ⟨before, after, rfl⟩ := List.append_of_mem member
    exact accepted before item ⟨after, by simp⟩
  · intro accepted before item within
    exact accepted item (within.mem (List.mem_append_right before List.mem_cons_self))

/-- The items that are reached through accepted ones are those of the longest accepted prefix and the one behind it. -/
theorem forall_reached_iff {accepts : A → Prop} (P : A → Prop) {items before : List A} (within : before <+: items)
    (accepted : ∀ item ∈ before, accepts item) (stops : ∀ item, before ++ [item] <+: items → ¬accepts item) :
    (∀ other item, other ++ [item] <+: items → (∀ earlier ∈ other, accepts earlier) → P item) ↔
      (∀ item ∈ before, P item) ∧ ∀ item, before ++ [item] <+: items → P item := by
  constructor
  · intro reached
    refine ⟨?_, fun item longer => reached before item longer accepted⟩
    intro item member
    obtain ⟨first, rest, rfl⟩ := List.append_of_mem member
    apply reached first item (List.IsPrefix.trans ⟨rest, by simp⟩ within)
    intro earlier early
    exact accepted earlier (List.mem_append_left _ early)
  · intro holds other item longer othersAccepted
    rcases List.prefix_or_prefix_of_prefix longer within with shorter | beyond
    · exact holds.1 item (shorter.mem (List.mem_append_right other List.mem_cons_self))
    · rcases List.prefix_concat_iff.mp beyond with rfl | ⟨tail, rfl⟩
      · exact holds.1 item (List.mem_append_right other List.mem_cons_self)
      · cases tail with
        | nil =>
            rw [List.append_nil] at longer
            exact holds.2 item longer
        | cons next rest =>
            have reached : before ++ [next] <+: items := List.IsPrefix.trans ⟨rest ++ [item], by simp⟩ longer
            have nextAccepted : accepts next := othersAccepted next (List.mem_append_right before List.mem_cons_self)
            exact absurd nextAccepted (stops next reached)

theorem eq_of_append_singletons {before items : List A} {first second : A} (left : before ++ [first] <+: items)
    (right : before ++ [second] <+: items) : first = second := by
  have same := (List.prefix_of_prefix_length_le left right (by simp)).eq_of_length (by simp)
  simpa using same

/-- The loop does only accepted items, and it refuses only others. -/
structure Decides (step : S → A → Attempt E S) (start : S) (accepts : List A → A → Prop) : Prop where
  done : ∀ before item state next, loop step start before = .done state → step state item = .done next →
    accepts before item
  refused : ∀ before item state error next, loop step start before = .done state →
    step state item = .refused error next → ¬accepts before item

namespace Decides

variable {start final : S} {accepts : List A → A → Prop} {items : List A}

/-- A loop that is done has accepted all its items. -/
theorem allAccepted (decides : Decides step start accepts) (ran : loop step start items = .done final) :
    AllAccepted accepts items := by
  intro before item within
  obtain ⟨after, rfl⟩ := within
  obtain ⟨middle, first, -⟩ := loop_append_done.mp ran
  obtain ⟨state, done, last⟩ := loop_append_done.mp first
  obtain ⟨next, stepped, -⟩ := bind_eq_done.mp last
  exact decides.done before item state next done stepped

/-- A loop that is refused has accepted the items before the refused one and no others. -/
theorem refusedAt {error : E} (decides : Decides step start accepts) (ran : loop step start items = .refused error final) :
    ∃ before item reached, before ++ [item] <+: items ∧ loop step start before = .done reached ∧
      step reached item = .refused error final ∧ AllAccepted accepts before ∧ ¬accepts before item ∧
      ∀ other, other <+: items → AllAccepted accepts other → other <+: before := by
  obtain ⟨before, item, after, reached, rfl, done, refused⟩ := loop_refused ran
  have within : before ++ [item] <+: before ++ item :: after := ⟨after, by simp⟩
  have rejected := decides.refused before item reached error final done refused
  refine ⟨before, item, reached, within, done, refused, decides.allAccepted done, rejected, ?_⟩
  intro other otherWithin accepted
  rcases List.prefix_or_prefix_of_prefix otherWithin within with shorter | longer
  · rcases List.prefix_concat_iff.mp shorter with rfl | shorter
    · exact absurd (accepted before item (List.prefix_refl _)) rejected
    · exact shorter
  · exact absurd (accepted before item longer) rejected

end Decides

end Attempt

theorem Except.exists_of_bind_eq_ok {ε α β : Type} {result : Except ε α} {f : α → Except ε β} {out : β}
    (bound : result.bind f = .ok out) : ∃ value, result = .ok value ∧ f value = .ok out := by
  cases result with
  | error e => cases bound
  | ok value => exact ⟨value, rfl, bound⟩

namespace Except

variable {E A B : Type} {bad : E → Prop}

/-- The computation does not fail in one of the given ways. -/
def Avoids (bad : E → Prop) (result : Except E A) : Prop := ∀ error, bad error → result ≠ .error error

theorem avoids_ok (value : A) : Avoids bad (.ok value) := fun _ _ => nofun

theorem avoids_error {error : E} (good : ¬ bad error) : Avoids bad (.error error : Except E A) := by
  rintro other isBad same
  exact good (Except.error.inj same ▸ isBad)

theorem Avoids.bind {result : Except E A} {f : A → Except E B} (first : Avoids bad result)
    (rest : ∀ value, Avoids bad (f value)) : Avoids bad (result.bind f) := by
  cases result with
  | ok value => exact rest value
  | error error => exact avoids_error fun isBad => first error isBad rfl

theorem Avoids.map {result : Except E A} (first : Avoids bad result) (f : A → B) : Avoids bad (result.map f) := by
  cases result with
  | ok value => exact avoids_ok _
  | error error => exact avoids_error fun isBad => first error isBad rfl

end Except
