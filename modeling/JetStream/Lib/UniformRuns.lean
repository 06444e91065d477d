import Mathlib.Algebra.BigOperators.Group.List.Basic
import Mathlib.Algebra.Order.Field.Rat
import Mathlib.Data.List.Nodup
import Mathlib.Tactic.FieldSimp
import Mathlib.Tactic.Ring

namespace UniformRuns

variable {σ α : Type*}

/-- Every sequence of choices gives one outcome of the run. -/
def outcomes (step : σ → α → List σ) : List α → σ → List σ
  | [], state => [state]
  | input :: rest, state => (step state input).flatMap (outcomes step rest)

/-- The chance of an event is the share of the outcomes in which it happens. -/
def chance (results : List σ) (event : σ → Bool) : ℚ := results.countP event / results.length

section Range

/-- A draw misses one position in all cases but one. -/
theorem countP_range_ne {bound position : ℕ} (inside : position < bound) :
    (List.range bound).countP (fun i => !(i == position)) = bound - 1 := by
  have split := List.length_eq_countP_add_countP (l := List.range bound) (fun i => i == position)
  have once : (List.range bound).countP (fun i => i == position) = 1 :=
    List.count_eq_one_of_mem List.nodup_range (List.mem_range.mpr inside)
  have negation : (fun i : ℕ => decide ¬(i == position) = true) = fun i => !(i == position) := by
    funext i
    by_cases here : i = position <;> simp [here]
  rw [List.length_range, once, negation] at split
  omega

/-- As many draws lie below a number as it says. -/
theorem countP_range_lt {bound number : ℕ} (inside : number ≤ bound) :
    (List.range bound).countP (fun i => decide (i < number)) = number := by
  obtain ⟨rest, rfl⟩ := Nat.exists_eq_add_of_le inside
  have below : (List.range number).countP (fun i => decide (i < number)) = number := by
    rw [List.countP_eq_length.mpr fun i member => decide_eq_true (List.mem_range.mp member), List.length_range]
  have above : ((List.range rest).map (number + ·)).countP (fun i => decide (i < number)) = 0 := by
    rw [List.countP_eq_zero]
    intro i member
    obtain ⟨j, -, rfl⟩ := List.mem_map.mp member
    simp
  rw [List.range_add, List.countP_append, below, above, Nat.add_zero]

end Range

section Outcomes

variable {step : σ → α → List σ}

theorem outcomes_append (first second : List α) (state : σ) :
    outcomes step (first ++ second) state = (outcomes step first state).flatMap (outcomes step second) := by
  induction first generalizing state with
  | nil => simp [outcomes]
  | cons input rest ih =>
      rw [List.cons_append, outcomes, outcomes, List.flatMap_assoc]
      congr 1
      funext next
      exact ih next

/-- The last input is processed in every outcome of the inputs before it. -/
theorem outcomes_concat (inputs : List α) (input : α) (state : σ) :
    outcomes step (inputs ++ [input]) state = (outcomes step inputs state).flatMap fun next => step next input := by
  rw [outcomes_append]
  congr 1
  funext next
  rw [outcomes]
  exact List.flatMap_singleton' _

/-- A run that always has a choice has an outcome. -/
theorem outcomes_ne_nil (proceeds : ∀ state input, step state input ≠ []) (inputs : List α) (state : σ) :
    outcomes step inputs state ≠ [] := by
  induction inputs generalizing state with
  | nil => exact List.cons_ne_nil _ _
  | cons input rest ih =>
      obtain ⟨next, member⟩ := List.exists_mem_of_ne_nil _ (proceeds state input)
      obtain ⟨final, reached⟩ := List.exists_mem_of_ne_nil _ (ih next)
      rw [outcomes]
      exact List.ne_nil_of_mem (List.mem_flatMap.mpr ⟨next, member, reached⟩)

end Outcomes

section Chance

variable {results : List σ} {event : σ → Bool}

/-- An event that happens in every outcome is certain. -/
theorem chance_eq_one (possible : results ≠ []) (always : ∀ state ∈ results, event state = true) :
    chance results event = 1 := by
  have length : (results.length : ℚ) ≠ 0 := Nat.cast_ne_zero.mpr (mt List.length_eq_zero_iff.mp possible)
  rw [chance, List.countP_eq_length.mpr always, div_self length]

theorem chance_eq_zero (never : ∀ state ∈ results, event state = false) : chance results event = 0 := by
  have none_ : results.countP event = 0 := by
    rw [List.countP_eq_zero]
    intro state member happens
    rw [never state member] at happens
    cases happens
  rw [chance, none_, Nat.cast_zero, zero_div]

variable {next : σ → List σ} {choices : ℕ}

theorem length_flatMap_eq (uniform : ∀ state ∈ results, (next state).length = choices) :
    (results.flatMap next).length = results.length * choices := by
  induction results with
  | nil => simp
  | cons state rest ih =>
      rw [List.flatMap_cons, List.length_append, uniform state List.mem_cons_self,
        ih fun other member => uniform other (List.mem_cons_of_mem _ member), List.length_cons, Nat.succ_mul, Nat.add_comm]

theorem countP_flatMap_eq {kept gained : ℕ} (keeps : ∀ state ∈ results, event state = true → (next state).countP event = kept)
    (gains : ∀ state ∈ results, event state = false → (next state).countP event = gained) :
    (results.flatMap next).countP event =
      results.countP event * kept + (results.length - results.countP event) * gained := by
  induction results with
  | nil => simp
  | cons state rest ih =>
      have later := ih (fun other member => keeps other (List.mem_cons_of_mem _ member))
        fun other member => gains other (List.mem_cons_of_mem _ member)
      have atMost : rest.countP event ≤ rest.length := List.countP_le_length
      rw [List.flatMap_cons, List.countP_append, later]
      cases happens : event state with
      | true =>
          rw [keeps state List.mem_cons_self happens, List.countP_cons_of_pos happens, List.length_cons,
            Nat.add_sub_add_right, Nat.succ_mul]
          omega
      | false =>
          have count : (state :: rest).countP event = rest.countP event :=
            List.countP_cons_of_neg (by rw [happens]; exact Bool.false_ne_true)
          rw [gains state List.mem_cons_self happens, count, List.length_cons, Nat.succ_sub atMost, Nat.succ_mul]
          omega

/-- One more uniform choice keeps the event with one share and brings it about with another. -/
theorem chance_flatMap (kept gained : ℕ) (possible : results ≠ []) (positive : 0 < choices)
    (uniform : ∀ state ∈ results, (next state).length = choices)
    (keeps : ∀ state ∈ results, event state = true → (next state).countP event = kept)
    (gains : ∀ state ∈ results, event state = false → (next state).countP event = gained) :
    chance (results.flatMap next) event =
      chance results event * (kept / choices) + (1 - chance results event) * (gained / choices) := by
  have length : (results.length : ℚ) ≠ 0 := Nat.cast_ne_zero.mpr (mt List.length_eq_zero_iff.mp possible)
  have defined : (choices : ℚ) ≠ 0 := Nat.cast_ne_zero.mpr positive.ne'
  have atMost : results.countP event ≤ results.length := List.countP_le_length
  unfold chance
  rw [length_flatMap_eq uniform, countP_flatMap_eq keeps gains]
  push_cast [Nat.cast_sub atMost]
  field_simp

end Chance

end UniformRuns
