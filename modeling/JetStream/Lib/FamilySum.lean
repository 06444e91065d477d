import Mathlib.Algebra.BigOperators.Fin

/-- Replacing one member of a family changes the sum by that member. -/
theorem sum_update_member {ι α M : Type} [Fintype ι] [DecidableEq ι] [AddCommMonoid M] (weight : ι → α → M) (family : ι → α)
    (i : ι) (value : α) :
    ∑ j, weight j (Function.update family i value j) + weight i (family i) =
      ∑ j, weight j (family j) + weight i value := by
  rw [Fintype.sum_eq_add_sum_compl i, Fintype.sum_eq_add_sum_compl i fun j => weight j (family j)]
  have same : ∑ j ∈ {i}ᶜ, weight j (Function.update family i value j) = ∑ j ∈ {i}ᶜ, weight j (family j) := by
    apply Finset.sum_congr rfl
    intro j member
    rw [Finset.mem_compl, Finset.mem_singleton] at member
    rw [Function.update_of_ne member]
  rw [same, Function.update_self, add_right_comm, add_comm (weight i value), add_right_comm]

/-- Replacing the members of two families at one place keeps the sum when it keeps their joint weight. -/
theorem sum_update_members {ι α β M : Type} [Fintype ι] [DecidableEq ι] [AddCommMonoid M] (weight : ι → α → β → M)
    (first : ι → α) (second : ι → β) {i : ι} {a : α} {b : β} (same : weight i a b = weight i (first i) (second i)) :
    ∑ j, weight j (Function.update first i a j) (Function.update second i b j) =
      ∑ j, weight j (first j) (second j) := by
  apply Finset.sum_congr rfl
  intro j _
  by_cases here : j = i
  · rw [here, Function.update_self, Function.update_self, same]
  · rw [Function.update_of_ne here, Function.update_of_ne here]
