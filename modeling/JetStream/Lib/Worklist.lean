import Mathlib.Data.Finset.Card
import Mathlib.Data.List.Basic
import Mathlib.Logic.Relation

namespace Worklist

variable {α : Type} (next : α → List α)

/-- The last node on the list gives way to the nodes that follow it, and no node is marked. -/
def explore : ℕ → List α → List α → Option (List α)
  | 0, _, _ => none
  | fuel + 1, pending, found =>
      match pending.getLast? with
      | none => some found
      | some n => explore fuel (pending.dropLast ++ next n) (found ++ [n])

/-- The second node follows the first one. -/
def Step (n m : α) : Prop := m ∈ next n

/-- Every way on from the node ends. -/
def Ends (n : α) : Prop := Acc (fun m n => Step next n m) n

variable {next}

theorem explore_append {n : α} (fuel : ℕ) (pending found : List α) :
    explore next (fuel + 1) (pending ++ [n]) found = explore next fuel (pending ++ next n) (found ++ [n]) := by
  simp only [explore, List.getLast?_concat, List.dropLast_concat]

/-- More fuel does not change what was found. -/
theorem explore_mono {fuel more : ℕ} {pending found all : List α} (ran : explore next fuel pending found = some all)
    (enough : fuel ≤ more) : explore next more pending found = some all := by
  induction fuel generalizing more pending found with
  | zero => cases ran
  | succ fuel ih =>
      obtain ⟨more, rfl⟩ : ∃ less, more = less + 1 := ⟨more - 1, by omega⟩
      rw [explore] at ran ⊢
      split at ran
      · exact ran
      · exact ih ran (Nat.le_of_succ_le_succ enough)

theorem Ends.step {n m : α} (ends : Ends next n) (step : Step next n m) : Ends next m := Acc.inv ends step

theorem Ends.reaches {n m : α} (ends : Ends next n) (path : Relation.ReflTransGen (Step next) n m) : Ends next m := by
  induction path with
  | refl => exact ends
  | tail _ step ih => exact ih.step step

theorem Ends.mono {other : α → List α} (fewer : ∀ n m, Step other n m → Step next n m) {n : α} (ends : Ends next n) :
    Ends other n :=
  Subrelation.accessible (fun step => fewer _ _ step) ends

/-- A node whose ways end is not on a cycle. -/
theorem Ends.not_cycle {n : α} (ends : Ends next n) : ¬ Relation.TransGen (Step next) n n := by
  intro cycle
  have back : Relation.TransGen (fun m n => Step next n m) n n := Relation.transGen_swap.mp cycle
  have acc : Acc (Relation.TransGen fun m n => Step next n m) n := Acc.transGen ends
  clear ends cycle
  induction acc with
  | intro n _ ih => exact ih n back back

/-- When the lists of some nodes have been explored one after the other, the rest of the list is left. -/
theorem explore_steps {l : List α} (each : ∀ n ∈ l, ∃ (steps : ℕ) (names : List α),
      (∀ x, x ∈ names ↔ Relation.ReflTransGen (Step next) n x) ∧ ∀ fuel pending found,
        explore next (fuel + steps) (pending ++ [n]) found = explore next fuel pending (found ++ names)) :
    ∃ (steps : ℕ) (names : List α), (∀ x, x ∈ names ↔ ∃ n ∈ l, Relation.ReflTransGen (Step next) n x) ∧
      ∀ fuel pending found,
        explore next (fuel + steps) (pending ++ l) found = explore next fuel pending (found ++ names) := by
  induction l with
  | nil => exact ⟨0, [], by simp, by simp⟩
  | cons n rest ih =>
      obtain ⟨later, names, members, ran⟩ := ih fun m member => each m (List.mem_cons_of_mem _ member)
      obtain ⟨own, mine, reached, took⟩ := each n List.mem_cons_self
      refine ⟨own + later, names ++ mine, fun x => ?_, fun fuel pending found => ?_⟩
      · rw [List.mem_append, members, reached, or_comm]
        simp only [List.mem_cons, exists_eq_or_imp]
      · rw [← Nat.add_assoc, show pending ++ n :: rest = (pending ++ [n]) ++ rest by simp, ran, took,
          List.append_assoc]

/-- A node whose ways end is explored in finitely many steps, which find the nodes that can be reached from it. -/
theorem Ends.explore_node {n : α} (ends : Ends next n) : ∃ (steps : ℕ) (names : List α),
    (∀ x, x ∈ names ↔ Relation.ReflTransGen (Step next) n x) ∧ ∀ fuel pending found,
      explore next (fuel + steps) (pending ++ [n]) found = explore next fuel pending (found ++ names) := by
  induction ends with
  | intro n _ ih =>
      obtain ⟨steps, names, members, ran⟩ := explore_steps (l := next n) fun m step => ih m step
      refine ⟨steps + 1, n :: names, fun x => ?_, fun fuel pending found => ?_⟩
      · rw [List.mem_cons, members, Relation.ReflTransGen.cases_head_iff, eq_comm]
        rfl
      · rw [← Nat.add_assoc, explore_append, ran, List.append_assoc, List.singleton_append]

/-- The exploration ends when every way on from the list does, and it finds exactly the nodes that can be reached. -/
theorem explore_eq {pending : List α} (ends : ∀ n ∈ pending, Ends next n) (found : List α) :
    ∃ bound names, (∀ fuel ≥ bound, explore next fuel pending found = some (found ++ names)) ∧
      ∀ x, x ∈ names ↔ ∃ n ∈ pending, Relation.ReflTransGen (Step next) n x := by
  obtain ⟨steps, names, members, ran⟩ := explore_steps fun n member => (ends n member).explore_node
  refine ⟨1 + steps, names, fun fuel enough => explore_mono ?_ enough, members⟩
  rw [← List.nil_append pending, ran]
  rfl

/-- The exploration does not end when some way on from the list does not. -/
theorem explore_eq_none {n : α} (endless : ¬ Ends next n) (fuel : ℕ) {pending : List α} (member : n ∈ pending)
    (found : List α) : explore next fuel pending found = none := by
  induction fuel generalizing pending found n with
  | zero => rfl
  | succ fuel ih =>
      obtain ⟨front, last, rfl⟩ := List.eq_nil_or_concat pending |>.resolve_left (List.ne_nil_of_mem member)
      rw [List.concat_eq_append] at member ⊢
      rw [explore_append]
      rcases List.mem_append.mp member with early | here
      · exact ih endless (List.mem_append_left _ early) _
      · obtain rfl := List.mem_singleton.mp here
        obtain ⟨m, step, on⟩ : ∃ m, Step next n m ∧ ¬ Ends next m := by
          by_contra all
          exact endless (Acc.intro n fun m step => by_contra fun on => all ⟨m, step, on⟩)
        exact ih on (List.mem_append_right _ step) _

/-- Among finitely many nodes every way on from a node ends when no cycle can be reached from it. -/
theorem ends_of_not_cycle (nodes : List α) (inside : ∀ n m, Step next n m → m ∈ nodes) {n : α}
    (clear : ∀ x, Relation.ReflTransGen (Step next) n x → ¬ Relation.TransGen (Step next) x x) : Ends next n := by
  classical
  induction size : (nodes.toFinset.filter fun x => Relation.TransGen (Step next) n x).card
    using Nat.strong_induction_on generalizing n with
  | _ size ih =>
      refine Acc.intro n fun m step => ih _ ?_ (fun x path => clear x (path.head step)) rfl
      rw [← size]
      apply Finset.card_lt_card
      refine Finset.ssubset_iff_of_subset (fun x member => ?_) |>.mpr ⟨m, ?_, fun member => ?_⟩
      · rw [Finset.mem_filter] at member ⊢
        exact ⟨member.1, member.2.head step⟩
      · exact Finset.mem_filter.mpr ⟨List.mem_toFinset.mpr (inside n m step), .single step⟩
      · exact clear m (.single step) (Finset.mem_filter.mp member).2

end Worklist
