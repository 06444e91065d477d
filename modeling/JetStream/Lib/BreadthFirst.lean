import Mathlib.Data.List.Basic
import Mathlib.Data.Nat.Notation

namespace BreadthFirst

variable {α : Type} [DecidableEq α] (successors : α → List α)

/-- Each turn takes the head from the queue and appends those successors of it that are not known yet. -/
def search : ℕ → List α → List α → List α
  | 0, visited, _ => visited
  | _ + 1, visited, [] => visited
  | turns + 1, visited, n :: pending =>
      search turns (visited ++ [n]) (pending ++ (successors n).filter fun m => m ∉ visited ++ n :: pending)

/-- What has been visited stays in front. -/
theorem prefix_search (turns : ℕ) (visited pending : List α) : visited <+: search successors turns visited pending := by
  induction turns generalizing visited pending with
  | zero => exact List.prefix_rfl
  | succ turns ih =>
      cases pending with
      | nil => exact List.prefix_rfl
      | cons n pending => exact (List.prefix_append visited [n]).trans (ih _ _)

/-- The head of the queue is visited next. -/
theorem exists_search_cons (turns : ℕ) (visited pending : List α) (n : α) :
    ∃ later, search successors (turns + 1) visited (n :: pending) = visited ++ n :: later := by
  obtain ⟨later, same⟩ := prefix_search successors turns (visited ++ [n])
    (pending ++ (successors n).filter fun m => m ∉ visited ++ n :: pending)
  refine ⟨later, ?_⟩
  rw [search, ← same, List.append_assoc, List.singleton_append]

end BreadthFirst
