import Mathlib.Algebra.GroupWithZero.Nat
import Mathlib.Algebra.BigOperators.Group.List.Basic
import Mathlib.Algebra.Order.BigOperators.Group.List
import Mathlib.Algebra.Order.Group.Nat

variable {α : Type}

/-- One entry is exchanged in the sum. -/
theorem List.sum_map_set (f : α → ℕ) {items : List α} {i : ℕ} {old : α} (read : items[i]? = some old) (new : α) :
    ((items.set i new).map f).sum + f old = (items.map f).sum + f new := by
  induction items generalizing i with
  | nil => cases read
  | cons item items ih =>
      cases i with
      | zero =>
          obtain rfl := Option.some.inj read
          simp only [List.set_cons_zero, List.map_cons, List.sum_cons]
          omega
      | succ i =>
          have tail := ih (i := i) read
          simp only [List.set_cons_succ, List.map_cons, List.sum_cons]
          omega

/-- One entry leaves the sum. -/
theorem List.sum_map_eraseIdx (f : α → ℕ) {items : List α} {i : ℕ} {old : α} (read : items[i]? = some old) :
    ((items.eraseIdx i).map f).sum + f old = (items.map f).sum := by
  induction items generalizing i with
  | nil => cases read
  | cons item items ih =>
      cases i with
      | zero =>
          obtain rfl := Option.some.inj read
          simp only [List.eraseIdx_cons_zero, List.map_cons, List.sum_cons]
          omega
      | succ i =>
          have tail := ih (i := i) read
          simp only [List.eraseIdx_cons_succ, List.map_cons, List.sum_cons]
          omega

/-- The entries with a property are counted by their indicators. -/
theorem List.sum_map_toNat (p : α → Bool) (items : List α) :
    (items.map fun item => (p item).toNat).sum = (items.filter p).length := by
  induction items with
  | nil => rfl
  | cons item items ih =>
      rw [List.map_cons, List.sum_cons, ih, List.filter_cons]
      cases p item with
      | true => simp [Nat.add_comm]
      | false => simp
