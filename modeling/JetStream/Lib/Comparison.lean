import Mathlib.Data.List.Lex
import Mathlib.Order.WithBot

namespace Comparison

section Sign

variable {β κ : Type}

/-- The sign of a comparison is the order of the keys. -/
structure Follows [LinearOrder κ] (compare : β → β → ℤ) (key : β → κ) : Prop where
  neg_iff : ∀ a b, compare a b < 0 ↔ key a < key b
  zero_iff : ∀ a b, compare a b = 0 ↔ key a = key b

/-- A sort can rely on the comparison. -/
structure Consistent (compare : β → β → ℤ) : Prop where
  refl : ∀ a, compare a a = 0
  swap : ∀ a b, compare a b < 0 ↔ 0 < compare b a
  trans : ∀ a b c, compare a b ≤ 0 → compare b c ≤ 0 → compare a c ≤ 0
  total : ∀ a b, compare a b ≤ 0 ∨ compare b a ≤ 0

/-- Only equal values compare as equal. -/
structure TotalOrder (compare : β → β → ℤ) : Prop extends Consistent compare where
  antisymm : ∀ a b, compare a b ≤ 0 → compare b a ≤ 0 → a = b
  eq_of_zero : ∀ a b, compare a b = 0 → a = b

variable [LinearOrder κ] {compare : β → β → ℤ} {key : β → κ}

theorem Follows.nonpos_iff (follows : Follows compare key) (a b : β) : compare a b ≤ 0 ↔ key a ≤ key b := by
  rw [le_iff_lt_or_eq, follows.neg_iff, follows.zero_iff, ← le_iff_lt_or_eq]

theorem Follows.pos_iff (follows : Follows compare key) (a b : β) : 0 < compare a b ↔ key b < key a := by
  rw [← not_le, follows.nonpos_iff, not_le]

theorem Follows.consistent (follows : Follows compare key) : Consistent compare where
  refl := fun a => (follows.zero_iff a a).mpr rfl
  swap := by
    intro a b
    rw [follows.neg_iff, follows.pos_iff]
  trans := by
    intro a b c
    rw [follows.nonpos_iff, follows.nonpos_iff, follows.nonpos_iff]
    exact le_trans
  total := by
    intro a b
    rw [follows.nonpos_iff, follows.nonpos_iff]
    exact le_total _ _

/-- An injective key makes the order total. -/
theorem Follows.totalOrder (follows : Follows compare key) (injective : Function.Injective key) :
    TotalOrder compare where
  toConsistent := follows.consistent
  antisymm := by
    intro a b
    rw [follows.nonpos_iff, follows.nonpos_iff]
    exact fun below above => injective (le_antisymm below above)
  eq_of_zero := fun a b same => injective ((follows.zero_iff a b).mp same)

/-- Values may be compared by one of their fields. -/
theorem Follows.comap (follows : Follows compare key) {γ : Type} (field : γ → β) :
    Follows (fun a b => compare (field a) (field b)) (key ∘ field) where
  neg_iff := fun a b => follows.neg_iff (field a) (field b)
  zero_iff := fun a b => follows.zero_iff (field a) (field b)

end Sign

section Subtree

variable {α : Type}

/-- A path lies under another one when it goes on with a separator. -/
def Under (separator : α) (path other : List α) : Prop := path ++ [separator] <+: other

variable [LinearOrder α] {separator : α} {path first last : List α}

/-- A path comes before everything that extends it. -/
theorem lt_of_extends (extends_ : path <+: first) (different : first ≠ path) : path < first := by
  obtain ⟨rest, rfl⟩ := extends_
  cases rest with
  | nil => exact absurd (List.append_nil path) different
  | cons a rest =>
      have longer : path ++ [] < path ++ a :: rest := List.append_left_lt (List.nil_lt_cons a rest)
      rwa [List.append_nil] at longer

theorem lt_of_under (inside : Under separator path first) : path < first := by
  apply lt_of_extends ((List.prefix_append path [separator]).trans inside)
  rintro rfl
  have size := inside.length_le
  rw [List.length_append, List.length_singleton] at size
  omega

theorem cons_le_cons_iff {a b : α} {first last : List α} : a :: first ≤ b :: last ↔ a < b ∨ a = b ∧ first ≤ last := by
  rw [le_iff_lt_or_eq, List.cons_lt_cons_iff, List.cons.injEq, le_iff_lt_or_eq (a := first)]
  tauto

/-- Everything between a path and something under it lies under it, because no letter is below the separator. -/
theorem under_of_lt_of_le (least : ∀ a, separator ≤ a) (after : path < first) (before : first ≤ last)
    (inside : Under separator path last) : Under separator path first := by
  obtain ⟨rest, rfl⟩ := inside
  induction path generalizing first with
  | nil =>
      cases first with
      | nil => exact absurd after (lt_irrefl _)
      | cons a first =>
          rcases cons_le_cons_iff.mp before with below | ⟨rfl, -⟩
          · exact absurd below (least a).not_gt
          · exact ⟨first, rfl⟩
  | cons b path ih =>
      cases first with
      | nil => exact absurd after (List.not_lt_nil _)
      | cons a first =>
          rcases List.cons_lt_cons_iff.mp after with above | ⟨rfl, later⟩
          · rcases cons_le_cons_iff.mp before with below | ⟨rfl, -⟩
            · exact absurd above below.not_gt
            · exact absurd above (lt_irrefl _)
          · rcases cons_le_cons_iff.mp before with below | ⟨-, earlier⟩
            · exact absurd below (lt_irrefl _)
            · exact List.cons_prefix_cons.mpr ⟨rfl, ih later earlier⟩

/-- The other extensions of a path come after everything under it. -/
theorem lt_of_not_under (least : ∀ a, separator ≤ a) (inside : Under separator path first)
    (extends_ : path <+: last) (different : last ≠ path) (outside : ¬ Under separator path last) : first < last := by
  by_contra notBefore
  exact outside (under_of_lt_of_le least (lt_of_extends extends_ different) (not_lt.mp notBefore) inside)

end Subtree

end Comparison
