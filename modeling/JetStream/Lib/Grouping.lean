import Mathlib.Algebra.BigOperators.Group.Finset.Piecewise
import Mathlib.Data.List.Dedup

variable {ρ κ M : Type} [DecidableEq κ] [AddCommMonoid M]

/-- This is the total of the rows with the given key. -/
def groupTotal (key : ρ → κ) (value : ρ → M) (rows : List ρ) (k : κ) : M :=
  ((rows.filter fun row => key row = k).map value).sum

namespace Grouping

variable {key : ρ → κ} {value : ρ → M} {rows : List ρ}

theorem groupTotal_cons (row : ρ) (k : κ) :
    groupTotal key value (row :: rows) k = (if key row = k then value row else 0) + groupTotal key value rows k := by
  by_cases here : key row = k <;> simp [groupTotal, here]

theorem groupTotal_perm {other : List ρ} (same : rows.Perm other) (k : κ) :
    groupTotal key value rows k = groupTotal key value other k :=
  ((same.filter _).map _).sum_eq

theorem groupTotal_congr {key' : ρ → κ} {value' : ρ → M} (keys : ∀ row ∈ rows, key row = key' row)
    (values : ∀ row ∈ rows, value row = value' row) (k : κ) :
    groupTotal key value rows k = groupTotal key' value' rows k := by
  induction rows with
  | nil => rfl
  | cons row rest ih =>
      rw [groupTotal_cons, groupTotal_cons, keys row List.mem_cons_self, values row List.mem_cons_self,
        ih (fun other member => keys other (List.mem_cons_of_mem _ member)) fun other member =>
          values other (List.mem_cons_of_mem _ member)]

/-- The totals of the groups that a coarser key joins add up to the total under that key. -/
theorem sum_groupTotal {κ' : Type} [DecidableEq κ'] (coarser : κ → κ') {keys : Finset κ}
    (covered : ∀ row ∈ rows, key row ∈ keys) (k : κ') :
    ∑ fine ∈ keys with coarser fine = k, groupTotal key value rows fine =
      groupTotal (fun row => coarser (key row)) value rows k := by
  induction rows with
  | nil => simp [groupTotal]
  | cons row rest ih =>
      simp only [groupTotal_cons]
      rw [Finset.sum_add_distrib, ih fun other member => covered other (List.mem_cons_of_mem _ member)]
      congr 1
      rw [Finset.sum_ite_eq]
      simp [covered row List.mem_cons_self]

/-- Rows with one value for each key of a list have the value of their key as its total. -/
theorem groupTotal_coarser {κ' σ : Type} [DecidableEq κ'] (coarser : κ → κ') {groups : List σ} {name : σ → κ}
    (names : (groups.map name).Nodup) {total : κ → M} (k : κ') :
    groupTotal (fun group => coarser (name group)) (fun group => total (name group)) groups k =
      ∑ fine ∈ (groups.map name).toFinset with coarser fine = k, total fine := by
  have listed : (groups.map name).toFinset.filter (fun fine => coarser fine = k) =
      ((groups.map name).filter fun fine => coarser fine = k).toFinset := by
    simp [List.toFinset_filter]
  rw [listed, List.sum_toFinset _ (names.filter _), List.filter_map, List.map_map]
  rfl

end Grouping
