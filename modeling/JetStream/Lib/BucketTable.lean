import Mathlib.Data.List.Sort
import Mathlib.Data.List.GetD
import Mathlib.Algebra.Order.BigOperators.Group.List
import Mathlib.Algebra.BigOperators.Group.Finset.Basic
import Mathlib.Algebra.BigOperators.Group.List.Basic
import Mathlib.Algebra.BigOperators.Intervals

/-- The table cuts the natural numbers at strictly increasing starts, the first of which is zero. -/
structure BucketTable where
  starts : List ℕ
  sorted : starts.SortedLT
  first : starts.head? = some 0

namespace BucketTable

/-- The size counts the buckets, the last of which has no upper end. -/
def size (table : BucketTable) : ℕ := table.starts.length

/-- This is the least value of a bucket. -/
def start (table : BucketTable) (i : ℕ) : ℕ := table.starts.getD i 0

/-- The index counts the starts at or below the value. -/
def index (table : BucketTable) (value : ℕ) : ℕ :=
  table.starts.countP (fun start => decide (start ≤ value)) - 1

theorem start_of_getElem (table : BucketTable) (i : ℕ) (inside : i < table.starts.length) :
    table.starts[i] = table.start i := by
  rw [start, List.getD_eq_getElem _ _ inside]

theorem getElem?_start (table : BucketTable) {i : ℕ} (inside : i < table.size) :
    table.starts[i]? = some (table.start i) := by
  rw [← table.start_of_getElem i inside]
  exact List.getElem?_eq_getElem inside

theorem size_pos (table : BucketTable) : 0 < table.size := by
  have first := table.first
  unfold size
  cases same : table.starts with
  | nil => simp [same] at first
  | cons start rest => simp

@[simp] theorem start_zero (table : BucketTable) : table.start 0 = 0 := by
  have first := table.first
  rw [List.head?_eq_getElem?, table.getElem?_start table.size_pos] at first
  exact Option.some.inj first

theorem start_lt (table : BucketTable) {i j : ℕ} (order : i < j) (inside : j < table.size) :
    table.start i < table.start j := by
  have first : i < table.starts.length := order.trans inside
  have second : j < table.starts.length := inside
  rw [← table.start_of_getElem i first, ← table.start_of_getElem j second]
  exact table.sorted.getElem_lt_getElem_of_lt order

theorem start_le (table : BucketTable) {i j : ℕ} (order : i ≤ j) (inside : j < table.size) :
    table.start i ≤ table.start j := by
  rcases Nat.lt_or_eq_of_le order with strict | rfl
  · exact (table.start_lt strict inside).le
  · exact le_rfl

theorem mem_starts_iff (table : BucketTable) (value : ℕ) :
    value ∈ table.starts ↔ ∃ i, i < table.size ∧ table.start i = value := by
  constructor
  · intro member
    obtain ⟨i, inside, rfl⟩ := List.getElem_of_mem member
    exact ⟨i, inside, (table.start_of_getElem i inside).symm⟩
  · rintro ⟨i, inside, rfl⟩
    rw [← table.start_of_getElem i inside]
    exact List.getElem_mem inside

/-- The two ends of a bucket determine its index. -/
theorem index_eq (table : BucketTable) {value i : ℕ} (inside : i < table.size)
    (lower : table.start i ≤ value)
    (upper : i + 1 < table.size → value < table.start (i + 1)) :
    table.index value = i := by
  have below : (table.starts.take (i + 1)).countP (fun start => decide (start ≤ value)) = i + 1 := by
    rw [List.countP_eq_length.mpr, List.length_take, Nat.min_eq_left (show i + 1 ≤ table.starts.length from inside)]
    intro start member
    obtain ⟨j, bound, rfl⟩ := List.getElem_of_mem member
    rw [List.length_take] at bound
    rw [List.getElem_take, start_of_getElem]
    exact decide_eq_true ((table.start_le (by omega) inside).trans lower)
  have above : (table.starts.drop (i + 1)).countP (fun start => decide (start ≤ value)) = 0 := by
    rw [List.countP_eq_zero]
    intro start member
    obtain ⟨j, bound, rfl⟩ := List.getElem_of_mem member
    rw [List.length_drop] at bound
    rw [List.getElem_drop, start_of_getElem]
    have room : i + 1 + j < table.size := by unfold size; omega
    have next := upper (by omega)
    have order := table.start_le (Nat.le_add_right (i + 1) j) room
    exact fun small => absurd (of_decide_eq_true small) (by omega)
  have split : table.starts.countP (fun start => decide (start ≤ value)) = i + 1 := by
    rw [← List.take_append_drop (i + 1) table.starts, List.countP_append, below, above]
  unfold index
  omega

/-- Every value lies between the ends of one bucket. -/
theorem exists_bucket (table : BucketTable) (value : ℕ) :
    ∃ i, i < table.size ∧ table.start i ≤ value ∧
      (i + 1 < table.size → value < table.start (i + 1)) := by
  by_contra missing
  push Not at missing
  have climb : ∀ i, i < table.size → table.start i ≤ value := by
    intro i
    induction i with
    | zero => intro _; rw [table.start_zero]; exact Nat.zero_le _
    | succ i ih =>
        intro inside
        exact (missing i (by omega) (ih (by omega))).2
  have positive := table.size_pos
  have last := missing (table.size - 1) (by omega) (climb _ (by omega))
  omega

theorem index_lt (table : BucketTable) (value : ℕ) : table.index value < table.size := by
  obtain ⟨i, inside, lower, upper⟩ := table.exists_bucket value
  rw [table.index_eq inside lower upper]
  exact inside

theorem start_index_le (table : BucketTable) (value : ℕ) :
    table.start (table.index value) ≤ value := by
  obtain ⟨i, inside, lower, upper⟩ := table.exists_bucket value
  rw [table.index_eq inside lower upper]
  exact lower

theorem lt_start_succ_index (table : BucketTable) (value : ℕ)
    (next : table.index value + 1 < table.size) :
    value < table.start (table.index value + 1) := by
  obtain ⟨i, inside, lower, upper⟩ := table.exists_bucket value
  rw [table.index_eq inside lower upper] at next ⊢
  exact upper next

theorem index_start (table : BucketTable) {i : ℕ} (inside : i < table.size) :
    table.index (table.start i) = i :=
  table.index_eq inside le_rfl fun next => table.start_lt (Nat.lt_add_one i) next

/-- A start at or below a value lies at or below its bucket. -/
theorem start_le_iff (table : BucketTable) {i value : ℕ} (inside : i < table.size) :
    table.start i ≤ value ↔ i ≤ table.index value := by
  constructor
  · intro small
    by_contra above
    have next := table.lt_start_succ_index value (by omega)
    have order := table.start_le (show table.index value + 1 ≤ i by omega) inside
    omega
  · intro order
    exact (table.start_le order (table.index_lt value)).trans (table.start_index_le value)

/-- The coarse table uses only starts of the fine table. -/
def Refines (fine coarse : BucketTable) : Prop := coarse.starts ⊆ fine.starts

section Refinement

variable {fine coarse : BucketTable}

/-- A coarse bucket is the coarse bucket of the fine bucket's start. -/
theorem Refines.index_start_index (nested : fine.Refines coarse) (value : ℕ) :
    coarse.index (fine.start (fine.index value)) = coarse.index value := by
  apply coarse.index_eq (coarse.index_lt value)
  · have member : coarse.start (coarse.index value) ∈ fine.starts :=
      nested ((coarse.mem_starts_iff _).mpr ⟨_, coarse.index_lt value, rfl⟩)
    obtain ⟨j, inside, same⟩ := (fine.mem_starts_iff _).mp member
    rw [← same]
    apply fine.start_le _ (fine.index_lt value)
    rw [← fine.start_le_iff inside, same]
    exact coarse.start_index_le value
  · intro next
    exact (fine.start_index_le value).trans_lt (coarse.lt_start_succ_index value next)

/-- The next fine bucket stays in its coarse bucket or opens the next one. -/
theorem Refines.index_start_succ (nested : fine.Refines coarse) {j : ℕ} (inside : j + 1 < fine.size) :
    coarse.index (fine.start (j + 1)) =
      if coarse.index (fine.start j) + 1 < coarse.size ∧
          coarse.start (coarse.index (fine.start j) + 1) ≤ fine.start (j + 1) then
        coarse.index (fine.start j) + 1
      else coarse.index (fine.start j) := by
  split
  · rename_i crossed
    apply coarse.index_eq crossed.1 crossed.2
    intro next
    by_contra skipped
    have member : coarse.start (coarse.index (fine.start j) + 1) ∈ fine.starts :=
      nested ((coarse.mem_starts_iff _).mpr ⟨_, crossed.1, rfl⟩)
    obtain ⟨i, within, same⟩ := (fine.mem_starts_iff _).mp member
    have after := coarse.lt_start_succ_index (fine.start j) crossed.1
    have before := coarse.start_lt (Nat.lt_add_one (coarse.index (fine.start j) + 1)) next
    rw [← same] at after before
    have low : j < i := by
      by_contra order
      have := fine.start_le (Nat.le_of_not_lt order) (show j < fine.size by omega)
      omega
    have high := fine.start_le (show j + 1 ≤ i by omega) within
    omega
  · rename_i stays
    have before := coarse.start_index_le (fine.start j)
    have step := fine.start_lt (Nat.lt_add_one j) inside
    apply coarse.index_eq (coarse.index_lt _) (by omega)
    intro next
    by_contra reached
    exact stays ⟨next, by omega⟩

/-- The last fine bucket lies in the last coarse bucket. -/
theorem Refines.index_start_last (nested : fine.Refines coarse) :
    coarse.index (fine.start (fine.size - 1)) = coarse.size - 1 := by
  have coarsePositive := coarse.size_pos
  have finePositive := fine.size_pos
  apply coarse.index_eq (by omega)
  · have member : coarse.start (coarse.size - 1) ∈ fine.starts :=
      nested ((coarse.mem_starts_iff _).mpr ⟨_, by omega, rfl⟩)
    obtain ⟨i, inside, same⟩ := (fine.mem_starts_iff _).mp member
    rw [← same]
    exact fine.start_le (by omega) (by omega)
  · intro next
    omega

end Refinement

/-- The tally sums the weights of the items in one bucket. -/
def tally (table : BucketTable) (items : List (ℕ × ℕ)) (i : ℕ) : ℕ :=
  (items.map fun item => if table.index item.1 = i then item.2 else 0).sum

/-- The weight sums every count of the list. -/
def weight (items : List (ℕ × ℕ)) : ℕ := (items.map Prod.snd).sum

@[simp] theorem tally_nil (table : BucketTable) (i : ℕ) : table.tally [] i = 0 := rfl

@[simp] theorem tally_append (table : BucketTable) (first second : List (ℕ × ℕ)) (i : ℕ) :
    table.tally (first ++ second) i = table.tally first i + table.tally second i := by
  simp [tally]

@[simp] theorem weight_nil : weight [] = 0 := rfl

@[simp] theorem weight_append (first second : List (ℕ × ℕ)) :
    weight (first ++ second) = weight first + weight second := by
  simp [weight]

@[simp] theorem weight_singleton (item : ℕ × ℕ) : weight [item] = item.2 := by
  simp [weight]

theorem tally_perm (table : BucketTable) {first second : List (ℕ × ℕ)} (same : first.Perm second) (i : ℕ) :
    table.tally first i = table.tally second i :=
  (same.map _).sum_eq

theorem weight_perm {first second : List (ℕ × ℕ)} (same : first.Perm second) :
    weight first = weight second :=
  (same.map _).sum_eq

theorem tally_le_weight (table : BucketTable) (items : List (ℕ × ℕ)) (i : ℕ) :
    table.tally items i ≤ weight items := by
  apply List.sum_le_sum
  intro item _
  split <;> omega

/-- Regrouping by fine buckets keeps the tally of every coarse bucket. -/
theorem Refines.sum_tally {fine coarse : BucketTable} (nested : fine.Refines coarse)
    (items : List (ℕ × ℕ)) (i : ℕ) :
    (∑ j ∈ Finset.range fine.size, if coarse.index (fine.start j) = i then fine.tally items j else 0) =
      coarse.tally items i := by
  induction items with
  | nil => simp
  | cons item rest ih =>
      have single : (∑ j ∈ Finset.range fine.size, if coarse.index (fine.start j) = i then
          (if fine.index item.1 = j then item.2 else 0) else 0) =
          if coarse.index item.1 = i then item.2 else 0 := by
        rw [Finset.sum_eq_single (fine.index item.1)]
        · simp only [if_true, nested.index_start_index]
        · intro j _ different
          simp [Ne.symm different]
        · intro outside
          exact absurd (Finset.mem_range.mpr (fine.index_lt item.1)) outside
      have expand : ∀ (table : BucketTable) (j : ℕ), table.tally (item :: rest) j =
          (if table.index item.1 = j then item.2 else 0) + table.tally rest j := by
        intro table j
        simp [tally]
      rw [expand coarse, ← ih, ← single, ← Finset.sum_add_distrib]
      apply Finset.sum_congr rfl
      intro j _
      rw [expand fine]
      split <;> simp

/-- The tallies of the first buckets sum to the weight of the items in them. -/
theorem sum_tally_range (table : BucketTable) (items : List (ℕ × ℕ)) (j : ℕ) :
    ∑ i ∈ Finset.range j, table.tally items i = weight (items.filter fun item => decide (table.index item.1 < j)) := by
  induction items with
  | nil => simp
  | cons item rest ih =>
      have single : (∑ i ∈ Finset.range j, if table.index item.1 = i then item.2 else 0) =
          if table.index item.1 < j then item.2 else 0 := by
        rw [Finset.sum_ite_eq]
        simp only [Finset.mem_range]
      have expand : ∀ i, table.tally (item :: rest) i =
          (if table.index item.1 = i then item.2 else 0) + table.tally rest i := by
        intro i
        simp [tally]
      simp only [expand, Finset.sum_add_distrib, single, ih, List.filter_cons, decide_eq_true_eq]
      split
      · simp [weight]
      · rw [Nat.zero_add]

/-- The tallies of all buckets sum to the weight. -/
theorem sum_tally_eq_weight (table : BucketTable) (items : List (ℕ × ℕ)) :
    ∑ i ∈ Finset.range table.size, table.tally items i = weight items := by
  rw [sum_tally_range, List.filter_eq_self.mpr fun item _ => decide_eq_true (table.index_lt item.1)]

end BucketTable
