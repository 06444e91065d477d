import Mathlib.Algebra.BigOperators.Ring.Finset
import Mathlib.Algebra.Order.BigOperators.Group.Finset
import Mathlib.Tactic.Linarith
import Mathlib.Tactic.FieldSimp
import JetStream.Lib.TopK
import JetStream.Dataplane.TPutRounds

namespace JetStream

variable {K : Type} [LinearOrder K] {n : ℕ}

/-- This is the total of a key at one predecessor. -/
def SourceCube.total (cube : SourceCube K) (key : K) : ℕ :=
  ((cube.rows.filter fun row => row.1 = key).map Prod.snd).sum

/-- The totals of a key are summed over all predecessors. -/
def totals (sources : Fin n → SourceCube K) (key : K) : ℕ := ∑ p, (sources p).total key

/-- These keys have a row at some predecessor. -/
def keys (sources : Fin n → SourceCube K) : Finset K :=
  Finset.univ.biUnion fun p => ((sources p).rows.map Prod.fst).toFinset

/-- The predecessor has no rows, or its greatest total is above the threshold and what follows its first rows is
below it. -/
def SourceCube.Sharp (cube : SourceCube K) (k : ℕ) (threshold : ℚ) : Prop :=
  (∀ row ∈ cube.rows.head?.toList, threshold < row.2) ∧ ∀ row ∈ cube.rows.drop k, (row.2 : ℚ) < threshold

/-- The destination holds some top set with the exact totals. -/
def ExactTopK (config : CoordinatorConfig) (sources : Fin n → SourceCube K) (destCube : OrderedMap K ℕ) : Prop :=
  ∃ top, IsTopK (totals sources) (keys sources) config.numResults top ∧
    ∀ key ∈ top, destCube.get? key = some (totals sources key)

/-- The queried keys keep a top set. -/
structure Sufficient (sources : Fin n → SourceCube K) (k : ℕ) (query : List K) : Prop where
  nodup : query.Nodup
  known : ∀ key ∈ query, key ∈ keys sources
  bound : ∃ bound : ℚ, k ≤ (query.toFinset.filter fun key => bound ≤ totals sources key).card ∧
    ∀ key ∈ keys sources, key ∉ query → (totals sources key : ℚ) ≤ bound

section Reports

variable {key : K} {rows : List (K × ℕ)}

theorem reports_cons (row : K × ℕ) :
    reports key (row :: rows) = (if row.1 = key then {row.2} else 0) + reports key rows := by
  by_cases same : row.1 = key
  · simp [reports, same]
  · simp [reports, same]

theorem sum_reports : (reports key rows).sum = ((rows.filter fun row => row.1 = key).map Prod.snd).sum := by
  induction rows with
  | nil => rfl
  | cons row rows ih =>
      rw [reports_cons, Multiset.sum_add, ih]
      by_cases same : row.1 = key
      · simp [same]
      · simp [same]

theorem card_reports : (reports key rows).card = (rows.map Prod.fst).count key := by
  induction rows with
  | nil => rfl
  | cons row rows ih =>
      rw [reports_cons, Multiset.card_add, ih, List.map_cons, List.count_cons, add_comm]
      by_cases same : row.1 = key
      · simp [same]
      · simp [same]

theorem reports_eq_zero : reports key rows = 0 ↔ key ∉ rows.map Prod.fst := by
  rw [← Multiset.card_eq_zero, card_reports, List.count_eq_zero]

theorem sum_reports_le {bound : ℚ} (below : ∀ row ∈ rows, (row.2 : ℚ) ≤ bound) :
    ((reports key rows).sum : ℚ) ≤ (reports key rows).card * bound := by
  induction rows with
  | nil => simp
  | cons row rows ih =>
      have rest := ih fun other member => below other (List.mem_cons_of_mem _ member)
      have here := below row List.mem_cons_self
      rw [reports_cons, Multiset.sum_add, Multiset.card_add]
      by_cases same : row.1 = key
      · simp only [if_pos same, Multiset.sum_singleton, Multiset.card_singleton]
        rw [Nat.cast_add, Nat.cast_add, Nat.cast_one, add_mul, one_mul]
        exact add_le_add here rest
      · simpa [same] using rest

end Reports

/-- A key has at most one row. -/
theorem SourceCube.card_le_one (cube : SourceCube K) (key : K) : (reports key cube.rows).card ≤ 1 := by
  rw [card_reports]
  exact List.nodup_iff_count_le_one.mp cube.distinct key

theorem SourceCube.total_eq (cube : SourceCube K) (key : K) : cube.total key = (reports key cube.rows).sum :=
  sum_reports.symm

/-- A sharp predecessor adds at most the threshold to what its first rows report. -/
theorem SourceCube.Sharp.total_le {cube : SourceCube K} {k : ℕ} {threshold : ℚ} (sharp : cube.Sharp k threshold)
    (nonneg : 0 ≤ threshold) (key : K) :
    (cube.total key : ℚ) ≤ (reports key (cube.rows.take k)).sum +
      (1 - (reports key (cube.rows.take k)).card) * threshold := by
  have split : reports key cube.rows = reports key (cube.rows.take k) + reports key (cube.rows.drop k) := by
    rw [← reports_append, List.take_append_drop]
  have few : ((reports key (cube.rows.take k)).card : ℚ) + (reports key (cube.rows.drop k)).card ≤ 1 := by
    have bound := cube.card_le_one key
    rw [split, Multiset.card_add] at bound
    exact_mod_cast bound
  have later : ((reports key (cube.rows.drop k)).sum : ℚ) ≤ (reports key (cube.rows.drop k)).card * threshold :=
    sum_reports_le fun row member => (sharp.2 row member).le
  calc (cube.total key : ℚ)
      = (reports key (cube.rows.take k)).sum + (reports key (cube.rows.drop k)).sum := by
        rw [cube.total_eq, split, Multiset.sum_add, Nat.cast_add]
    _ ≤ (reports key (cube.rows.take k)).sum + (reports key (cube.rows.drop k)).card * threshold :=
        add_le_add le_rfl later
    _ ≤ _ := by
        have scaled := mul_le_mul_of_nonneg_right (le_sub_iff_add_le'.mpr few) nonneg
        exact add_le_add le_rfl scaled

/-- These totals of a key arrive in the first round. -/
def firstReports (sources : Fin n → SourceCube K) (k : ℕ) (key : K) : Multiset ℕ :=
  ∑ p, reports key ((sources p).rows.take k)

section First

variable {sources : Fin n → SourceCube K} {k : ℕ}

theorem sum_firstReports (key : K) :
    (firstReports sources k key).sum = ∑ p, (reports key ((sources p).rows.take k)).sum :=
  map_sum Multiset.sumAddMonoidHom _ _

theorem card_firstReports (key : K) :
    (firstReports sources k key).card = ∑ p, (reports key ((sources p).rows.take k)).card := by
  rw [firstReports, Multiset.card_sum]

theorem firstReports_ne_zero {key : K} :
    firstReports sources k key ≠ 0 ↔ ∃ p, key ∈ ((sources p).rows.take k).map Prod.fst := by
  rw [ne_eq, ← Multiset.card_eq_zero, card_firstReports, Finset.sum_eq_zero_iff]
  simp [Multiset.card_eq_zero, reports_eq_zero]

theorem card_firstReports_le (key : K) : (firstReports sources k key).card ≤ n := by
  rw [card_firstReports]
  calc ∑ p, (reports key ((sources p).rows.take k)).card
      ≤ ∑ _p : Fin n, 1 := by
        apply Finset.sum_le_sum
        intro p _
        have split : reports key (sources p).rows =
            reports key ((sources p).rows.take k) + reports key ((sources p).rows.drop k) := by
          rw [← reports_append, List.take_append_drop]
        have bound := (sources p).card_le_one key
        rw [split, Multiset.card_add] at bound
        omega
    _ = n := by simp

/-- The first reports of a key are part of its total. -/
theorem sum_firstReports_le (key : K) : (firstReports sources k key).sum ≤ totals sources key := by
  rw [sum_firstReports, totals]
  apply Finset.sum_le_sum
  intro p _
  rw [(sources p).total_eq]
  nth_rewrite 2 [← List.take_append_drop k (sources p).rows]
  rw [reports_append, Multiset.sum_add]
  exact Nat.le_add_right _ _

/-- Sharp predecessors keep every total below the upper bound of the coordinator. -/
theorem totals_le {threshold : ℚ} (sharp : ∀ p, (sources p).Sharp k threshold) (nonneg : 0 ≤ threshold) (key : K) :
    (totals sources key : ℚ) ≤ (n - (firstReports sources k key).card) * threshold +
      (firstReports sources k key).sum := by
  have sum := Finset.sum_le_sum fun p (_ : p ∈ Finset.univ) => (sharp p).total_le nonneg key
  rw [Finset.sum_add_distrib, ← Finset.sum_mul, Finset.sum_sub_distrib] at sum
  rw [totals, sum_firstReports, card_firstReports]
  push_cast at sum ⊢
  simp only [Finset.sum_const, Finset.card_univ, Fintype.card_fin, nsmul_eq_mul, mul_one] at sum
  linarith

end First

section Candidates

variable {config : CoordinatorConfig} {sources : Fin n → SourceCube K} {coordinator : MultiRoundCoordinator K}

/-- The candidates are the keys of the first reports. -/
def Collected (config : CoordinatorConfig) (sources : Fin n → SourceCube K)
    (coordinator : MultiRoundCoordinator K) : Prop :=
  ∀ key, coordinator.candidates.get? key = candidateOf key (firstReports sources config.numResults key)

theorem Collected.mem_entries (collected : Collected config sources coordinator) {key : K} {item : CandidateItem K} :
    (key, item) ∈ coordinator.candidates.entries ↔ firstReports sources config.numResults key ≠ 0 ∧
      item = ⟨(firstReports sources config.numResults key).sum, (firstReports sources config.numResults key).card, key⟩ := by
  rw [OrderedMap.mem_entries_iff, collected key, candidateOf]
  by_cases unseen : firstReports sources config.numResults key = 0
  · simp [unseen]
  · simp [unseen, eq_comm]

theorem nodup_keys (candidates : OrderedMap K (CandidateItem K)) : (candidates.entries.map Prod.fst).Nodup :=
  (List.pairwise_map.mpr candidates.sorted).imp fun less => less.ne

theorem Collected.mem_keys (collected : Collected config sources coordinator) {key : K} :
    key ∈ coordinator.candidates.entries.map Prod.fst ↔
      ∃ p, key ∈ ((sources p).rows.take config.numResults).map Prod.fst := by
  rw [← firstReports_ne_zero, List.mem_map]
  constructor
  · rintro ⟨⟨other, item⟩, member, rfl⟩
    exact (collected.mem_entries.mp member).1
  · intro seen
    exact ⟨(key, _), collected.mem_entries.mpr ⟨seen, rfl⟩, rfl⟩

/-- There are enough candidates when the predecessors have enough keys. -/
theorem Collected.enough (collected : Collected config sources coordinator)
    (enough : config.numResults ≤ (keys sources).card) : config.numResults ≤ coordinator.candidates.entries.length := by
  have size : (coordinator.candidates.entries.map Prod.fst).toFinset.card = coordinator.candidates.entries.length := by
    rw [List.toFinset_card_of_nodup (nodup_keys _), List.length_map]
  rw [← size]
  by_cases long : ∃ p, config.numResults ≤ (sources p).rows.length
  · obtain ⟨p, long⟩ := long
    have distinct : (((sources p).rows.take config.numResults).map Prod.fst).Nodup :=
      (sources p).distinct.sublist ((List.take_sublist _ _).map _)
    have length : (((sources p).rows.take config.numResults).map Prod.fst).toFinset.card = config.numResults := by
      rw [List.toFinset_card_of_nodup distinct, List.length_map, List.length_take, min_eq_left long]
    rw [← length]
    apply Finset.card_le_card
    intro key member
    rw [List.mem_toFinset] at member ⊢
    exact collected.mem_keys.mpr ⟨p, member⟩
  · apply enough.trans
    apply Finset.card_le_card
    intro key member
    rw [keys, Finset.mem_biUnion] at member
    obtain ⟨p, -, listed⟩ := member
    have short : (sources p).rows.length ≤ config.numResults := by
      by_contra longer
      exact long ⟨p, by omega⟩
    rw [List.mem_toFinset] at listed ⊢
    rw [collected.mem_keys]
    exact ⟨p, by rwa [List.take_of_length_le short]⟩

/-- The threshold is a partial sum that enough candidates reach. -/
theorem calculateTau_spec (positive : 0 < config.numResults) (column : config.sortColumn.head? = some '-')
    (many : config.numResults ≤ coordinator.candidates.entries.length) :
    (∃ entry ∈ coordinator.candidates.entries, entry.2.val = coordinator.calculateTau config) ∧
      config.numResults ≤
        (coordinator.candidates.entries.filter fun entry => coordinator.calculateTau config ≤ entry.2.val).length := by
  have perm : coordinator.vals.Perm (coordinator.candidates.entries.map fun entry => entry.2.val) :=
    List.perm_insertionSort _ _
  have length : coordinator.vals.length = coordinator.candidates.entries.length := by
    rw [perm.length_eq, List.length_map]
  have inside : coordinator.vals.length - config.numResults < coordinator.vals.length := by omega
  have found := List.getElem?_eq_getElem inside
  have tau : coordinator.calculateTau config = coordinator.vals[coordinator.vals.length - config.numResults] := by
    rw [MultiRoundCoordinator.calculateTau, if_neg (by omega), if_pos column, List.getD_eq_getElem?_getD, found]
    rfl
  rw [← tau] at found
  constructor
  · have member := perm.mem_iff.mp (List.mem_of_getElem? found)
    exact List.mem_map.mp member
  · have sorted : coordinator.vals.Pairwise (· ≤ ·) := List.pairwise_insertionSort _ _
    have above := le_length_filter_of_sorted sorted found
    rw [(perm.filter _).length_eq, List.filter_map, List.length_map] at above
    have size : coordinator.vals.length - (coordinator.vals.length - config.numResults) = config.numResults := by omega
    rwa [size] at above

/-- The upper bound of a candidate allows the threshold for every missing response. -/
theorem upperBound_eq {item : CandidateItem K} (fits : n < 2 ^ 32) (few : item.responses ≤ n) :
    coordinator.upperBound n item = (n - item.responses) * coordinator.t1 + item.val := by
  have unsigned : toSizeT ((n % 2 ^ 32 : ℕ) - item.responses) = n - item.responses := by
    rw [toSizeT, Nat.mod_eq_of_lt fits]
    omega
  rw [MultiRoundCoordinator.upperBound, unsigned, Nat.cast_sub few]

/-- These keys are asked for in the third round. -/
def MultiRoundCoordinator.queried (config : CoordinatorConfig) (n : ℕ) (coordinator : MultiRoundCoordinator K) :
    List K :=
  (coordinator.candidates.entries.filter fun entry =>
    coordinator.calculateTau config ≤ coordinator.upperBound n entry.2).map fun entry => entry.2.exampleKey

theorem Collected.mem_queried (collected : Collected config sources coordinator) (fits : n < 2 ^ 32) {key : K} :
    key ∈ coordinator.queried config n ↔ firstReports sources config.numResults key ≠ 0 ∧
      coordinator.calculateTau config ≤ (n - (firstReports sources config.numResults key).card) * coordinator.t1 +
        (firstReports sources config.numResults key).sum := by
  rw [MultiRoundCoordinator.queried, List.mem_map]
  constructor
  · rintro ⟨⟨other, item⟩, member, rfl⟩
    obtain ⟨listed, reaches⟩ := List.mem_filter.mp member
    obtain ⟨seen, rfl⟩ := collected.mem_entries.mp listed
    rw [decide_eq_true_eq, upperBound_eq fits (card_firstReports_le other)] at reaches
    exact ⟨seen, reaches⟩
  · rintro ⟨seen, reaches⟩
    refine ⟨(key, _), List.mem_filter.mpr ⟨collected.mem_entries.mpr ⟨seen, rfl⟩, ?_⟩, rfl⟩
    rw [decide_eq_true_eq, upperBound_eq fits (card_firstReports_le key)]
    exact reaches

theorem Collected.nodup_queried (collected : Collected config sources coordinator) :
    (coordinator.queried config n).Nodup := by
  have same : ∀ entry ∈ coordinator.candidates.entries, entry.2.exampleKey = entry.1 := by
    intro entry member
    obtain ⟨-, item⟩ := collected.mem_entries.mp member
    rw [item]
  have renamed : coordinator.queried config n = (coordinator.candidates.entries.filter fun entry =>
      coordinator.calculateTau config ≤ coordinator.upperBound n entry.2).map Prod.fst := by
    apply List.map_congr_left
    intro entry member
    exact same entry (List.mem_of_mem_filter member)
  rw [renamed]
  exact (nodup_keys _).sublist (List.filter_sublist.map _)

/-- When no predecessor has more to send in the second round, the queried keys keep a top set. -/
theorem Collected.sufficient (collected : Collected config sources coordinator) (positive : 0 < config.numResults)
    (column : config.sortColumn.head? = some '-') (fits : n < 2 ^ 32)
    (enough : config.numResults ≤ (keys sources).card) (threshold : coordinator.t1 = coordinator.calculateTau config / n)
    (sharp : ∀ p, (sources p).Sharp config.numResults coordinator.t1) :
    Sufficient sources config.numResults (coordinator.queried config n) := by
  obtain ⟨⟨entry, listed, value⟩, reach⟩ := calculateTau_spec positive column (collected.enough enough)
  have nonneg : 0 ≤ coordinator.calculateTau config := by
    obtain ⟨-, item⟩ := collected.mem_entries.mp listed
    rw [← value, item]
    exact Nat.cast_nonneg _
  have lower : 0 ≤ coordinator.t1 := by
    rw [threshold]
    exact div_nonneg nonneg (Nat.cast_nonneg _)
  have some : n ≠ 0 := by
    rintro rfl
    rw [keys, Finset.univ_eq_empty, Finset.biUnion_empty, Finset.card_empty] at enough
    omega
  have share : (n : ℚ) * coordinator.t1 = coordinator.calculateTau config := by
    rw [threshold]
    exact mul_div_cancel₀ _ (Nat.cast_ne_zero.mpr some)
  refine ⟨collected.nodup_queried, ?_, coordinator.calculateTau config, ?_, ?_⟩
  · intro key member
    obtain ⟨p, first⟩ := firstReports_ne_zero.mp ((collected.mem_queried fits).mp member).1
    rw [keys, Finset.mem_biUnion]
    refine ⟨p, Finset.mem_univ p, List.mem_toFinset.mpr ?_⟩
    exact (List.take_sublist _ _).map _ |>.subset first
  · have distinct : ((coordinator.candidates.entries.filter fun entry =>
        coordinator.calculateTau config ≤ entry.2.val).map Prod.fst).Nodup :=
      (nodup_keys _).sublist (List.filter_sublist.map _)
    rw [← List.length_map Prod.fst, ← List.toFinset_card_of_nodup distinct] at reach
    apply reach.trans (Finset.card_le_card _)
    intro key member
    rw [List.mem_toFinset, List.mem_map] at member
    obtain ⟨⟨other, item⟩, kept, rfl⟩ := member
    obtain ⟨listed, high⟩ := List.mem_filter.mp kept
    obtain ⟨seen, rfl⟩ := collected.mem_entries.mp listed
    rw [decide_eq_true_eq] at high
    have missing : (0 : ℚ) ≤ (n - (firstReports sources config.numResults other).card) * coordinator.t1 :=
      mul_nonneg (sub_nonneg.mpr (Nat.cast_le.mpr (card_firstReports_le other))) lower
    rw [Finset.mem_filter, List.mem_toFinset, collected.mem_queried fits]
    refine ⟨⟨seen, high.trans (le_add_of_nonneg_left missing)⟩, high.trans ?_⟩
    exact Nat.cast_le.mpr (sum_firstReports_le other)
  · intro key _ cut
    have upper := totals_le sharp lower key
    by_cases seen : firstReports sources config.numResults key = 0
    · rw [seen, Multiset.card_zero, Multiset.sum_zero, Nat.cast_zero, sub_zero, add_zero, share] at upper
      exact upper
    · rw [collected.mem_queried fits, not_and, not_le] at cut
      exact upper.trans (cut seen).le

end Candidates

end JetStream
