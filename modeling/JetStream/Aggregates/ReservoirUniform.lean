import Mathlib.Data.Int.Interval
import Mathlib.Data.List.Nodup
import JetStream.Lib.UniformRuns
import JetStream.Aggregates.Reservoir

namespace JetStream

namespace ReservoirSample

open UniformRuns

/-- A reservoir with room takes the item without a draw, and a full one draws from the range of its call. -/
def addOneOutcomes (sample : ReservoirSample) (v : ℤ) : List ReservoirSample :=
  if sample.sampleOfData.length < sample.maxSize then [sample.addOne (fun _ => 0) v]
  else (List.range ((sample.totalSeen + (2 ^ 64 - 1)) % 2 ^ 64 + 1)).map fun drawn => sample.addOne (fun _ => drawn) v

/-- These are all outcomes of adding the items to a fresh reservoir. -/
def streamOutcomes (maxSize : ℕ) (items : List ℤ) : List ReservoirSample :=
  outcomes addOneOutcomes items (blank maxSize 0)

/-- The item is in the sample with this probability. -/
def inclusion (maxSize : ℕ) (items : List ℤ) (v : ℤ) : ℚ :=
  chance (streamOutcomes maxSize items) fun sample => decide (v ∈ sample.sampleOfData)

/-- Each item of the stream has the same share of the capacity. -/
def Uniform (maxSize : ℕ) (items : List ℤ) : Prop :=
  ∀ v ∈ items, inclusion maxSize items v = min 1 ((maxSize : ℚ) / items.length)

/-- This is known about the sample in every outcome of a stream. -/
structure Drawn (maxSize : ℕ) (items : List ℤ) (sample : ReservoirSample) : Prop where
  capacity : sample.maxSize = maxSize
  seen : sample.totalSeen = items.length
  length : sample.sampleOfData.length = min maxSize items.length
  distinct : sample.sampleOfData.Nodup
  subset : ∀ a ∈ sample.sampleOfData, a ∈ items

theorem addOneOutcomes_ne_nil (sample : ReservoirSample) (v : ℤ) : sample.addOneOutcomes v ≠ [] := by
  unfold addOneOutcomes
  split
  · exact List.cons_ne_nil _ _
  · simp

theorem streamOutcomes_ne_nil (maxSize : ℕ) (items : List ℤ) : streamOutcomes maxSize items ≠ [] :=
  outcomes_ne_nil addOneOutcomes_ne_nil items _

theorem streamOutcomes_concat (maxSize : ℕ) (items : List ℤ) (v : ℤ) :
    streamOutcomes maxSize (items ++ [v]) = (streamOutcomes maxSize items).flatMap (addOneOutcomes · v) :=
  outcomes_concat items v _

/-- Each outcome of a call comes from some draw. -/
theorem exists_addOne_of_mem {sample next : ReservoirSample} {v : ℤ} (member : next ∈ sample.addOneOutcomes v) :
    ∃ draw, next = sample.addOne draw v := by
  unfold addOneOutcomes at member
  split at member
  · exact ⟨_, List.mem_singleton.mp member⟩
  · obtain ⟨drawn, -, rfl⟩ := List.mem_map.mp member
    exact ⟨_, rfl⟩

/-- A new item keeps the items of the sample distinct. -/
theorem addOne_nodup (draw : ℕ → ℕ) {sample : ReservoirSample} {v : ℤ} (distinct : sample.sampleOfData.Nodup)
    (fresh : v ∉ sample.sampleOfData) : (sample.addOne draw v).sampleOfData.Nodup := by
  by_cases fits : sample.sampleOfData.length < sample.maxSize
  · rw [addOne, dif_pos fits]
    exact List.nodup_append.mpr ⟨distinct, List.nodup_singleton v, by
      rintro a member b single rfl
      exact fresh (List.mem_singleton.mp single ▸ member)⟩
  · rw [addOne, dif_neg fits]
    dsimp only
    split
    · exact distinct.set fresh
    · exact distinct

theorem Drawn.addOne {maxSize : ℕ} {items : List ℤ} {sample : ReservoirSample} (drawn : Drawn maxSize items sample)
    {v : ℤ} (fresh : v ∉ items) (short : items.length + 1 < 2 ^ 64) (draw : ℕ → ℕ) :
    Drawn maxSize (items ++ [v]) (sample.addOne draw v) where
  capacity := by rw [addOne_maxSize, drawn.capacity]
  seen := by
    rw [addOne_totalSeen, drawn.seen, List.length_append, List.length_singleton]
    exact Nat.mod_eq_of_lt short
  length := by
    rw [addOne_length, drawn.length, drawn.capacity, List.length_append, List.length_singleton]
    omega
  distinct := addOne_nodup draw drawn.distinct fun member => fresh (drawn.subset v member)
  subset := by
    intro a member
    rcases addOne_subset draw sample v a member with old | rfl
    · exact List.mem_append_left _ (drawn.subset a old)
    · simp

theorem drawn_streamOutcomes {maxSize : ℕ} {items : List ℤ} (distinct : items.Nodup) (short : items.length < 2 ^ 64) :
    ∀ sample ∈ streamOutcomes maxSize items, Drawn maxSize items sample := by
  induction items using List.reverseRecOn with
  | nil =>
      intro sample member
      rw [List.mem_singleton.mp member]
      exact ⟨rfl, rfl, by simp [blank], List.nodup_nil, fun a absent => absent⟩
  | append_singleton earlier v ih =>
      intro sample member
      rw [List.length_append, List.length_singleton] at short
      rw [List.nodup_append] at distinct
      rw [streamOutcomes_concat, List.mem_flatMap] at member
      obtain ⟨before, reached, member⟩ := member
      obtain ⟨draw, rfl⟩ := exists_addOne_of_mem member
      have fresh : v ∉ earlier := fun inside => distinct.2.2 v inside v (List.mem_singleton.mpr rfl) rfl
      exact (ih distinct.1 (by omega) before reached).addOne fresh short draw

section Full

variable {maxSize : ℕ} {items : List ℤ} {sample : ReservoirSample} (drawn : Drawn maxSize items sample)
  (positive : 0 < maxSize) (full : maxSize ≤ items.length) (short : items.length < 2 ^ 64)

include drawn full positive short in
/-- A full reservoir draws from as many positions as it has seen items. -/
theorem addOneOutcomes_full (v : ℤ) : sample.addOneOutcomes v = (List.range items.length).map fun i =>
    sample.addOne (fun _ => i) v := by
  have length := drawn.length
  have capacity := drawn.capacity
  have seen := drawn.seen
  have bound : (sample.totalSeen + (2 ^ 64 - 1)) % 2 ^ 64 + 1 = items.length := by omega
  rw [addOneOutcomes, if_neg (by omega), bound]

include drawn full in
theorem addOne_full (i : ℕ) (v : ℤ) : (sample.addOne (fun _ => i) v).sampleOfData =
    if i < maxSize then sample.sampleOfData.set i v else sample.sampleOfData := by
  have length := drawn.length
  have capacity := drawn.capacity
  rw [addOne, dif_neg (by omega), ← capacity]

include drawn positive full short in
/-- An item of the sample survives every draw but that of its own position. -/
theorem countP_kept {a v : ℤ} (member : a ∈ sample.sampleOfData) (other : a ≠ v) :
    (sample.addOneOutcomes v).countP (fun next => decide (a ∈ next.sampleOfData)) = items.length - 1 := by
  obtain ⟨p, inside, rfl⟩ := List.getElem_of_mem member
  have length := drawn.length
  have survives (i : ℕ) : decide (sample.sampleOfData[p] ∈ (sample.addOne (fun _ => i) v).sampleOfData) = !(i == p) := by
    rw [addOne_full drawn full]
    by_cases here : i = p
    · subst here
      rw [if_pos (by omega)]
      have replaced : sample.sampleOfData[i] ∉ sample.sampleOfData.set i v := by
        intro found
        obtain ⟨j, small, same⟩ := List.getElem_of_mem found
        rw [List.length_set] at small
        rw [List.getElem_set] at same
        split at same
        · exact other same.symm
        · exact absurd ((List.Nodup.getElem_inj_iff drawn.distinct).mp same) (by omega)
      simp [replaced]
    · have kept : sample.sampleOfData[p] ∈ if i < maxSize then sample.sampleOfData.set i v else sample.sampleOfData := by
        split
        · have unchanged : (sample.sampleOfData.set i v)[p]? = some sample.sampleOfData[p] := by
            rw [List.getElem?_set_ne here, List.getElem?_eq_getElem inside]
          exact List.mem_of_getElem? unchanged
        · exact List.getElem_mem inside
      simp [kept, here]
  rw [addOneOutcomes_full drawn positive full short, List.countP_map]
  have counts : (List.range items.length).countP ((fun next => decide (sample.sampleOfData[p] ∈ next.sampleOfData)) ∘
      fun i => sample.addOne (fun _ => i) v) = (List.range items.length).countP (fun i => !(i == p)) := by
    congr 1
    funext i
    exact survives i
  rw [counts, countP_range_ne (by omega)]

include drawn positive full short in
/-- The new item enters with every draw inside the sample. -/
theorem countP_entered {v : ℤ} (fresh : v ∉ sample.sampleOfData) :
    (sample.addOneOutcomes v).countP (fun next => decide (v ∈ next.sampleOfData)) = maxSize := by
  have length := drawn.length
  have enters (i : ℕ) : decide (v ∈ (sample.addOne (fun _ => i) v).sampleOfData) = decide (i < maxSize) := by
    rw [addOne_full drawn full]
    split
    · rename_i inside
      have found : v ∈ sample.sampleOfData.set i v := List.mem_set (by omega) v
      simp [found, inside]
    · rename_i outside
      simp [fresh, outside]
  rw [addOneOutcomes_full drawn positive full short, List.countP_map]
  have counts : (List.range items.length).countP ((fun next => decide (v ∈ next.sampleOfData)) ∘
      fun i => sample.addOne (fun _ => i) v) = (List.range items.length).countP (fun i => decide (i < maxSize)) := by
    congr 1
    funext i
    exact enters i
  rw [counts, countP_range_lt full]

end Full

/-- Distinct values of an `int` are fewer than the items that a `size_t` can count. -/
theorem length_lt_of_ints {items : List ℤ} (distinct : items.Nodup) (ints : ∀ v ∈ items, -2 ^ 31 ≤ v ∧ v < 2 ^ 31) :
    items.length < 2 ^ 64 := by
  have within : items.toFinset ⊆ Finset.Ico (-2 ^ 31) (2 ^ 31) := by
    intro v member
    exact Finset.mem_Ico.mpr (ints v (List.mem_toFinset.mp member))
  have atMost := Finset.card_le_card within
  rw [List.toFinset_card_of_nodup distinct, Int.card_Ico] at atMost
  omega

section Inclusion

variable {maxSize : ℕ} {items : List ℤ} (distinct : items.Nodup) (short : items.length < 2 ^ 64)

include distinct short in
/-- Every item of the stream is in the sample while the stream fits the capacity. -/
theorem inclusion_of_fits (fits : items.length ≤ maxSize) {v : ℤ} (member : v ∈ items) :
    inclusion maxSize items v = 1 := by
  apply chance_eq_one (streamOutcomes_ne_nil maxSize items)
  intro sample reached
  have drawn := drawn_streamOutcomes distinct short sample reached
  have length := drawn.length
  have same := (drawn.distinct.subperm drawn.subset).perm_of_length_le (by omega)
  exact decide_eq_true (same.mem_iff.mpr member)

variable (positive : 0 < maxSize) (full : maxSize ≤ items.length)

include distinct short positive full in
theorem length_addOneOutcomes (v : ℤ) :
    ∀ sample ∈ streamOutcomes maxSize items, (sample.addOneOutcomes v).length = items.length := by
  intro sample reached
  have drawn := drawn_streamOutcomes distinct short sample reached
  rw [addOneOutcomes_full drawn positive full short, List.length_map, List.length_range]

include distinct short positive full in
/-- A full reservoir loses an item with one draw out of as many as there are items before the new one. -/
theorem inclusion_concat_old {a v : ℤ} (other : a ≠ v) :
    inclusion maxSize (items ++ [v]) a = inclusion maxSize items a * ((items.length - 1 : ℕ) / items.length) := by
  have known := @drawn_streamOutcomes maxSize items distinct short
  rw [inclusion, streamOutcomes_concat, chance_flatMap (items.length - 1) 0 (streamOutcomes_ne_nil maxSize items)
    (positive.trans_le full) (length_addOneOutcomes distinct short positive full v)]
  · rw [Nat.cast_zero, zero_div, mul_zero, add_zero]
    rfl
  · intro sample reached member
    exact countP_kept (known sample reached) positive full short (of_decide_eq_true member) other
  · intro sample reached absent
    rw [List.countP_eq_zero]
    intro next step found
    obtain ⟨draw, rfl⟩ := exists_addOne_of_mem step
    rcases addOne_subset draw sample v a (of_decide_eq_true found) with old | new
    · exact of_decide_eq_false absent old
    · exact other new

include distinct short positive full in
/-- A new item enters a full reservoir with the draws inside the sample. -/
theorem inclusion_concat_new {v : ℤ} (fresh : v ∉ items) :
    inclusion maxSize (items ++ [v]) v = maxSize / items.length := by
  have known := @drawn_streamOutcomes maxSize items distinct short
  have absent : ∀ sample ∈ streamOutcomes maxSize items, v ∉ sample.sampleOfData :=
    fun sample reached member => fresh ((known sample reached).subset v member)
  have impossible : chance (streamOutcomes maxSize items) (fun sample => decide (v ∈ sample.sampleOfData)) = 0 :=
    chance_eq_zero fun sample reached => decide_eq_false (absent sample reached)
  rw [inclusion, streamOutcomes_concat, chance_flatMap 0 maxSize (streamOutcomes_ne_nil maxSize items)
    (positive.trans_le full) (length_addOneOutcomes distinct short positive full v), impossible, zero_mul, zero_add,
    sub_zero, one_mul]
  · intro sample reached member
    exact absurd (of_decide_eq_true member) (absent sample reached)
  · intro sample reached _
    exact countP_entered (known sample reached) positive full short (absent sample reached)

end Inclusion

/-- In a stream beyond the capacity, the first items have a smaller chance than the later ones. -/
theorem inclusion_eq {maxSize : ℕ} {items : List ℤ} {v : ℤ} (positive : 0 < maxSize) (distinct : (items ++ [v]).Nodup)
    (short : items.length < 2 ^ 64) (full : maxSize ≤ items.length) :
    ∀ a ∈ items ++ [v], inclusion maxSize (items ++ [v]) a =
      (if a ∈ items.take maxSize then maxSize - 1 else maxSize : ℕ) / items.length := by
  induction items using List.reverseRecOn generalizing v with
  | nil => exact absurd (positive.trans_le full) (Nat.lt_irrefl 0)
  | append_singleton earlier w ih =>
      obtain ⟨old, -, apart⟩ := List.nodup_append.mp distinct
      have fresh : v ∉ earlier ++ [w] := fun inside => apart v inside v (List.mem_singleton.mpr rfl) rfl
      intro a member
      rcases List.mem_append.mp member with before | last
      · have other : a ≠ v := fun same => fresh (same ▸ before)
        rw [inclusion_concat_old old short positive full other]
        rw [List.length_append, List.length_singleton] at full short
        by_cases fits : earlier.length + 1 = maxSize
        · have certain := inclusion_of_fits old (by simpa using short)
            (show (earlier ++ [w]).length ≤ maxSize by simp [fits]) before
          have taken : (earlier ++ [w]).take maxSize = earlier ++ [w] := List.take_of_length_le (by simp [fits])
          rw [certain, one_mul, taken, if_pos before, List.length_append, List.length_singleton, fits]
        · have room : maxSize ≤ earlier.length := by omega
          rw [ih old (by omega) room a before, List.take_append_of_le_length room, List.length_append,
            List.length_singleton, Nat.add_sub_cancel, div_mul_div_cancel₀]
          exact Nat.cast_ne_zero.mpr (by omega)
      · obtain rfl := List.mem_singleton.mp last
        rw [inclusion_concat_new old short positive full fresh,
          if_neg fun inside => fresh (List.mem_of_mem_take inside)]

/-- A reservoir samples a stream uniformly exactly when the stream fits its capacity. -/
theorem uniform_iff {maxSize : ℕ} {items : List ℤ} (positive : 1 ≤ maxSize) (some_ : 1 ≤ items.length)
    (distinct : items.Nodup) (ints : ∀ v ∈ items, -2 ^ 31 ≤ v ∧ v < 2 ^ 31) :
    Uniform maxSize items ↔ items.length ≤ maxSize := by
  have short := length_lt_of_ints distinct ints
  constructor
  · intro uniform
    by_contra beyond
    obtain ⟨earlier, v, rfl⟩ : ∃ earlier v, items = earlier ++ [v] := by
      rcases List.eq_nil_or_concat items with rfl | ⟨earlier, v, same⟩
      · cases some_
      · exact ⟨earlier, v, by rw [same, List.concat_eq_append]⟩
    have last : v ∈ earlier ++ [v] := List.mem_append_right _ (List.mem_singleton.mpr rfl)
    have fresh : v ∉ earlier.take maxSize := fun inside =>
      (List.nodup_append.mp distinct).2.2 v (List.mem_of_mem_take inside) v (List.mem_singleton.mpr rfl) rfl
    have share := uniform v last
    rw [List.length_append, List.length_singleton] at beyond short share
    rw [inclusion_eq positive distinct (by omega) (by omega) v last, if_neg fresh] at share
    have capacity : (0 : ℚ) < maxSize := Nat.cast_pos.mpr positive
    have before : (0 : ℚ) < earlier.length := Nat.cast_pos.mpr (by omega)
    have smaller : (maxSize : ℚ) / (earlier.length + 1 : ℕ) < maxSize / earlier.length :=
      div_lt_div_of_pos_left capacity before (Nat.cast_lt.mpr (Nat.lt_succ_self _))
    exact absurd (share.trans_le (min_le_right _ _)) (not_le.mpr smaller)
  · intro fits v member
    have share : (1 : ℚ) ≤ maxSize / items.length :=
      (one_le_div₀ (Nat.cast_pos.mpr some_)).mpr (Nat.cast_le.mpr fits)
    rw [inclusion_of_fits distinct short fits member, min_eq_left share]

/-- Two items in a reservoir of three are certain. -/
theorem uniform_two_of_three : [4, 7].length ≤ 3 ∧ Uniform 3 [4, 7] := by
  refine ⟨by decide, (uniform_iff (by decide) (by decide) (by decide) ?_).mpr (by decide)⟩
  decide

/-- The second item always replaces the first one in a reservoir of one item. -/
theorem not_uniform_two_of_one :
    inclusion 1 [4, 7] 4 = 0 ∧ inclusion 1 [4, 7] 7 = 1 ∧ ¬ Uniform 1 [4, 7] := by
  have first : inclusion 1 [4, 7] 4 = 0 := by decide +kernel
  have second : inclusion 1 [4, 7] 7 = 1 := by decide +kernel
  refine ⟨first, second, ?_⟩
  intro uniform
  have share := uniform 4 (by decide)
  rw [first] at share
  exact absurd share (by decide +kernel)

end ReservoirSample

end JetStream
