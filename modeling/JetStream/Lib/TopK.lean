import Mathlib.Data.Finset.Card
import Mathlib.Data.Finset.Max
import Mathlib.Order.Defs.LinearOrder

/-- The chosen keys are as many as asked for, and no other key has a larger total. -/
structure IsTopK {K T : Type} [DecidableEq K] [LinearOrder T] (total : K → T) (keys : Finset K) (k : ℕ)
    (top : Finset K) : Prop where
  subset : top ⊆ keys
  card : top.card = min k keys.card
  largest : ∀ key ∈ top, ∀ other ∈ keys \ top, total other ≤ total key

section TopK

variable {K T : Type} [DecidableEq K] [LinearOrder T] {total : K → T} {keys : Finset K} {k : ℕ}

/-- The largest key outside a smaller choice extends it. -/
theorem IsTopK.insert {top : Finset K} (chosen : IsTopK total keys k top) (more : k < keys.card) :
    ∃ key ∈ keys \ top, IsTopK total keys (k + 1) (insert key top) := by
  have size : top.card = k := by
    rw [chosen.card, min_eq_left more.le]
  have rest : (keys \ top).Nonempty := by
    rw [← Finset.card_pos, Finset.card_sdiff_of_subset chosen.subset]
    omega
  obtain ⟨key, member, best⟩ := Finset.exists_max_image (keys \ top) total rest
  obtain ⟨listed, fresh⟩ := Finset.mem_sdiff.mp member
  refine ⟨key, member, Finset.insert_subset listed chosen.subset, ?_, ?_⟩
  · rw [Finset.card_insert_of_notMem fresh]
    omega
  · intro taken inside other outside
    obtain ⟨known, left⟩ := Finset.mem_sdiff.mp outside
    have unchosen : other ∈ keys \ top :=
      Finset.mem_sdiff.mpr ⟨known, fun inTop => left (Finset.mem_insert_of_mem inTop)⟩
    rcases Finset.mem_insert.mp inside with rfl | earlier
    · exact best other unchosen
    · exact chosen.largest taken earlier other unchosen

theorem exists_topK (total : K → T) (keys : Finset K) (k : ℕ) : ∃ top, IsTopK total keys k top := by
  induction k with
  | zero => exact ⟨∅, Finset.empty_subset _, by simp, by simp⟩
  | succ k ih =>
      obtain ⟨top, chosen⟩ := ih
      by_cases more : k < keys.card
      · obtain ⟨key, -, larger⟩ := chosen.insert more
        exact ⟨_, larger⟩
      · have full : min (k + 1) keys.card = min k keys.card := by omega
        exact ⟨top, chosen.subset, by rw [full, chosen.card], chosen.largest⟩

/-- A bound that enough of the queried keys reach, and no other key exceeds, keeps a top set among the queried. -/
theorem exists_topK_of_bound {queried : Finset K} {bound : T} (known : queried ⊆ keys)
    (enough : k ≤ (queried.filter fun key => bound ≤ total key).card)
    (outside : ∀ key ∈ keys \ queried, total key ≤ bound) : ∃ top ⊆ queried, IsTopK total keys k top := by
  obtain ⟨top, chosen⟩ := exists_topK total queried k
  have many : k ≤ queried.card := enough.trans (Finset.card_filter_le _ _)
  have size : top.card = k := by
    rw [chosen.card, min_eq_left many]
  have reaches : ∀ key ∈ top, bound ≤ total key := by
    intro key member
    by_contra below
    have within : (queried.filter fun key => bound ≤ total key) ⊆ top.erase key := by
      intro other reached
      obtain ⟨listed, high⟩ := Finset.mem_filter.mp reached
      by_cases inTop : other ∈ top
      · refine Finset.mem_erase.mpr ⟨?_, inTop⟩
        rintro rfl
        exact below high
      · have least := chosen.largest key member other (Finset.mem_sdiff.mpr ⟨listed, inTop⟩)
        exact absurd (high.trans least) below
    have fewer := Finset.card_le_card within
    rw [Finset.card_erase_of_mem member] at fewer
    have positive := Finset.card_pos.mpr ⟨key, member⟩
    omega
  refine ⟨top, chosen.subset, chosen.subset.trans known, ?_, ?_⟩
  · rw [size, min_eq_left (many.trans (Finset.card_le_card known))]
  · intro key member other left
    obtain ⟨listed, unchosen⟩ := Finset.mem_sdiff.mp left
    by_cases asked : other ∈ queried
    · exact chosen.largest key member other (Finset.mem_sdiff.mpr ⟨asked, unchosen⟩)
    · exact (outside other (Finset.mem_sdiff.mpr ⟨listed, asked⟩)).trans (reaches key member)

/-- Fewer keys than asked for exceed a chosen key. -/
theorem IsTopK.card_greater_lt {top : Finset K} (chosen : IsTopK total keys k top) {key : K} (member : key ∈ top) :
    (keys.filter fun other => total key < total other).card < k := by
  have within : (keys.filter fun other => total key < total other) ⊆ top.erase key := by
    intro other greater
    obtain ⟨listed, above⟩ := Finset.mem_filter.mp greater
    rw [Finset.mem_erase]
    refine ⟨fun same => absurd above (same ▸ lt_irrefl _), ?_⟩
    by_contra unchosen
    exact absurd (chosen.largest key member other (Finset.mem_sdiff.mpr ⟨listed, unchosen⟩)) (not_le.mpr above)
  have fewer := Finset.card_le_card within
  have size := chosen.card
  have positive := Finset.card_pos.mpr ⟨key, member⟩
  rw [Finset.card_erase_of_mem member] at fewer
  omega

/-- A key that fewer keys than asked for exceed is in some top set. -/
theorem exists_topK_mem {key : K} (listed : key ∈ keys)
    (few : (keys.filter fun other => total key < total other).card < k) : ∃ top, IsTopK total keys k top ∧ key ∈ top := by
  obtain ⟨top, chosen⟩ := exists_topK total keys k
  by_cases member : key ∈ top
  · exact ⟨top, chosen, member⟩
  have smaller : top.card < keys.card :=
    Finset.card_lt_card ⟨chosen.subset, fun all => member (all listed)⟩
  have size : top.card = k := by
    have size := chosen.card
    omega
  obtain ⟨tied, isTied, notGreater⟩ : ∃ tied ∈ top, tied ∉ keys.filter fun other => total key < total other :=
    Finset.exists_mem_notMem_of_card_lt_card (by omega)
  have below : total tied ≤ total key :=
    not_lt.mp fun above => notGreater (Finset.mem_filter.mpr ⟨chosen.subset isTied, above⟩)
  have fresh : key ∉ top.erase tied := fun inside => member (Finset.mem_of_mem_erase inside)
  have leastChosen (other : K) (isChosen : other ∈ top) : total key ≤ total other :=
    chosen.largest other isChosen key (Finset.mem_sdiff.mpr ⟨listed, member⟩)
  refine ⟨insert key (top.erase tied), ⟨?_, ?_, ?_⟩, Finset.mem_insert_self _ _⟩
  · exact Finset.insert_subset listed ((Finset.erase_subset _ _).trans chosen.subset)
  · rw [Finset.card_insert_of_notMem fresh, Finset.card_erase_of_mem isTied]
    omega
  · intro taken inside other outside
    obtain ⟨known, left⟩ := Finset.mem_sdiff.mp outside
    have low : total other ≤ total key := by
      by_cases same : other = tied
      · rw [same]
        exact below
      · have unchosen : other ∉ top := fun isChosen =>
          left (Finset.mem_insert_of_mem (Finset.mem_erase.mpr ⟨same, isChosen⟩))
        exact (chosen.largest tied isTied other (Finset.mem_sdiff.mpr ⟨known, unchosen⟩)).trans below
    rcases Finset.mem_insert.mp inside with rfl | kept
    · exact low
    · exact low.trans (leastChosen taken (Finset.mem_of_mem_erase kept))

/-- An element of a sorted list is at most all that follow it. -/
theorem le_length_filter_of_sorted {values : List T} (sorted : values.Pairwise (· ≤ ·)) {i : ℕ} {value : T}
    (found : values[i]? = some value) : values.length - i ≤ (values.filter fun other => value ≤ other).length := by
  have above : ∀ other ∈ values.drop i, value ≤ other := by
    obtain ⟨inside, rfl⟩ := List.getElem?_eq_some_iff.mp found
    intro other member
    rw [List.drop_eq_getElem_cons inside, List.mem_cons] at member
    rcases member with rfl | later
    · exact le_rfl
    · rw [← List.take_append_drop i values, List.drop_eq_getElem_cons inside, List.pairwise_append,
        List.pairwise_cons] at sorted
      exact sorted.2.1.1 other later
  have kept : (values.drop i).filter (fun other => value ≤ other) = values.drop i :=
    List.filter_eq_self.mpr (by simpa using above)
  rw [← List.length_drop, ← kept]
  exact ((List.drop_sublist i values).filter _).length_le

end TopK
