import JetStream.Aggregates.CMMultiSketch

namespace JetStream

namespace CMSketch

/-- The widths or two hash functions of a common row differ. -/
def Differs (sketch rhs : CMSketch) : Prop :=
  sketch.width ≠ rhs.width ∨
    ∃ i < min sketch.depth rhs.depth, sketch.hashes.getD i ⟨0, 0⟩ ≠ rhs.hashes.getD i ⟨0, 0⟩

/-- Two sketches agree when no later operation can tell their used rows apart. -/
structure Agrees (first second : CMSketch) : Prop where
  width : first.width = second.width
  depth : first.depth = second.depth
  total : first.totalCount = second.totalCount
  hashes : ∀ i < first.depth, first.hashes.getD i ⟨0, 0⟩ = second.hashes.getD i ⟨0, 0⟩
  cell : ∀ i < first.depth, ∀ j < first.width, first.cell i j = second.cell i j

/-- Every counter in the rows common to both sketches is zero. -/
def Blank (sketch rhs : CMSketch) : Prop :=
  ∀ i < min sketch.depth rhs.depth, ∀ j < sketch.width, sketch.cell i j = 0

/-- A sketch is refused exactly when its width or a common hash function differs. -/
theorem canAccept_eq_false_iff {sketch rhs : CMSketch} (bound : min sketch.depth rhs.depth ≤ intMax) :
    sketch.canAccept rhs = false ↔ sketch.Differs rhs := by
  have rows : (toInt32 (min sketch.depth rhs.depth)).toNat = min sketch.depth rhs.depth := by
    rw [toInt32_eq (by unfold intMax at bound; omega), Int.toNat_natCast]
  rw [← Bool.not_eq_true, canAccept, rows, Differs]
  simp only [Bool.and_eq_true, decide_eq_true_eq, List.all_eq_true, List.mem_range, not_and_or, not_forall, exists_prop]
  constructor
  · rintro (width | ⟨i, row, different⟩)
    · exact Or.inl width
    · exact Or.inr ⟨i, row, Ne.symm different⟩
  · rintro (width | ⟨i, row, different⟩)
    · exact Or.inl width
    · exact Or.inr ⟨i, row, Ne.symm different⟩

theorem mergeIn_fst (sketch rhs : CMSketch) : (sketch.mergeIn rhs).1 = sketch.canAccept rhs := by
  rw [mergeIn]
  cases sketch.canAccept rhs <;> rfl

theorem mergeIn_refused {sketch rhs : CMSketch} (refused : sketch.canAccept rhs = false) :
    (sketch.mergeIn rhs).2 = sketch := by
  simp [mergeIn, refused]

/-- The merge keeps the shape, adds the totals and copies the other sketch's cells. -/
theorem mergeIn_accepted {sketch rhs : CMSketch} (accepted : sketch.canAccept rhs = true) :
    (sketch.mergeIn rhs).2.width = sketch.width ∧
      (sketch.mergeIn rhs).2.depth = min sketch.depth rhs.depth ∧
      (sketch.mergeIn rhs).2.hashes = sketch.hashes ∧
      (sketch.mergeIn rhs).2.totalCount = addCount sketch.totalCount rhs.totalCount ∧
      ∀ i < min sketch.depth rhs.depth, ∀ j < sketch.width,
        (sketch.mergeIn rhs).2.cell i j = rhs.cell i j := by
  have width : sketch.width = rhs.width := by
    simp only [canAccept, Bool.and_eq_true, decide_eq_true_eq] at accepted
    exact accepted.1
  rw [mergeIn, if_pos accepted]
  refine ⟨rfl, rfl, rfl, rfl, ?_⟩
  intro i row j column
  have inside : i * sketch.width + j < sketch.matrix.length := by
    rw [sketch.cells]
    exact CellArray.position_lt ((row.trans_le (Nat.min_le_left _ _)).trans_le sketch.rows) column
  simp only [cell, List.getD_eq_getElem?_getD]
  rw [CellArray.getElem?_setAll _ _ _ _ inside, if_pos ((CellArray.mem_positions column).mpr row), width]
  rfl

section Environment

variable {draws : ℤ → ℕ → ℤ} {wideShift : ℕ → ℕ → ℕ} {w d w' d' : ℕ} {seed seed' : ℤ} {A B : List (ℤ × ℤ)}
  {a b : CMSketch}

/-- A row of a smaller depth draws the same hash function. -/
theorem drawHashes_getD {i : ℕ} (inside : i < d) :
    (drawHashes draws d seed).getD i ⟨0, 0⟩ = ⟨draws seed (2 * i), draws seed (2 * i + 1)⟩ := by
  rw [List.getD_eq_getElem _ _ (by simpa [drawHashes] using inside)]
  simp [drawHashes]

/-- An accepted merge gives the sketch of both streams exactly when the common rows were blank. -/
theorem mergeIn_agrees_iff (left : build draws wideShift w d seed A = some a)
    (right : build draws wideShift w' d' seed' B = some b) (bound : min d d' ≤ intMax)
    (accepted : a.canAccept b = true) :
    (∃ sketch, build draws wideShift w (min d d') seed (A ++ B) = some sketch ∧
      (a.mergeIn b).2.Agrees sketch) ↔ a.Blank b := by
  obtain ⟨range, aWidth, aDepth, aHashes, aCounts⟩ := build_eq_some draws wideShift left
  obtain ⟨-, bWidth, bDepth, bHashes, bCounts⟩ := build_eq_some draws wideShift right
  obtain ⟨sketch, both⟩ := Option.isSome_iff_exists.mp
    (build_isSome draws wideShift range (min d d') seed (A ++ B))
  obtain ⟨-, width, depth, hashes, counts⟩ := build_eq_some draws wideShift both
  obtain ⟨mWidth, mDepth, mHashes, mTotal, mCell⟩ := mergeIn_accepted accepted
  have compatible : ¬ a.Differs b := by
    rw [← canAccept_eq_false_iff (by rw [aDepth, bDepth]; exact bound), accepted]
    decide
  simp only [Differs, not_or, not_not, not_exists, not_and] at compatible
  obtain ⟨sameWidth, sameHashes⟩ := compatible
  have ownHashes : ∀ i < min d d', a.hashes.getD i ⟨0, 0⟩ = sketch.hashes.getD i ⟨0, 0⟩ := by
    intro i row
    rw [aHashes, hashes, drawHashes_getD (by omega), drawHashes_getD row]
  have cells : ∀ i < min d d', ∀ j < a.width,
      ((a.mergeIn b).2.cell i j = sketch.cell i j ↔ a.cell i j = 0) := by
    intro i row j column
    have aScore : a.score wideShift i j A = sketch.score wideShift i j A := by
      simp only [score, hash_congr wideShift (aWidth.trans width.symm) (ownHashes i row)]
    have bScore : b.score wideShift i j B = sketch.score wideShift i j B := by
      have function : b.hashes.getD i ⟨0, 0⟩ = sketch.hashes.getD i ⟨0, 0⟩ := by
        rw [← sameHashes i (by rw [aDepth, bDepth]; exact row), ownHashes i row]
      simp only [score, hash_congr wideShift (sameWidth.symm.trans (aWidth.trans width.symm)) function]
    have split : sketch.score wideShift i j (A ++ B) =
        sketch.score wideShift i j A + sketch.score wideShift i j B := by
      simp [score]
    rw [mCell i (by rw [aDepth, bDepth]; exact row) j column, bCounts.cell i j (by omega) (by omega),
      counts.cell i j (by omega) (by omega), aCounts.cell i j (by omega) column, split, aScore, bScore, eq_comm,
      toUInt32_add_eq_right]
  constructor
  · rintro ⟨other, found, agrees⟩ i row j column
    rw [both] at found
    obtain rfl := Option.some.inj found
    rw [aDepth, bDepth] at row
    exact (cells i row j column).mp (agrees.cell i (by omega) j (by omega))
  · intro blank
    refine ⟨sketch, both, ?_⟩
    constructor
    · rw [mWidth, aWidth, width]
    · rw [mDepth, depth, aDepth, bDepth]
    · rw [mTotal, counts.total, aCounts.total, bCounts.total, addCount_toUInt32, List.map_append, List.sum_append]
    · intro i row
      rw [mHashes]
      exact ownHashes i (by omega)
    · intro i row j column
      exact (cells i (by omega) j (by omega)).mpr (blank i (by omega) j (by omega))

end Environment

/-- A merge that returns true gives the sketch of both streams, and it returns false exactly for sketches that
differ in shape, which it leaves unchanged. -/
def MergeLaw (draws : ℤ → ℕ → ℤ) (wideShift : ℕ → ℕ → ℕ) (w d d' : ℕ) (seed : ℤ) (A B : List (ℤ × ℤ))
    (a b : CMSketch) : Prop :=
  ((a.mergeIn b).1 = true → ∃ sketch, build draws wideShift w (min d d') seed (A ++ B) = some sketch ∧
    (a.mergeIn b).2.Agrees sketch) ∧
  ((a.mergeIn b).1 = false ↔ a.Differs b) ∧
  ((a.mergeIn b).1 = false → (a.mergeIn b).2 = a)

theorem mergeLaw_iff {draws : ℤ → ℕ → ℤ} {wideShift : ℕ → ℕ → ℕ} {w d w' d' : ℕ} {seed seed' : ℤ}
    {A B : List (ℤ × ℤ)} {a b : CMSketch} (left : build draws wideShift w d seed A = some a)
    (right : build draws wideShift w' d' seed' B = some b) (bound : min d d' ≤ intMax) :
    MergeLaw draws wideShift w d d' seed A B a b ↔ a.Differs b ∨ a.Blank b := by
  have depths : min a.depth b.depth ≤ intMax := by
    obtain ⟨-, -, aDepth, -⟩ := build_eq_some draws wideShift left
    obtain ⟨-, -, bDepth, -⟩ := build_eq_some draws wideShift right
    rw [aDepth, bDepth]
    exact bound
  have refusal := canAccept_eq_false_iff depths
  rw [MergeLaw, mergeIn_fst, refusal]
  cases accepted : a.canAccept b with
  | true =>
      have same : ¬ a.Differs b := by simp [← refusal, accepted]
      simp only [same, mergeIn_agrees_iff left right bound accepted, false_or, iff_self, and_true,
        forall_const, false_imp_iff]
  | false =>
      have different := refusal.mp accepted
      simp [different, mergeIn_refused accepted]

end CMSketch

namespace CMMultiSketch

/-- Two multi-sketches agree when they agree at every level. -/
structure Agrees (first second : CMMultiSketch) : Prop where
  panes : ∀ i, (first.panes i).Agrees (second.panes i)
  exactCounts : first.exactCounts = second.exactCounts
  randSeed : first.randSeed = second.randSeed

/-- The law of a multi-sketch compares every level. -/
def MergeLaw (draws : ℤ → ℕ → ℤ) (wideShift : ℕ → ℕ → ℕ) (w d d' : ℕ) (seed : ℤ) (A B : List (ℤ × ℕ))
    (a b : CMMultiSketch) : Prop :=
  ((a.mergeIn b).1 = true → ∃ sketch, build draws wideShift w (min d d') seed (A ++ B) = some sketch ∧
    (a.mergeIn b).2.Agrees sketch) ∧
  ((a.mergeIn b).1 = false ↔ ∃ i, (a.panes i).Differs (b.panes i)) ∧
  ((a.mergeIn b).1 = false → (a.mergeIn b).2 = a)

section Environment

variable {draws : ℤ → ℕ → ℤ} {wideShift : ℕ → ℕ → ℕ} {w d w' d' : ℕ} {seed seed' : ℤ} {A B : List (ℤ × ℕ)}
  {a b : CMMultiSketch}

/-- The exact tables of an accepted merge always count both streams. -/
theorem mergeIn_exactCounts (left : build draws wideShift w d seed A = some a)
    (right : build draws wideShift w' d' seed' B = some b) (accepted : (a.mergeIn b).1 = true) {d'' : ℕ}
    {sketch : CMMultiSketch} (both : build draws wideShift w d'' seed (A ++ B) = some sketch) :
    (a.mergeIn b).2.exactCounts = sketch.exactCounts := by
  obtain ⟨-, -, -, aExact⟩ := build_eq_some left
  obtain ⟨-, -, -, bExact⟩ := build_eq_some right
  obtain ⟨-, -, -, exact_⟩ := build_eq_some both
  funext i c
  have split : exactScore i c (A ++ B) = exactScore i c A + exactScore i c B := by
    simp [exactScore]
  unfold mergeIn at accepted ⊢
  split at accepted
  · rename_i every
    rw [if_pos every, exact_ i c, split]
    dsimp only
    rw [aExact i c, bExact i c, addCount]
    omega
  · cases accepted

/-- An accepted merge gives the multi-sketch of both streams exactly when the common rows of all panes were
blank. -/
theorem mergeIn_agrees_iff (left : build draws wideShift w d seed A = some a)
    (right : build draws wideShift w' d' seed' B = some b) (bound : min d d' ≤ intMax)
    (accepted : ∀ i, (a.panes i).canAccept (b.panes i) = true) :
    (∃ sketch, build draws wideShift w (min d d') seed (A ++ B) = some sketch ∧
      (a.mergeIn b).2.Agrees sketch) ↔ ∀ i, (a.panes i).Blank (b.panes i) := by
  obtain ⟨aFits, aSeed, aPanes, -⟩ := build_eq_some left
  obtain ⟨bFits, -, bPanes, -⟩ := build_eq_some right
  obtain ⟨range, -⟩ := CMSketch.build_eq_some draws wideShift (aPanes ⟨0, by decide⟩)
  have fits : ∀ item ∈ A ++ B, Fits item.1 := by
    intro item member
    exact (List.mem_append.mp member).elim (aFits item) (bFits item)
  obtain ⟨sketch, both⟩ := Option.isSome_iff_exists.mp
    (build_isSome draws wideShift range (min d d') seed (A ++ B) fits)
  obtain ⟨-, seeds, panes, -⟩ := build_eq_some both
  have merged : (a.mergeIn b).2.panes = fun i => ((a.panes i).mergeIn (b.panes i)).2 := by
    rw [mergeIn, if_pos accepted]
  have pane : ∀ i, ((a.mergeIn b).2.panes i).Agrees (sketch.panes i) ↔ (a.panes i).Blank (b.panes i) := by
    intro i
    have law := CMSketch.mergeIn_agrees_iff (aPanes i) (bPanes i) bound (accepted i)
    have streams : levelStream i A ++ levelStream i B = levelStream i (A ++ B) := by
      simp [levelStream]
    rw [← law, merged, streams, panes i]
    simp
  constructor
  · rintro ⟨other, found, agrees⟩ i
    rw [both] at found
    obtain rfl := Option.some.inj found
    exact (pane i).mp (agrees.panes i)
  · intro blank
    have done : (a.mergeIn b).1 = true := by rw [mergeIn, if_pos accepted]
    refine ⟨sketch, both, fun i => (pane i).mpr (blank i), mergeIn_exactCounts left right done both, ?_⟩
    rw [seeds, ← aSeed, mergeIn, if_pos accepted]

theorem mergeLaw_iff (left : build draws wideShift w d seed A = some a)
    (right : build draws wideShift w' d' seed' B = some b) (bound : min d d' ≤ intMax) :
    MergeLaw draws wideShift w d d' seed A B a b ↔
      (∃ i, (a.panes i).Differs (b.panes i)) ∨ ∀ i, (a.panes i).Blank (b.panes i) := by
  obtain ⟨-, -, aPanes, -⟩ := build_eq_some left
  obtain ⟨-, -, bPanes, -⟩ := build_eq_some right
  have refusal : ∀ i, (a.panes i).canAccept (b.panes i) = false ↔ (a.panes i).Differs (b.panes i) := by
    intro i
    obtain ⟨-, -, aDepth, -⟩ := CMSketch.build_eq_some draws wideShift (aPanes i)
    obtain ⟨-, -, bDepth, -⟩ := CMSketch.build_eq_some draws wideShift (bPanes i)
    exact CMSketch.canAccept_eq_false_iff (by rw [aDepth, bDepth]; exact bound)
  by_cases accepted : ∀ i, (a.panes i).canAccept (b.panes i) = true
  · have done : (a.mergeIn b).1 = true := by rw [mergeIn, if_pos accepted]
    have same : ¬ ∃ i, (a.panes i).Differs (b.panes i) := by
      rintro ⟨i, different⟩
      rw [← refusal i, accepted i] at different
      cases different
    simp [MergeLaw, done, same, mergeIn_agrees_iff left right bound accepted]
  · have kept : a.mergeIn b = (false, a) := by rw [mergeIn, if_neg accepted]
    have different : ∃ i, (a.panes i).Differs (b.panes i) := by
      rw [not_forall] at accepted
      obtain ⟨i, refused⟩ := accepted
      exact ⟨i, (refusal i).mp (Bool.not_eq_true _ ▸ refused)⟩
    simp [MergeLaw, kept, different]

end Environment

end CMMultiSketch

/-- Both merge laws hold exactly for sketches that differ in shape or whose receiver has only zero counters in the
common rows. -/
theorem sketch_mergeLaw_iff (draws : ℤ → ℕ → ℤ) (wideShift : ℕ → ℕ → ℕ) :
    (∀ (w d w' d' : ℕ) (seed seed' : ℤ) (A B : List (ℤ × ℤ)) (a b : CMSketch),
      CMSketch.build draws wideShift w d seed A = some a →
      CMSketch.build draws wideShift w' d' seed' B = some b → min d d' ≤ intMax →
      (CMSketch.MergeLaw draws wideShift w d d' seed A B a b ↔ a.Differs b ∨ a.Blank b)) ∧
    (∀ (w d w' d' : ℕ) (seed seed' : ℤ) (A B : List (ℤ × ℕ)) (a b : CMMultiSketch),
      CMMultiSketch.build draws wideShift w d seed A = some a →
      CMMultiSketch.build draws wideShift w' d' seed' B = some b → min d d' ≤ intMax →
      (CMMultiSketch.MergeLaw draws wideShift w d d' seed A B a b ↔
        (∃ i, (a.panes i).Differs (b.panes i)) ∨ ∀ i, (a.panes i).Blank (b.panes i))) := by
  constructor
  · intro w d w' d' seed seed' A B a b left right bound
    exact CMSketch.mergeLaw_iff left right bound
  · intro w d w' d' seed seed' A B a b left right bound
    exact CMMultiSketch.mergeLaw_iff left right bound

/-- These are the first two draws of the generator with seed 1. -/
def firstDraws : ℤ → ℕ → ℤ := fun _ i => if i = 0 then 895547923 else 2141438070

/-- The processor shifts by the low six bits of the distance. -/
def maskedShift : ℕ → ℕ → ℕ := fun value distance => value >>> (distance % 64)

/-- The law applies to a receiver that has counted nothing. -/
theorem sketch_mergeLaw_empty_receiver :
    (∃ a b, CMSketch.build firstDraws maskedShift 3 1 1 [] = some a ∧
      CMSketch.build firstDraws maskedShift 3 1 1 [(7, 1)] = some b ∧
      CMSketch.MergeLaw firstDraws maskedShift 3 1 1 1 [] [(7, 1)] a b) ∧
    (∃ a b, CMMultiSketch.build firstDraws maskedShift 3 1 1 [] = some a ∧
      CMMultiSketch.build firstDraws maskedShift 3 1 1 [(7, 1)] = some b ∧
      CMMultiSketch.MergeLaw firstDraws maskedShift 3 1 1 1 [] [(7, 1)] a b) := by
  have law := sketch_mergeLaw_iff firstDraws maskedShift
  constructor
  · obtain ⟨a, left⟩ := Option.isSome_iff_exists.mp
      (CMSketch.build_isSome firstDraws maskedShift (show 2 < 3 ∧ 3 < 12 by decide) 1 1 [])
    obtain ⟨b, right⟩ := Option.isSome_iff_exists.mp
      (CMSketch.build_isSome firstDraws maskedShift (show 2 < 3 ∧ 3 < 12 by decide) 1 1 [(7, 1)])
    refine ⟨a, b, left, right, (law.1 _ _ _ _ _ _ _ _ a b left right (by decide)).mpr (Or.inr ?_)⟩
    obtain ⟨-, -, -, -, counts⟩ := CMSketch.build_eq_some _ _ left
    intro i row j column
    rw [counts.cell i j (by omega) column]
    rfl
  · obtain ⟨a, left⟩ := Option.isSome_iff_exists.mp (CMMultiSketch.build_isSome firstDraws maskedShift
      (show 2 < 3 ∧ 3 < 12 by decide) 1 1 [] (by decide))
    obtain ⟨b, right⟩ := Option.isSome_iff_exists.mp (CMMultiSketch.build_isSome firstDraws maskedShift
      (show 2 < 3 ∧ 3 < 12 by decide) 1 1 [(7, 1)] (by decide))
    refine ⟨a, b, left, right, (law.2 _ _ _ _ _ _ _ _ a b left right (by decide)).mpr (Or.inr ?_)⟩
    obtain ⟨-, -, panes, -⟩ := CMMultiSketch.build_eq_some left
    intro level i row j column
    obtain ⟨-, -, -, -, counts⟩ := CMSketch.build_eq_some _ _ (panes level)
    rw [counts.cell i j (by omega) column]
    rfl

/-- Merging an empty sketch erases the receiver's only item but keeps its total. -/
theorem sketch_merge_erases :
    ∃ a b, CMSketch.build firstDraws maskedShift 3 1 1 [(7, 1)] = some a ∧
      CMSketch.build firstDraws maskedShift 3 1 1 [] = some b ∧
      ¬ CMSketch.MergeLaw firstDraws maskedShift 3 1 1 1 [(7, 1)] [] a b := by
  have cells : (CMSketch.build firstDraws maskedShift 3 1 1 [(7, 1)]).map (fun sketch => sketch.cell 0 5) =
      some 1 := by
    decide
  obtain ⟨a, left⟩ := Option.isSome_iff_exists.mp
    (CMSketch.build_isSome firstDraws maskedShift (show 2 < 3 ∧ 3 < 12 by decide) 1 1 [(7, 1)])
  obtain ⟨b, right⟩ := Option.isSome_iff_exists.mp
    (CMSketch.build_isSome firstDraws maskedShift (show 2 < 3 ∧ 3 < 12 by decide) 1 1 [])
  obtain ⟨-, aWidth, aDepth, aHashes, -⟩ := CMSketch.build_eq_some _ _ left
  obtain ⟨-, bWidth, bDepth, bHashes, -⟩ := CMSketch.build_eq_some _ _ right
  refine ⟨a, b, left, right, ?_⟩
  rw [CMSketch.mergeLaw_iff left right (by decide)]
  rintro ((width | ⟨i, -, function⟩) | blank)
  · exact width (aWidth.trans bWidth.symm)
  · exact function (by rw [aHashes, bHashes])
  · have zero := blank 0 (by omega) 5 (by omega)
    rw [left, Option.map_some, zero] at cells
    cases cells

end JetStream
