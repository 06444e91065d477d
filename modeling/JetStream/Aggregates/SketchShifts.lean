import JetStream.Aggregates.RangeQuery
import Mathlib.Algebra.Order.Group.Abs
import Mathlib.Algebra.Order.Ring.Abs
import Mathlib.Tactic.NormNum

namespace JetStream

/-- The generator draws both parameters between one and the largest `int`. -/
structure HashT.Drawn (function : HashT) : Prop where
  a : 1 ≤ function.a ∧ function.a ≤ intMax
  b : 1 ≤ function.b ∧ function.b ≤ intMax

/-- A value fits the 32-bit `int`. -/
def IsInt (value : ℤ) : Prop := -2 ^ 31 ≤ value ∧ value < 2 ^ 31

namespace CMSketch

/-- The product is computed in 64 bits. -/
def product (sketch : CMSketch) (hashid : ℕ) (val : ℤ) : ℕ :=
  let function := sketch.hashes.getD hashid ⟨0, 0⟩
  toSizeT (function.a * toSizeT val + function.b)

/-- The product itself is a part of the distance. -/
def shiftCount (sketch : CMSketch) (hashid : ℕ) (val : ℤ) : ℕ := (31 + sketch.product hashid val) % 2 ^ 64

/-- The shift is defined on every machine, and the hash is a column. -/
structure HashDefined (sketch : CMSketch) (hashid : ℕ) (val : ℤ) : Prop where
  count : sketch.shiftCount hashid val ≤ 63
  column : ∀ wideShift, sketch.hash wideShift hashid val < sketch.width

section Hash

variable {sketch : CMSketch} {hashid : ℕ} {function : HashT} {val : ℤ}

/-- The product of a drawn function has no more than 63 bits and its sign. -/
theorem abs_affine_lt (drawn : function.Drawn) (isInt : IsInt val) : |function.a * val + function.b| < 2 ^ 63 := by
  obtain ⟨aLow, aHigh⟩ := drawn.a
  obtain ⟨bLow, bHigh⟩ := drawn.b
  unfold intMax at aHigh bHigh
  have factor : |val| ≤ 2 ^ 31 := abs_le.mpr ⟨isInt.1, isInt.2.le⟩
  have scaled : |function.a * val| ≤ (2 ^ 31 - 1) * 2 ^ 31 := by
    rw [abs_mul, abs_of_pos (by omega)]
    exact mul_le_mul (by omega) factor (abs_nonneg val) (by norm_num)
  have offset : |function.b| ≤ 2 ^ 31 - 1 := by
    rw [abs_of_pos (by omega)]
    omega
  calc |function.a * val + function.b| ≤ |function.a * val| + |function.b| := abs_add_le _ _
    _ ≤ (2 ^ 31 - 1) * 2 ^ 31 + (2 ^ 31 - 1) := add_le_add scaled offset
    _ < 2 ^ 63 := by norm_num

theorem product_eq (row : sketch.hashes[hashid]? = some function) (val : ℤ) :
    sketch.product hashid val = toSizeT (function.a * val + function.b) := by
  have low : (toSizeT val : ℤ) = val % 2 ^ 64 := Int.toNat_of_nonneg (Int.emod_nonneg _ (by decide))
  rw [product, List.getD_eq_getElem?_getD, row, Option.getD_some, low, toSizeT, toSizeT, Int.add_emod, Int.mul_emod,
    Int.emod_emod_of_dvd _ dvd_rfl, ← Int.mul_emod, ← Int.add_emod]

/-- The distance wraps around only when the product is small. -/
theorem shiftCount_le_iff (row : sketch.hashes[hashid]? = some function) (drawn : function.Drawn) (isInt : IsInt val) :
    sketch.shiftCount hashid val ≤ 63 ↔
      -31 ≤ function.a * val + function.b ∧ function.a * val + function.b ≤ 32 := by
  obtain ⟨low, high⟩ := abs_lt.mp (abs_affine_lt drawn isInt)
  rw [shiftCount, product_eq row, toSizeT]
  generalize function.a * val + function.b = affine at low high ⊢
  omega

theorem hashDefined_iff (row : sketch.hashes[hashid]? = some function) (drawn : function.Drawn) (isInt : IsInt val) :
    sketch.HashDefined hashid val ↔
      -31 ≤ function.a * val + function.b ∧ function.a * val + function.b ≤ 32 := by
  rw [← shiftCount_le_iff row drawn isInt]
  exact ⟨HashDefined.count, fun count => ⟨count, fun wideShift => sketch.hash_lt wideShift hashid val⟩⟩

end Hash

end CMSketch

namespace CMMultiSketch

/-- The level is subtracted from an `unsigned`, and a shift by 32 or more has no defined result. -/
def assertionShift (level : ℕ) : ℕ := toUInt32 (toUInt32 ((exactLevels : ℤ) - level) * bitsPerLevel)

def shiftLeft (wideShift : ℕ → ℕ → ℕ) (value distance : ℕ) : ℕ :=
  if distance < 32 then value <<< distance % 2 ^ 32 else wideShift value distance

/-- The assertion stands in the branch of the exact levels. -/
structure AssertionDefined (level dyadStart : ℕ) : Prop where
  count : levels ≤ level → assertionShift level ≤ 31
  holds : levels ≤ level → ∀ wideShift, dyadStart < shiftLeft wideShift 1 (assertionShift level)

/-- The assertion is defined and holds wherever the range query comes to. -/
def RangeDefined (rowHash : Fin levels → ℕ → ℤ → ℕ) (sketch : CMMultiSketch) (lower upper : ℕ) : Prop :=
  ∀ query, sketch.rangeQuery rowHash lower upper = some query →
    ∀ entry ∈ query.state.queried, AssertionDefined entry.1.level entry.1.index

/-- The difference of each exact level is negative, and the shift is defined on no exact level. -/
theorem assertionDefined_iff {level : ℕ} (below : level < 16) (dyadStart : ℕ) :
    AssertionDefined level dyadStart ↔ level < levels := by
  have ten : levels = 10 := by decide
  constructor
  · intro defined
    by_contra exact_
    have count := defined.count (not_lt.mp exact_)
    unfold assertionShift toUInt32 exactLevels bitsPerLevel at count
    omega
  · intro fine
    exact ⟨fun coarse => absurd fine coarse.not_gt, fun coarse => absurd fine coarse.not_gt⟩

theorem reach_levels (lower : ℕ) : Dyadic.reach 4 levels lower =
    (lower + 2 ^ 20 - 1) / 2 ^ 20 * 2 ^ 20 + 1398101 := by
  have ten : levels = 10 := by decide
  have sum : ∑ i ∈ Finset.range 10, 4 ^ i = 349525 := by decide
  rw [Dyadic.reach_eq (by decide), ten, sum]
  omega

section RowHash

variable {rowHash : Fin levels → ℕ → ℤ → ℕ} {sketch : CMMultiSketch} {lower upper : ℕ}

/-- A range that is not ordered has no blocks. -/
theorem queried_eq_nil (unordered : upper < lower) (fits : lower < 2 ^ 32) {query : RangeQuery}
    (ran : sketch.rangeQuery rowHash lower upper = some query) : query.state.queried = [] := by
  have stops : ¬ nextLevelStart lower < dropBits upper := by
    rw [nextLevelStart_eq (by omega), dropBits_eq (by omega)]
    omega
  have empty : upper + 1 - lower = 0 := by omega
  rw [rangeQuery, show levels + exactLevels = 15 + 1 by decide, rangeLoop, if_neg stops, empty] at ran
  split at ran
  · obtain rfl := Option.some.inj ran
    rfl
  · cases ran

/-- All blocks stay below the sixteenth level. -/
theorem reach_sixteen (lower : ℕ) (fits : upper < 2 ^ 32) : ¬ Dyadic.reach 4 16 lower ≤ upper + 1 := by
  have ends : 1 ≤ ∑ i ∈ Finset.range 16, 4 ^ i := by decide
  rw [Dyadic.reach_eq (by decide)]
  omega

/-- The query stays below the exact levels exactly when its range is short. -/
theorem rangeDefined_iff (lowerFits : lower < 2 ^ 32) (upperFits : upper < 2 ^ 32) :
    sketch.RangeDefined rowHash lower upper ↔ upper < (lower + 2 ^ 20 - 1) / 2 ^ 20 * 2 ^ 20 + 1398100 := by
  by_cases ordered : lower ≤ upper
  · obtain ⟨query, more, ran, -, asks, trimmed⟩ := sketch.rangeQuery_spec rowHash ordered upperFits
    have queried : query.state.queried = more := asks.queried
    have below (entry : Dyadic.Block × ℕ) (member : entry ∈ more) : entry.1.level < 16 := by
      by_contra high
      apply reach_sixteen lower upperFits
      rw [← trimmed.exists_level_iff (by decide), Nat.zero_add]
      exact ⟨entry.1, List.mem_map_of_mem member, not_lt.mp high⟩
    have defined : sketch.RangeDefined rowHash lower upper ↔
        ¬ ∃ block ∈ more.map Prod.fst, 0 + levels ≤ block.level := by
      simp only [List.mem_map, not_exists, not_and, Nat.zero_add, not_le]
      constructor
      · rintro all block ⟨entry, member, rfl⟩
        exact (assertionDefined_iff (below entry member) _).mp (all query ran entry (queried ▸ member))
      · intro fine other ran' entry member
        obtain rfl := Option.some.inj (ran.symm.trans ran')
        rw [queried] at member
        exact (assertionDefined_iff (below entry member) _).mpr (fine _ ⟨entry, member, rfl⟩)
    rw [defined, trimmed.exists_level_iff (by decide), reach_levels]
    omega
  · apply iff_of_true
    · intro query ran entry member
      rw [queried_eq_nil (not_le.mp ordered) lowerFits ran] at member
      cases member
    · omega

/-- The shift of a hash is defined exactly for a few small products, and the shifts of a range query exactly for ranges
that are too short for the exact levels. -/
theorem shifts_defined_iff {pane : CMSketch} {hashid : ℕ} {function : HashT} {val : ℤ}
    (row : pane.hashes[hashid]? = some function) (drawn : function.Drawn) (isInt : IsInt val)
    (lowerFits : lower < 2 ^ 32) (upperFits : upper < 2 ^ 32) :
    (pane.HashDefined hashid val ↔
        -31 ≤ function.a * val + function.b ∧ function.a * val + function.b ≤ 32) ∧
      (sketch.RangeDefined rowHash lower upper ↔
        upper < (lower + 2 ^ 20 - 1) / 2 ^ 20 * 2 ^ 20 + 1398100) :=
  ⟨CMSketch.hashDefined_iff row drawn isInt, rangeDefined_iff lowerFits upperFits⟩

/-- A small value and a range of a thousand values are served. -/
theorem shifts_defined_iff_small : ∃ pane sketch, CMSketch.init (fun _ _ => 1) 3 1 0 = some pane ∧
    new (fun _ _ => 1) 3 1 0 = some sketch ∧ pane.HashDefined 0 7 ∧
      sketch.RangeDefined (fun l => (sketch.panes l).hash fun _ _ => 0) 1 1000 := by
  obtain ⟨sketch, made⟩ : ∃ sketch, new (fun _ _ => 1) 3 1 0 = some sketch := ⟨_, rfl⟩
  obtain ⟨pane, started, row⟩ : ∃ pane, CMSketch.init (fun _ _ => 1) 3 1 0 = some pane ∧ pane.hashes[0]? = some ⟨1, 1⟩ :=
    ⟨_, rfl, rfl⟩
  have isInt : IsInt 7 := ⟨by decide, by decide⟩
  have defined := @shifts_defined_iff (fun l => (sketch.panes l).hash fun _ _ => 0) sketch 1 1000 pane 0 ⟨1, 1⟩ 7 row
    ⟨by decide, by decide⟩ isInt (by decide) (by decide)
  exact ⟨pane, sketch, started, made, defined.1.mpr (by decide), defined.2.mpr (by decide)⟩

/-- A value of 32 is shifted by 64, and a query of all values comes to the exact levels. -/
theorem shifts_undefined : ∃ pane sketch, CMSketch.init (fun _ _ => 1) 3 1 0 = some pane ∧
    new (fun _ _ => 1) 3 1 0 = some sketch ∧ ¬ pane.HashDefined 0 32 ∧
      ¬ sketch.RangeDefined (fun l => (sketch.panes l).hash fun _ _ => 0) 0 intMax := by
  refine ⟨_, _, rfl, rfl, ?_, ?_⟩
  · intro defined
    exact absurd defined.count (by decide)
  · rw [rangeDefined_iff (by decide) (by decide)]
    decide

end RowHash

end CMMultiSketch


end JetStream
