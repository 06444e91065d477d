import JetStream.Lib.Float64
import JetStream.Aggregates.RangeQuery
import JetStream.Aggregates.Serialization

namespace JetStream

/-- A fraction is a double that is written as a decimal between zero and one. -/
def IsFraction (q : Float64) : Prop :=
  ∃ (numerator : ℤ) (denominator : ℕ), 0 < denominator ∧ q = .ofRatio numerator denominator ∧
    Float64.ofInt 0 < q ∧ q < .ofInt 1

theorem IsFraction.exists_eq {q : Float64} (fraction : IsFraction q) :
    ∃ units, q = .finite false units ∧ units + 2 ^ 1021 ≤ Float64.one := by
  obtain ⟨numerator, denominator, defined, rfl, positive, below⟩ := fraction
  exact Float64.exists_ofRatio_eq defined positive below

/-- The position of a quantile is the truncated product of the size and the fraction. -/
def quantileIndex (size : ℕ) (q : Float64) : ℕ := (.ofInt size * q : Float64).truncate.toNat

theorem quantileIndex_lt {size : ℕ} {q : Float64} (fraction : IsFraction q) (positive : 0 < size) (fits : size ≤ intMax) :
    quantileIndex size q < size := by
  obtain ⟨units, rfl, below⟩ := fraction.exists_eq
  unfold intMax at fits
  exact Float64.truncate_ofInt_mul_lt positive (by omega) below

/-- The quantile of some values is one of them in their order. -/
def sortedQuantile (values : List ℤ) (q : Float64) : Option ℤ :=
  (values.insertionSort (· ≤ ·))[quantileIndex values.length q]?

/-- Any values have a quantile. -/
theorem sortedQuantile_isSome_iff {values : List ℤ} {q : Float64} (fraction : IsFraction q)
    (fits : values.length ≤ intMax) : (sortedQuantile values q).isSome ↔ values ≠ [] := by
  unfold sortedQuantile
  rw [isSome_getElem?, List.length_insertionSort, ← List.length_pos_iff]
  constructor
  · intro inside
    exact (Nat.zero_le _).trans_lt inside
  · intro positive
    exact quantileIndex_lt fraction positive fits

namespace LogHistogram

/-- The loop stops at the first bucket whose 32-bit running sum reaches the target. -/
def quantileBucketLoop (targetSum : Float64) : List ℕ → ℕ → ℕ → ℕ
  | [], _, _ => intMax
  | count :: rest, i, cumSum =>
      let cumSum := addCount cumSum count
      if targetSum ≤ .ofInt cumSum then i else quantileBucketLoop targetSum rest (i + 1) cumSum

def quantileBucket (hist : LogHistogram) (q : Float64) : ℕ :=
  quantileBucketLoop (q * .ofInt hist.totalVals) hist.buckets 0 0

/-- The quantile is the middle of a bucket, and the sum of its bounds keeps 32 bits. -/
def quantile (hist : LogHistogram) (q : Float64) : Option ℤ := do
  let greatest ← hist.bucketMax (hist.quantileBucket q)
  let least ← hist.bucketMin (hist.quantileBucket q)
  some ((toInt32 (greatest + least).toNat).tdiv 2)

/-- Some running sum of the counts reaches the fraction of the total. -/
def ReachesSum (counts : List ℕ) (q : Float64) : Prop :=
  ∃ k < counts.length, q * .ofInt (counts.sum % 2 ^ 64 : ℕ) ≤ .ofInt ((counts.take (k + 1)).sum % 2 ^ 32 : ℕ)

/-- The loop gives the bucket that reaches the target, or the largest `int`. -/
theorem quantileBucketLoop_cases (targetSum : Float64) (counts : List ℕ) (i cumSum : ℕ) :
    (∃ k < counts.length, quantileBucketLoop targetSum counts i cumSum = i + k ∧
      targetSum ≤ .ofInt ((cumSum + (counts.take (k + 1)).sum) % 2 ^ 32 : ℕ)) ∨
    (quantileBucketLoop targetSum counts i cumSum = intMax ∧
      ∀ k < counts.length, ¬ targetSum ≤ .ofInt ((cumSum + (counts.take (k + 1)).sum) % 2 ^ 32 : ℕ)) := by
  induction counts generalizing i cumSum with
  | nil => exact Or.inr ⟨rfl, fun k inside => absurd inside (Nat.not_lt_zero k)⟩
  | cons count rest ih =>
      have later (k : ℕ) : (addCount cumSum count + (rest.take (k + 1)).sum) % 2 ^ 32 =
          (cumSum + ((count :: rest).take (k + 1 + 1)).sum) % 2 ^ 32 := by
        rw [List.take_succ_cons, List.sum_cons, addCount]
        omega
      have now : addCount cumSum count = (cumSum + ((count :: rest).take (0 + 1)).sum) % 2 ^ 32 := by
        simp [addCount]
      by_cases reached : targetSum ≤ .ofInt (addCount cumSum count)
      · refine Or.inl ⟨0, Nat.succ_pos _, ?_, now ▸ reached⟩
        simp only [quantileBucketLoop]
        exact if_pos reached
      · have goes : quantileBucketLoop targetSum (count :: rest) i cumSum =
            quantileBucketLoop targetSum rest (i + 1) (addCount cumSum count) := by
          simp only [quantileBucketLoop]
          exact if_neg reached
        rw [goes]
        rcases ih (i + 1) (addCount cumSum count) with ⟨k, inside, found, sum⟩ | ⟨none_, sums⟩
        · refine Or.inl ⟨k + 1, Nat.succ_lt_succ inside, by rw [found]; omega, ?_⟩
          rw [← later]
          exact sum
        · refine Or.inr ⟨none_, fun k inside => ?_⟩
          cases k with
          | zero => exact now ▸ reached
          | succ k =>
              rw [← later]
              exact sums k (Nat.lt_of_succ_lt_succ inside)

/-- A histogram with a bucket count for each start has a quantile when a running sum reaches its target. -/
theorem quantile_isSome_iff {hist : LogHistogram} {q : Float64} (counts : hist.buckets.length = hist.bucketStarts.length)
    (size : hist.buckets.length ≤ intMax) (total : hist.totalVals = hist.buckets.sum % 2 ^ 64) :
    (hist.quantile q).isSome ↔ ReachesSum hist.buckets q := by
  unfold ReachesSum
  rw [← total]
  rcases quantileBucketLoop_cases (q * .ofInt hist.totalVals) hist.buckets 0 0 with
    ⟨k, inside, found, sum⟩ | ⟨missed, sums⟩
  · rw [Nat.zero_add] at found sum
    have bucket : hist.quantileBucket q = k := found
    apply iff_of_true
    · unfold quantile bucketMax bucketMin
      rw [bucket, if_pos inside, List.getElem?_eq_getElem (show k < hist.bucketStarts.length by omega)]
      split_ifs with last
      · rfl
      · rw [List.getElem?_eq_getElem (show k + 1 < hist.bucketStarts.length by omega)]
        rfl
    · exact ⟨k, inside, sum⟩
  · have bucket : hist.quantileBucket q = intMax := missed
    apply iff_of_false
    · unfold quantile bucketMax
      rw [bucket, if_neg (Nat.not_lt.mpr size)]
      exact Bool.false_ne_true
    · intro reached
      obtain ⟨k, inside, sum⟩ := reached
      exact sums k inside (by rw [Nat.zero_add]; exact sum)

/-- Counts that fit 32 bits together reach every fraction of their total. -/
theorem reachesSum_of_small {counts : List ℕ} {q : Float64} (fraction : IsFraction q) (some_ : counts ≠ [])
    (small : counts.sum < 2 ^ 32) : ReachesSum counts q := by
  obtain ⟨units, rfl, below⟩ := fraction.exists_eq
  have positive : 0 < counts.length := List.length_pos_iff.mpr some_
  refine ⟨counts.length - 1, by omega, ?_⟩
  rw [Nat.sub_add_cancel positive, List.take_length, Nat.mod_eq_of_lt small, Nat.mod_eq_of_lt (by omega),
    Float64.mul_comm]
  exact Float64.ofInt_mul_le (by omega) below

end LogHistogram

namespace JSHistogram

/-- The message gives the counts of the first buckets, and the others are empty. -/
def counts (serialized : JSHistogram) : List ℕ :=
  serialized.bucketVals.map toUInt32 ++ List.replicate (serialized.numBuckets - serialized.bucketVals.length) 0

/-- The message has a table of starts, no more counts than starts, and no negative count. -/
def Decodable (serialized : JSHistogram) : Prop :=
  (setBucketStarts serialized.numBuckets).isSome ∧ serialized.bucketVals.length ≤ serialized.numBuckets ∧
    ∀ count ∈ serialized.bucketVals, 0 ≤ count

/-- A decodable message gives a histogram with its counts. -/
theorem fillIn_eq {serialized : JSHistogram} (decodable : serialized.Decodable) :
    ∃ starts, setBucketStarts serialized.numBuckets = some starts ∧ LogHistogram.fillIn serialized =
      some ⟨serialized.counts, starts, serialized.counts.sum % 2 ^ 64⟩ := by
  obtain ⟨built, fits, signs⟩ := decodable
  obtain ⟨starts, table⟩ := Option.isSome_iff_exists.mp built
  refine ⟨starts, table, ?_⟩
  unfold LogHistogram.fillIn counts
  rw [table, Option.bind_eq_bind, Option.bind_some, setBucketStarts_length table, if_pos ⟨fits, signs⟩]
  simp

theorem fillIn_isSome_iff (serialized : JSHistogram) :
    (LogHistogram.fillIn serialized).isSome ↔ serialized.Decodable := by
  constructor
  · intro filled
    obtain ⟨hist, made⟩ := Option.isSome_iff_exists.mp filled
    obtain ⟨starts, table, read⟩ := Option.bind_eq_some_iff.mp made
    rw [Option.ite_none_right_eq_some, setBucketStarts_length table] at read
    exact ⟨Option.isSome_of_eq_some table, read.1⟩
  · intro decodable
    obtain ⟨starts, -, made⟩ := fillIn_eq decodable
    exact Option.isSome_of_eq_some made

/-- A message has a quantile when it is decodable and a running sum of its counts reaches the target. -/
theorem quantile_isSome_iff (serialized : JSHistogram) (q : Float64) :
    ((LogHistogram.fillIn serialized).bind (·.quantile q)).isSome ↔
      serialized.Decodable ∧ LogHistogram.ReachesSum serialized.counts q := by
  by_cases decodable : serialized.Decodable
  · obtain ⟨starts, table, made⟩ := fillIn_eq decodable
    have length : serialized.counts.length = serialized.numBuckets := by
      rw [counts, List.length_append, List.length_map, List.length_replicate, Nat.add_sub_cancel' decodable.2.1]
    rw [made, Option.bind_some, LogHistogram.quantile_isSome_iff, and_iff_right decodable]
    · exact length.trans (setBucketStarts_length table).symm
    · exact length.trans_le (setBucketStarts_le_intMax table)
    · rfl
  · have missing : LogHistogram.fillIn serialized = none := by
      rw [← Option.not_isSome_iff_eq_none, fillIn_isSome_iff]
      exact decodable
    rw [missing]
    exact iff_of_false Bool.false_ne_true fun both => decodable both.1

end JSHistogram

namespace ReservoirSample

def popSeen (sample : ReservoirSample) : ℕ := sample.totalSeen

/-- The sample is sorted unless it has been sorted before. -/
def quantile (sample : ReservoirSample) (q : Float64) : Option ℤ :=
  if sample.isSorted then sample.sampleOfData[quantileIndex sample.sampleOfData.length q]?
  else sortedQuantile sample.sampleOfData q

/-- A constructed sample is unsorted and holds as many items as its capacity admits. -/
theorem fillIn_spec (gen : ℕ → ℕ → ℕ) (totalSeen : ℕ) (s : JSSample) : (fillIn gen totalSeen s).isSorted = false ∧
    (fillIn gen totalSeen s).sampleOfData.length = min s.maxItems s.items.length := by
  unfold fillIn
  split_ifs with fits
  · exact ⟨rfl, (Nat.min_eq_right fits).symm⟩
  · obtain ⟨-, flag, length, -⟩ := addAll_spec gen 0 s.items ⟨[], false, s.maxItems, totalSeen, Nat.zero_le _⟩
    rw [List.length_nil, Nat.zero_add] at length
    exact ⟨flag, length⟩

/-- A sample message has a quantile when it has items and a capacity. -/
theorem quantile_fillIn_isSome_iff {s : JSSample} {q : Float64} (gen : ℕ → ℕ → ℕ) (totalSeen : ℕ)
    (fraction : IsFraction q) (fits : s.items.length ≤ intMax) :
    ((fillIn gen totalSeen s).quantile q).isSome ↔ s.items ≠ [] ∧ s.maxItems ≠ 0 := by
  obtain ⟨unsorted, length⟩ := fillIn_spec gen totalSeen s
  rw [quantile, unsorted, if_neg Bool.false_ne_true, sortedQuantile_isSome_iff fraction (by omega), ← List.length_pos_iff,
    length, ← List.length_pos_iff]
  omega

end ReservoirSample

namespace CMMultiSketch

/-- The bisection halves its interval, and an iteration count stops it after 42 turns. -/
def bisectLoop (lowers : ℕ → Option Bool) : ℕ → ℕ → ℕ → Option ℕ
  | 0, _, bisectHi => some bisectHi
  | turns + 1, bisectLow, bisectHi =>
      if bisectLow + 1 < bisectHi then do
        let mid := bisectHi / 2 + bisectLow / 2
        if ← lowers mid then bisectLoop lowers turns bisectLow mid else bisectLoop lowers turns mid bisectHi
      else some bisectHi

def popSeen (sketch : CMMultiSketch) : ℕ := sketch.totalCount

section RowHash

variable (rowHash : Fin levels → ℕ → ℤ → ℕ)

/-- One bisection comes from the left and one from the right, and the sum of both bounds keeps 32 bits. -/
def quantile (sketch : CMMultiSketch) (q : Float64) : Option ℤ := do
  let targetSum := quantileIndex sketch.totalCount q
  let boundFromLeft ← bisectLoop (fun mid =>
    (sketch.hashRange rowHash 0 mid).map fun rangeSum => decide (targetSum ≤ rangeSum)) 42 0 intMax
  let targetSum := quantileIndex sketch.totalCount (.ofInt 1 - q)
  let bisectHi ← bisectLoop (fun mid =>
    (sketch.hashRange rowHash mid intMax).map fun rangeSum => decide (rangeSum ≤ targetSum)) 42 0 intMax
  some ((toInt32 (boundFromLeft + bisectHi)).tdiv 2)

variable {rowHash}

/-- Every range of the non-negative values has an answer. -/
theorem hashRange_isSome (sketch : CMMultiSketch) {lower upper : ℕ} (ordered : lower ≤ upper) (inside : upper ≤ intMax) :
    (sketch.hashRange rowHash lower upper).isSome := by
  obtain ⟨query, -, ran, -⟩ := sketch.rangeQuery_spec rowHash ordered (inside.trans_lt (by decide))
  rw [hashRange, Option.isSome_map, ran]
  rfl

theorem bisectLoop_isSome {lowers : ℕ → Option Bool} (answers : ∀ mid ≤ intMax, (lowers mid).isSome)
    (turns bisectLow bisectHi : ℕ) (inside : bisectHi ≤ intMax) : (bisectLoop lowers turns bisectLow bisectHi).isSome := by
  induction turns generalizing bisectLow bisectHi with
  | zero => rfl
  | succ turns ih =>
      rw [bisectLoop]
      split_ifs with apart
      · have middle : bisectHi / 2 + bisectLow / 2 ≤ intMax := by omega
        obtain ⟨answer, found⟩ := Option.isSome_iff_exists.mp (answers _ middle)
        dsimp only
        rw [found, Option.bind_eq_bind, Option.bind_some]
        split_ifs
        · exact ih _ _ middle
        · exact ih _ _ inside
      · rfl

/-- A sketch has a quantile whatever it holds. -/
theorem quantile_isSome (sketch : CMMultiSketch) (q : Float64) : (sketch.quantile rowHash q).isSome := by
  have left (mid : ℕ) (inside : mid ≤ intMax) : ((sketch.hashRange rowHash 0 mid).map fun rangeSum =>
      decide (quantileIndex sketch.totalCount q ≤ rangeSum)).isSome := by
    rw [Option.isSome_map]
    exact sketch.hashRange_isSome (Nat.zero_le mid) inside
  have right (mid : ℕ) (inside : mid ≤ intMax) : ((sketch.hashRange rowHash mid intMax).map fun rangeSum =>
      decide (rangeSum ≤ quantileIndex sketch.totalCount (.ofInt 1 - q))).isSome := by
    rw [Option.isSome_map]
    exact sketch.hashRange_isSome inside le_rfl
  obtain ⟨first, foundFirst⟩ := Option.isSome_iff_exists.mp (bisectLoop_isSome left 42 0 intMax le_rfl)
  obtain ⟨second, foundSecond⟩ := Option.isSome_iff_exists.mp (bisectLoop_isSome right 42 0 intMax le_rfl)
  simp only [quantile, foundFirst, foundSecond, Option.bind_eq_bind, Option.bind_some, Option.isSome_some]

end RowHash

/-- The message has exact tables of the right sizes, a supported width, and enough counters for every pane. -/
def Decodable (serialized : JSCMSketch) : Prop :=
  (∀ i : Fin exactLevels, (serialized.exactLevels.getD i []).length = exactLSize i) ∧
    (2 < serialized.w ∧ serialized.w < 12) ∧ ∀ i : Fin levels, i < serialized.panes.length ∧
      2 ^ serialized.w * serialized.d ≤ (serialized.panes.getD i []).length

theorem fillIn_isSome_iff (draws : ℤ → ℕ → ℤ) (randSeed : ℤ) (serialized : JSCMSketch) :
    (fillIn draws randSeed serialized).isSome ↔ Decodable serialized := by
  unfold fillIn CMSketch.init Decodable
  by_cases tables : ∀ i : Fin exactLevels, (serialized.exactLevels.getD i []).length = exactLSize i
  · rw [if_pos tables, and_iff_right tables]
    by_cases width : 2 < serialized.w ∧ serialized.w < 12
    · rw [if_pos width, and_iff_right width, Option.bind_eq_bind, Option.bind_some]
      simp only [List.length_replicate, Nat.one_shiftLeft]
      split_ifs with shape
      · exact iff_of_true rfl shape
      · exact iff_of_false Bool.false_ne_true shape
    · rw [if_neg width]
      exact iff_of_false Bool.false_ne_true fun both => width both.1
  · rw [if_neg tables]
    exact iff_of_false Bool.false_ne_true fun both => tables both.1

end CMMultiSketch

end JetStream
