import JetStream.Aggregates.BucketSearch
import JetStream.Aggregates.MergeSummary
import JetStream.Aggregates.Quantile

namespace JetStream

/-- Every start is a value of an `int`. -/
theorem setBucketStarts_mem_le {n : ℕ} {starts : List ℕ} (built : setBucketStarts n = some starts) :
    ∀ start ∈ starts, start ≤ intMax := by
  obtain ⟨-, -, rest, made, rfl⟩ := setBucketStarts_eq_some built
  intro start member
  rw [List.mem_insertionSort] at member
  rcases List.mem_cons.mp member with rfl | later
  · exact Nat.zero_le _
  · exact l2Loop_le_intMax made start later

namespace LogHistogram

def bucketBounds (hist : LogHistogram) (bucket : ℕ) : Option (ℤ × ℤ) := do
  let least ← hist.bucketMin bucket
  let greatest ← hist.bucketMax bucket
  some (least, greatest)

def quantileRange (hist : LogHistogram) (q : Float64) : Option (ℤ × ℤ) := hist.bucketBounds (hist.quantileBucket q)

/-- The bucket of the quantile has items, and the quantile lies between its two ends. -/
def QuantileInRange (hist : LogHistogram) (q : Float64) : Prop :=
  (∃ count, hist.buckets[hist.quantileBucket q]? = some count ∧ 0 < count) ∧
    ∃ value least greatest, hist.quantile q = some value ∧ hist.quantileRange q = some (least, greatest) ∧
      least ≤ value ∧ value ≤ greatest

/-- The quantile is the middle of the ends of its bucket. -/
theorem quantile_eq {hist : LogHistogram} {q : Float64} {least greatest : ℤ}
    (bounds : hist.bucketBounds (hist.quantileBucket q) = some (least, greatest)) :
    hist.quantile q = some ((toInt32 (greatest + least).toNat).tdiv 2) := by
  obtain ⟨low, readLow, bounds⟩ := Option.bind_eq_some_iff.mp bounds
  obtain ⟨high, readHigh, bounds⟩ := Option.bind_eq_some_iff.mp bounds
  obtain ⟨rfl, rfl⟩ := Prod.mk.inj (Option.some.inj bounds)
  rw [quantile, readHigh, readLow]
  rfl

/-- The loop stops at the first bucket whose running sum reaches the target. -/
theorem quantileBucketLoop_first {targetSum : Float64} {counts : List ℕ} {i cumSum k : ℕ} (inside : k < counts.length)
    (reached : targetSum ≤ .ofInt ((cumSum + (counts.take (k + 1)).sum) % 2 ^ 32 : ℕ))
    (earlier : ∀ j < k, ¬ targetSum ≤ .ofInt ((cumSum + (counts.take (j + 1)).sum) % 2 ^ 32 : ℕ)) :
    quantileBucketLoop targetSum counts i cumSum = i + k := by
  induction counts generalizing i cumSum k with
  | nil => cases inside
  | cons count rest ih =>
      have now : addCount cumSum count = (cumSum + ((count :: rest).take (0 + 1)).sum) % 2 ^ 32 := by
        simp [addCount]
      have later (j : ℕ) : (addCount cumSum count + (rest.take (j + 1)).sum) % 2 ^ 32 =
          (cumSum + ((count :: rest).take (j + 1 + 1)).sum) % 2 ^ 32 := by
        rw [List.take_succ_cons, List.sum_cons, addCount]
        omega
      rw [quantileBucketLoop]
      cases k with
      | zero => rw [if_pos (by rw [now]; exact reached), Nat.add_zero]
      | succ k =>
          rw [if_neg (by rw [now]; exact earlier 0 (Nat.succ_pos k)), ih (Nat.lt_of_succ_lt_succ inside)]
          · omega
          · rw [later]
            exact reached
          · intro j before
            rw [later]
            exact earlier (j + 1) (Nat.succ_lt_succ before)

theorem sum_take_le_sum_take (counts : List ℕ) {i j : ℕ} (order : i ≤ j) :
    (counts.take i).sum ≤ (counts.take j).sum := by
  obtain ⟨rest, rfl⟩ := Nat.exists_eq_add_of_le order
  rw [List.take_add, List.sum_append]
  exact Nat.le_add_right _ _

/-- The quantile's bucket is the one in which the running sum passes the target. -/
theorem quantileBucket_spec {hist : LogHistogram} {q : Float64} {product : ℕ}
    (target : q * .ofInt hist.totalVals = .finite false product) (positive : 0 < product)
    (below : product ≤ hist.buckets.sum * Float64.one) (small : hist.buckets.sum < 2 ^ 32) :
    hist.quantileBucket q < hist.buckets.length ∧
      (hist.buckets.take (hist.quantileBucket q)).sum * Float64.one < product ∧
      product ≤ (hist.buckets.take (hist.quantileBucket q + 1)).sum * Float64.one := by
  have reaches (k : ℕ) : Float64.finite false product ≤ .ofInt ((0 + (hist.buckets.take (k + 1)).sum) % 2 ^ 32 : ℕ) ↔
      product ≤ (hist.buckets.take (k + 1)).sum * Float64.one := by
    have part := List.Sublist.sum_le_sum (List.take_sublist (k + 1) hist.buckets) (by simp)
    rw [Nat.zero_add, Nat.mod_eq_of_lt (by omega), Float64.finite_le_ofInt (by omega)]
  generalize Float64.one = unit at below reaches ⊢
  have nonempty : 0 < hist.buckets.length := by
    rw [List.length_pos_iff]
    intro empty
    rw [empty, List.sum_nil, Nat.zero_mul] at below
    omega
  have exists_ : ∃ k, product ≤ (hist.buckets.take (k + 1)).sum * unit := by
    refine ⟨hist.buckets.length - 1, ?_⟩
    rw [Nat.sub_add_cancel nonempty, List.take_length]
    exact below
  classical
  have inside : Nat.find exists_ < hist.buckets.length := by
    have first := Nat.find_min' exists_ (m := hist.buckets.length - 1) (by
      rw [Nat.sub_add_cancel nonempty, List.take_length]
      exact below)
    omega
  have found : hist.quantileBucket q = Nat.find exists_ := by
    rw [quantileBucket, target, quantileBucketLoop_first inside, Nat.zero_add]
    · exact (reaches _).mpr (Nat.find_spec exists_)
    · intro j before
      rw [reaches]
      exact Nat.find_min exists_ before
  rw [found]
  refine ⟨inside, ?_, Nat.find_spec exists_⟩
  cases first : Nat.find exists_ with
  | zero =>
      rw [List.take_zero, List.sum_nil, Nat.zero_mul]
      exact positive
  | succ k => exact Nat.lt_of_not_le (Nat.find_min exists_ (by omega))

/-- A bucket that the running sum passes the target in has items. -/
theorem count_pos_of_passes {counts : List ℕ} {k product unit : ℕ} (inside : k < counts.length)
    (before : (counts.take k).sum * unit < product) (after : product ≤ (counts.take (k + 1)).sum * unit) :
    0 < counts[k] := by
  rw [List.take_succ_eq_append_getElem inside, List.sum_append, List.sum_singleton] at after
  apply Nat.pos_of_ne_zero
  intro zero
  rw [zero, Nat.add_zero] at after
  exact absurd before (Nat.not_lt.mpr after)

/-- The sum of two ends beyond the largest `int` becomes negative. -/
theorem toInt32_tdiv_neg {sum : ℕ} (above : intMax < sum) (below : sum ≤ 2 * intMax) : (toInt32 sum).tdiv 2 < 0 := by
  unfold intMax at above below
  have wrapped : toInt32 sum = -(2 ^ 32 - (sum : ℤ)) := by
    unfold toInt32 Int.bmod
    dsimp only
    split <;> omega
  rw [wrapped, Int.neg_tdiv, Int.tdiv_eq_ediv_of_nonneg (by omega)]
  omega

section Ends

variable {hist : LogHistogram} {table : BucketTable} (starts : hist.bucketStarts = table.starts)
  (length : hist.buckets.length = table.size) (ints : ∀ i < table.size, table.start i ≤ intMax)

include starts length in
/-- Both ends of a bucket are known from the table. -/
theorem bucketBounds_eq {bucket : ℕ} (inside : bucket < table.size) :
    hist.bucketBounds bucket = some ((table.start bucket : ℤ),
      if bucket + 1 < table.size then (table.start (bucket + 1) : ℤ) - 1 else intMax) := by
  rw [bucketBounds, bucketMin_eq starts inside, Option.bind_eq_bind, Option.bind_some]
  by_cases next : bucket + 1 < table.size
  · rw [bucketMax_eq starts length next, if_pos next]
    rfl
  · have last : bucket = table.size - 1 := by omega
    rw [last, bucketMax_last length, if_neg (by omega)]
    rfl

include starts length in
/-- Only a bucket of the table has ends. -/
theorem eq_of_bucketBounds {bucket : ℕ} {least greatest : ℤ}
    (bounds : hist.bucketBounds bucket = some (least, greatest)) :
    bucket < table.size ∧ least = table.start bucket ∧
      greatest = if bucket + 1 < table.size then (table.start (bucket + 1) : ℤ) - 1 else intMax := by
  have inside : bucket < table.size := by
    obtain ⟨start, read, -⟩ := Option.bind_eq_some_iff.mp bounds
    exact bucketMin_isSome starts read
  rw [bucketBounds_eq starts length inside, Option.some_inj, Prod.mk.injEq] at bounds
  exact ⟨inside, bounds.1.symm, bounds.2.symm⟩

include ints in
/-- A bucket ends at an `int` that is not below its start. -/
theorem last_bounds {bucket : ℕ} (inside : bucket < table.size) :
    (table.start bucket : ℤ) ≤ (if bucket + 1 < table.size then (table.start (bucket + 1) : ℤ) - 1 else intMax) ∧
      (if bucket + 1 < table.size then (table.start (bucket + 1) : ℤ) - 1 else intMax) ≤ intMax := by
  have low := ints bucket inside
  split
  · rename_i next
    have strict := table.start_lt (Nat.lt_add_one bucket) next
    have atMost := ints (bucket + 1) next
    omega
  · exact ⟨by exact_mod_cast low, le_rfl⟩

include starts length ints in
/-- The middle of a bucket lies inside it exactly when the sum of its ends fits an `int`. -/
theorem middle_inRange_iff {bucket : ℕ} {least greatest : ℤ} (bounds : hist.bucketBounds bucket = some (least, greatest)) :
    (least ≤ (toInt32 (greatest + least).toNat).tdiv 2 ∧ (toInt32 (greatest + least).toNat).tdiv 2 ≤ greatest) ↔
      least + greatest ≤ intMax := by
  obtain ⟨inside, rfl, rfl⟩ := eq_of_bucketBounds starts length bounds
  have low := ints bucket inside
  obtain ⟨order, high⟩ := last_bounds ints inside
  generalize (if bucket + 1 < table.size then (table.start (bucket + 1) : ℤ) - 1 else intMax) = greatest at order high
  obtain ⟨last, rfl⟩ := Int.eq_ofNat_of_zero_le (le_trans (Int.natCast_nonneg _) order)
  generalize table.start bucket = first at low order
  have sum : ((last : ℤ) + first).toNat = last + first := by omega
  rw [sum]
  by_cases fits : last + first ≤ intMax
  · unfold intMax at *
    have exact_ : (toInt32 (last + first)).tdiv 2 = (last + first) / 2 := by
      rw [toInt32_eq (by omega), Int.tdiv_eq_ediv_of_nonneg (by omega)]
      push_cast
      rfl
    rw [exact_]
    omega
  · have negative := toInt32_tdiv_neg (Nat.lt_of_not_le fits) (by omega)
    omega

include starts length ints in
/-- The ends of the buckets increase. -/
theorem bucketBounds_mono {first second : ℕ} {least greatest least' greatest' : ℤ} (order : first ≤ second)
    (bounds : hist.bucketBounds first = some (least, greatest))
    (bounds' : hist.bucketBounds second = some (least', greatest')) : least ≤ least' ∧ greatest ≤ greatest' := by
  obtain ⟨inside, rfl, rfl⟩ := eq_of_bucketBounds starts length bounds
  obtain ⟨inside', rfl, rfl⟩ := eq_of_bucketBounds starts length bounds'
  refine ⟨by exact_mod_cast table.start_le order inside', ?_⟩
  by_cases next : second + 1 < table.size
  · have later := table.start_le (Nat.add_le_add_right order 1) next
    rw [if_pos next, if_pos (by omega)]
    omega
  · rw [if_neg next]
    exact (last_bounds ints inside).2

end Ends

/-- The quantile lies in its bucket exactly when buckets whose ends add up to an `int` reach the fraction, which the
last bucket is never one of. -/
theorem quantile_inRange_iff {n : ℕ} {starts counts : List ℕ} (built : setBucketStarts n = some starts)
    (length : counts.length = n) (positive : 0 < counts.sum) (small : counts.sum < 2 ^ 31) {q : Float64}
    (above : .ofInt 0 < q) (atMost : q ≤ .ofInt 1) :
    (LogHistogram.mk counts starts counts.sum).QuantileInRange q ↔
      ∃ bucket least greatest, (LogHistogram.mk counts starts counts.sum).bucketBounds bucket = some (least, greatest) ∧
        least + greatest ≤ intMax ∧ q * .ofInt counts.sum ≤ .ofInt (counts.take (bucket + 1)).sum := by
  obtain ⟨table, rfl, size, -, -⟩ := exists_startTable built
  obtain ⟨units, rfl, some_, part⟩ := Float64.exists_eq_of_pos_le above atMost
  obtain ⟨product, nonzero, below, target⟩ := Float64.mul_ofInt_eq some_ part positive (by omega)
  have ints : ∀ i < table.size, table.start i ≤ intMax := by
    intro i inside
    exact setBucketStarts_mem_le built _ (List.mem_of_getElem? (table.getElem?_start inside))
  generalize made : LogHistogram.mk counts table.starts counts.sum = hist
  have starts : hist.bucketStarts = table.starts := by rw [← made]
  have buckets : hist.buckets = counts := by rw [← made]
  have total : hist.totalVals = counts.sum := by rw [← made]
  have amount : hist.buckets.length = table.size := by rw [buckets, length, size]
  rw [← total] at target
  obtain ⟨inside, before, after⟩ := quantileBucket_spec target nonzero (by rw [buckets]; exact below)
    (by rw [buckets]; omega)
  have reaches (bucket : ℕ) : Float64.finite false product ≤ .ofInt (counts.take (bucket + 1)).sum ↔
      product ≤ (counts.take (bucket + 1)).sum * Float64.one := by
    have sublist := List.Sublist.sum_le_sum (List.take_sublist (bucket + 1) counts) (by simp)
    exact Float64.finite_le_ofInt (by omega)
  obtain ⟨least, greatest, bounds⟩ : ∃ least greatest,
      hist.bucketBounds (hist.quantileBucket (.finite false units)) = some (least, greatest) :=
    ⟨_, _, bucketBounds_eq starts amount (amount ▸ inside)⟩
  have middle := middle_inRange_iff starts amount ints bounds
  rw [← total, target]
  constructor
  · rintro ⟨-, value, low, high, computed, range, lower, upper⟩
    obtain ⟨rfl, rfl⟩ := Prod.mk.inj (Option.some.inj (range.symm.trans bounds))
    have same := computed.symm.trans (quantile_eq bounds)
    rw [Option.some_inj] at same
    rw [same] at lower upper
    exact ⟨_, low, high, bounds, middle.mp ⟨lower, upper⟩, (reaches _).mpr (buckets ▸ after)⟩
  · rintro ⟨bucket, low, high, ends, fits, reached⟩
    have order : hist.quantileBucket (.finite false units) ≤ bucket := by
      by_contra later
      have earlier := sum_take_le_sum_take counts (Nat.lt_of_not_le later)
      have passed := (reaches bucket).mp reached
      rw [buckets] at before
      exact absurd (before.trans_le passed) (Nat.not_lt.mpr (Nat.mul_le_mul_right _ earlier))
    obtain ⟨lower, upper⟩ := bucketBounds_mono starts amount ints order bounds ends
    obtain ⟨first, second⟩ := middle.mpr (by omega)
    refine ⟨⟨_, List.getElem?_eq_getElem inside, count_pos_of_passes inside before after⟩, ?_⟩
    exact ⟨_, least, greatest, quantile_eq bounds, bounds, first, second⟩

/-- Three items in the second of three buckets have their median there. -/
theorem quantile_inRange_middle :
    setBucketStarts 3 = some [0, 1, 2] ∧ (LogHistogram.mk [0, 3, 0] [0, 1, 2] 3).QuantileInRange (.ofRatio 1 2) := by
  have built : setBucketStarts 3 = some [0, 1, 2] := by decide
  have above : Float64.ofInt 0 < .ofRatio 1 2 := by decide +kernel
  have atMost : Float64.ofRatio 1 2 ≤ .ofInt 1 := by decide +kernel
  have reached : Float64.ofRatio 1 2 * .ofInt [0, 3, 0].sum ≤ .ofInt ([0, 3, 0].take (1 + 1)).sum := by decide +kernel
  refine ⟨built, (quantile_inRange_iff built rfl (by decide) (by decide) above atMost).mpr ?_⟩
  exact ⟨1, 1, 1, by decide, by decide, reached⟩

/-- The two ends of the last bucket add up to more than an `int`, and the quantile becomes negative. -/
theorem quantile_last_bucket_overflows :
    (LogHistogram.mk [0, 1] [0, 1] 1).quantileRange (.ofInt 1) = some (1, 2 ^ 31 - 1) ∧
      (LogHistogram.mk [0, 1] [0, 1] 1).quantile (.ofInt 1) = some (-2 ^ 30) ∧
      ¬ (LogHistogram.mk [0, 1] [0, 1] 1).QuantileInRange (.ofInt 1) := by
  have range : (LogHistogram.mk [0, 1] [0, 1] 1).quantileRange (.ofInt 1) = some (1, 2 ^ 31 - 1) := by decide +kernel
  have value : (LogHistogram.mk [0, 1] [0, 1] 1).quantile (.ofInt 1) = some (-2 ^ 30) := by decide +kernel
  refine ⟨range, value, ?_⟩
  rintro ⟨-, middle, least, greatest, computed, ends, lower, -⟩
  obtain rfl := Option.some.inj (computed.symm.trans value)
  obtain ⟨rfl, -⟩ := Prod.mk.inj (Option.some.inj (ends.symm.trans range))
  exact absurd lower (by decide)

end LogHistogram

end JetStream
