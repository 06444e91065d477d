import JetStream.Aggregates.HistogramQuantile
import JetStream.Aggregates.SampleEstimation

namespace JetStream

/-- In a sorted list, what holds of smaller values holds of as many first entries as satisfy it. -/
theorem getElem_iff_lt_countP {values : List ℕ} (sorted : values.Pairwise (· ≤ ·)) {holds : ℕ → Bool}
    (closed : ∀ first second, first ≤ second → holds second = true → holds first = true) {k : ℕ}
    (inside : k < values.length) : holds values[k] = true ↔ k < values.countP holds := by
  induction values generalizing k with
  | nil => cases inside
  | cons value rest ih =>
      obtain ⟨least, later⟩ := List.pairwise_cons.mp sorted
      cases k with
      | zero =>
          rw [List.getElem_cons_zero]
          constructor
          · intro here
            rw [List.countP_cons_of_pos here]
            exact Nat.succ_pos _
          · intro some_
            obtain ⟨other, member, there⟩ := List.countP_pos_iff.mp some_
            rcases List.mem_cons.mp member with rfl | behind
            · exact there
            · exact closed value other (least other behind) there
      | succ k =>
          have short : k < rest.length := Nat.lt_of_succ_lt_succ inside
          rw [List.getElem_cons_succ, ih later short]
          cases here : holds value with
          | true => rw [List.countP_cons_of_pos here, Nat.add_lt_add_iff_right]
          | false =>
              have none_ : rest.countP holds = 0 := by
                rw [List.countP_eq_zero]
                intro other behind there
                rw [closed value other (least other behind) there] at here
                cases here
              rw [List.countP_cons_of_neg (by rw [here]; exact Bool.false_ne_true), none_]
              omega

namespace LogHistogram

/-- The 32-bit counter of the loop never reaches a longer size. -/
def ofAddData (bucketTarget : ℕ) (values : List ℕ) : Option LogHistogram :=
  if values.length < 2 ^ 32 then ofData bucketTarget values else none

/-- The quantile of the list itself lies in the range that the histogram of the list gives. -/
def Brackets (bucketTarget : ℕ) (values : List ℕ) (q : Float64) : Prop :=
  ∃ value sample hist least greatest,
    (SampleEstimation.new.addData (values.map fun (v : ℕ) => (v : ℤ))).quantile q = some (value, sample) ∧
      ofAddData bucketTarget values = some hist ∧ hist.quantileRange q = some (least, greatest) ∧
      least ≤ value ∧ value ≤ greatest

/-- This many values lie in the buckets before a position. -/
def before (table : BucketTable) (values : List ℕ) (j : ℕ) : ℕ := values.countP fun v => decide (table.index v < j)

section Before

variable (table : BucketTable) (values : List ℕ)

/-- The running sum of the buckets counts the values in them. -/
theorem sum_take_ofItems {j : ℕ} (inside : j ≤ table.size) :
    ((ofItems table (unit values)).buckets.take j).sum = before table values j := by
  have parts : (ofItems table (unit values)).buckets.take j = (List.range j).map (table.tally (unit values)) := by
    rw [ofItems, ← List.map_take, List.take_range, Nat.min_eq_left inside]
  rw [parts, sum_map_range, table.sum_tally_range, unit, List.filter_map]
  rw [before, List.countP_eq_length_filter]
  exact weight_unit _

theorem before_mono {i j : ℕ} (order : i ≤ j) : before table values i ≤ before table values j := by
  apply List.countP_mono_left
  intro v _ inside
  exact decide_eq_true ((of_decide_eq_true inside).trans_le order)

theorem before_size : before table values table.size = values.length := by
  rw [before, List.countP_eq_length]
  exact fun v _ => decide_eq_true (table.index_lt v)

/-- The values before a bucket are those below its start. -/
theorem countP_lt_start {j : ℕ} (inside : j < table.size) :
    values.countP (fun v => decide (v < table.start j)) = before table values j := by
  apply List.countP_congr
  intro v _
  have order : table.start j ≤ v ↔ j ≤ table.index v := table.start_le_iff inside
  simp only [decide_eq_true_eq]
  omega

end Before

/-- A decimal between zero and one takes a positive part of a positive integer that is smaller than it. -/
theorem exists_product {q : Float64} (fraction : IsFraction q) {count : ℕ} (positive : 0 < count)
    (bits : count < 2 ^ 53) :
    ∃ product, 0 < product ∧ product < count * Float64.one ∧ .ofInt count * q = Float64.finite false product := by
  obtain ⟨units, rfl, below⟩ := fraction.exists_eq
  obtain ⟨-, -, -, -, above, -⟩ := fraction
  rw [Float64.ofInt_zero, Float64.finite_lt_finite] at above
  have some_ : 0 < units := Int.ofNat_lt.mp above
  obtain ⟨product, less, same⟩ := Float64.ofInt_mul_eq positive bits below
  obtain ⟨other, nonzero, -, equal⟩ := Float64.mul_ofInt_eq some_ (by omega) positive bits
  rw [Float64.mul_comm, same] at equal
  obtain ⟨-, rfl⟩ := Float64.finite.inj equal
  exact ⟨product, nonzero, less, same⟩

section Ranks

variable {table : BucketTable} {values : List ℕ}

/-- The item at a position of the ordered list lies before a bucket when more items than that do. -/
theorem index_lt_iff {k v : ℕ} (entry : (values.insertionSort (· ≤ ·))[k]? = some v) (j : ℕ) :
    table.index v < j ↔ k < before table values j := by
  obtain ⟨inside, rfl⟩ := List.getElem?_eq_some_iff.mp entry
  have closed : ∀ first second, first ≤ second → decide (table.index second < j) = true →
      decide (table.index first < j) = true := by
    intro first second order there
    have mono : table.index first ≤ table.index second :=
      (table.start_le_iff (table.index_lt first)).mp ((table.start_index_le first).trans order)
    exact decide_eq_true (mono.trans_lt (of_decide_eq_true there))
  have rank := getElem_iff_lt_countP (List.pairwise_insertionSort (· ≤ ·) values) closed inside
  rw [decide_eq_true_iff, (List.perm_insertionSort (· ≤ ·) values).countP_eq] at rank
  exact rank

end Ranks

section Selection

variable {table : BucketTable} {values : List ℕ} {q : Float64} {product k : ℕ} (position : product / Float64.one = k)
  (target : .ofInt values.length * q = Float64.finite false product) (below : product < values.length * Float64.one)

include position in
/-- The truncated product compares with the integers as the product does. -/
theorem lt_iff_product_lt (count : ℕ) : k < count ↔ product < count * Float64.one := by
  rw [← position]
  exact Nat.div_lt_iff_lt_mul Float64.one_pos

include position target below in
/-- The exact quantile is the entry of the ordered list at the truncated product. -/
theorem quantile_addData (asked : QuantileAsked q) :
    ∃ (v : ℕ) (sample : SampleEstimation), (values.insertionSort (· ≤ ·))[k]? = some v ∧
      (SampleEstimation.new.addData (values.map fun (v : ℕ) => (v : ℤ))).quantile q = some ((v : ℤ), sample) := by
  have inside : k < (values.insertionSort (· ≤ ·)).length := by
    rw [List.length_insertionSort, lt_iff_product_lt position]
    exact below
  have index : quantileIndex values.length q = k := by
    rw [quantileIndex, target]
    exact position
  have ordered : (values.map fun (v : ℕ) => (v : ℤ)).insertionSort (· ≤ ·) =
      (values.insertionSort (· ≤ ·)).map fun (v : ℕ) => (v : ℤ) :=
    (List.map_insertionSort (· ≤ ·) (· ≤ ·) _ _ fun a _ b _ => Int.ofNat_le.symm).symm
  refine ⟨_, (SampleEstimation.new.addData (values.map fun (v : ℕ) => (v : ℤ))).sort,
    List.getElem?_eq_getElem inside, ?_⟩
  rw [SampleEstimation.quantile, if_pos asked]
  change Option.map _ (((values.map fun (v : ℕ) => (v : ℤ)).insertionSort (· ≤ ·))[quantileIndex
    ((values.map fun (v : ℕ) => (v : ℤ)).insertionSort (· ≤ ·)).length q]?) = _
  rw [List.length_insertionSort, List.length_map, index, ordered, List.getElem?_map, List.getElem?_eq_getElem inside]
  rfl

include target below in
/-- The bucket of the histogram is the one in which the values pass the product. -/
theorem quantileBucket_ofItems (positive : 0 < product) (short : values.length < 2 ^ 32) :
    (ofItems table (unit values)).quantileBucket q < table.size ∧
      before table values ((ofItems table (unit values)).quantileBucket q) * Float64.one < product ∧
      product ≤ before table values ((ofItems table (unit values)).quantileBucket q + 1) * Float64.one := by
  have sum : (ofItems table (unit values)).buckets.sum = values.length :=
    (ofItems_sum table (unit values)).trans (weight_unit values)
  have length : (ofItems table (unit values)).buckets.length = table.size := by simp [ofItems]
  have total : (ofItems table (unit values)).totalVals = values.length := weight_unit values
  rw [Float64.mul_comm, ← total] at target
  obtain ⟨inside, passed, reached⟩ := quantileBucket_spec target positive (by rw [sum]; exact below.le) (by omega)
  rw [length] at inside
  rw [sum_take_ofItems table values inside.le] at passed
  rw [sum_take_ofItems table values inside] at reached
  exact ⟨inside, passed, reached⟩

include position in
/-- The entry at the truncated product is in the bucket that passes the product unless the product is the last number of
values in it. -/
theorem index_eq_iff {bucket v : ℕ} (entry : (values.insertionSort (· ≤ ·))[k]? = some v)
    (passed : before table values bucket * Float64.one < product)
    (reached : product ≤ before table values (bucket + 1) * Float64.one) :
    bucket = table.index v ↔ before table values (bucket + 1) * Float64.one ≠ product := by
  have lower := @index_lt_iff table values k v entry bucket
  have upper := @index_lt_iff table values k v entry (bucket + 1)
  rw [lt_iff_product_lt position] at lower upper
  have above : ¬ table.index v < bucket := fun earlier => absurd (lower.mp earlier) passed.not_gt
  constructor
  · intro same equal
    exact absurd (upper.mp (same ▸ Nat.lt_add_one _)) (by rw [equal]; exact Nat.lt_irrefl _)
  · intro different
    have within := upper.mpr (lt_of_le_of_ne reached (Ne.symm different))
    exact Nat.le_antisymm (Nat.le_of_not_lt above) (Nat.le_of_lt_succ within)

/-- The number of values up to a bucket is the product exactly when some start has that many values below it. -/
theorem exists_start_iff {bucket : ℕ} (inside : bucket < table.size)
    (passed : before table values bucket * Float64.one < product)
    (reached : product ≤ before table values (bucket + 1) * Float64.one)
    (below : product < values.length * Float64.one) :
    before table values (bucket + 1) * Float64.one = product ↔
      ∃ start ∈ table.starts, values.countP (fun v => decide (v < start)) * Float64.one = product := by
  constructor
  · intro equal
    by_cases last : bucket + 1 < table.size
    · exact ⟨_, (table.mem_starts_iff _).mpr ⟨bucket + 1, last, rfl⟩, by rw [countP_lt_start table values last, equal]⟩
    · have whole : bucket + 1 = table.size := by omega
      rw [whole, before_size] at equal
      exact absurd below (Nat.not_lt.mpr equal.le)
  · rintro ⟨start, member, equal⟩
    obtain ⟨j, inside, rfl⟩ := (table.mem_starts_iff _).mp member
    rw [countP_lt_start table values inside] at equal
    have later : bucket + 1 ≤ j := by
      by_contra earlier
      have order := before_mono table values (show j ≤ bucket by omega)
      exact absurd passed (Nat.not_lt.mpr (equal ▸ Nat.mul_le_mul_right _ order))
    exact le_antisymm ((Nat.mul_le_mul_right _ (before_mono table values later)).trans_eq equal) reached

end Selection

/-- The exact quantile lies in the range of the histogram exactly when the list has fewer items than the loop can count
and the product of its size and the fraction is not the number of values below a bucket. -/
theorem brackets_iff {n : ℕ} {starts values : List ℕ} (built : setBucketStarts n = some starts) (some_ : values ≠ [])
    (ints : ∀ v ∈ values, v ≤ intMax) {q : Float64} (fraction : IsFraction q) :
    Brackets n values q ↔ values.length < 2 ^ 32 ∧ ∀ start ∈ starts,
      .ofInt (values.countP fun v => decide (v < start)) ≠ .ofInt values.length * q := by
  by_cases short : values.length < 2 ^ 32
  · obtain ⟨table, rfl, size, -, -⟩ := exists_startTable built
    obtain ⟨product, positive, below, target⟩ := exists_product fraction (List.length_pos_iff.mpr some_) (by omega)
    have asked : QuantileAsked q := fraction.asked
    have histogram : ofAddData n values = some (ofItems table (unit values)) := by
      rw [ofAddData, if_pos short, ofData_eq built size values ints short]
    obtain ⟨k, position⟩ : ∃ k, product / Float64.one = k := ⟨_, rfl⟩
    obtain ⟨v, sample, entry, exact_⟩ := quantile_addData position target below asked
    obtain ⟨bucket, passed, reached⟩ := @quantileBucket_ofItems table values q product target below positive short
    have fits : v ≤ intMax := ints v ((List.mem_insertionSort (· ≤ ·)).mp (List.mem_of_getElem? entry))
    have holds := holds_iff (rfl : (ofItems table (unit values)).bucketStarts = table.starts) (by simp [ofItems]) fits
      ((ofItems table (unit values)).quantileBucket q)
    rw [index_eq_iff position entry passed reached, Ne, exists_start_iff bucket passed reached below] at holds
    have bracket : Brackets n values q ↔
        (ofItems table (unit values)).Holds v ((ofItems table (unit values)).quantileBucket q) := by
      constructor
      · rintro ⟨value, other, hist, least, greatest, asked_, made, range, lower, upper⟩
        obtain ⟨rfl, -⟩ := Prod.mk.inj (Option.some.inj (asked_.symm.trans exact_))
        obtain rfl := Option.some.inj (made.symm.trans histogram)
        obtain ⟨low, readLow, range⟩ := Option.bind_eq_some_iff.mp range
        obtain ⟨high, readHigh, range⟩ := Option.bind_eq_some_iff.mp range
        obtain ⟨rfl, rfl⟩ := Prod.mk.inj (Option.some.inj range)
        exact ⟨low, high, readLow, readHigh, lower, upper⟩
      · rintro ⟨least, greatest, readLow, readHigh, lower, upper⟩
        refine ⟨v, sample, _, least, greatest, exact_, histogram, ?_, lower, upper⟩
        rw [quantileRange, bucketBounds, readLow, readHigh]
        rfl
    have units (start : ℕ) : .ofInt (values.countP fun v => decide (v < start)) = Float64.finite false product ↔
        values.countP (fun v => decide (v < start)) * Float64.one = product := by
      have atMost : values.countP (fun v => decide (v < start)) ≤ values.length := List.countP_le_length
      rw [Float64.ofInt_natCast (by omega), Float64.finite.injEq, and_iff_right rfl]
    rw [bracket, holds, and_iff_right short, target, not_exists]
    constructor
    · intro apart start member same
      exact apart start ⟨member, (units start).mp same⟩
    · rintro apart start ⟨member, same⟩
      exact apart start member ((units start).mpr same)
  · apply iff_of_false
    · rintro ⟨value, sample, hist, least, greatest, -, made, -⟩
      rw [ofAddData, if_neg short] at made
      cases made
    · exact fun both => short both.1

/-- The first quartile of seven values lies in its range. -/
theorem brackets_seven : Brackets 4 [0, 1, 2, 2, 3, 9, 9] (.ofRatio 1 4) := by
  have built : setBucketStarts 4 = some [0, 1, 2, 4] := by decide
  have fraction : IsFraction (.ofRatio 1 4) := ⟨1, 4, by decide, rfl, by decide +kernel, by decide +kernel⟩
  refine (brackets_iff built (List.cons_ne_nil _ _) (by decide) fraction).mpr ⟨by decide, ?_⟩
  decide +kernel

/-- Half of the two values lie below the second bucket, and the histogram answers with the first one. -/
theorem not_brackets_two :
    (SampleEstimation.new.addData [0, 1]).quantile (.ofRatio 1 2) = some (1, ⟨[0, 1], true⟩) ∧
      (ofAddData 2 [0, 1]).bind (·.quantileRange (.ofRatio 1 2)) = some (0, 0) ∧ ¬ Brackets 2 [0, 1] (.ofRatio 1 2) := by
  have exact_ : (SampleEstimation.new.addData [0, 1]).quantile (.ofRatio 1 2) = some (1, ⟨[0, 1], true⟩) := by
    decide +kernel
  have range : (ofAddData 2 [0, 1]).bind (·.quantileRange (.ofRatio 1 2)) = some (0, 0) := by decide +kernel
  refine ⟨exact_, range, ?_⟩
  rintro ⟨value, sample, hist, least, greatest, asked, made, ends, -, upper⟩
  obtain ⟨rfl, -⟩ := Prod.mk.inj (Option.some.inj (asked.symm.trans exact_))
  rw [made, Option.bind_some, ends] at range
  obtain ⟨-, rfl⟩ := Prod.mk.inj (Option.some.inj range)
  exact absurd upper (by decide)

end LogHistogram

end JetStream
