import JetStream.Aggregates.JSSummary

namespace JetStream

namespace LogHistogram

/-- A histogram with this many buckets is built, read from a message, and changed by its operations only. -/
inductive Made : ℕ → LogHistogram → Prop
  | new {n : ℕ} {hist : LogHistogram} (built : LogHistogram.new n = some hist) : Made n hist
  | fillIn {serialized : JSHistogram} {hist : LogHistogram} (filled : LogHistogram.fillIn serialized = some hist) :
      Made serialized.numBuckets hist
  | addItem {n : ℕ} {hist next : LogHistogram} {v : ℤ} {c : ℕ} (made : Made n hist)
      (added : hist.addItem v c = some next) : Made n next
  | mergeIn {n m : ℕ} {hist rhs next : LogHistogram} (made : Made n hist) (other : Made m rhs)
      (merged : hist.mergeIn rhs = some next) : Made n next
  | clear {n : ℕ} {hist : LogHistogram} (made : Made n hist) :
      Made n {hist with buckets := List.replicate hist.buckets.length 0, totalVals := 0}

/-- The value lies between the two ends of the bucket. -/
def Holds (hist : LogHistogram) (v : ℤ) (bucket : ℕ) : Prop :=
  ∃ least greatest, hist.bucketMin bucket = some least ∧ hist.bucketMax bucket = some greatest ∧ least ≤ v ∧ v ≤ greatest

/-- The search tests its loop condition at these bounds, which are computed in 64-bit unsigned arithmetic. -/
inductive Visits (hist : LogHistogram) (v : ℤ) : ℕ → ℕ → Prop
  | start : Visits hist v 0 ((hist.buckets.length + (2 ^ 64 - 1)) % 2 ^ 64)
  | down {low high : ℕ} {least : ℤ} (before : Visits hist v low high) (continues : low ≤ high)
      (read : hist.bucketMin ((high + low) % 2 ^ 64 / 2) = some least) (below : v < least) :
      Visits hist v low (((high + low) % 2 ^ 64 / 2 + (2 ^ 64 - 1)) % 2 ^ 64)
  | up {low high : ℕ} {least greatest : ℤ} (before : Visits hist v low high) (continues : low ≤ high)
      (read : hist.bucketMin ((high + low) % 2 ^ 64 / 2) = some least) (reached : ¬ v < least)
      (readMax : hist.bucketMax ((high + low) % 2 ^ 64 / 2) = some greatest) (above : greatest < v) :
      Visits hist v ((high + low) % 2 ^ 64 / 2 + 1) high

theorem mergeLoop_length {into rhs : LogHistogram} {remaining source dest : ℕ} {buckets poured : List ℕ}
    (merged : mergeLoop into rhs remaining source dest buckets = some poured) : poured.length = buckets.length := by
  induction remaining generalizing source dest buckets with
  | zero =>
      obtain rfl := Option.some.inj merged
      rfl
  | succ remaining ih =>
      obtain ⟨count, -, merged⟩ := Option.bind_eq_some_iff.mp merged
      obtain ⟨-, merged⟩ := Option.ite_none_right_eq_some.mp merged
      dsimp only at merged
      split at merged
      · obtain ⟨next, -, merged⟩ := Option.bind_eq_some_iff.mp merged
        obtain ⟨bound, -, merged⟩ := Option.bind_eq_some_iff.mp merged
        rw [ih merged, List.length_modify]
      · rw [ih merged, List.length_modify]

theorem mergeBuckets_length {into rhs : LogHistogram} {buckets : List ℕ} (counts : rhs.buckets.length = rhs.bucketCount)
    (intoCounts : into.buckets.length = into.bucketCount) (merged : into.mergeBuckets rhs = some buckets) :
    buckets.length = into.buckets.length := by
  unfold mergeBuckets at merged
  split at merged
  · rename_i same
    obtain rfl := Option.some.inj merged
    rw [List.length_zipWith, counts, same, intoCounts, Nat.min_self]
  · obtain ⟨poured, loop, merged⟩ := Option.bind_eq_some_iff.mp merged
    obtain ⟨last, -, merged⟩ := Option.bind_eq_some_iff.mp merged
    obtain rfl := Option.some.inj merged
    rw [List.length_modify, mergeLoop_length loop]

/-- Every operation keeps the starts and the number of buckets. -/
theorem Made.table {n : ℕ} {hist : LogHistogram} (made : Made n hist) :
    setBucketStarts n = some hist.bucketStarts ∧ hist.buckets.length = n := by
  induction made with
  | new built =>
      obtain ⟨starts, set, rfl⟩ := Option.map_eq_some_iff.mp built
      exact ⟨set, by rw [List.length_replicate, setBucketStarts_length set]⟩
  | fillIn filled =>
      obtain ⟨starts, set, read⟩ := Option.bind_eq_some_iff.mp filled
      obtain ⟨⟨short, -⟩, same⟩ := Option.ite_none_right_eq_some.mp read
      obtain rfl := Option.some.inj same
      have length := setBucketStarts_length set
      refine ⟨set, ?_⟩
      rw [List.length_append, List.length_map, List.length_replicate]
      omega
  | addItem made added ih =>
      obtain ⟨-, added⟩ := Option.ite_none_right_eq_some.mp added
      obtain ⟨bucket, -, added⟩ := Option.bind_eq_some_iff.mp added
      obtain ⟨-, same⟩ := Option.ite_none_right_eq_some.mp added
      obtain rfl := Option.some.inj same
      exact ⟨ih.1, by rw [List.length_modify, ih.2]⟩
  | mergeIn made other merged ih otherIh =>
      obtain ⟨-, merged⟩ := Option.ite_none_right_eq_some.mp merged
      obtain ⟨buckets, poured, merged⟩ := Option.bind_eq_some_iff.mp merged
      obtain ⟨-, same⟩ := Option.ite_none_right_eq_some.mp merged
      obtain rfl := Option.some.inj same
      have counts := otherIh.2.trans (setBucketStarts_length otherIh.1).symm
      have intoCounts := ih.2.trans (setBucketStarts_length ih.1).symm
      exact ⟨ih.1, (mergeBuckets_length counts intoCounts poured).trans ih.2⟩
  | clear made ih => exact ⟨ih.1, by rw [List.length_replicate, ih.2]⟩

section Search

variable {hist : LogHistogram} {table : BucketTable} (starts : hist.bucketStarts = table.starts)
  (length : hist.buckets.length = table.size)

include starts in
theorem bucketMin_isSome {bucket : ℕ} {least : ℤ} (read : hist.bucketMin bucket = some least) :
    bucket < table.size := by
  obtain ⟨start, found, -⟩ := Option.map_eq_some_iff.mp read
  rw [starts] at found
  exact (List.getElem?_eq_some_iff.mp found).1

include starts length in
/-- A value lies in the bucket that the table gives it, and in no other. -/
theorem holds_iff {value : ℕ} (fits : value ≤ intMax) (bucket : ℕ) :
    hist.Holds value bucket ↔ bucket = table.index value := by
  constructor
  · rintro ⟨least, greatest, read, readMax, lower, upper⟩
    have inside := bucketMin_isSome starts read
    obtain rfl := Option.some.inj ((bucketMin_eq starts inside).symm.trans read)
    refine (table.index_eq inside (by exact_mod_cast lower) fun next => ?_).symm
    obtain rfl := Option.some.inj ((bucketMax_eq starts length next).symm.trans readMax)
    omega
  · rintro rfl
    have inside := table.index_lt value
    have lower := table.start_index_le value
    by_cases next : table.index value + 1 < table.size
    · have upper := table.lt_start_succ_index value next
      exact ⟨_, _, bucketMin_eq starts inside, bucketMax_eq starts length next, by omega, by omega⟩
    · have last : table.index value = table.size - 1 := by omega
      exact ⟨_, intMax, bucketMin_eq starts inside, last ▸ bucketMax_last length, by omega, by omega⟩

include starts length in
/-- The bucket of the value stays between the bounds, which stay valid buckets. -/
theorem Visits.bounds (small : table.size ≤ 2 ^ 32) {value : ℕ} (fits : value ≤ intMax) {low high : ℕ}
    (visits : hist.Visits value low high) :
    low ≤ table.index value ∧ table.index value ≤ high ∧ high < table.size := by
  induction visits with
  | start =>
      have inside := table.index_lt value
      omega
  | @down low high least before continues read below ih =>
      have middleEq : (high + low) % 2 ^ 64 / 2 = (high + low) / 2 := by omega
      rw [middleEq] at read ⊢
      have inside := bucketMin_isSome starts read
      obtain rfl := Option.some.inj ((bucketMin_eq starts inside).symm.trans read)
      have order : table.index value < (high + low) / 2 := by
        by_contra above
        exact absurd ((table.start_le_iff inside).mpr (Nat.le_of_not_lt above)) (by omega)
      omega
  | @up low high least greatest before continues read reached readMax above ih =>
      have middleEq : (high + low) % 2 ^ 64 / 2 = (high + low) / 2 := by omega
      rw [middleEq] at readMax ⊢
      by_cases next : (high + low) / 2 + 1 < table.size
      · obtain rfl := Option.some.inj ((bucketMax_eq starts length next).symm.trans readMax)
        have order : (high + low) / 2 + 1 ≤ table.index value := (table.start_le_iff next).mp (by omega)
        omega
      · have last : (high + low) / 2 = table.size - 1 := by omega
        rw [last, bucketMax_last length] at readMax
        obtain rfl := Option.some.inj readMax
        omega

end Search

/-- The search ends, reads only valid buckets between bounds that never wrap, and finds the one bucket of the value. -/
theorem bucketWith_finds {n : ℕ} (lower : 2 ≤ n) (upper : n ≤ 2 ^ 30) :
    (new n).isSome ∧ ∀ hist, Made n hist → ∀ v : ℤ, 0 ≤ v → v ≤ intMax →
      (∃ bucket, hist.bucketWith v = some bucket ∧ hist.Holds v bucket ∧
        ∀ other, hist.Holds v other → other = bucket) ∧
      ∀ low high, hist.Visits v low high → low ≤ high ∧ high < n := by
  constructor
  · rw [new, Option.isSome_map]
    exact setBucketStarts_isSome lower upper
  · intro hist made v nonnegative fits
    obtain ⟨built, count⟩ := made.table
    obtain ⟨table, starts, size, -, -⟩ := exists_startTable built
    obtain ⟨value, rfl⟩ := Int.eq_ofNat_of_zero_le nonnegative
    have small : value ≤ intMax := by exact_mod_cast fits
    have length : hist.buckets.length = table.size := count.trans size.symm
    have holds := holds_iff starts.symm length small
    constructor
    · refine ⟨table.index value, hist.bucketWith_eq table starts.symm length (by omega) value small, ?_, ?_⟩
      · exact (holds _).mpr rfl
      · exact fun other found => (holds other).mp found
    · intro low high visits
      have bounds := visits.bounds starts.symm length (by omega) small
      omega

/-- Twelve lies in the fifth of six buckets. -/
theorem bucketWith_finds_twelve :
    let hist : LogHistogram := ⟨[0, 0, 0, 0, 0, 0], [0, 1, 2, 4, 8, 16], 0⟩
    new 6 = some hist ∧ hist.bucketWith 12 = some 4 ∧ hist.Holds 12 4 ∧
      ∀ low high, hist.Visits 12 low high → low ≤ high ∧ high < 6 := by
  intro hist
  have built : new 6 = some hist := by decide
  have finds := (@bucketWith_finds 6 (by decide) (by decide)).2 hist (.new built) 12 (by decide) (by decide)
  obtain ⟨⟨bucket, found, holds, -⟩, visits⟩ := finds
  have four : hist.bucketWith 12 = some 4 := by decide
  obtain rfl := Option.some.inj (found.symm.trans four)
  exact ⟨built, four, holds, visits⟩

end LogHistogram

end JetStream
