import JetStream.Aggregates.JSSummary

namespace JetStream

namespace LogHistogram

/-- A wrapping addition loses a multiple of the word size. -/
theorem sum_modify_addCount {buckets : List ℕ} {dest : ℕ} (inside : dest < buckets.length) (count : ℕ) :
    ∃ lost, (buckets.modify dest (addCount · count)).sum + lost * 2 ^ 32 = buckets.sum + count := by
  induction buckets generalizing dest with
  | nil => exact absurd inside (Nat.not_lt_zero dest)
  | cons bucket buckets ih =>
      cases dest with
      | zero =>
          refine ⟨(bucket + count) / 2 ^ 32, ?_⟩
          simp only [List.modify_zero_cons, List.sum_cons, addCount]
          omega
      | succ dest =>
          obtain ⟨lost, same⟩ := ih (Nat.lt_of_succ_lt_succ inside)
          refine ⟨lost, ?_⟩
          simp only [List.modify_succ_cons, List.sum_cons]
          omega

/-- The bucketwise sum of two lists loses a multiple of the word size. -/
theorem sum_zipWith_addCount {first second : List ℕ} (same : first.length = second.length) :
    ∃ lost, (List.zipWith addCount first second).sum + lost * 2 ^ 32 = first.sum + second.sum := by
  induction first generalizing second with
  | nil =>
      obtain rfl := List.length_eq_zero_iff.mp same.symm
      exact ⟨0, rfl⟩
  | cons count first ih =>
      cases second with
      | nil => cases same
      | cons other second =>
          obtain ⟨lost, rest⟩ := ih (Nat.succ.inj same)
          refine ⟨lost + (count + other) / 2 ^ 32, ?_⟩
          simp only [List.zipWith_cons_cons, List.sum_cons, addCount]
          omega

section Pour

variable {into rhs : LogHistogram} (rhsCounts : rhs.buckets.length = rhs.bucketCount)

/-- One turn of the loop pours its count, if the assertion admits it, and stays inside the destination. -/
theorem mergeLoop_succ (remaining : ℕ) {source dest count : ℕ} {buckets : List ℕ} (inside : dest < buckets.length)
    (counts : buckets.length = into.bucketCount) (atSource : rhs.buckets[source]? = some count)
    (room : source + 1 < rhs.bucketCount) :
    ∃ next < buckets.length, mergeLoop into rhs (remaining + 1) source dest buckets =
      if count < 2 ^ 30 then mergeLoop into rhs remaining (source + 1) next (buckets.modify dest (addCount · count))
      else none := by
  have afterSource : rhs.bucketStarts[source + 1]? = some rhs.bucketStarts[source + 1] := List.getElem?_eq_getElem room
  rw [mergeLoop, atSource, Option.bind_eq_bind, Option.bind_some]
  by_cases last : dest < into.bucketCount - 1
  · have afterDest : dest + 1 < into.bucketStarts.length := by
      unfold bucketCount at last
      omega
    refine ⟨if into.bucketStarts[dest + 1] ≤ rhs.bucketStarts[source + 1] then dest + 1 else dest, ?_, ?_⟩
    · unfold bucketCount at counts
      split <;> omega
    · simp only [inside, and_true, if_pos last, afterSource, List.getElem?_eq_getElem afterDest, Option.bind_some]
  · exact ⟨dest, inside, by simp only [inside, and_true, if_neg last]⟩

include rhsCounts in
/-- The loop ends when every poured count is below its assertion, and it loses only what wraps. -/
theorem mergeLoop_spec (remaining : ℕ) {source dest : ℕ} {buckets : List ℕ} (inside : dest < buckets.length)
    (counts : buckets.length = into.bucketCount) (room : source + remaining < rhs.bucketCount) :
    ((mergeLoop into rhs remaining source dest buckets).isSome ↔
      ∀ count ∈ (rhs.buckets.drop source).take remaining, count < 2 ^ 30) ∧
    ∀ poured ∈ mergeLoop into rhs remaining source dest buckets, poured.length = buckets.length ∧
      ∃ lost, poured.sum + lost * 2 ^ 32 = buckets.sum + ((rhs.buckets.drop source).take remaining).sum := by
  induction remaining generalizing source dest buckets with
  | zero =>
      refine ⟨by simp [mergeLoop], fun poured same => ?_⟩
      obtain rfl := Option.some.inj same
      exact ⟨rfl, 0, by simp⟩
  | succ remaining ih =>
      obtain ⟨count, atSource⟩ : ∃ count, rhs.buckets[source]? = some count :=
        ⟨_, List.getElem?_eq_getElem (show source < rhs.buckets.length by omega)⟩
      have split : rhs.buckets.drop source = count :: rhs.buckets.drop (source + 1) := by
        rw [List.drop_eq_getElem?_toList_append, atSource]
        rfl
      obtain ⟨next, nextInside, turn⟩ := mergeLoop_succ remaining inside counts atSource
        (show source + 1 < rhs.bucketCount by omega)
      have length : (buckets.modify dest (addCount · count)).length = buckets.length :=
        List.length_modify _ _ _
      obtain ⟨ends, conserves⟩ := ih (length ▸ nextInside) (length.trans counts)
        (show source + 1 + remaining < rhs.bucketCount by omega)
      rw [split, List.take_succ_cons, List.forall_mem_cons, List.sum_cons, turn]
      by_cases small : count < 2 ^ 30
      · rw [if_pos small, and_iff_right small]
        refine ⟨ends, fun poured same => ?_⟩
        obtain ⟨pouredLength, lost, sum⟩ := conserves poured same
        obtain ⟨lostHere, sumHere⟩ := sum_modify_addCount inside count
        refine ⟨pouredLength.trans length, lost + lostHere, ?_⟩
        rw [Nat.add_mul, ← Nat.add_assoc, sum, Nat.add_right_comm, sumHere, Nat.add_assoc]
      · rw [if_neg small]
        exact ⟨iff_of_false Bool.false_ne_true fun every => small every.1, fun poured same => by cases same⟩

/-- The merge of the buckets ends when the sizes agree or every poured count is below its assertion. -/
theorem mergeBuckets_spec (intoCounts : into.buckets.length = into.bucketCount)
    (rhsCounts : rhs.buckets.length = rhs.bucketCount) (positive : 0 < into.bucketCount)
    (order : into.bucketCount ≤ rhs.bucketCount) :
    ((mergeBuckets into rhs).isSome ↔
      into.bucketCount = rhs.bucketCount ∨ ∀ count ∈ rhs.buckets.dropLast, count < 2 ^ 30) ∧
    ∀ merged ∈ mergeBuckets into rhs, merged.length = into.bucketCount ∧
      ∃ lost, merged.sum + lost * 2 ^ 32 = into.buckets.sum + rhs.buckets.sum := by
  unfold mergeBuckets
  by_cases sizes : rhs.bucketCount = into.bucketCount
  · have lengths : into.buckets.length = rhs.buckets.length := by rw [intoCounts, rhsCounts, sizes]
    rw [if_pos sizes]
    refine ⟨iff_of_true rfl (.inl sizes.symm), fun merged same => ?_⟩
    obtain rfl := Option.some.inj same
    exact ⟨by rw [List.length_zipWith, ← lengths, Nat.min_self, intoCounts], sum_zipWith_addCount lengths⟩
  · obtain ⟨last, atLast⟩ : ∃ last, rhs.buckets[rhs.bucketCount - 1]? = some last :=
      ⟨_, List.getElem?_eq_getElem (show rhs.bucketCount - 1 < rhs.buckets.length by omega)⟩
    have room : 0 + (rhs.bucketCount - 1) < rhs.bucketCount := by omega
    obtain ⟨ends, conserves⟩ := mergeLoop_spec rhsCounts (rhs.bucketCount - 1)
      (show 0 < into.buckets.length by omega) intoCounts room
    rw [List.drop_zero, ← rhsCounts, ← List.dropLast_eq_take, rhsCounts] at ends conserves
    have total : rhs.buckets.sum = rhs.buckets.dropLast.sum + last := by
      have found : last ∈ rhs.buckets.getLast? := by
        rw [List.getLast?_eq_getElem?, rhsCounts]
        exact atLast
      conv_lhs => rw [← List.dropLast_append_getLast? last found, List.sum_append, List.sum_singleton]
    rw [if_neg sizes, or_iff_right (Ne.symm sizes), ← ends, atLast]
    cases loop : mergeLoop into rhs (rhs.bucketCount - 1) 0 0 into.buckets with
    | none => exact ⟨Iff.rfl, fun merged same => by cases same⟩
    | some poured =>
        refine ⟨Iff.rfl, fun merged same => ?_⟩
        obtain rfl := Option.some.inj same
        obtain ⟨length, lost, sum⟩ := conserves poured loop
        obtain ⟨lostLast, sumLast⟩ := sum_modify_addCount (show into.bucketCount - 1 < poured.length by omega) last
        refine ⟨by rw [List.length_modify, length, intoCounts], lost + lostLast, ?_⟩
        rw [Nat.add_mul, ← Nat.add_assoc, Nat.add_right_comm, sumLast, Nat.add_right_comm, sum, total, Nat.add_assoc]

end Pour

/-- A merge needs a destination that is not finer, a total that fits an `int`, and small counts to pour. -/
def Mergeable (into rhs : LogHistogram) : Prop :=
  into.bucketCount ≤ rhs.bucketCount ∧ into.totalVals + rhs.totalVals < 2 ^ 31 ∧
    (into.bucketCount = rhs.bucketCount ∨ ∀ count ∈ rhs.buckets.dropLast, count < 2 ^ 30)

section Merge

variable {into rhs : LogHistogram} (intoFormed : into.WellFormed) (rhsFormed : rhs.WellFormed)

theorem WellFormed.bucketCount_pos {hist : LogHistogram} (formed : hist.WellFormed) : 1 < hist.bucketCount :=
  (setBucketStarts_eq_some formed.starts).1

include intoFormed rhsFormed in
/-- The totals agree with the 32-bit sums exactly when their sum fits an `int`. -/
theorem mergeIn_eq_some_iff {merged : LogHistogram} : into.mergeIn rhs = some merged ↔
    into.bucketCount ≤ rhs.bucketCount ∧ into.totalVals + rhs.totalVals < 2 ^ 31 ∧
      ∃ buckets ∈ mergeBuckets into rhs,
        { into with buckets := buckets, totalVals := into.totalVals + rhs.totalVals } = merged := by
  have positive := intoFormed.bucketCount_pos
  unfold mergeIn popSeen accumulate
  rw [← intoFormed.total, ← rhsFormed.total, Option.ite_none_right_eq_some, Option.bind_eq_bind,
    Option.bind_eq_some_iff]
  constructor
  · rintro ⟨⟨rhsFits, intoFits, order⟩, buckets, poured, checked⟩
    rw [Option.ite_none_right_eq_some] at checked
    obtain ⟨tally, same⟩ := checked
    obtain ⟨-, lost, sum⟩ := (mergeBuckets_spec intoFormed.counts rhsFormed.counts (by omega) order).2 buckets poured
    rw [← intoFormed.total, ← rhsFormed.total] at sum
    have small : into.totalVals + rhs.totalVals < 2 ^ 31 := by
      unfold intToSizeT at tally
      split at tally <;> omega
    rw [Nat.mod_eq_of_lt (small.trans (by decide))] at same
    exact ⟨order, small, buckets, poured, Option.some.inj same⟩
  · rintro ⟨order, small, buckets, poured, same⟩
    obtain ⟨-, lost, sum⟩ := (mergeBuckets_spec intoFormed.counts rhsFormed.counts (by omega) order).2 buckets poured
    rw [← intoFormed.total, ← rhsFormed.total] at sum
    refine ⟨⟨by omega, by omega, order⟩, buckets, poured, ?_⟩
    rw [Nat.mod_eq_of_lt (small.trans (by decide)), if_pos, same]
    unfold intToSizeT
    split <;> omega

include intoFormed rhsFormed in
/-- The assertions of the merge hold exactly when the histograms can be merged. -/
theorem mergeIn_isSome_iff : (into.mergeIn rhs).isSome ↔ Mergeable into rhs := by
  have positive := intoFormed.bucketCount_pos
  rw [Option.isSome_iff_exists, Mergeable]
  simp only [mergeIn_eq_some_iff intoFormed rhsFormed, exists_and_left]
  refine and_congr_right fun order => and_congr_right fun small => ?_
  rw [← (mergeBuckets_spec intoFormed.counts rhsFormed.counts (by omega) order).1, Option.isSome_iff_exists]
  exact ⟨fun ⟨_, buckets, poured, _⟩ => ⟨buckets, poured⟩, fun ⟨buckets, poured⟩ => ⟨_, buckets, poured, rfl⟩⟩

include intoFormed rhsFormed in
/-- A merge that returns keeps the starts of its destination and adds the totals. -/
theorem mergeIn_wellFormed {merged : LogHistogram} (done : into.mergeIn rhs = some merged) :
    merged.WellFormed ∧ merged.bucketStarts = into.bucketStarts ∧
      merged.totalVals = into.totalVals + rhs.totalVals := by
  have positive := intoFormed.bucketCount_pos
  obtain ⟨order, small, buckets, poured, rfl⟩ := (mergeIn_eq_some_iff intoFormed rhsFormed).mp done
  obtain ⟨length, lost, sum⟩ :=
    (mergeBuckets_spec intoFormed.counts rhsFormed.counts (by omega) order).2 buckets poured
  rw [← intoFormed.total, ← rhsFormed.total] at sum
  have unwrapped : lost = 0 := by omega
  rw [unwrapped, Nat.zero_mul, Nat.add_zero] at sum
  exact ⟨⟨intoFormed.starts, length, sum.symm⟩, rfl, rfl⟩

end Merge

/-- A new histogram is empty and has the requested number of buckets. -/
theorem new_wellFormed {size : ℕ} {hist : LogHistogram} (made : new size = some hist) :
    hist.WellFormed ∧ hist.bucketCount = size ∧ hist.totalVals = 0 := by
  obtain ⟨starts, built, rfl⟩ := Option.map_eq_some_iff.mp made
  have length := setBucketStarts_length built
  refine ⟨⟨?_, List.length_replicate, ?_⟩, length, rfl⟩
  · change setBucketStarts starts.length = some starts
    rw [length, built]
  · change 0 = (List.replicate starts.length 0).sum
    simp

section Coarsen

variable {hist : LogHistogram} (formed : hist.WellFormed) {size : ℕ}

include formed in
/-- A histogram can be poured into a new one of at least two and no more buckets when its counts are small. -/
theorem new_mergeIn_isSome_iff : ((new size).bind (·.mergeIn hist)).isSome ↔
    1 < size ∧ size ≤ hist.bucketCount ∧ hist.totalVals < 2 ^ 31 ∧
      (size = hist.bucketCount ∨ ∀ count ∈ hist.buckets.dropLast, count < 2 ^ 30) := by
  cases made : new size with
  | none =>
      refine iff_of_false Bool.false_ne_true fun ⟨some_, order, _⟩ => ?_
      have missing : setBucketStarts size = none := Option.map_eq_none_iff.mp made
      have exists_ := setBucketStarts_isSome_of_le some_ order formed.starts
      rw [missing] at exists_
      cases exists_
  | some fresh =>
      obtain ⟨freshFormed, sizeEq, zero⟩ := new_wellFormed made
      rw [Option.bind_some, mergeIn_isSome_iff freshFormed formed, Mergeable, sizeEq, zero, Nat.zero_add]
      have some_ := freshFormed.bucketCount_pos
      rw [sizeEq] at some_
      rw [and_iff_right some_]

include formed in
/-- The coarser histogram keeps the total. -/
theorem new_mergeIn_spec {merged : LogHistogram} (done : (new size).bind (·.mergeIn hist) = some merged) :
    merged.WellFormed ∧ merged.bucketCount = size ∧ merged.totalVals = hist.totalVals := by
  obtain ⟨fresh, made, poured⟩ := Option.bind_eq_some_iff.mp done
  obtain ⟨freshFormed, sizeEq, zero⟩ := new_wellFormed made
  obtain ⟨mergedFormed, starts, total⟩ := mergeIn_wellFormed freshFormed formed poured
  rw [zero, Nat.zero_add] at total
  exact ⟨mergedFormed, by rw [bucketCount, starts]; exact sizeEq, total⟩

end Coarsen

end LogHistogram

end JetStream
