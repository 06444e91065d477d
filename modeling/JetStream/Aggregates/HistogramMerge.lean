import JetStream.Aggregates.LogHistogram

namespace JetStream

namespace LogHistogram

/-- A bucket list stores the values of one function on the bucket positions. -/
theorem modify_map_range (n dest : ℕ) (f g : ℕ → ℕ) :
    ((List.range n).map f).modify dest g =
      (List.range n).map fun b => if b = dest then g (f b) else f b := by
  apply List.ext_getElem
  · simp
  · intro i first second
    simp only [List.getElem_modify, List.getElem_map, List.getElem_range]
    by_cases same : dest = i
    · simp [same]
    · simp [same, Ne.symm same]

/-- This histogram tallies the items over the buckets of a table. -/
def ofItems (table : BucketTable) (items : List (ℕ × ℕ)) : LogHistogram where
  buckets := (List.range table.size).map (table.tally items)
  bucketStarts := table.starts
  totalVals := BucketTable.weight items

/-- The histogram of a table depends only on the multiset of its items. -/
theorem ofItems_perm (table : BucketTable) {first second : List (ℕ × ℕ)} (same : first.Perm second) :
    ofItems table first = ofItems table second := by
  have tallies : table.tally first = table.tally second := by
    funext b
    exact table.tally_perm same b
  simp only [ofItems, tallies, BucketTable.weight_perm same]

theorem sum_map_range (n : ℕ) (f : ℕ → ℕ) :
    ((List.range n).map f).sum = ∑ b ∈ Finset.range n, f b := by
  rw [Finset.sum_eq_multiset_sum, Finset.range_val, Multiset.range, Multiset.map_coe, Multiset.sum_coe]

/-- The buckets always sum to the total. -/
theorem ofItems_sum (table : BucketTable) (items : List (ℕ × ℕ)) :
    (ofItems table items).buckets.sum = (ofItems table items).totalVals := by
  rw [ofItems, sum_map_range, table.sum_tally_eq_weight]

/-- A new histogram holds no items. -/
theorem new_eq {n : ℕ} {table : BucketTable} (built : setBucketStarts n = some table.starts) :
    new n = some (ofItems table []) := by
  rw [new, built, Option.map_some]
  congr 1
  simp only [ofItems, BucketTable.weight_nil, LogHistogram.mk.injEq, and_true]
  apply List.ext_getElem
  · simp [BucketTable.size]
  · intro i first second
    simp

section Ends

variable {hist : LogHistogram} {table : BucketTable} (starts : hist.bucketStarts = table.starts)
  (length : hist.buckets.length = table.size)

include starts in
theorem bucketMin_eq {bucket : ℕ} (inside : bucket < table.size) :
    hist.bucketMin bucket = some (table.start bucket : ℤ) := by
  rw [bucketMin, starts, table.getElem?_start inside]
  rfl

include starts length in
theorem bucketMax_eq {bucket : ℕ} (inside : bucket + 1 < table.size) :
    hist.bucketMax bucket = some ((table.start (bucket + 1) : ℤ) - 1) := by
  rw [bucketMax, if_pos (by omega), if_neg (by omega), starts, table.getElem?_start inside]
  rfl

include length in
theorem bucketMax_last : hist.bucketMax (table.size - 1) = some (intMax : ℤ) := by
  have positive := table.size_pos
  rw [bucketMax, if_pos (by omega), if_pos (by omega)]

end Ends

/-- The bisection keeps the value's bucket between its bounds and ends there. -/
theorem bucketWithLoop_eq (hist : LogHistogram) (table : BucketTable)
    (starts : hist.bucketStarts = table.starts) (length : hist.buckets.length = table.size)
    (small : table.size ≤ 2 ^ 32) (value : ℕ) (fits : value ≤ intMax) (fuel low high bucket : ℕ)
    (lower : low ≤ table.index value) (upper : table.index value ≤ high) (inside : high < table.size)
    (room : high - low < fuel) :
    hist.bucketWithLoop value fuel low high bucket = some (table.index value) := by
  induction fuel generalizing low high bucket with
  | zero => omega
  | succ fuel ih =>
      have middleEq : (high + low) % 2 ^ 64 / 2 = (high + low) / 2 := by omega
      have middleInside : (high + low) / 2 < table.size := by omega
      simp only [bucketWithLoop, lower.trans upper, if_true, middleEq, bucketMin_eq starts middleInside,
        Option.bind_eq_bind, Option.bind_some]
      by_cases below : value < table.start ((high + low) / 2)
      · have order : table.index value < (high + low) / 2 := by
          by_contra above
          exact absurd ((table.start_le_iff middleInside).mpr (Nat.le_of_not_lt above)) (by omega)
        have pred : ((high + low) / 2 + (2 ^ 64 - 1)) % 2 ^ 64 = (high + low) / 2 - 1 := by omega
        rw [if_pos (by exact_mod_cast below), pred]
        exact ih low _ _ lower (by omega) (by omega) (by omega)
      · have order : (high + low) / 2 ≤ table.index value :=
          (table.start_le_iff middleInside).mp (Nat.le_of_not_lt below)
        rw [if_neg (by exact_mod_cast below)]
        by_cases next : (high + low) / 2 + 1 < table.size
        · rw [bucketMax_eq starts length next, Option.bind_some]
          have bound : table.start ((high + low) / 2 + 1) ≤ value ↔ (high + low) / 2 + 1 ≤ table.index value :=
            table.start_le_iff next
          by_cases above : table.start ((high + low) / 2 + 1) ≤ value
          · rw [if_pos (by omega)]
            exact ih _ high _ (bound.mp above) upper inside (by omega)
          · rw [if_neg (by omega)]
            congr 1
            have stop := mt bound.mpr above
            omega
        · have found := table.index_lt value
          have last : (high + low) / 2 = table.size - 1 := by omega
          have here : table.index value = table.size - 1 := by omega
          rw [last, bucketMax_last length, Option.bind_some, if_neg (by exact_mod_cast Nat.not_lt.mpr fits), here]

/-- The search finds the bucket of every value. -/
theorem bucketWith_eq (hist : LogHistogram) (table : BucketTable)
    (starts : hist.bucketStarts = table.starts) (length : hist.buckets.length = table.size)
    (small : table.size ≤ 2 ^ 32) (value : ℕ) (fits : value ≤ intMax) :
    hist.bucketWith value = some (table.index value) := by
  have positive := table.size_pos
  have found := table.index_lt value
  have high : (hist.buckets.length + (2 ^ 64 - 1)) % 2 ^ 64 = hist.buckets.length - 1 := by omega
  rw [bucketWith, high]
  exact hist.bucketWithLoop_eq table starts length small value fits _ _ _ _ (Nat.zero_le _) (by omega)
    (by omega) (by omega)

/-- An added item extends the item list. -/
theorem addItem_eq (table : BucketTable) (small : table.size ≤ 2 ^ 32) (items : List (ℕ × ℕ))
    (value count : ℕ) (fits : value ≤ intMax) (accepted : count < 2 ^ 30)
    (total : BucketTable.weight items + count < 2 ^ 32) :
    (ofItems table items).addItem value count = some (ofItems table (items ++ [(value, count)])) := by
  have length : (ofItems table items).buckets.length = table.size := by simp [ofItems]
  have found := bucketWith_eq (ofItems table items) table rfl length small value fits
  have inside := table.index_lt value
  have full := table.tally_le_weight items
  simp only [addItem, accepted, if_true, found, Option.bind_eq_bind, Option.bind_some, length, inside]
  congr 1
  simp only [ofItems, modify_map_range, LogHistogram.mk.injEq, true_and]
  constructor
  · apply List.map_congr_left
    intro b _
    have bound := full b
    rw [table.tally_append]
    by_cases same : b = table.index value
    · rw [if_pos same, addCount_eq (by omega)]
      simp [BucketTable.tally, same]
    · rw [if_neg same]
      simp [BucketTable.tally, Ne.symm same]
  · rw [BucketTable.weight_append, BucketTable.weight_singleton]
    exact Nat.mod_eq_of_lt (by omega)

/-- The pouring loop adds each remaining fine bucket to the coarse bucket that contains it. -/
theorem mergeLoop_eq (into rhs : LogHistogram) {fine coarse : BucketTable} (nested : fine.Refines coarse)
    (intoStarts : into.bucketStarts = coarse.starts) (rhsStarts : rhs.bucketStarts = fine.starts)
    (counts : ℕ → ℕ) (rhsBuckets : rhs.buckets = (List.range fine.size).map counts)
    (asserted : ∀ j, counts j < 2 ^ 30) (remaining source : ℕ) (f : ℕ → ℕ)
    (inside : source + remaining < fine.size)
    (fits : ∀ b, f b + ∑ j ∈ Finset.Ico source (source + remaining),
      (if coarse.index (fine.start j) = b then counts j else 0) < 2 ^ 32) :
    mergeLoop into rhs remaining source (coarse.index (fine.start source)) ((List.range coarse.size).map f) =
      some ((List.range coarse.size).map fun b => f b + ∑ j ∈ Finset.Ico source (source + remaining),
        if coarse.index (fine.start j) = b then counts j else 0) := by
  induction remaining generalizing source f with
  | zero => simp [mergeLoop]
  | succ remaining ih =>
      have destInside := coarse.index_lt (fine.start source)
      have count : rhs.buckets[source]? = some (counts source) := by
        rw [rhsBuckets, List.getElem?_map, List.getElem?_range (by omega)]
        rfl
      have unroll : ∀ b, f b + ∑ j ∈ Finset.Ico source (source + (remaining + 1)),
          (if coarse.index (fine.start j) = b then counts j else 0) =
          (f b + if coarse.index (fine.start source) = b then counts source else 0) +
            ∑ j ∈ Finset.Ico (source + 1) (source + 1 + remaining),
              if coarse.index (fine.start j) = b then counts j else 0 := by
        intro b
        rw [Finset.sum_eq_sum_Ico_succ_bot (by omega), ← Nat.add_assoc (f b),
          show source + (remaining + 1) = source + 1 + remaining by omega]
      have poured : ((List.range coarse.size).map f).modify (coarse.index (fine.start source))
          (addCount · (counts source)) = (List.range coarse.size).map fun b =>
            f b + if coarse.index (fine.start source) = b then counts source else 0 := by
        rw [modify_map_range]
        apply List.map_congr_left
        intro b _
        have bound := fits b
        rw [unroll b] at bound
        by_cases same : b = coarse.index (fine.start source)
        · rw [if_pos same, if_pos same.symm] at *
          exact addCount_eq (by omega)
        · rw [if_neg same, if_neg (Ne.symm same), Nat.add_zero]
      have step := nested.index_start_succ (show source + 1 < fine.size by omega)
      have rest := ih (source + 1)
        (fun b => f b + if coarse.index (fine.start source) = b then counts source else 0) (by omega)
        (fun b => by rw [← unroll b]; exact fits b)
      simp only [mergeLoop, count, Option.bind_eq_bind, Option.bind_some, asserted source, List.length_map,
        List.length_range, destInside, and_self, if_true, poured, bucketCount, intoStarts, rhsStarts]
      simp only [unroll]
      rw [← rest, step]
      by_cases open_ : coarse.index (fine.start source) + 1 < coarse.size
      · rw [if_pos (show _ < coarse.starts.length - 1 by unfold BucketTable.size at open_; omega),
          fine.getElem?_start (show source + 1 < fine.size by omega), coarse.getElem?_start open_]
        simp only [Option.bind_some, open_, true_and]
      · rw [if_neg (show ¬ _ < coarse.starts.length - 1 by unfold BucketTable.size at open_; omega)]
        simp only [open_, false_and, if_false]

/-- Two histograms over one table add bucketwise. -/
theorem mergeBuckets_same (table : BucketTable) (xs ys : List (ℕ × ℕ))
    (total : BucketTable.weight xs + BucketTable.weight ys < 2 ^ 31) :
    mergeBuckets (ofItems table xs) (ofItems table ys) =
      some ((List.range table.size).map (table.tally (xs ++ ys))) := by
  rw [mergeBuckets, if_pos (show (ofItems table ys).bucketCount = (ofItems table xs).bucketCount from rfl)]
  congr 1
  apply List.ext_getElem
  · simp [ofItems]
  · intro b first second
    have left := table.tally_le_weight xs b
    have right := table.tally_le_weight ys b
    simp only [ofItems, List.getElem_zipWith, List.getElem_map, List.getElem_range,
      BucketTable.tally_append]
    exact addCount_eq (by omega)

/-- A finer histogram pours every item into its coarse bucket. -/
theorem mergeBuckets_finer {fine coarse : BucketTable} (nested : fine.Refines coarse)
    (smaller : coarse.size < fine.size) (xs ys : List (ℕ × ℕ))
    (asserted : ∀ j, fine.tally ys j < 2 ^ 30)
    (total : BucketTable.weight xs + BucketTable.weight ys < 2 ^ 31) :
    mergeBuckets (ofItems coarse xs) (ofItems fine ys) =
      some ((List.range coarse.size).map (coarse.tally (xs ++ ys))) := by
  have positive := coarse.size_pos
  have whole : ∀ b, (∑ j ∈ Finset.Ico 0 (fine.size - 1),
      if coarse.index (fine.start j) = b then fine.tally ys j else 0) +
      (if coarse.size - 1 = b then fine.tally ys (fine.size - 1) else 0) = coarse.tally ys b := by
    intro b
    rw [← nested.sum_tally ys b, ← nested.index_start_last, Finset.range_eq_Ico,
      ← Finset.sum_Ico_succ_top (Nat.zero_le _), show fine.size - 1 + 1 = fine.size by omega]
  have bounded : ∀ b, coarse.tally xs b + coarse.tally ys b < 2 ^ 31 := by
    intro b
    have left := coarse.tally_le_weight xs b
    have right := coarse.tally_le_weight ys b
    omega
  have loop := mergeLoop_eq (ofItems coarse xs) (ofItems fine ys) nested rfl rfl (fine.tally ys) rfl asserted
    (fine.size - 1) 0 (coarse.tally xs) (by omega) (fun b => by
      have := bounded b
      have := whole b
      rw [Nat.zero_add]
      omega)
  have start : coarse.index (fine.start 0) = 0 := by
    rw [fine.start_zero]
    conv_lhs => rw [← coarse.start_zero]
    exact coarse.index_start positive
  rw [start, Nat.zero_add] at loop
  have last : (ofItems fine ys).buckets[fine.size - 1]? = some (fine.tally ys (fine.size - 1)) := by
    rw [ofItems, List.getElem?_map, List.getElem?_range (by omega)]
    rfl
  have sizes : (ofItems fine ys).bucketCount ≠ (ofItems coarse xs).bucketCount := by
    change fine.size ≠ coarse.size
    omega
  rw [mergeBuckets, if_neg sizes]
  change ((mergeLoop (ofItems coarse xs) (ofItems fine ys) (fine.size - 1) 0 0
    ((List.range coarse.size).map (coarse.tally xs))).bind fun poured =>
      ((ofItems fine ys).buckets[fine.size - 1]?).bind fun last =>
        some (poured.modify (coarse.size - 1) (addCount · last))) = _
  rw [loop, Option.bind_some, last, Option.bind_some, modify_map_range]
  congr 1
  apply List.map_congr_left
  intro b _
  have sum := whole b
  have bound := bounded b
  rw [BucketTable.tally_append]
  by_cases same : b = coarse.size - 1
  · rw [if_pos same, addCount_eq (by rw [if_pos same.symm] at sum; omega)]
    rw [if_pos same.symm] at sum
    omega
  · rw [if_neg same]
    rw [if_neg (Ne.symm same)] at sum
    omega

/-- Every assertion of the merge holds once the buckets are the tallies of both lists. -/
theorem mergeIn_of_mergeBuckets {fine coarse : BucketTable} (order : coarse.size ≤ fine.size)
    (xs ys : List (ℕ × ℕ)) (total : BucketTable.weight xs + BucketTable.weight ys < 2 ^ 31)
    (merged : mergeBuckets (ofItems coarse xs) (ofItems fine ys) =
      some ((List.range coarse.size).map (coarse.tally (xs ++ ys)))) :
    (ofItems coarse xs).mergeIn (ofItems fine ys) = some (ofItems coarse (xs ++ ys)) := by
  have counted : ∀ (table : BucketTable) (items : List (ℕ × ℕ)), BucketTable.weight items < 2 ^ 31 →
      accumulate (ofItems table items).buckets = BucketTable.weight items := by
    intro table items small
    rw [accumulate, ofItems_sum]
    exact Nat.mod_eq_of_lt (by change BucketTable.weight items < 2 ^ 32; omega)
  have both : BucketTable.weight (xs ++ ys) < 2 ^ 31 := by
    rw [BucketTable.weight_append]
    exact total
  have tally := counted coarse (xs ++ ys) both
  have sum : ((ofItems coarse xs).totalVals + (ofItems fine ys).totalVals) % 2 ^ 64 =
      BucketTable.weight (xs ++ ys) := by
    rw [BucketTable.weight_append]
    exact Nat.mod_eq_of_lt (by change BucketTable.weight xs + BucketTable.weight ys < 2 ^ 64; omega)
  rw [mergeIn, if_pos ⟨(counted fine ys (by omega)).symm, (counted coarse xs (by omega)).symm, order⟩, merged]
  simp only [Option.bind_eq_bind, Option.bind_some, sum]
  rw [if_pos]
  · rfl
  · change intToSizeT (accumulate (ofItems coarse (xs ++ ys)).buckets) = _
    rw [tally, intToSizeT, if_pos both]

/-- Merging an equal or finer histogram appends its items. -/
theorem mergeIn_eq {n m : ℕ} {coarse fine : BucketTable} (order : n ≤ m)
    (coarseBuilt : setBucketStarts n = some coarse.starts) (fineBuilt : setBucketStarts m = some fine.starts)
    (coarseSize : coarse.size = n) (fineSize : fine.size = m) (xs ys : List (ℕ × ℕ))
    (asserted : n = m ∨ ∀ j, fine.tally ys j < 2 ^ 30)
    (total : BucketTable.weight xs + BucketTable.weight ys < 2 ^ 31) :
    (ofItems coarse xs).mergeIn (ofItems fine ys) = some (ofItems coarse (xs ++ ys)) := by
  apply mergeIn_of_mergeBuckets (by omega) xs ys total
  by_cases same : n = m
  · obtain rfl : coarse = fine := by
      have starts : coarse.starts = fine.starts := by
        rw [same, fineBuilt] at coarseBuilt
        exact (Option.some.inj coarseBuilt).symm
      cases coarse
      cases fine
      congr
    exact mergeBuckets_same coarse xs ys total
  · exact mergeBuckets_finer (setBucketStarts_subset order coarseBuilt fineBuilt) (by omega) xs ys
      (asserted.resolve_left same) total

end LogHistogram

/-- A program builds one histogram from adds and merges. -/
inductive HistogramProgram where
  | new (bucketTarget : ℕ)
  | add (into : HistogramProgram) (value count : ℕ)
  | merge (into rhs : HistogramProgram)

namespace HistogramProgram

/-- Each constructor calls one histogram operation. -/
def run : HistogramProgram → Option LogHistogram
  | .new bucketTarget => LogHistogram.new bucketTarget
  | .add into value count => into.run.bind fun hist => hist.addItem value count
  | .merge into rhs => into.run.bind fun hist => rhs.run.bind fun update => hist.mergeIn update

/-- A merge keeps the resolution of its destination. -/
def resolution : HistogramProgram → ℕ
  | .new bucketTarget => bucketTarget
  | .add into _ _ => into.resolution
  | .merge into _ => into.resolution

/-- The items list every added value with its count. -/
def items : HistogramProgram → List (ℕ × ℕ)
  | .new _ => []
  | .add into value count => into.items ++ [(value, count)]
  | .merge into rhs => into.items ++ rhs.items

/-- Sizes are supported, values are `int`s and no merge refines its destination. -/
def Valid : HistogramProgram → Prop
  | .new bucketTarget => 2 ≤ bucketTarget ∧ bucketTarget ≤ 2 ^ 30
  | .add into value _ => into.Valid ∧ value ≤ intMax
  | .merge into rhs => into.Valid ∧ rhs.Valid ∧ into.resolution ≤ rhs.resolution

/-- This program adds a list of items to a new histogram. -/
def build (bucketTarget : ℕ) (items : List (ℕ × ℕ)) : HistogramProgram :=
  items.foldl (fun into item => into.add item.1 item.2) (.new bucketTarget)

theorem build_append (bucketTarget : ℕ) (items : List (ℕ × ℕ)) (item : ℕ × ℕ) :
    build bucketTarget (items ++ [item]) = (build bucketTarget items).add item.1 item.2 := by
  simp [build]

theorem build_spec (bucketTarget : ℕ) (items : List (ℕ × ℕ)) :
    (build bucketTarget items).items = items ∧ (build bucketTarget items).resolution = bucketTarget := by
  induction items using List.reverseRecOn with
  | nil => exact ⟨rfl, rfl⟩
  | append_singleton items item ih =>
      rw [build_append]
      exact ⟨by simp [HistogramProgram.items, ih.1], ih.2⟩

theorem build_valid {bucketTarget : ℕ} (lower : 2 ≤ bucketTarget) (upper : bucketTarget ≤ 2 ^ 30)
    (items : List (ℕ × ℕ)) (int32 : ∀ item ∈ items, item.1 ≤ intMax) : (build bucketTarget items).Valid := by
  induction items using List.reverseRecOn with
  | nil => exact ⟨lower, upper⟩
  | append_singleton items item ih =>
      rw [build_append]
      exact ⟨ih fun other member => int32 other (by simp [member]), int32 item (by simp)⟩

/-- A valid program returns the histogram of exactly its items. -/
theorem run_eq (program : HistogramProgram) (valid : program.Valid)
    (total : BucketTable.weight program.items < 2 ^ 30) :
    ∃ table : BucketTable, setBucketStarts program.resolution = some table.starts ∧
      table.size = program.resolution ∧ program.run = some (LogHistogram.ofItems table program.items) := by
  induction program with
  | new bucketTarget =>
      obtain ⟨starts, built⟩ := Option.isSome_iff_exists.mp (setBucketStarts_isSome valid.1 valid.2)
      obtain ⟨table, rfl, size, -⟩ := exists_startTable built
      exact ⟨table, built, size, LogHistogram.new_eq built⟩
  | add into value count ih =>
      simp only [items, BucketTable.weight_append, BucketTable.weight_singleton] at total
      obtain ⟨table, built, size, done⟩ := ih valid.1 (by omega)
      obtain ⟨-, -, sizeEq, -, small⟩ := exists_startTable built
      refine ⟨table, built, size, ?_⟩
      simp only [run, done, Option.bind_some]
      exact LogHistogram.addItem_eq table (by omega) into.items value count valid.2 (by omega) (by omega)
  | merge into rhs ihInto ihRhs =>
      simp only [items, BucketTable.weight_append] at total
      obtain ⟨coarse, coarseBuilt, coarseSize, intoDone⟩ := ihInto valid.1 (by omega)
      obtain ⟨fine, fineBuilt, fineSize, rhsDone⟩ := ihRhs valid.2.1 (by omega)
      refine ⟨coarse, coarseBuilt, coarseSize, ?_⟩
      simp only [run, intoDone, rhsDone, Option.bind_some]
      exact LogHistogram.mergeIn_eq valid.2.2 coarseBuilt fineBuilt coarseSize fineSize into.items rhs.items
        (Or.inr fun j => (fine.tally_le_weight rhs.items j).trans_lt (by omega)) (by omega)

/-- Two programs of one resolution agree when they add the same items in any order. -/
theorem run_perm (first second : HistogramProgram) (firstValid : first.Valid) (secondValid : second.Valid)
    (same : first.resolution = second.resolution) (items : first.items.Perm second.items)
    (total : BucketTable.weight first.items < 2 ^ 30) : first.run = second.run := by
  obtain ⟨table, built, -, done⟩ := first.run_eq firstValid total
  obtain ⟨other, otherBuilt, -, otherDone⟩ :=
    second.run_eq secondValid (by rwa [← BucketTable.weight_perm items])
  obtain rfl : table = other := by
    rw [same, otherBuilt] at built
    cases table
    cases other
    congr
    exact (Option.some.inj built).symm
  rw [done, otherDone, LogHistogram.ofItems_perm table items]

end HistogramProgram

/-- Merging a finer histogram gives the histogram of both lists, every total is the sum of its buckets
and the order of adds and merges does not matter. -/
theorem logHistogram_merge_homomorphism :
    (∀ (n m : ℕ) (xs ys : List (ℕ × ℕ)), 2 ≤ n → n ≤ m → m ≤ 2 ^ 30 →
      (∀ item ∈ xs ++ ys, item.1 ≤ intMax) → BucketTable.weight (xs ++ ys) < 2 ^ 30 →
      ∃ into rhs merged, (HistogramProgram.build n xs).run = some into ∧
        (HistogramProgram.build m ys).run = some rhs ∧ into.mergeIn rhs = some merged ∧
        (HistogramProgram.build n (xs ++ ys)).run = some merged) ∧
    (∀ program : HistogramProgram, program.Valid → BucketTable.weight program.items < 2 ^ 30 →
      ∃ hist, program.run = some hist ∧ hist.totalVals = hist.buckets.sum) ∧
    (∀ first second : HistogramProgram, first.Valid → second.Valid →
      first.resolution = second.resolution → first.items.Perm second.items →
      BucketTable.weight first.items < 2 ^ 30 → first.run = second.run) := by
  refine ⟨?_, ?_, fun first second => first.run_perm second⟩
  · intro n m xs ys lower order upper int32 total
    have left := HistogramProgram.build_valid lower (order.trans upper) xs
      fun item member => int32 item (List.mem_append_left _ member)
    have right := HistogramProgram.build_valid (lower.trans order) upper ys
      fun item member => int32 item (List.mem_append_right _ member)
    have both := HistogramProgram.build_valid lower (order.trans upper) (xs ++ ys) int32
    have leftSpec := HistogramProgram.build_spec n xs
    have rightSpec := HistogramProgram.build_spec m ys
    have bothSpec := HistogramProgram.build_spec n (xs ++ ys)
    have valid : ((HistogramProgram.build n xs).merge (HistogramProgram.build m ys)).Valid :=
      ⟨left, right, by rw [leftSpec.2, rightSpec.2]; exact order⟩
    have items : ((HistogramProgram.build n xs).merge (HistogramProgram.build m ys)).items = xs ++ ys := by
      rw [HistogramProgram.items, leftSpec.1, rightSpec.1]
    have amount : BucketTable.weight xs + BucketTable.weight ys < 2 ^ 30 := by
      rwa [← BucketTable.weight_append]
    obtain ⟨_, -, -, leftDone⟩ := HistogramProgram.run_eq _ left (by rw [leftSpec.1]; omega)
    obtain ⟨_, -, -, rightDone⟩ := HistogramProgram.run_eq _ right (by rw [rightSpec.1]; omega)
    obtain ⟨_, -, -, mergeDone⟩ := HistogramProgram.run_eq _ valid (by rw [items]; exact total)
    have agree := HistogramProgram.run_perm _ _ valid both (by rw [bothSpec.2]; exact leftSpec.2)
      (by rw [items, bothSpec.1]) (by rw [items]; exact total)
    refine ⟨_, _, _, leftDone, rightDone, ?_, agree ▸ mergeDone⟩
    rw [← mergeDone, HistogramProgram.run, leftDone, rightDone]
    rfl
  · intro program valid total
    obtain ⟨table, -, -, done⟩ := program.run_eq valid total
    exact ⟨_, done, (LogHistogram.ofItems_sum table program.items).symm⟩

/-- The law applies to a merge of four buckets into three. -/
theorem logHistogram_merge_four_into_three :
    ∃ into rhs merged, (HistogramProgram.build 3 [(0, 1), (5, 2)]).run = some into ∧
      (HistogramProgram.build 4 [(1, 1), (3, 4)]).run = some rhs ∧ into.mergeIn rhs = some merged ∧
      (HistogramProgram.build 3 [(0, 1), (5, 2), (1, 1), (3, 4)]).run = some merged :=
  logHistogram_merge_homomorphism.1 3 4 [(0, 1), (5, 2)] [(1, 1), (3, 4)] (by decide) (by decide) (by decide)
    (by decide) (by decide)

end JetStream
