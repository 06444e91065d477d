import JetStream.Aggregates.HistogramMerge

namespace JetStream

/-- The sample message holds the sampled items and the two sizes of a reservoir. -/
structure JSSample where
  items : List ℤ
  totalItems : ℤ
  maxItems : ℕ
  deriving DecidableEq, Repr

/-- The histogram message holds one `int32` for each bucket. -/
structure JSHistogram where
  bucketVals : List ℤ
  numBuckets : ℕ
  deriving DecidableEq, Repr

/-- The sketch message holds its parameters and the raw counters of each level. -/
structure JSCMSketch where
  d : ℕ
  w : ℕ
  randSeed : ℕ
  exactLevels : List (List ℕ)
  panes : List (List ℕ)
  totalItems : ℕ
  deriving DecidableEq, Repr

/-- A summary holds optional aggregates and the items that no aggregate has absorbed. -/
structure JSSummary where
  sample : Option JSSample := none
  histo : Option JSHistogram := none
  sketch : Option JSCMSketch := none
  items : List ℤ := []
  futureHistSize : Option ℤ := none
  deriving DecidableEq, Repr

namespace LogHistogram

/-- Serialization replaces the bucket counts of the target's histogram. -/
def serializeTo (hist : LogHistogram) (q : JSSummary) : JSSummary :=
  { q with histo := some ⟨(hist.buckets.take hist.bucketCount).map toInt32, hist.bucketCount % 2 ^ 32⟩ }

/-- Deserialization rebuilds the starts and asserts that the counts fit and are not negative. -/
def fillIn (serialized : JSHistogram) : Option LogHistogram := do
  let starts ← setBucketStarts serialized.numBuckets
  if serialized.bucketVals.length ≤ starts.length ∧ ∀ count ∈ serialized.bucketVals, 0 ≤ count then
    let counts := serialized.bucketVals.map toUInt32
    some ⟨counts ++ List.replicate (starts.length - counts.length) 0, starts, counts.sum % 2 ^ 64⟩
  else none

/-- The constructor reads the default message when the summary has no histogram. -/
def ofSummary (s : JSSummary) : Option LogHistogram := fillIn (s.histo.getD ⟨[], 0⟩)

/-- A well-formed histogram has the starts of its size, one count for each and their sum as total. -/
structure WellFormed (hist : LogHistogram) : Prop where
  starts : setBucketStarts hist.bucketStarts.length = some hist.bucketStarts
  counts : hist.buckets.length = hist.bucketStarts.length
  total : hist.totalVals = hist.buckets.sum

theorem ofItems_wellFormed {n : ℕ} {table : BucketTable} (built : setBucketStarts n = some table.starts)
    (size : table.size = n) (items : List (ℕ × ℕ)) : (ofItems table items).WellFormed where
  starts := by
    change setBucketStarts table.size = some table.starts
    rw [size, built]
  counts := by simp [ofItems, BucketTable.size]
  total := (ofItems_sum table items).symm

/-- A list of small counts survives both conversions. -/
theorem map_toUInt32_toInt32 {counts : List ℕ} (small : ∀ count ∈ counts, count < 2 ^ 31) :
    (counts.map toInt32).map toUInt32 = counts := by
  rw [List.map_map]
  conv_rhs => rw [← List.map_id counts]
  apply List.map_congr_left
  intro count member
  have bound := small count member
  rw [Function.comp_apply, toInt32_eq bound, toUInt32_natCast (by omega)]
  rfl

/-- Deserializing a serialized histogram restores every field for every prior content of the target. -/
theorem ofSummary_serializeTo (hist : LogHistogram) (formed : hist.WellFormed)
    (small : ∀ count ∈ hist.buckets, count < 2 ^ 31) (total : hist.totalVals < 2 ^ 64) (q : JSSummary) :
    ofSummary (hist.serializeTo q) = some hist := by
  obtain ⟨-, -, -, -, bounded⟩ := exists_startTable formed.starts
  have every : hist.buckets.take hist.bucketCount = hist.buckets := by
    rw [bucketCount, ← formed.counts, List.take_length]
  have size : hist.bucketCount % 2 ^ 32 = hist.bucketStarts.length :=
    Nat.mod_eq_of_lt (by unfold bucketCount; omega)
  have signs : ∀ count ∈ hist.buckets.map toInt32, 0 ≤ count := by
    intro count member
    obtain ⟨natural, inside, rfl⟩ := List.mem_map.mp member
    rw [toInt32_eq (small natural inside)]
    exact Int.natCast_nonneg natural
  simp only [ofSummary, serializeTo, Option.getD_some, fillIn, every, size, formed.starts,
    Option.bind_eq_bind, Option.bind_some, List.length_map, formed.counts, le_refl, true_and,
    map_toUInt32_toInt32 small, Nat.sub_self, List.replicate_zero, List.append_nil]
  rw [if_pos signs, ← formed.total, Nat.mod_eq_of_lt total]

end LogHistogram

end JetStream
