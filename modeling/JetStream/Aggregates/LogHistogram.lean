import JetStream.Aggregates.BucketStarts

namespace JetStream

/-- The histogram keeps one 32-bit count for each bucket start and a 64-bit total. -/
structure LogHistogram where
  buckets : List ℕ
  bucketStarts : List ℕ
  totalVals : ℕ
  deriving DecidableEq, Repr

namespace LogHistogram

/-- A new histogram has an empty bucket for each start. -/
def new (bucketTarget : ℕ) : Option LogHistogram :=
  (setBucketStarts bucketTarget).map fun starts => ⟨List.replicate starts.length 0, starts, 0⟩

def bucketCount (hist : LogHistogram) : ℕ := hist.bucketStarts.length

def popSeen (hist : LogHistogram) : ℕ := hist.totalVals

def bucketMin (hist : LogHistogram) (bucket : ℕ) : Option ℤ :=
  hist.bucketStarts[bucket]?.map fun (start : ℕ) => (start : ℤ)

/-- The last bucket ends at the largest `int`. -/
def bucketMax (hist : LogHistogram) (bucket : ℕ) : Option ℤ :=
  if bucket < hist.buckets.length then
    if bucket = hist.buckets.length - 1 then some intMax
    else hist.bucketStarts[bucket + 1]?.map fun (start : ℕ) => (start : ℤ) - 1
  else none

/-- The bisection computes its bounds in 64-bit unsigned arithmetic and reads only valid buckets. -/
def bucketWithLoop (hist : LogHistogram) (v : ℤ) : ℕ → ℕ → ℕ → ℕ → Option ℕ
  | 0, _, _, _ => none
  | fuel + 1, low, high, bucket =>
      if low ≤ high then do
        let middle := (high + low) % 2 ^ 64 / 2
        let least ← hist.bucketMin middle
        if v < least then hist.bucketWithLoop v fuel low ((middle + (2 ^ 64 - 1)) % 2 ^ 64) middle
        else do
          let greatest ← hist.bucketMax middle
          if greatest < v then hist.bucketWithLoop v fuel (middle + 1) high middle
          else some middle
      else some bucket

/-- The search starts from the whole bucket range. -/
def bucketWith (hist : LogHistogram) (v : ℤ) : Option ℕ :=
  hist.bucketWithLoop v (hist.buckets.length + 1) 0 ((hist.buckets.length + (2 ^ 64 - 1)) % 2 ^ 64) 0

/-- An added item changes one bucket and the total. -/
def addItem (hist : LogHistogram) (v : ℤ) (c : ℕ) : Option LogHistogram :=
  if c < 2 ^ 30 then do
    let bucket ← hist.bucketWith v
    if bucket < hist.buckets.length then
      some { hist with
        buckets := hist.buckets.modify bucket (addCount · c)
        totalVals := (hist.totalVals + c) % 2 ^ 64 }
    else none
  else none

/-- The data are added one at a time with count one. -/
def addData (hist : LogHistogram) (data : List ℤ) : Option LogHistogram :=
  data.foldlM (fun current v => current.addItem v 1) hist

/-- The accumulation of the buckets in an `int` keeps 32 bits. -/
def accumulate (buckets : List ℕ) : ℕ := buckets.sum % 2 ^ 32

/-- A negative `int` becomes a large `size_t`. -/
def intToSizeT (value : ℕ) : ℕ := if value < 2 ^ 31 then value else value + (2 ^ 64 - 2 ^ 32)

/-- This loop pours each source bucket but the last into the current destination bucket. -/
def mergeLoop (into rhs : LogHistogram) : ℕ → ℕ → ℕ → List ℕ → Option (List ℕ)
  | 0, _, _, buckets => some buckets
  | remaining + 1, source, dest, buckets => do
      let count ← rhs.buckets[source]?
      if count < 2 ^ 30 ∧ dest < buckets.length then
        let poured := buckets.modify dest (addCount · count)
        if dest < into.bucketCount - 1 then do
          let next ← rhs.bucketStarts[source + 1]?
          let bound ← into.bucketStarts[dest + 1]?
          mergeLoop into rhs remaining (source + 1) (if bound ≤ next then dest + 1 else dest) poured
        else mergeLoop into rhs remaining (source + 1) dest poured
      else none

/-- Histograms of one size add bucketwise and a finer histogram is poured into a coarser one. -/
def mergeBuckets (into rhs : LogHistogram) : Option (List ℕ) :=
  if rhs.bucketCount = into.bucketCount then
    some (List.zipWith addCount into.buckets rhs.buckets)
  else do
    let poured ← mergeLoop into rhs (rhs.bucketCount - 1) 0 0 into.buckets
    let last ← rhs.buckets[rhs.bucketCount - 1]?
    some (poured.modify (into.bucketCount - 1) (addCount · last))

/-- The merge returns only when every assertion holds. -/
def mergeIn (into rhs : LogHistogram) : Option LogHistogram :=
  if rhs.popSeen = accumulate rhs.buckets ∧ into.popSeen = accumulate into.buckets ∧
      into.bucketCount ≤ rhs.bucketCount then do
    let buckets ← mergeBuckets into rhs
    let total := (into.totalVals + rhs.totalVals) % 2 ^ 64
    if intToSizeT (accumulate buckets) = total then
      some { into with buckets := buckets, totalVals := total }
    else none
  else none

end LogHistogram

end JetStream
