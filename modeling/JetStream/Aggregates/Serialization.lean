import Mathlib.Algebra.Group.Action.Defs
import Mathlib.Data.Nat.Log
import JetStream.Aggregates.CMMultiSketch
import JetStream.Aggregates.Reservoir

namespace JetStream

namespace CMMultiSketch

def firstPane (sketch : CMMultiSketch) : CMSketch := sketch.panes ⟨0, levels_pos⟩

/-- This message has no content. -/
def emptyMessage : JSCMSketch := ⟨0, 0, 0, [], [], 0⟩

/-- Serialization sets the parameters of the target's message and appends the counters of every level. -/
def serializeTo (sketch : CMMultiSketch) (q : JSSummary) : JSSummary :=
  { q with
    sketch := some {
      d := sketch.firstPane.depth % 2 ^ 32
      w := Nat.log 2 sketch.firstPane.width
      randSeed := toUInt32 sketch.randSeed
      exactLevels := (q.sketch.getD emptyMessage).exactLevels ++ List.ofFn fun i => List.ofFn (sketch.exactCounts i)
      panes := (q.sketch.getD emptyMessage).panes ++ List.ofFn fun i =>
        (sketch.panes i).matrix.take ((sketch.panes i).depth * (sketch.panes i).width)
      totalItems := sketch.firstPane.totalCount } }

/-- Deserialization reads the first levels of the message and never sets the seed of the sketch. -/
def fillIn (draws : ℤ → ℕ → ℤ) (randSeed : ℤ) (serialized : JSCMSketch) : Option CMMultiSketch :=
  if ∀ i : Fin exactLevels, (serialized.exactLevels.getD i []).length = exactLSize i then do
    let pane ← CMSketch.init draws serialized.w serialized.d (toInt32 serialized.randSeed)
    if shape : ∀ i : Fin levels, i < serialized.panes.length ∧
        pane.matrix.length ≤ (serialized.panes.getD i []).length then
      some {
        panes := fun i => { pane with
          totalCount := serialized.totalItems
          matrix := (serialized.panes.getD i []).take pane.matrix.length
          cells := by rw [List.length_take, Nat.min_eq_left (shape i).2]; exact pane.cells }
        exactCounts := fun i c => (serialized.exactLevels.getD i []).getD c 0
        randSeed := randSeed }
    else none
  else none

/-- The constructor reads the default message when the summary has no sketch. -/
def ofSummary (draws : ℤ → ℕ → ℤ) (randSeed : ℤ) (s : JSSummary) : Option CMMultiSketch :=
  fillIn draws randSeed (s.sketch.getD emptyMessage)

/-- The summary returns the sketch for every uninitialized seed. -/
def RoundTrips (draws : ℤ → ℕ → ℤ) (sketch : CMMultiSketch) (q : JSSummary) : Prop :=
  ∀ randSeed, ofSummary draws randSeed (sketch.serializeTo q) = some sketch

/-- A deserialized sketch keeps whatever seed its memory held. -/
theorem fillIn_randSeed {draws : ℤ → ℕ → ℤ} {randSeed : ℤ} {serialized : JSCMSketch} {sketch : CMMultiSketch}
    (filled : fillIn draws randSeed serialized = some sketch) : sketch.randSeed = randSeed := by
  rw [fillIn, Option.ite_none_right_eq_some] at filled
  obtain ⟨pane, -, read⟩ := Option.bind_eq_some_iff.mp filled.2
  split at read
  · rw [← Option.some.inj read]
  · cases read

theorem not_roundTrips (sketch : CMMultiSketch) (draws : ℤ → ℕ → ℤ) (q : JSSummary) :
    ¬ sketch.RoundTrips draws q := by
  intro returns
  have seed := fillIn_randSeed (returns (sketch.randSeed + 1))
  omega

end CMMultiSketch

/-- The sum of 32-bit counts of a supported histogram fits the 64-bit total. -/
theorem LogHistogram.WellFormed.total_lt {hist : LogHistogram} (formed : hist.WellFormed)
    (small : ∀ count ∈ hist.buckets, count < 2 ^ 31) : hist.totalVals < 2 ^ 64 := by
  obtain ⟨-, -, -, -, bounded⟩ := exists_startTable formed.starts
  have sum := List.sum_le_card_nsmul hist.buckets (2 ^ 31) fun count member => (small count member).le
  rw [formed.counts, smul_eq_mul] at sum
  rw [formed.total]
  omega

/-- One message carries any of the three summaries. -/
inductive Summary where
  | histogram (hist : LogHistogram)
  | reservoir (sample : ReservoirSample)
  | sketch (panes : CMMultiSketch)

namespace Summary

/-- The counts fit the fields of the message. -/
def CountsFit (q : JSSummary) : Summary → Prop
  | histogram hist => hist.WellFormed ∧ ∀ count ∈ hist.buckets, count < 2 ^ 31
  | reservoir sample => sample.totalSeen < 2 ^ 31 ∧ sample.maxSize < 2 ^ 32 ∧
      (ReservoirSample.priorItems q ++ sample.sampleOfData).length < 2 ^ 31
  | sketch _ => True

/-- The summary is constructed again from any target that it was serialized to. -/
def RoundTrips (draws : ℤ → ℕ → ℤ) (q : JSSummary) : Summary → Prop
  | histogram hist => LogHistogram.ofSummary (hist.serializeTo q) = some hist
  | reservoir sample => sample.RoundTrips q
  | sketch panes => panes.RoundTrips draws q

/-- Serialization clears the buckets of the target, appends to its sample, and loses the seed of a sketch. -/
def Returns (q : JSSummary) : Summary → Prop
  | histogram _ => True
  | reservoir sample => sample.isSorted = false ∧
      (ReservoirSample.priorItems q = [] ∨ (sample.sampleOfData.length = sample.maxSize ∧
        ∀ a ∈ ReservoirSample.priorItems q ++ sample.sampleOfData, ∀ b ∈ sample.sampleOfData, a = b))
  | sketch _ => False

end Summary

/-- A histogram always returns from a summary, a reservoir sample returns exactly when it is unsorted and the target
holds no sample or only items equal to all of a full sample, and a sketch never returns. -/
theorem summary_roundTrip_iff (draws : ℤ → ℕ → ℤ) (q : JSSummary) (x : Summary) (fit : x.CountsFit q) :
    x.RoundTrips draws q ↔ x.Returns q := by
  cases x with
  | histogram hist =>
      obtain ⟨formed, small⟩ := fit
      exact iff_of_true (hist.ofSummary_serializeTo formed small (formed.total_lt small) q) trivial
  | reservoir sample =>
      obtain ⟨seen, capacity, int32⟩ := fit
      exact sample.roundTrips_iff q seen capacity int32
  | sketch panes =>
      exact iff_of_false (panes.not_roundTrips draws q) not_false

/-- The laws apply to a histogram of two buckets and to a reservoir serialized into a summary with items. -/
theorem summary_roundTrip_small :
    (Summary.histogram ⟨[3, 4], [0, 1], 7⟩).RoundTrips (fun _ _ => 0) { items := [2] } ∧
    (Summary.reservoir ⟨[1], false, 3, 1, by decide⟩).RoundTrips (fun _ _ => 0) { items := [2] } := by
  constructor
  · exact (summary_roundTrip_iff _ _ (.histogram _) ⟨⟨by decide, by decide, by decide⟩, by decide⟩).mpr trivial
  · exact (summary_roundTrip_iff _ _ (.reservoir _) ⟨by decide, by decide, by decide⟩).mpr ⟨rfl, Or.inl rfl⟩

/-- A sample that the target already holds comes back together with the new one. -/
theorem reservoir_roundTrip_appends :
    (Summary.reservoir ⟨[1], false, 3, 1, by decide⟩).CountsFit { sample := some ⟨[2], 1, 3⟩ } ∧
    ∀ draws, ¬ (Summary.reservoir ⟨[1], false, 3, 1, by decide⟩).RoundTrips draws { sample := some ⟨[2], 1, 3⟩ } := by
  constructor
  · exact ⟨by decide, by decide, by decide⟩
  · intro draws returns
    have same := returns (fun _ _ => 0) 0 (fun _ _ => Nat.zero_le _) (by decide)
    revert same
    decide

end JetStream
