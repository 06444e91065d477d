import JetStream.Aggregates.Quantile
import JetStream.Aggregates.ReservoirMerge

namespace JetStream

/-- The flag says that the items have been sorted since it was last cleared. -/
structure SampleEstimation where
  sampleOfData : List ℤ
  isSorted : Bool
  deriving DecidableEq

/-- A sample is asked for the quantiles from zero up to one. -/
def QuantileAsked (q : Float64) : Prop := q < .ofInt 1 ∧ .ofInt 0 ≤ q

instance (q : Float64) : Decidable (QuantileAsked q) := inferInstanceAs (Decidable (_ ∧ _))

/-- A fraction may be asked for. -/
theorem IsFraction.asked {q : Float64} (fraction : IsFraction q) : QuantileAsked q := by
  obtain ⟨units, rfl, -⟩ := fraction.exists_eq
  obtain ⟨-, -, -, -, -, less⟩ := fraction
  refine ⟨less, ?_⟩
  rw [Float64.ofInt_zero]
  exact decide_eq_true (Int.ofNat_le.mpr (Nat.zero_le units))

namespace SampleEstimation

def new : SampleEstimation := ⟨[], false⟩

/-- The data replace the items. -/
def addData (_ : SampleEstimation) (data : List ℤ) : SampleEstimation := ⟨data, false⟩

def addItem (sample : SampleEstimation) (v : ℤ) (c : UInt32) : SampleEstimation :=
  ⟨sample.sampleOfData ++ List.replicate c.toNat v, false⟩

/-- The items are sorted unless the flag says that they are. -/
def sort (sample : SampleEstimation) : SampleEstimation :=
  if sample.isSorted then sample else ⟨sample.sampleOfData.insertionSort (· ≤ ·), true⟩

/-- A quantile outside the asked range fails an assertion. -/
def quantile (sample : SampleEstimation) (q : Float64) : Option (ℤ × SampleEstimation) :=
  if QuantileAsked q then
    sample.sort.sampleOfData[quantileIndex sample.sort.sampleOfData.length q]?.map fun v => (v, sample.sort)
  else none

end SampleEstimation

namespace ReservoirSample

/-- This is the part of a reservoir that it shares with every sample. -/
def toSampleEstimation (sample : ReservoirSample) : SampleEstimation := ⟨sample.sampleOfData, sample.isSorted⟩

/-- Sorting changes the order of the items and the flag. -/
def sort (sample : ReservoirSample) : ReservoirSample :=
  { sample with
    sampleOfData := sample.toSampleEstimation.sort.sampleOfData
    isSorted := sample.toSampleEstimation.sort.isSorted
    room := by
      have room := sample.room
      unfold SampleEstimation.sort toSampleEstimation
      split
      · exact room
      · rw [List.length_insertionSort]
        exact room }

end ReservoirSample

/-- An object is a plain sample or a reservoir, which inherits the quantile. -/
inductive SampleObject where
  | estimation (sample : SampleEstimation)
  | reservoir (sample : ReservoirSample)

/-- Calls on a reservoir come with the outcomes of their draws. -/
inductive SampleCall where
  | addItem (v : ℤ) (c : UInt32) (gen : ℕ → ℕ → ℕ)
  | addData (data : List ℤ) (gen : ℕ → ℕ → ℕ)
  | mergeIn (rhs : ReservoirSample) (draws : MergeDraws)
  | mergeSelf (draws : MergeDraws)
  | quantile (q : Float64)

namespace SampleObject

/-- This is what the object inherits from the plain sample. -/
def base : SampleObject → SampleEstimation
  | estimation sample => sample
  | reservoir sample => sample.toSampleEstimation

def quantile (object : SampleObject) (q : Float64) : Option ℤ := (object.base.quantile q).map Prod.fst

/-- A plain sample has no merge, and a failed assertion ends the run. -/
def step : SampleObject → SampleCall → Option SampleObject
  | estimation sample, .addItem v c _ => some (.estimation (sample.addItem v c))
  | estimation sample, .addData data _ => some (.estimation (sample.addData data))
  | estimation _, .mergeIn _ _ => none
  | estimation _, .mergeSelf _ => none
  | estimation sample, .quantile q => (sample.quantile q).map fun result => .estimation result.2
  | reservoir sample, .addItem v c gen => some (.reservoir (sample.addItem gen v c))
  | reservoir sample, .addData data gen => some (.reservoir (sample.addData gen data))
  | reservoir sample, .mergeIn rhs draws => some (.reservoir (sample.mergeIn draws rhs).1)
  | reservoir sample, .mergeSelf draws => some (.reservoir (sample.mergeSelf draws).1)
  | reservoir sample, .quantile q => (sample.toSampleEstimation.quantile q).map fun _ => .reservoir sample.sort

def system (start : SampleObject) : EventSystem SampleObject SampleCall := ⟨start, step⟩

/-- An object is constructed empty or read from a message. -/
inductive Constructed : SampleObject → Prop
  | estimation : Constructed (.estimation .new)
  | reservoir (capacity : ReservoirPool.Capacity) : Constructed (.reservoir (.blank capacity.1 0))
  | fillIn (gen : ℕ → ℕ → ℕ) (totalSeen : ℕ) (s : JSSample) : Constructed (.reservoir (.fillIn gen totalSeen s))

/-- Every quantile that is asked of an object with items is one of its current items in their order. -/
def Current (object : SampleObject) : Prop :=
  object.base.sampleOfData ≠ [] → ∀ q, QuantileAsked q →
    object.quantile q = sortedQuantile object.base.sampleOfData q

/-- The call leaves the items as they are. -/
def AddsNoItem : SampleCall → Prop
  | .addItem _ c _ => c = 0
  | .addData data _ => data = []
  | .mergeIn rhs _ => rhs.sampleOfData = [] ∧ 0 < rhs.maxSize
  | .mergeSelf _ => False
  | .quantile _ => True

instance : DecidablePred AddsNoItem
  | .addItem _ c _ => inferInstanceAs (Decidable (c = 0))
  | .addData data _ => inferInstanceAs (Decidable (data = []))
  | .mergeIn rhs _ => inferInstanceAs (Decidable (rhs.sampleOfData = [] ∧ 0 < rhs.maxSize))
  | .mergeSelf _ => inferInstanceAs (Decidable False)
  | .quantile _ => inferInstanceAs (Decidable True)

/-- A reservoir takes no items after a quantile has sorted it. -/
def SortedLast : SampleObject → SampleCall → Prop
  | estimation _, _ => True
  | reservoir sample, call => sample.isSorted = false ∨ AddsNoItem call

instance (object : SampleObject) (call : SampleCall) : Decidable (SortedLast object call) :=
  match object with
  | estimation _ => inferInstanceAs (Decidable True)
  | reservoir sample => inferInstanceAs (Decidable (sample.isSorted = false ∨ AddsNoItem call))

/-- The flag is set only when the items are in order. -/
def Honest (object : SampleObject) : Prop :=
  object.base.isSorted = true → object.base.sampleOfData.Pairwise (· ≤ ·)

end SampleObject

namespace SampleEstimation

variable {sample : SampleEstimation}

/-- Sorting gives the items in their order when the flag is honest. -/
theorem sort_eq (honest : sample.isSorted = true → sample.sampleOfData.Pairwise (· ≤ ·)) :
    sample.sort = ⟨sample.sampleOfData.insertionSort (· ≤ ·), true⟩ := by
  unfold sort
  split
  · rename_i flag
    rw [(honest flag).insertionSort_eq, ← flag]
  · rfl

theorem sort_pairwise (honest : sample.isSorted = true → sample.sampleOfData.Pairwise (· ≤ ·)) :
    sample.sort.sampleOfData.Pairwise (· ≤ ·) := by
  rw [sort_eq honest]
  exact List.pairwise_insertionSort _ _

end SampleEstimation

namespace ReservoirSample

@[simp] theorem addAll_isSorted (gen : ℕ → ℕ → ℕ) (k : ℕ) (items : List ℤ) (sample : ReservoirSample) :
    (addAll gen k items sample).isSorted = sample.isSorted :=
  (addAll_spec gen k items sample).2.1

theorem fillLoop_isSorted (draws : MergeDraws) (rhs : ReservoirSample) (fuel k : ℕ) (sample : ReservoirSample)
    (rhsSeen : ℕ) : (fillLoop draws rhs fuel k sample rhsSeen).1.isSorted = sample.isSorted := by
  induction fuel generalizing k sample rhsSeen with
  | zero => rfl
  | succ fuel ih =>
      rw [fillLoop]
      split
      · rw [ih, addOne_isSorted]
      · rfl

theorem addSelf_isSorted (gen : ℕ → ℕ → ℕ) (fuel i : ℕ) (sample : ReservoirSample) :
    (addSelf gen fuel i sample).isSorted = sample.isSorted := by
  induction fuel generalizing i sample with
  | zero => rfl
  | succ fuel ih =>
      rw [addSelf]
      split
      · rw [ih, addOne_isSorted]
      · rfl

/-- No merge changes the flag. -/
theorem mergeIn_isSorted (draws : MergeDraws) (sample rhs : ReservoirSample) :
    (sample.mergeIn draws rhs).1.isSorted = sample.isSorted := by
  unfold mergeIn
  split
  · exact addAll_isSorted _ _ _ _
  · exact fillLoop_isSorted _ _ _ _ _ _

theorem mergeSelf_isSorted (draws : MergeDraws) (sample : ReservoirSample) :
    (sample.mergeSelf draws).1.isSorted = sample.isSorted := by
  unfold mergeSelf
  split
  · exact addSelf_isSorted _ _ _ _
  · exact fillLoop_isSorted _ _ _ _ _ _

end ReservoirSample

namespace SampleObject

open ReservoirSample

variable {object next : SampleObject} {call : SampleCall}

/-- An honest flag makes every quantile current. -/
theorem Honest.current (honest : object.Honest) : object.Current := by
  intro _ q asked
  rw [quantile, SampleEstimation.quantile, if_pos asked, SampleEstimation.sort_eq honest, sortedQuantile]
  dsimp only
  rw [List.length_insertionSort, Option.map_map]
  exact Option.map_id'

theorem Constructed.honest (constructed : Constructed object) : object.Honest := by
  intro flag
  cases constructed with
  | estimation => cases flag
  | reservoir capacity => cases flag
  | fillIn gen totalSeen s =>
      change (ReservoirSample.fillIn gen totalSeen s).isSorted = true at flag
      rw [(fillIn_spec gen totalSeen s).1] at flag
      cases flag

/-- A call without items that is not a quantile changes nothing. -/
theorem step_of_addsNoItem {sample : ReservoirSample} (nothing : AddsNoItem call)
    (stepped : (SampleObject.reservoir sample).step call = some next) :
    next = .reservoir sample ∨ next = .reservoir sample.sort := by
  cases call with
  | addItem v c gen =>
      obtain rfl : c = 0 := nothing
      exact Or.inl (Option.some.inj stepped).symm
  | addData data gen =>
      obtain rfl : data = [] := nothing
      exact Or.inl (Option.some.inj stepped).symm
  | mergeIn rhs draws =>
      obtain ⟨empty, positive⟩ := nothing
      have unchanged : sample.mergeIn draws rhs = (sample, none) := by
        rw [ReservoirSample.mergeIn, elements, empty, if_pos (show ([] : List ℤ).length < rhs.maxSize from positive)]
        rfl
      have merged := Option.some.inj stepped
      rw [unchanged] at merged
      exact Or.inl merged.symm
  | mergeSelf draws => exact nothing.elim
  | quantile q =>
      obtain ⟨result, -, rfl⟩ := Option.map_eq_some_iff.mp stepped
      exact Or.inr rfl

/-- No call but a quantile sets the flag of a reservoir. -/
theorem step_of_unsorted {sample : ReservoirSample} (unsorted : sample.isSorted = false)
    (stepped : (SampleObject.reservoir sample).step call = some next) :
    next.base.isSorted = false ∨ next = .reservoir sample.sort := by
  cases call with
  | addItem v c gen =>
      obtain rfl := Option.some.inj stepped
      exact Or.inl ((addAll_isSorted _ _ _ _).trans unsorted)
  | addData data gen =>
      obtain rfl := Option.some.inj stepped
      exact Or.inl ((addAll_isSorted _ _ _ _).trans unsorted)
  | mergeIn rhs draws =>
      obtain rfl := Option.some.inj stepped
      exact Or.inl ((mergeIn_isSorted draws sample rhs).trans unsorted)
  | mergeSelf draws =>
      obtain rfl := Option.some.inj stepped
      exact Or.inl ((mergeSelf_isSorted draws sample).trans unsorted)
  | quantile q =>
      obtain ⟨result, -, rfl⟩ := Option.map_eq_some_iff.mp stepped
      exact Or.inr rfl

/-- The plain sample clears the flag with every change and sorts before it sets it. -/
theorem Honest.step_estimation {sample : SampleEstimation} (honest : (SampleObject.estimation sample).Honest)
    (stepped : (SampleObject.estimation sample).step call = some next) : next.Honest := by
  cases call with
  | addItem v c gen =>
      obtain rfl := Option.some.inj stepped
      exact fun flag => absurd flag Bool.false_ne_true
  | addData data gen =>
      obtain rfl := Option.some.inj stepped
      exact fun flag => absurd flag Bool.false_ne_true
  | mergeIn rhs draws => cases stepped
  | mergeSelf draws => cases stepped
  | quantile q =>
      obtain ⟨result, asked, rfl⟩ := Option.map_eq_some_iff.mp stepped
      obtain ⟨-, read⟩ := Option.ite_none_right_eq_some.mp asked
      obtain ⟨v, -, rfl⟩ := Option.map_eq_some_iff.mp read
      exact fun _ => SampleEstimation.sort_pairwise honest

/-- A step keeps the flag honest when a reservoir takes no items after a quantile has sorted it. -/
theorem Honest.step (honest : object.Honest) (kept : SortedLast object call) (stepped : object.step call = some next) :
    next.Honest := by
  cases object with
  | estimation sample => exact honest.step_estimation stepped
  | reservoir sample =>
      have sorted : (SampleObject.reservoir sample.sort).Honest := fun _ => SampleEstimation.sort_pairwise honest
      rcases kept with unsorted | nothing
      · rcases step_of_unsorted unsorted stepped with still | rfl
        · exact fun flag => absurd flag (by rw [still]; exact Bool.false_ne_true)
        · exact sorted
      · rcases step_of_addsNoItem nothing stepped with rfl | rfl
        · exact honest
        · exact sorted

/-- Every quantile of every run is current while no reservoir takes items after a quantile has sorted it. -/
theorem quantile_current {start : SampleObject} (constructed : Constructed start) (calls : List SampleCall)
    (kept : (system start).EveryStep SortedLast start calls) : (system start).EveryState Current start calls :=
  EventSystem.EveryStep.everyState Honest (fun _ _ _ honest kept stepped => honest.step kept stepped)
    (fun _ honest => honest.current) constructed.honest kept

/-- A reservoir that is asked only after its last item has a current median. -/
theorem quantile_current_after_items :
    let start : SampleObject := .reservoir (.blank 3 0)
    let calls : List SampleCall := [.addItem 5 1 fun _ _ => 0, .addItem 3 1 fun _ _ => 0, .quantile (.ofRatio 1 2)]
    (system start).EveryStep SortedLast start calls ∧ (system start).EveryState Current start calls := by
  intro start calls
  have kept : (system start).EveryStep SortedLast start calls := by decide +kernel
  exact ⟨kept, quantile_current (.reservoir ⟨3, by decide⟩) calls kept⟩

/-- The reservoir does not clear the flag, and the second quantile reads the items as they were pushed. -/
theorem quantile_stale :
    let start : SampleObject := .reservoir (.blank 3 0)
    let calls : List SampleCall := [.addItem 5 1 fun _ _ => 0, .quantile (.ofInt 0), .addItem 3 1 fun _ _ => 0]
    let stale : SampleObject := .reservoir ⟨[5, 3], true, 3, 2, by decide⟩
    (system start).runFrom start calls = some stale ∧ stale.quantile (.ofInt 0) = some 5 ∧
      sortedQuantile [5, 3] (.ofInt 0) = some 3 ∧ ¬ (system start).EveryState Current start calls := by
  intro start calls stale
  have first : (SampleEstimation.mk [5] false).quantile (.ofInt 0) = some (5, ⟨[5], true⟩) := by decide +kernel
  have asked : QuantileAsked (.ofInt 0) := by decide +kernel
  have read : stale.quantile (.ofInt 0) = some 5 := by decide +kernel
  have least : sortedQuantile [5, 3] (.ofInt 0) = some 3 := by decide +kernel
  have sorted : (system start).step (.reservoir ⟨[5], false, 3, 1, by decide⟩) (.quantile (.ofInt 0)) =
      some (.reservoir ⟨[5], true, 3, 1, by decide⟩) := by
    change Option.map _ ((SampleEstimation.mk [5] false).quantile (.ofInt 0)) = _
    rw [first]
    rfl
  have ran : (system start).runFrom start calls = some stale := by
    rw [EventSystem.runFrom_cons]
    exact Option.bind_eq_some_iff.mpr ⟨_, rfl, Option.bind_eq_some_iff.mpr ⟨_, sorted, rfl⟩⟩
  refine ⟨ran, read, least, ?_⟩
  intro every
  have current : stale.Current := (((every.2 _ rfl).2 _ sorted).2 _ rfl)
  have same := current (List.cons_ne_nil 5 [3]) (.ofInt 0) asked
  rw [read] at same
  exact absurd (same.trans least) (by decide)

end SampleObject

end JetStream
