import JetStream.Aggregates.MergeSafety
import JetStream.Dataplane.CongestPolicy
import JetStream.Dataplane.TypedOperators
import JetStream.Lib.Attempt

namespace JetStream

namespace LogHistogram

/-- A histogram in memory has the starts of its size and one 32-bit count for each. -/
structure InMemory (hist : LogHistogram) : Prop where
  starts : setBucketStarts hist.bucketStarts.length = some hist.bucketStarts
  counts : hist.buckets.length = hist.bucketStarts.length
  words : ∀ count ∈ hist.buckets, count < 2 ^ 32

/-- The sum of the counts replaces the total. -/
def recount (hist : LogHistogram) : LogHistogram := { hist with totalVals := hist.buckets.sum }

end LogHistogram

namespace CongestionPolicy

variable {array : LevelArray} {curLevel : ℕ} (within : curLevel < array.levelsLen) (word : array.levelsLen < 2 ^ 32)

include within word in
/-- An upgrade leads to a level of the array even when the sum of the levels wraps. -/
theorem shouldUpgrade_lt (capacity : Float64) : shouldUpgrade array capacity curLevel < array.levelsLen := by
  have bounds := maxSupportedStep_bounds array capacity curLevel (array.levelsLen - curLevel) curLevel
  have top : unsignedPred array.levelsLen = array.levelsLen - 1 := if_neg (by omega)
  rw [shouldUpgrade, top]
  split
  · exact within
  · split <;> omega

/-- A step to a target leads to the low bits of the target. -/
theorem addInt_bmod (target : ℤ) : addInt curLevel ((target - curLevel).bmod (2 ^ 32)) = toUInt32 target := by
  unfold addInt toUInt32 Int.bmod
  dsimp only
  split <;> omega

theorem toUInt32_toInt32 {value : ℕ} (fits : value < 2 ^ 32) : toUInt32 (toInt32 value) = value := by
  unfold toUInt32 toInt32 Int.bmod
  dsimp only
  split <;> omega

include within word in
theorem toUInt32_targetStep_lt (congestLevel : Float64) :
    toUInt32 (targetStep array congestLevel curLevel) < array.levelsLen := by
  have lower := degrade_le array congestLevel curLevel curLevel
  have upper := shouldUpgrade_lt within word congestLevel
  have same := toUInt32_toInt32 (within.trans word)
  unfold targetStep
  split
  · split
    · rwa [same]
    · rw [toUInt32_natCast (by omega)]
      exact lower.trans_lt within
  · split
    · rwa [toUInt32_toInt32 (by omega)]
    · rwa [same]

variable {Op : Type} [DecidableEq Op]

include within word in
/-- An operator that adds the answer of the policy to its level stays in its array. -/
theorem addInt_getStep_lt (statuses : List (OperatorState Op)) (op : Op) (reading : Option MonitorReading) :
    addInt curLevel (getStep statuses op array curLevel reading).delta < array.levelsLen := by
  have stays : addInt curLevel 0 = curLevel := PolicyRun.addInt_zero (within.trans word)
  rcases getStep_cases statuses op array curLevel reading with held | ⟨reading, -, before, own, after, -, -, -, -, -, -, noted | moved⟩
  · rwa [held, stays]
  · rwa [noted, stays]
  · rw [moved, recordStep_fst, addInt_bmod]
    exact toUInt32_targetStep_lt within word reading.congestLevel

end CongestionPolicy

/-- The configuration is read from these texts, and a missing one is empty. -/
structure DegradeConfig where
  field : String := ""
  stepCount : String := ""
  minRatio : String := ""

/-- The operator has one ratio for each step. -/
structure DegradeSummary where
  field : ℕ
  curStep : ℕ
  steps : List Float64
  deriving DecidableEq

/-- An incoming tuple comes with the records of the policy, a reading of its monitor and the memory around the levels. -/
structure DegradeCall (Op : Type) where
  statuses : List (OperatorState Op)
  id : Op
  reading : Option MonitorReading
  outside : ℤ → Float64
  t : List WireElement

namespace DegradeSummary

/-- The ratios are summed up from the least one, and the last one is always one. -/
def ladder (step : Float64) : ℕ → Float64 → List Float64
  | 0, _ => [.ofInt 1]
  | n + 1, ratio => ratio :: ladder step n (ratio + step)

/-- A text that is missing has a default, and a text that is not a number refuses the configuration. -/
def readParam {A : Type} (name text : String) (default : A) (read : List Char → Option A) : Except String A :=
  if text.length = 0 then .ok default
  else match read text.toList with
    | some value => .ok value
    | none => .error ("'" ++ name ++ "' param should be a number, but '" ++ text ++ "' is not.")

/-- The operator starts at the last step, and a step count of zero wraps. -/
def configure (config : DegradeConfig) : Except String DegradeSummary :=
  match readUnsignedText config.field.toList with
  | none => .error ("must specify a field; got " ++ config.field)
  | some field => do
      let stepCount ← readParam "step_count" config.stepCount 10 readUnsignedText
      let minRatio ← readParam "min_ratio" config.minRatio (.ofRatio 1 10) readDouble
      let step := (.ofInt 1 - minRatio) / .ofInt (unsignedPred stepCount)
      .ok ⟨field, unsignedPred stepCount, ladder step (unsignedPred stepCount) minRatio⟩

/-- The operator passes its ratios by a pointer, and their number keeps 32 bits. -/
def levelArray (op : DegradeSummary) (outside : ℤ → Float64) : LevelArray where
  levels index := if 0 ≤ index then op.steps.getD index.toNat (outside index) else outside index
  levelsLen := op.steps.length % 2 ^ 32

variable {Op : Type} [DecidableEq Op]

/-- The answer of the policy is added to the step. -/
def nextStep (op : DegradeSummary) (call : DegradeCall Op) : ℕ :=
  addInt op.curStep (CongestionPolicy.getStep call.statuses call.id (op.levelArray call.outside) op.curStep call.reading).delta

/-- The histogram is poured into a new one of the scaled size, and nothing is returned when a check of the code fails. -/
def processOne (op : DegradeSummary) (call : DegradeCall Op) : Option (DegradeSummary × List WireElement) := do
  let op := { op with curStep := op.nextStep call }
  let e ← call.t[op.field]?
  let s ← e.summary
  let histo ← s.histo
  let oldH ← LogHistogram.fillIn histo
  let ratio ← op.steps[op.curStep]?
  let size ← (Float64.ofInt oldH.bucketCount * ratio).toWord
  let newH ← (LogHistogram.new size).bind (·.mergeIn oldH)
  some (op, call.t.set op.field { e with summary := some (newH.serializeTo {}) })

/-- A run passes incoming tuples to the configured operator. -/
def system (start : DegradeSummary) : EventSystem DegradeSummary (DegradeCall Op) :=
  ⟨start, fun op call => (op.processOne call).map Prod.fst⟩

/-- The ratio is read at the step that the policy has set. -/
def ratio (op : DegradeSummary) (call : DegradeCall Op) : Float64 := op.steps.getD (op.nextStep call) (.ofInt 1)

/-- The tuple holds the serialized histogram in the operator's field. -/
def Carries (op : DegradeSummary) (call : DegradeCall Op) (hist : LogHistogram) : Prop :=
  ∃ e prior, call.t[op.field]? = some e ∧ e.summary = some (hist.serializeTo prior)

/-- The operator passes a histogram on that has the count of the incoming one and no more buckets. -/
def Degrades (op : DegradeSummary) (call : DegradeCall Op) (hist : LogHistogram) : Prop :=
  ∃ after t e s emitted, op.processOne call = some (after, t) ∧ t[op.field]? = some e ∧ e.summary = some s ∧
    LogHistogram.ofSummary s = some emitted ∧ emitted.totalVals = hist.buckets.sum ∧
    emitted.bucketCount ≤ hist.bucketCount

/-- The ratio keeps at least two buckets and adds none, and the counts fit the assertions of a merge. -/
def Degradable (ratio : Float64) (hist : LogHistogram) : Prop :=
  .ofInt 2 ≤ .ofInt hist.bucketCount * ratio ∧ .ofInt hist.bucketCount * ratio < .ofInt (hist.bucketCount + 1 : ℕ) ∧
    hist.buckets.sum < 2 ^ 31 ∧
    (.ofInt hist.bucketCount ≤ .ofInt hist.bucketCount * ratio ∨ ∀ count ∈ hist.buckets.dropLast, count < 2 ^ 30)

instance (ratio : Float64) (hist : LogHistogram) : Decidable (Degradable ratio hist) :=
  inferInstanceAs (Decidable (_ ∧ _ ∧ _ ∧ (_ ∨ _)))

theorem ladder_length (step : Float64) (n : ℕ) (ratio : Float64) : (ladder step n ratio).length = n + 1 := by
  induction n generalizing ratio with
  | zero => rfl
  | succ n ih => rw [ladder, List.length_cons, ih]

/-- The step is one of the array, whose length is at most the number of words. -/
structure InRange (op : DegradeSummary) : Prop where
  within : op.curStep < op.steps.length
  words : op.steps.length ≤ 2 ^ 32

theorem readUnsignedText_lt {text : List Char} {value : ℕ} (read : readUnsignedText text = some value) :
    value < 2 ^ 32 := by
  unfold readUnsignedText readUnsigned at read
  dsimp only at read
  rw [Option.ite_none_left_eq_some, Option.ite_none_right_eq_some] at read
  obtain rfl := Option.some.inj read.2.2
  unfold toUInt32
  omega

theorem readParam_lt {name text : String} {default value : ℕ} (fits : default < 2 ^ 32)
    (read : readParam name text default readUnsignedText = .ok value) : value < 2 ^ 32 := by
  unfold readParam at read
  split at read
  · rwa [← Except.ok.inj read]
  · split at read
    · rename_i parsed
      rw [← Except.ok.inj read]
      exact readUnsignedText_lt parsed
    · cases read

/-- A configured operator starts at the last step of its array. -/
theorem configure_inRange {config : DegradeConfig} {op : DegradeSummary} (configured : configure config = .ok op) :
    op.InRange := by
  unfold configure at configured
  cases fieldRead : readUnsignedText config.field.toList with
  | none =>
      rw [fieldRead] at configured
      cases configured
  | some field =>
      rw [fieldRead] at configured
      obtain ⟨stepCount, countRead, configured⟩ := Except.exists_of_bind_eq_ok configured
      obtain ⟨minRatio, -, configured⟩ := Except.exists_of_bind_eq_ok configured
      obtain rfl := Except.ok.inj configured
      have word : stepCount < 2 ^ 32 := readParam_lt (by decide) countRead
      have length := ladder_length ((.ofInt 1 - minRatio) / .ofInt (unsignedPred stepCount)) (unsignedPred stepCount)
        minRatio
      constructor
      · rw [length]
        exact Nat.lt_succ_self _
      · rw [length]
        unfold unsignedPred
        split <;> omega

/-- The answer of the policy leads to a step of the array. -/
theorem nextStep_lt {op : DegradeSummary} (inRange : op.InRange) (call : DegradeCall Op) :
    op.nextStep call < op.steps.length := by
  rcases Nat.lt_or_eq_of_le inRange.words with fewer | all
  · have same : (op.levelArray call.outside).levelsLen = op.steps.length := Nat.mod_eq_of_lt fewer
    have next := CongestionPolicy.addInt_getStep_lt (same.symm ▸ inRange.within) (same.symm ▸ fewer) call.statuses
      call.id call.reading
    rwa [same] at next
  · rw [all]
    unfold nextStep addInt toUInt32
    omega

section Call

variable {op : DegradeSummary} {call : DegradeCall Op} {hist : LogHistogram} (inRange : op.InRange)
  (inMemory : hist.InMemory) (carries : op.Carries call hist)

include inRange in
theorem getElem?_nextStep : op.steps[op.nextStep call]? = some (op.ratio call) := by
  have within := nextStep_lt inRange call
  rw [ratio, List.getD_eq_getElem _ _ within, List.getElem?_eq_getElem within]

omit [DecidableEq Op] in
include inMemory in
theorem recount_wellFormed : hist.recount.WellFormed := ⟨inMemory.starts, inMemory.counts, rfl⟩

include inMemory in
/-- The operator reads the counts of the histogram when none is negative as an `int32`. -/
theorem ofSummary_serializeTo (prior : JSSummary) : LogHistogram.ofSummary (hist.serializeTo prior) =
    if ∀ count ∈ hist.buckets, count < 2 ^ 31 then some hist.recount else none := by
  have formed := recount_wellFormed inMemory
  split
  · rename_i small
    exact hist.recount.ofSummary_serializeTo formed small (formed.total_lt small) prior
  · rename_i large
    obtain ⟨count, member, negative⟩ : ∃ count ∈ hist.buckets, ¬ count < 2 ^ 31 := by simpa using large
    have word := inMemory.words count member
    have every : hist.buckets.take hist.bucketCount = hist.buckets := by
      rw [LogHistogram.bucketCount, ← inMemory.counts, List.take_length]
    rw [LogHistogram.ofSummary, LogHistogram.serializeTo, Option.getD_some, every, ← Option.not_isSome_iff_eq_none,
      JSHistogram.fillIn_isSome_iff]
    rintro ⟨-, -, signs⟩
    have sign : 0 ≤ toInt32 count := signs _ (List.mem_map_of_mem member)
    unfold toInt32 Int.bmod at sign
    dsimp only at sign
    split at sign <;> omega

include inRange inMemory carries in
/-- The new size is the scaled one, and the coarser histogram replaces the summary. -/
theorem processOne_eq : ∃ e, call.t[op.field]? = some e ∧ op.processOne call =
    if ∀ count ∈ hist.buckets, count < 2 ^ 31 then
      (((Float64.ofInt hist.bucketCount * op.ratio call).toWord.bind fun size =>
        (LogHistogram.new size).bind (·.mergeIn hist.recount)).map fun newH =>
          ({ op with curStep := op.nextStep call },
            call.t.set op.field { e with summary := some (newH.serializeTo {}) }))
    else none := by
  obtain ⟨e, prior, atField, holds⟩ := carries
  have isHisto : (hist.serializeTo prior).histo =
      some ⟨(hist.buckets.take hist.bucketCount).map toInt32, hist.bucketCount % 2 ^ 32⟩ := rfl
  have read := ofSummary_serializeTo inMemory prior
  rw [LogHistogram.ofSummary, isHisto, Option.getD_some] at read
  refine ⟨e, atField, ?_⟩
  simp only [processOne, atField, holds, isHisto, read, Option.bind_eq_bind, Option.bind_some]
  by_cases small : ∀ count ∈ hist.buckets, count < 2 ^ 31
  · rw [if_pos small, if_pos small, Option.bind_some, getElem?_nextStep inRange, Option.bind_some, Option.map_bind]
    apply congrArg (Option.bind _)
    funext size
    exact (Option.map_eq_bind).symm
  · rw [if_neg small, if_neg small, Option.bind_none]

omit [DecidableEq Op] in
include inMemory in
/-- A scaled size that is a word can be judged by the word. -/
theorem degradable_iff_of_toWord {ratio : Float64} {size : ℕ}
    (scaled : (Float64.ofInt hist.bucketCount * ratio).toWord = some size) :
    Degradable ratio hist ↔ ((LogHistogram.new size).bind (·.mergeIn hist.recount)).isSome := by
  have formed := recount_wellFormed inMemory
  have positive : 1 < hist.bucketCount := formed.bucketCount_pos
  have bounded : hist.bucketCount ≤ intMax := setBucketStarts_le_intMax inMemory.starts
  unfold intMax at bounded
  have lower : Float64.ofInt (2 : ℕ) ≤ Float64.ofInt hist.bucketCount * ratio ↔ 2 ≤ size :=
    Float64.ofInt_le_iff_of_toWord scaled (by decide) (by decide)
  have upper : Float64.ofInt hist.bucketCount * ratio < Float64.ofInt (hist.bucketCount + 1 : ℕ) ↔
      size < hist.bucketCount + 1 := Float64.lt_ofInt_iff_of_toWord scaled (by omega) (by omega)
  have whole : Float64.ofInt hist.bucketCount ≤ Float64.ofInt hist.bucketCount * ratio ↔ hist.bucketCount ≤ size :=
    Float64.ofInt_le_iff_of_toWord scaled (by omega) (by omega)
  rw [LogHistogram.new_mergeIn_isSome_iff formed, Degradable, upper, whole]
  change Float64.ofInt (2 : ℕ) ≤ _ ∧ _ ↔ _ ∧ _ ≤ hist.bucketCount ∧ hist.buckets.sum < _ ∧ (_ = hist.bucketCount ∨ _)
  rw [lower, Nat.lt_succ_iff]
  refine and_congr_right fun _ => and_congr_right fun order => and_congr_right fun _ => or_congr_left ?_
  exact ⟨fun reaches => Nat.le_antisymm order reaches, fun same => same.ge⟩

omit [DecidableEq Op] in
include inMemory in
/-- A ratio that degrades a histogram scales its size to a word. -/
theorem Degradable.exists_toWord {ratio : Float64} (degradable : Degradable ratio hist) :
    ∃ size, (Float64.ofInt hist.bucketCount * ratio).toWord = some size := by
  have bounded : hist.bucketCount ≤ intMax := setBucketStarts_le_intMax inMemory.starts
  unfold intMax at bounded
  have two : Float64.ofInt (2 : ℕ) ≤ Float64.ofInt hist.bucketCount * ratio := degradable.1
  exact Float64.exists_toWord (by decide) (by decide) two degradable.2.1 (by omega)

include inRange inMemory carries in
/-- A histogram is degraded exactly when its counts are small and the ratio leaves at least two buckets. -/
theorem degrades_iff : op.Degrades call hist ↔ Degradable (op.ratio call) hist := by
  obtain ⟨e, atField, done⟩ := processOne_eq inRange inMemory carries
  have formed := recount_wellFormed inMemory
  constructor
  · rintro ⟨after, t, -, -, -, returned, -⟩
    rw [done, Option.ite_none_right_eq_some, Option.map_eq_some_iff] at returned
    obtain ⟨-, newH, merged, -⟩ := returned
    obtain ⟨size, scaled, merged⟩ := Option.bind_eq_some_iff.mp merged
    exact (degradable_iff_of_toWord inMemory scaled).mpr (Option.isSome_of_eq_some merged)
  · intro degradable
    have total : hist.buckets.sum < 2 ^ 31 := degradable.2.2.1
    have small : ∀ count ∈ hist.buckets, count < 2 ^ 31 := fun count member =>
      (List.le_sum_of_mem member).trans_lt total
    obtain ⟨size, scaled⟩ := degradable.exists_toWord inMemory
    obtain ⟨newH, merged⟩ := Option.isSome_iff_exists.mp ((degradable_iff_of_toWord inMemory scaled).mp degradable)
    obtain ⟨newFormed, sizeEq, count⟩ := LogHistogram.new_mergeIn_spec formed merged
    have order : size ≤ hist.bucketCount :=
      ((LogHistogram.new_mergeIn_isSome_iff formed).mp (Option.isSome_of_eq_some merged)).2.1
    have newSmall : ∀ count ∈ newH.buckets, count < 2 ^ 31 := by
      intro bucket member
      have part := List.le_sum_of_mem member
      rw [← newFormed.total, count] at part
      exact part.trans_lt total
    rw [if_pos small, scaled, Option.bind_some, merged, Option.map_some] at done
    refine ⟨_, _, { e with summary := some (newH.serializeTo {}) }, _, newH, done, ?_, rfl, ?_, count,
      sizeEq.trans_le order⟩
    · exact List.getElem?_set_self (List.getElem?_eq_some_iff.mp atField).1
    · exact newH.ofSummary_serializeTo newFormed newSmall (newFormed.total_lt newSmall) {}

end Call

/-- A tuple that is passed on moves the operator to the step that the policy sets. -/
theorem eq_of_processOne {op next : DegradeSummary} {call : DegradeCall Op}
    (stepped : (op.processOne call).map Prod.fst = some next) : next = { op with curStep := op.nextStep call } := by
  simp only [processOne, Option.bind_eq_bind, Option.map_eq_some_iff, Option.bind_eq_some_iff] at stepped
  obtain ⟨_, ⟨_, -, _, -, _, -, _, -, _, -, _, -, _, -, passed⟩, rfl⟩ := stepped
  exact congrArg Prod.fst (Option.some.inj passed).symm

/-- Every reachable step of a configured operator is in its array. -/
theorem reachable_inRange {config : DegradeConfig} {start op : DegradeSummary} (configured : configure config = .ok start)
    (reachable : (system start : EventSystem DegradeSummary (DegradeCall Op)).Reachable op) : op.InRange := by
  refine reachable.invariant InRange (configure_inRange configured) fun op call next inRange stepped => ?_
  obtain rfl := eq_of_processOne stepped
  exact ⟨nextStep_lt inRange call, inRange.words⟩

/-- In every reachable state a configured operator degrades a histogram exactly when its counts are small and the ratio
of the step that the policy sets leaves at least two and no more buckets. -/
theorem reachable_degrades_iff {config : DegradeConfig} {start op : DegradeSummary}
    (configured : configure config = .ok start)
    (reachable : (system start : EventSystem DegradeSummary (DegradeCall Op)).Reachable op)
    (call : DegradeCall Op) {hist : LogHistogram} (inMemory : hist.InMemory) (carries : op.Carries call hist) :
    op.Degrades call hist ↔ Degradable (op.ratio call) hist :=
  degrades_iff (reachable_inRange configured reachable) inMemory carries

/-- This operator has the default parameters. -/
def defaultOperator : DegradeSummary :=
  ⟨0, 9, ladder ((.ofInt 1 - .ofRatio 1 10) / .ofInt 9) 9 (.ofRatio 1 10)⟩

theorem configure_default : configure { field := "0" } = .ok defaultOperator := by
  rfl

/-- This histogram has ten buckets and three items. -/
def tenBuckets : LogHistogram := ⟨[0, 0, 1, 2, 0, 0, 0, 0, 0, 0], [0, 1, 2, 4, 8, 16, 32, 64, 128, 256], 3⟩

theorem tenBuckets_inMemory : tenBuckets.InMemory := ⟨by decide +kernel, by decide, by decide⟩

/-- The histogram arrives while the monitor reports this capacity ratio. -/
def tenBucketsCall (congestLevel : Float64) : DegradeCall ℕ where
  statuses := [{ op := 0 }]
  id := 0
  reading := some ⟨5000, 5000, congestLevel⟩
  outside _ := .ofInt 0
  t := [{ summary := some (tenBuckets.serializeTo {}) }]

/-- At half the capacity five of the ten buckets remain. -/
theorem degrades_half : defaultOperator.Degrades (tenBucketsCall (.ofRatio 1 2)) tenBuckets :=
  (reachable_degrades_iff configure_default ⟨[], rfl⟩ (tenBucketsCall (.ofRatio 1 2)) tenBuckets_inMemory
    ⟨_, {}, rfl, rfl⟩).mpr (by decide +kernel)

/-- At the lowest default ratio a histogram of ten buckets would keep only one, and an assertion fails. -/
theorem processOne_tenBuckets : configure { field := "0" } = .ok defaultOperator ∧ tenBuckets.InMemory ∧
    defaultOperator.Carries (tenBucketsCall (.ofRatio 1 20)) tenBuckets ∧
    defaultOperator.processOne (tenBucketsCall (.ofRatio 1 20)) = none ∧
    ¬ defaultOperator.Degrades (tenBucketsCall (.ofRatio 1 20)) tenBuckets := by
  have fails : defaultOperator.processOne (tenBucketsCall (.ofRatio 1 20)) = none := by decide +kernel
  refine ⟨configure_default, tenBuckets_inMemory, ⟨_, {}, rfl, rfl⟩, fails, ?_⟩
  rintro ⟨after, t, -, -, -, returned, -⟩
  rw [fails] at returned
  cases returned

end DegradeSummary

end JetStream
