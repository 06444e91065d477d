import JetStream.Lib.EventSystem
import JetStream.Lib.Float64
import JetStream.Machine
import Mathlib.Logic.Function.Basic

namespace JetStream

/-- The policy's own record of one operator, in the order of priority. -/
structure OperatorState (Op : Type) where
  op : Op
  availStepsDown : ℤ := 0
  availStepsUp : ℤ := 0
  lastStateChange : UInt64 := 0
  lastCheck : UInt64 := 1
  deriving DecidableEq

/-- One call reads the clock, the time of the measurement and the capacity ratio. -/
structure MonitorReading where
  now : UInt64
  measurementTime : UInt64
  congestLevel : Float64

/-- An operator passes its levels by a pointer and their number. -/
structure LevelArray where
  levels : ℤ → Float64
  levelsLen : ℕ

/-- A call gives the step and the new records, and is completed when it has recorded the level. -/
structure StepResult (Op : Type) where
  delta : ℤ
  statuses : List (OperatorState Op)
  completed : Bool

namespace CongestionPolicy

variable {Op : Type} [DecidableEq Op]

def minMsBetweenActions : UInt64 := 1000
def degradeBelow : Float64 := .ofRatio 95 100
def upgradeAbove : Float64 := .ofRatio 11 10

/-- The operator did something recently, as the measurement time tells. -/
def recentChange (status : OperatorState Op) (measurementTime : UInt64) : Bool :=
  measurementTime < status.lastStateChange + minMsBetweenActions

/-- The search stops at the operator's own record, unless an earlier operator still has the priority. -/
def findStatus (op : Op) (reading : MonitorReading) : List (OperatorState Op) → Option ℕ
  | [] => none
  | status :: statuses =>
      if recentChange status reading.measurementTime ∧ .ofInt 0 < reading.congestLevel then none
      else if status.op = op then some 0
      else if reading.congestLevel < .ofInt 1 ∧ 0 < status.availStepsDown then none
      else (findStatus op reading statuses).map (· + 1)

/-- An upgrade waits for every later operator. -/
def laterFirst (reading : MonitorReading) (later : List (OperatorState Op)) : Bool :=
  .ofInt 1 < reading.congestLevel ∧
    ∃ status ∈ later, 0 < status.availStepsUp ∨ recentChange status reading.measurementTime

/-- The target goes down until the projected ratio suffices. -/
def degrade (array : LevelArray) (congestLevel : Float64) (curLevel : ℕ) : ℕ → ℕ
  | 0 => 0
  | targStep + 1 =>
      if congestLevel / array.levels (targStep + 1 : ℕ) * array.levels curLevel < degradeBelow then
        degrade array congestLevel curLevel targStep
      else targStep + 1

/-- The supported step goes up while the ratio of the levels stays below the capacity. -/
def maxSupportedStep (array : LevelArray) (capacity : Float64) (curLevel : ℕ) : ℕ → ℕ → ℕ
  | 0, step => step
  | room + 1, step =>
      if array.levels step / array.levels curLevel < capacity then
        maxSupportedStep array capacity curLevel room (step + 1)
      else step

def shouldUpgrade (array : LevelArray) (capacity : Float64) (curLevel : ℕ) : ℕ :=
  if unsignedPred array.levelsLen ≤ curLevel then curLevel
  else if curLevel = 0 ∧ .ofInt 0 < capacity then 1
  else (maxSupportedStep array capacity curLevel (array.levelsLen - curLevel) curLevel + curLevel + 1) % 2 ^ 32 / 2

/-- The target is an `int`, and a negative one is left alone. -/
def targetStep (array : LevelArray) (congestLevel : Float64) (curLevel : ℕ) : ℤ :=
  if congestLevel < degradeBelow then
    if toInt32 curLevel ≤ 0 then toInt32 curLevel else degrade array congestLevel curLevel curLevel
  else if upgradeAbove < congestLevel then toInt32 (shouldUpgrade array congestLevel curLevel)
  else toInt32 curLevel

/-- The record at the operator's position takes the new level. -/
def recordStep (array : LevelArray) (reading : MonitorReading) (curLevel : ℕ) (status : OperatorState Op) :
    ℤ × OperatorState Op :=
  let targStep := targetStep array reading.congestLevel curLevel
  let delta := (targStep - curLevel).bmod (2 ^ 32)
  (delta, {status with
    lastCheck := reading.measurementTime
    lastStateChange := if delta ≠ 0 then reading.now else status.lastStateChange
    availStepsDown := targStep
    availStepsUp := (array.levelsLen - targStep - 1).bmod (2 ^ 32)})

/-- Without a monitor there is no reading, and the step is zero. -/
def getStep (statuses : List (OperatorState Op)) (op : Op) (array : LevelArray) (curLevel : ℕ)
    (reading : Option MonitorReading) : StepResult Op :=
  match reading with
  | none => ⟨0, statuses, false⟩
  | some reading =>
      match findStatus op reading statuses with
      | none => ⟨0, statuses, false⟩
      | some position =>
          if laterFirst reading (statuses.drop (position + 1)) then ⟨0, statuses, false⟩
          else match statuses[position]? with
            | none => ⟨0, statuses, false⟩
            | some status =>
                if status.lastStateChange < status.lastCheck then
                  let (delta, recorded) := recordStep array reading curLevel status
                  ⟨delta, statuses.set position recorded, true⟩
                else
                  ⟨0, statuses.set position {status with lastCheck := reading.measurementTime}, false⟩

theorem degrade_le (array : LevelArray) (congestLevel : Float64) (curLevel targStep : ℕ) :
    degrade array congestLevel curLevel targStep ≤ targStep := by
  induction targStep with
  | zero => exact le_rfl
  | succ targStep ih =>
      rw [degrade]
      split
      · exact ih.trans (Nat.le_succ targStep)
      · exact le_rfl

theorem maxSupportedStep_bounds (array : LevelArray) (capacity : Float64) (curLevel room step : ℕ) :
    step ≤ maxSupportedStep array capacity curLevel room step ∧
      maxSupportedStep array capacity curLevel room step ≤ step + room := by
  induction room generalizing step with
  | zero => exact ⟨le_rfl, le_rfl⟩
  | succ room ih =>
      rw [maxSupportedStep]
      split
      · have bounds := ih (step + 1)
        omega
      · omega

/-- The upgrade stays between the current level and the top. -/
theorem shouldUpgrade_bounds {array : LevelArray} {curLevel : ℕ} (within : curLevel < array.levelsLen)
    (short : array.levelsLen ≤ 2 ^ 31) (capacity : Float64) :
    curLevel ≤ shouldUpgrade array capacity curLevel ∧ shouldUpgrade array capacity curLevel < array.levelsLen := by
  have bounds := maxSupportedStep_bounds array capacity curLevel (array.levelsLen - curLevel) curLevel
  have top : unsignedPred array.levelsLen = array.levelsLen - 1 := if_neg (by omega)
  rw [shouldUpgrade, top]
  by_cases atTop : array.levelsLen - 1 ≤ curLevel
  · rw [if_pos atTop]
    exact ⟨le_rfl, within⟩
  · rw [if_neg atTop]
    split <;> omega

/-- The target stays among the levels, below the current one only under congestion and above it only with room. -/
theorem targetStep_spec {array : LevelArray} {curLevel : ℕ} (within : curLevel < array.levelsLen)
    (short : array.levelsLen ≤ 2 ^ 31) (congestLevel : Float64) :
    (0 ≤ targetStep array congestLevel curLevel ∧ targetStep array congestLevel curLevel < array.levelsLen) ∧
      (targetStep array congestLevel curLevel < curLevel → congestLevel < degradeBelow) ∧
      (curLevel < targetStep array congestLevel curLevel → upgradeAbove < congestLevel) := by
  have same : toInt32 curLevel = curLevel := toInt32_eq (by omega)
  have lower := degrade_le array congestLevel curLevel curLevel
  have upper := shouldUpgrade_bounds within short congestLevel
  have upperSame := toInt32_eq (show shouldUpgrade array congestLevel curLevel < 2 ^ 31 by omega)
  unfold targetStep
  rw [same, upperSame]
  by_cases degrading : congestLevel < degradeBelow
  · rw [if_pos degrading]
    have within : 0 ≤ (if (curLevel : ℤ) ≤ 0 then (curLevel : ℤ) else degrade array congestLevel curLevel curLevel) ∧
        (if (curLevel : ℤ) ≤ 0 then (curLevel : ℤ) else degrade array congestLevel curLevel curLevel) ≤ curLevel := by
      split <;> omega
    exact ⟨⟨within.1, by omega⟩, fun _ => degrading, fun above => absurd within.2 (not_le.mpr above)⟩
  · rw [if_neg degrading]
    by_cases upgrading : upgradeAbove < congestLevel
    · rw [if_pos upgrading]
      exact ⟨by omega, fun below => absurd below (by omega), fun _ => upgrading⟩
    · rw [if_neg upgrading]
      exact ⟨by omega, fun below => absurd below (lt_irrefl _), fun above => absurd above (lt_irrefl _)⟩

theorem toInt32_sub_self (value : ℕ) : (toInt32 value - value).bmod (2 ^ 32) = 0 := by
  unfold toInt32
  rw [Int.bmod_sub_bmod, Int.sub_self]
  exact Int.zero_bmod

omit [DecidableEq Op] in
theorem recordStep_fst (array : LevelArray) (reading : MonitorReading) (curLevel : ℕ) (status : OperatorState Op) :
    (recordStep array reading curLevel status).1 =
      (targetStep array reading.congestLevel curLevel - curLevel).bmod (2 ^ 32) := rfl

omit [DecidableEq Op] in
/-- A step is taken only below or above the tolerated ratios. -/
theorem recordStep_delta_ne {array : LevelArray} {reading : MonitorReading} {curLevel : ℕ} {status : OperatorState Op}
    (moved : (recordStep array reading curLevel status).1 ≠ 0) :
    reading.congestLevel < degradeBelow ∨ upgradeAbove < reading.congestLevel := by
  by_cases degrading : reading.congestLevel < degradeBelow
  · exact .inl degrading
  · right
    by_cases upgrading : upgradeAbove < reading.congestLevel
    · exact upgrading
    · have target : targetStep array reading.congestLevel curLevel = toInt32 curLevel := by
        rw [targetStep, if_neg degrading, if_neg upgrading]
      rw [recordStep_fst, target, toInt32_sub_self] at moved
      exact absurd rfl moved

/-- The search ends at the operator's record, and has passed only records that do not block the call. -/
theorem findStatus_spec {op : Op} {reading : MonitorReading} {statuses : List (OperatorState Op)} {position : ℕ}
    (found : findStatus op reading statuses = some position) :
    ∃ before own after, statuses = before ++ own :: after ∧ before.length = position ∧ own.op = op ∧
      (∀ status ∈ before, status.op ≠ op) ∧
      ¬ (recentChange own reading.measurementTime ∧ .ofInt 0 < reading.congestLevel) ∧
      (reading.congestLevel < .ofInt 1 → ∀ status ∈ before, status.availStepsDown ≤ 0) := by
  induction statuses generalizing position with
  | nil => cases found
  | cons status statuses ih =>
      rw [findStatus, Option.ite_none_left_eq_some] at found
      obtain ⟨quiet, found⟩ := found
      by_cases same : status.op = op
      · rw [if_pos same] at found
        obtain rfl := Option.some.inj found
        exact ⟨[], status, statuses, rfl, rfl, same, List.forall_mem_nil _, quiet, fun _ => List.forall_mem_nil _⟩
      · rw [if_neg same, Option.ite_none_left_eq_some, Option.map_eq_some_iff] at found
        obtain ⟨unblocked, position, found, rfl⟩ := found
        obtain ⟨before, own, after, split, length, isOwn, first, ownQuiet, lower⟩ := ih found
        refine ⟨status :: before, own, after, by rw [split]; rfl, by rw [← length]; rfl, isOwn,
          List.forall_mem_cons.mpr ⟨same, first⟩, ownQuiet, ?_⟩
        intro congested
        rw [List.forall_mem_cons]
        exact ⟨not_lt.mp fun available => unblocked ⟨congested, available⟩, lower congested⟩

/-- A call does nothing, or only notes the time of the check, or records the new level of its operator. -/
theorem getStep_cases (statuses : List (OperatorState Op)) (op : Op) (array : LevelArray) (curLevel : ℕ)
    (read : Option MonitorReading) :
    getStep statuses op array curLevel read = ⟨0, statuses, false⟩ ∨
    ∃ reading ∈ read, ∃ before own after, statuses = before ++ own :: after ∧ own.op = op ∧
      (∀ status ∈ before, status.op ≠ op) ∧
      ¬ (recentChange own reading.measurementTime ∧ .ofInt 0 < reading.congestLevel) ∧
      (reading.congestLevel < .ofInt 1 → ∀ status ∈ before, status.availStepsDown ≤ 0) ∧
      (.ofInt 1 < reading.congestLevel → ∀ status ∈ after, status.availStepsUp ≤ 0) ∧
      (getStep statuses op array curLevel read =
          ⟨0, before ++ {own with lastCheck := reading.measurementTime} :: after, false⟩ ∨
        getStep statuses op array curLevel read =
          ⟨(recordStep array reading curLevel own).1, before ++ (recordStep array reading curLevel own).2 :: after,
            true⟩) := by
  unfold getStep
  cases read with
  | none => exact .inl rfl
  | some reading =>
      cases found : findStatus op reading statuses with
      | none => simp only [found, true_or]
      | some position =>
          obtain ⟨before, own, after, rfl, rfl, isOwn, first, quiet, lower⟩ := findStatus_spec found
          have dropped : (before ++ own :: after).drop (before.length + 1) = after := by
            rw [List.drop_append, List.drop_of_length_le (Nat.le_succ _)]
            simp
          have atPosition : (before ++ own :: after)[before.length]? = some own := by simp
          have written (status : OperatorState Op) :
              (before ++ own :: after).set before.length status = before ++ status :: after := by simp
          simp only [found, dropped, atPosition, written]
          by_cases blocked : laterFirst reading after
          · rw [if_pos blocked]
            exact .inl rfl
          · rw [if_neg blocked]
            right
            refine ⟨reading, rfl, before, own, after, rfl, isOwn, first, quiet, lower, ?_, ?_⟩
            · intro room status isLater
              by_contra available
              apply blocked
              exact decide_eq_true ⟨room, status, isLater, .inl (not_le.mp available)⟩
            · split
              · exact .inr rfl
              · exact .inl rfl

end CongestionPolicy

/-- The operators hold their levels, and `completed` notes which of them have had a completed check. -/
structure PolicyRun (Op : Type) where
  statuses : List (OperatorState Op)
  level : Op → ℕ
  completed : Op → Bool

/-- An operator calls `get_step`, with a reading when the chain has a monitor. -/
structure PolicyCall (Op : Type) where
  op : Op
  reading : Option MonitorReading

namespace PolicyRun

open CongestionPolicy

variable {Op : Type} [DecidableEq Op]

def result (operators : Op → LevelArray) (run : PolicyRun Op) (call : PolicyCall Op) : StepResult Op :=
  getStep run.statuses call.op (operators call.op) (run.level call.op) call.reading

/-- The operator adds the step to its level. -/
def step (operators : Op → LevelArray) (run : PolicyRun Op) (call : PolicyCall Op) : PolicyRun Op :=
  let result := run.result operators call
  { statuses := result.statuses
    level := Function.update run.level call.op (addInt (run.level call.op) result.delta)
    completed := Function.update run.completed call.op (run.completed call.op || result.completed) }

def new (ops : List Op) (start : Op → ℕ) : PolicyRun Op := ⟨ops.map fun op => {op := op}, start, fun _ => false⟩

def system (operators : Op → LevelArray) (ops : List Op) (start : Op → ℕ) : EventSystem (PolicyRun Op) (PolicyCall Op) :=
  ⟨new ops start, fun run call => some (run.step operators call)⟩

/-- The record of an operator tells how far it can go down and up. -/
def Mirrors (operators : Op → LevelArray) (run : PolicyRun Op) (status : OperatorState Op) : Prop :=
  run.completed status.op = true →
    status.availStepsDown = run.level status.op ∧
      status.availStepsUp = (operators status.op).levelsLen - 1 - run.level status.op

/-- The records of all operators with a completed check are exact. -/
def MirrorExact (operators : Op → LevelArray) (run : PolicyRun Op) : Prop :=
  ∀ status ∈ run.statuses, run.Mirrors operators status

/-- A step down waits for the earlier operators to reach the bottom, and a step up for the later ones to reach the top. -/
def Respects (operators : Op → LevelArray) (run : PolicyRun Op) (call : PolicyCall Op) : Prop :=
  ∀ before own after, run.statuses = before ++ own :: after → own.op = call.op →
    ((run.result operators call).delta < 0 →
      ∀ status ∈ before, run.completed status.op = true → run.level status.op = 0) ∧
    (0 < (run.result operators call).delta →
      ∀ status ∈ after, run.completed status.op = true → run.level status.op = (operators status.op).levelsLen - 1)

/-- The records follow the list, every level is one of its operator's, and the records are exact. -/
structure Exact (operators : Op → LevelArray) (ops : List Op) (run : PolicyRun Op) : Prop where
  listed : run.statuses.map OperatorState.op = ops
  within : ∀ op ∈ ops, run.level op < (operators op).levelsLen
  mirror : run.MirrorExact operators

omit [DecidableEq Op] in
theorem new_exact {operators : Op → LevelArray} {ops : List Op} {start : Op → ℕ}
    (within : ∀ op ∈ ops, start op < (operators op).levelsLen) : Exact operators ops (new ops start) := by
  constructor
  · simp [new, Function.comp_def]
  · exact within
  · intro status _ completed
    cases completed

section

variable {operators : Op → LevelArray} {ops : List Op} (short : ∀ op ∈ ops, (operators op).levelsLen ≤ 2 ^ 31)
  {run : PolicyRun Op} {call : PolicyCall Op}

theorem level_step_other (op : Op) (other : op ≠ call.op) : (run.step operators call).level op = run.level op :=
  Function.update_of_ne other _ _

theorem completed_step_other (op : Op) (other : op ≠ call.op) :
    (run.step operators call).completed op = run.completed op := Function.update_of_ne other _ _

theorem level_step_own : (run.step operators call).level call.op =
    addInt (run.level call.op) (run.result operators call).delta := Function.update_self _ _ _

theorem addInt_zero {level : ℕ} (fits : level < 2 ^ 32) : addInt level 0 = level := by
  rw [addInt, add_zero]
  exact toUInt32_natCast fits

include short in
omit [DecidableEq Op] in
theorem Exact.level_fits (exact : run.Exact operators ops) {op : Op} (listed : op ∈ ops) : run.level op < 2 ^ 31 :=
  (exact.within op listed).trans_le (short op listed)

include short in
/-- A call that is not completed leaves every level and every record of the steps alone. -/
theorem Exact.step_incomplete (exact : run.Exact operators ops) (zero : (run.result operators call).delta = 0)
    (incomplete : (run.result operators call).completed = false)
    (kept : ∀ status ∈ (run.result operators call).statuses, ∃ status' ∈ run.statuses,
      status.op = status'.op ∧ status.availStepsDown = status'.availStepsDown ∧
        status.availStepsUp = status'.availStepsUp)
    (sameOps : (run.result operators call).statuses.map OperatorState.op = run.statuses.map OperatorState.op) :
    (run.step operators call).Exact operators ops := by
  have level (op : Op) (listed : op ∈ ops) : (run.step operators call).level op = run.level op := by
    by_cases own : op = call.op
    · have fits := exact.level_fits short listed
      subst own
      rw [level_step_own, zero]
      exact addInt_zero (by omega)
    · exact level_step_other op own
  have completed (op : Op) : (run.step operators call).completed op = run.completed op := by
    by_cases own : op = call.op
    · subst own
      show Function.update _ _ _ _ = _
      rw [Function.update_self, incomplete, Bool.or_false]
    · exact completed_step_other op own
  constructor
  · exact sameOps.trans exact.listed
  · intro op listed
    rw [level op listed]
    exact exact.within op listed
  · intro status present
    obtain ⟨status', isStatus, sameOp, sameDown, sameUp⟩ := kept status present
    have listed : status'.op ∈ ops := by
      rw [← exact.listed]
      exact List.mem_map_of_mem isStatus
    show (run.step operators call).completed status.op = true → _
    rw [sameOp, sameDown, sameUp, level _ listed, completed]
    exact exact.mirror status' isStatus

include short in
omit [DecidableEq Op] in
/-- The recorded step is the one that the operator takes. -/
theorem Exact.recordStep (exact : run.Exact operators ops) (listed : call.op ∈ ops) (reading : MonitorReading)
    (own : OperatorState Op) :
    let recorded := CongestionPolicy.recordStep (operators call.op) reading (run.level call.op) own
    recorded.1 = recorded.2.availStepsDown - run.level call.op ∧ 0 ≤ recorded.2.availStepsDown ∧
      recorded.2.availStepsDown < (operators call.op).levelsLen ∧
      recorded.2.availStepsUp = (operators call.op).levelsLen - 1 - recorded.2.availStepsDown ∧
      (recorded.1 < 0 → reading.congestLevel < degradeBelow) ∧ (0 < recorded.1 → upgradeAbove < reading.congestLevel) := by
  have within := exact.within call.op listed
  have fits := short call.op listed
  obtain ⟨range, lower, upper⟩ := targetStep_spec within fits reading.congestLevel
  intro recorded
  have delta : recorded.1 = targetStep (operators call.op) reading.congestLevel (run.level call.op) -
      run.level call.op := Int.bmod_eq_of_le (by omega) (by omega)
  have up : recorded.2.availStepsUp = (operators call.op).levelsLen -
      targetStep (operators call.op) reading.congestLevel (run.level call.op) - 1 :=
    Int.bmod_eq_of_le (by omega) (by omega)
  have down : recorded.2.availStepsDown =
      targetStep (operators call.op) reading.congestLevel (run.level call.op) := rfl
  rw [delta, up, down]
  refine ⟨rfl, range.1, range.2, by omega, fun below => lower (by omega), fun above => upper (by omega)⟩

omit [DecidableEq Op] in
/-- The other records belong to other operators. -/
theorem Exact.others (distinct : ops.Nodup) (exact : run.Exact operators ops) {before after : List (OperatorState Op)}
    {own : OperatorState Op} (split : run.statuses = before ++ own :: after) (isOwn : own.op = call.op) :
    ∀ status ∈ before ++ after, status.op ≠ call.op := by
  have nodup : ((before ++ own :: after).map OperatorState.op).Nodup := by rwa [← split, exact.listed]
  rw [(List.perm_middle.map OperatorState.op).nodup_iff, List.map_cons, List.nodup_cons, isOwn] at nodup
  intro status present same
  exact nodup.1 (same ▸ List.mem_map_of_mem present)

include short in
/-- A completed call records the level that its operator takes, and leaves the other operators alone. -/
theorem Exact.step_complete (distinct : ops.Nodup) (exact : run.Exact operators ops) {reading : MonitorReading}
    {before after : List (OperatorState Op)} {own : OperatorState Op} (split : run.statuses = before ++ own :: after)
    (isOwn : own.op = call.op)
    (done : run.result operators call =
      ⟨(CongestionPolicy.recordStep (operators call.op) reading (run.level call.op) own).1,
        before ++ (CongestionPolicy.recordStep (operators call.op) reading (run.level call.op) own).2 :: after, true⟩) :
    (run.step operators call).Exact operators ops := by
  have listed : call.op ∈ ops := by
    rw [← exact.listed, split, ← isOwn]
    simp
  have others := exact.others distinct split isOwn
  obtain ⟨delta, nonneg, below, up, -, -⟩ := exact.recordStep short listed reading own
  have fits := exact.level_fits short listed
  have top := short call.op listed
  have level : ((run.step operators call).level call.op : ℤ) =
      (CongestionPolicy.recordStep (operators call.op) reading (run.level call.op) own).2.availStepsDown := by
    rw [level_step_own, done]
    dsimp only
    unfold addInt toUInt32
    omega
  constructor
  · rw [← exact.listed, split]
    show ((run.result operators call).statuses).map OperatorState.op = _
    rw [done]
    simp only [List.map_append, List.map_cons]
    rfl
  · intro op isListed
    by_cases same : op = call.op
    · subst same
      omega
    · rw [level_step_other op same]
      exact exact.within op isListed
  · intro status present
    change status ∈ (run.result operators call).statuses at present
    rw [done, List.mem_append, List.mem_cons] at present
    have kept (present : status ∈ before ++ after) : (run.step operators call).Mirrors operators status := by
      have other := others status present
      unfold Mirrors
      rw [level_step_other _ other, completed_step_other _ other]
      apply exact.mirror
      rw [split]
      simp only [List.mem_append, List.mem_cons] at present ⊢
      tauto
    rcases present with isBefore | rfl | isAfter
    · exact kept (List.mem_append_left _ isBefore)
    · intro _
      show (CongestionPolicy.recordStep _ _ _ _).2.availStepsDown = ((run.step operators call).level own.op : ℤ) ∧
        (CongestionPolicy.recordStep _ _ _ _).2.availStepsUp =
          ((operators own.op).levelsLen : ℤ) - 1 - (run.step operators call).level own.op
      rw [isOwn, level]
      exact ⟨rfl, up⟩
    · exact kept (List.mem_append_right _ isAfter)

include short in
theorem Exact.step (distinct : ops.Nodup) (exact : run.Exact operators ops) :
    (run.step operators call).Exact operators ops := by
  rcases getStep_cases run.statuses call.op (operators call.op) (run.level call.op) call.reading with
    idle | ⟨reading, -, before, own, after, split, isOwn, -, -, -, -, noted | done⟩
  · have result : run.result operators call = ⟨0, run.statuses, false⟩ := idle
    apply exact.step_incomplete short (by rw [result]) (by rw [result])
    · rw [result]
      intro status present
      exact ⟨status, present, rfl, rfl, rfl⟩
    · rw [result]
  · have result : run.result operators call =
        ⟨0, before ++ {own with lastCheck := reading.measurementTime} :: after, false⟩ := noted
    apply exact.step_incomplete short (by rw [result]) (by rw [result])
    · rw [result, split]
      intro status present
      simp only [List.mem_append, List.mem_cons] at present ⊢
      rcases present with isBefore | rfl | isAfter
      · exact ⟨status, .inl isBefore, rfl, rfl, rfl⟩
      · exact ⟨own, .inr (.inl rfl), rfl, rfl, rfl⟩
      · exact ⟨status, .inr (.inr isAfter), rfl, rfl, rfl⟩
    · rw [result, split]
      simp only [List.map_append, List.map_cons]
  · exact exact.step_complete short distinct split isOwn done

theorem degradeBelow_lt : degradeBelow < .ofInt 1 := by decide +kernel

theorem lt_upgradeAbove : .ofInt 1 < upgradeAbove := by decide +kernel

include short in
/-- The scans of one call keep the priority, since the records they read are exact. -/
theorem Exact.respects (distinct : ops.Nodup) (exact : run.Exact operators ops) : run.Respects operators call := by
  intro before own after split isOwn
  rcases getStep_cases run.statuses call.op (operators call.op) (run.level call.op) call.reading with
    idle | ⟨reading, -, before', own', after', split', isOwn', -, -, lower, upper, noted | done⟩
  · have result : (run.result operators call).delta = 0 := by rw [result, idle]
    omega
  · have result : (run.result operators call).delta = 0 := by rw [result, noted]
    omega
  · have others := exact.others distinct split isOwn
    have notBefore : own' ∉ before := fun present => others own' (List.mem_append_left _ present) isOwn'
    have notAfter : own' ∉ after := fun present => others own' (List.mem_append_right _ present) isOwn'
    obtain ⟨rfl, rfl, rfl⟩ := (List.append_cons_inj_of_notMem notBefore notAfter).mp (split.symm.trans split')
    have listed : call.op ∈ ops := by
      rw [← exact.listed, split, ← isOwn]
      simp
    obtain ⟨-, -, -, -, degrading, upgrading⟩ := exact.recordStep short listed reading own
    have result : (run.result operators call).delta =
        (CongestionPolicy.recordStep (operators call.op) reading (run.level call.op) own).1 := by rw [result, done]
    have mirror := exact.mirror
    unfold MirrorExact at mirror
    rw [split, List.forall_mem_append, List.forall_mem_cons] at mirror
    rw [result]
    constructor
    · intro down status present completed
      have congested := Float64.lt_trans (degrading down) degradeBelow_lt
      have exactDown := (mirror.1 status present completed).1
      have bottom := lower congested status present
      omega
    · intro up status present completed
      have room := Float64.lt_trans lt_upgradeAbove (upgrading up)
      have exactUp := (mirror.2.2 status present completed).2
      have top := upper room status present
      have within := exact.within status.op (by
        rw [← exact.listed, split]
        simp only [List.map_append, List.map_cons, List.mem_append, List.mem_cons]
        exact .inr (.inr (List.mem_map_of_mem present)))
      omega

end

/-- With at most `2 ^ 31` levels for each operator, the records are exact and the priority is kept in every run. -/
theorem priority_respected (ops : List Op) (distinct : ops.Nodup) (operators : Op → LevelArray) (start : Op → ℕ)
    (within : ∀ op ∈ ops, start op < (operators op).levelsLen)
    (short : ∀ op ∈ ops, (operators op).levelsLen ≤ 2 ^ 31) (calls : List (PolicyCall Op)) :
    (system operators ops start).EveryState (MirrorExact operators) (new ops start) calls ∧
      (system operators ops start).EveryStep (Respects operators) (new ops start) calls := by
  have preserved (run : PolicyRun Op) (call : PolicyCall Op) (next : PolicyRun Op) (exact : run.Exact operators ops)
      (stepped : (system operators ops start).step run call = some next) : next.Exact operators ops := by
    obtain rfl := Option.some.inj stepped
    exact exact.step short distinct
  have respected : (system operators ops start).EveryStep (Respects operators) (new ops start) calls := by
    apply EventSystem.everyStep_of_invariant (Exact operators ops) preserved _ calls (new_exact within)
    intro run call exact
    exact exact.respects short distinct
  constructor
  · apply EventSystem.EveryStep.everyState (Exact operators ops) _ _ (new_exact within) respected
    · intro run call next exact _ stepped
      exact preserved run call next exact stepped
    · intro run exact
      exact exact.mirror
  · exact respected

/-- Two operators share one level array. -/
def evenLevels (levelsLen : ℕ) : LevelArray := ⟨fun level => .ofInt (level + 1), levelsLen⟩

def readingAt (time : UInt64) (congestLevel : Float64) : Option MonitorReading := some ⟨time, time, congestLevel⟩

theorem priority_respected_twoOperators :
    (system (fun _ : Bool => evenLevels 3) [false, true] fun _ => 2).EveryState (MirrorExact fun _ => evenLevels 3)
        (new [false, true] fun _ => 2) [⟨false, readingAt 2000 (.ofRatio 1 2)⟩, ⟨true, readingAt 4000 (.ofInt 2)⟩] ∧
      (system (fun _ : Bool => evenLevels 3) [false, true] fun _ => 2).EveryStep (Respects fun _ => evenLevels 3)
        (new [false, true] fun _ => 2) [⟨false, readingAt 2000 (.ofRatio 1 2)⟩, ⟨true, readingAt 4000 (.ofInt 2)⟩] :=
  priority_respected [false, true] (by decide) (fun _ => evenLevels 3) (fun _ => 2) (by decide) (by decide) _

/-- The first operator has one level more than an `int` can count. -/
def hugeOperators (later : Bool) : LevelArray := evenLevels (if later then 2 else 2 ^ 31 + 1)

def hugeRun : PolicyRun Bool :=
  step hugeOperators (new [false, true] fun later => if later then 1 else 2 ^ 31)
    ⟨false, readingAt 2000 (.ofInt 1)⟩

/-- The record of a level beyond the `int` range is negative, and the later operator goes down first. -/
theorem priority_lost_hugeOperators :
    (system hugeOperators [false, true] fun later => if later then 1 else 2 ^ 31).Reachable hugeRun ∧
      ¬ hugeRun.MirrorExact hugeOperators ∧
      ¬ hugeRun.Respects hugeOperators ⟨true, readingAt 2000 (.ofRatio 1 2)⟩ := by
  have statuses : hugeRun.statuses = [⟨false, -2 ^ 31, 0, 0, 2000⟩, {op := true}] := by decide +kernel
  have completed : hugeRun.completed false = true := by decide +kernel
  have level : hugeRun.level false = 2 ^ 31 := by decide +kernel
  refine ⟨⟨[⟨false, readingAt 2000 (.ofInt 1)⟩], rfl⟩, ?_, ?_⟩
  · intro mirror
    rw [MirrorExact, statuses, List.forall_mem_cons] at mirror
    have down := (mirror.1 completed).1
    simp only [level] at down
    cases down
  · intro respects
    have delta : (hugeRun.result hugeOperators ⟨true, readingAt 2000 (.ofRatio 1 2)⟩).delta = -1 := by decide +kernel
    have bottom := (respects [_] _ [] statuses rfl).1 (by rw [delta]; decide) _ (List.mem_singleton_self _) completed
    simp only [level] at bottom
    cases bottom

end PolicyRun

end JetStream
