import JetStream.Dataplane.CongestPolicy
import Mathlib.Algebra.Order.Field.Rat
import Mathlib.Tactic.FieldSimp

namespace JetStream

/-- One call reads the clock, the time of the measurement and a ratio of any arithmetic. -/
structure RatioReading (F : Type) where
  now : UInt64
  measurementTime : UInt64
  congestLevel : F

/-- The levels of an operator are ratios of the same arithmetic. -/
structure RatioLevels (F : Type) where
  levels : ℤ → F
  levelsLen : ℕ

/-- The policy compares its ratios with these constants. -/
structure RatioBounds (F : Type) where
  zero : F
  one : F
  degradeBelow : F
  upgradeAbove : F

namespace RatioPolicy

open CongestionPolicy (recentChange)

section Model

variable {F Op : Type} [LT F] [DecidableLT F] [Div F] [Mul F] [DecidableEq Op] (bounds : RatioBounds F)

/-- The search stops at the operator's own record, unless an earlier operator still has the priority. -/
def findStatus (op : Op) (reading : RatioReading F) : List (OperatorState Op) → Option ℕ
  | [] => none
  | status :: statuses =>
      if recentChange status reading.measurementTime ∧ bounds.zero < reading.congestLevel then none
      else if status.op = op then some 0
      else if reading.congestLevel < bounds.one ∧ 0 < status.availStepsDown then none
      else (findStatus op reading statuses).map (· + 1)

/-- An upgrade waits for every later operator. -/
def laterFirst (reading : RatioReading F) (later : List (OperatorState Op)) : Bool :=
  bounds.one < reading.congestLevel ∧
    ∃ status ∈ later, 0 < status.availStepsUp ∨ recentChange status reading.measurementTime

/-- The target goes down until the projected ratio suffices. -/
def degrade (array : RatioLevels F) (congestLevel : F) (curLevel : ℕ) : ℕ → ℕ
  | 0 => 0
  | targStep + 1 =>
      if congestLevel / array.levels (targStep + 1 : ℕ) * array.levels curLevel < bounds.degradeBelow then
        degrade array congestLevel curLevel targStep
      else targStep + 1

/-- The supported step goes up while the ratio of the levels stays below the capacity. -/
def maxSupportedStep (array : RatioLevels F) (capacity : F) (curLevel : ℕ) : ℕ → ℕ → ℕ
  | 0, step => step
  | room + 1, step =>
      if array.levels step / array.levels curLevel < capacity then
        maxSupportedStep array capacity curLevel room (step + 1)
      else step

def shouldUpgrade (array : RatioLevels F) (capacity : F) (curLevel : ℕ) : ℕ :=
  if unsignedPred array.levelsLen ≤ curLevel then curLevel
  else if curLevel = 0 ∧ bounds.zero < capacity then 1
  else (maxSupportedStep array capacity curLevel (array.levelsLen - curLevel) curLevel + curLevel + 1) % 2 ^ 32 / 2

/-- The target is an `int`, and a negative one is left alone. -/
def targetStep (array : RatioLevels F) (congestLevel : F) (curLevel : ℕ) : ℤ :=
  if congestLevel < bounds.degradeBelow then
    if toInt32 curLevel ≤ 0 then toInt32 curLevel else degrade bounds array congestLevel curLevel curLevel
  else if bounds.upgradeAbove < congestLevel then toInt32 (shouldUpgrade bounds array congestLevel curLevel)
  else toInt32 curLevel

/-- The record at the operator's position takes the new level. -/
def recordStep (array : RatioLevels F) (reading : RatioReading F) (curLevel : ℕ) (status : OperatorState Op) :
    ℤ × OperatorState Op :=
  let targStep := targetStep bounds array reading.congestLevel curLevel
  let delta := (targStep - curLevel).bmod (2 ^ 32)
  (delta, {status with
    lastCheck := reading.measurementTime
    lastStateChange := if delta ≠ 0 then reading.now else status.lastStateChange
    availStepsDown := targStep
    availStepsUp := (array.levelsLen - targStep - 1).bmod (2 ^ 32)})

/-- Without a monitor there is no reading, and the step is zero. -/
def getStep (statuses : List (OperatorState Op)) (op : Op) (array : RatioLevels F) (curLevel : ℕ)
    (reading : Option (RatioReading F)) : StepResult Op :=
  match reading with
  | none => ⟨0, statuses, false⟩
  | some reading =>
      match findStatus bounds op reading statuses with
      | none => ⟨0, statuses, false⟩
      | some position =>
          if laterFirst bounds reading (statuses.drop (position + 1)) then ⟨0, statuses, false⟩
          else match statuses[position]? with
            | none => ⟨0, statuses, false⟩
            | some status =>
                if status.lastStateChange < status.lastCheck then
                  let (delta, recorded) := recordStep bounds array reading curLevel status
                  ⟨delta, statuses.set position recorded, true⟩
                else
                  ⟨0, statuses.set position {status with lastCheck := reading.measurementTime}, false⟩

/-- The call is held back by another operator, by a recent change, or until the next check. -/
def suppressed (statuses : List (OperatorState Op)) (op : Op) (reading : RatioReading F) : Bool :=
  match findStatus bounds op reading statuses with
  | none => true
  | some position => laterFirst bounds reading (statuses.drop (position + 1)) ||
      match statuses[position]? with
      | none => true
      | some status => !(status.lastStateChange < status.lastCheck)

end Model

section Steps

variable {F Op : Type} [LT F] [DecidableLT F] [Div F] [Mul F] [DecidableEq Op] {bounds : RatioBounds F}
  {array : RatioLevels F} {curLevel : ℕ}

/-- Only a call that is not held back can give a step. -/
theorem getStep_delta (statuses : List (OperatorState Op)) (op : Op) (reading : RatioReading F) :
    (getStep bounds statuses op array curLevel (some reading)).delta =
      if suppressed bounds statuses op reading then 0
      else (targetStep bounds array reading.congestLevel curLevel - curLevel).bmod (2 ^ 32) := by
  cases found : findStatus bounds op reading statuses with
  | none => simp only [getStep, suppressed, found, if_true]
  | some position =>
      by_cases later : laterFirst bounds reading (statuses.drop (position + 1))
      · simp only [getStep, suppressed, found, later, if_true, Bool.true_or]
      · cases own : statuses[position]? with
        | none => simp only [getStep, suppressed, found, later, own, Bool.or_true, if_true, ite_self]
        | some status =>
            by_cases checked : status.lastStateChange < status.lastCheck
            · simp [getStep, suppressed, found, later, own, checked, recordStep]
            · simp [getStep, suppressed, found, later, own, checked]

/-- The target is the first level downwards whose projected ratio is not too low. -/
theorem degrade_spec (congestLevel : F) (targStep : ℕ) :
    degrade bounds array congestLevel curLevel targStep ≤ targStep ∧
      (degrade bounds array congestLevel curLevel targStep ≠ 0 →
        ¬ congestLevel / array.levels (degrade bounds array congestLevel curLevel targStep : ℕ) * array.levels curLevel <
          bounds.degradeBelow) ∧
      ∀ level, degrade bounds array congestLevel curLevel targStep < level → level ≤ targStep →
        congestLevel / array.levels level * array.levels curLevel < bounds.degradeBelow := by
  induction targStep with
  | zero => exact ⟨le_rfl, fun nonzero => absurd rfl nonzero, fun level above below => by omega⟩
  | succ targStep ih =>
      rw [degrade]
      by_cases low : congestLevel / array.levels (targStep + 1 : ℕ) * array.levels curLevel < bounds.degradeBelow
      · rw [if_pos low]
        refine ⟨ih.1.trans (Nat.le_succ _), ih.2.1, fun level above below => ?_⟩
        rcases Nat.eq_or_lt_of_le below with rfl | earlier
        · exact low
        · exact ih.2.2 level above (Nat.le_of_lt_succ earlier)
      · rw [if_neg low]
        exact ⟨le_rfl, fun _ => low, fun level above below => absurd above (not_lt.mpr below)⟩

omit [Mul F] in
theorem maxSupportedStep_bounds (capacity : F) (room step : ℕ) :
    step ≤ maxSupportedStep array capacity curLevel room step ∧
      maxSupportedStep array capacity curLevel room step ≤ step + room := by
  induction room generalizing step with
  | zero => exact ⟨le_rfl, le_rfl⟩
  | succ room ih =>
      rw [maxSupportedStep]
      split
      · have rest := ih (step + 1)
        omega
      · omega

omit [Mul F] in
/-- Even when the sum of the two levels wraps, the step leads to a level of the array. -/
theorem upgrade_range (within : curLevel < array.levelsLen) (word : array.levelsLen < 2 ^ 32) (capacity : F) :
    0 ≤ curLevel + (toInt32 (shouldUpgrade bounds array capacity curLevel) - curLevel).bmod (2 ^ 32) ∧
      curLevel + (toInt32 (shouldUpgrade bounds array capacity curLevel) - curLevel).bmod (2 ^ 32) <
        array.levelsLen := by
  have supported : _ ∧ maxSupportedStep array capacity curLevel _ _ ≤ _ :=
    maxSupportedStep_bounds capacity (array.levelsLen - curLevel) curLevel
  have top : unsignedPred array.levelsLen = array.levelsLen - 1 := if_neg (by omega)
  rw [shouldUpgrade, top]
  by_cases atTop : array.levelsLen - 1 ≤ curLevel
  · rw [if_pos atTop, CongestionPolicy.toInt32_sub_self]
    omega
  · rw [if_neg atTop]
    split
    · rename_i bottom
      rw [bottom.1]
      have one : (toInt32 1 - (0 : ℕ)).bmod (2 ^ 32) = 1 := by decide
      rw [one]
      omega
    · rw [toInt32_eq (by omega)]
      unfold Int.bmod
      dsimp only
      split <;> omega

end Steps

section Float

/-- The policy runs with these constants in floating point. -/
def floatBounds : RatioBounds Float64 := ⟨.ofInt 0, .ofInt 1, CongestionPolicy.degradeBelow, CongestionPolicy.upgradeAbove⟩

variable {Op : Type} [DecidableEq Op]

theorem findStatus_float (op : Op) (reading : MonitorReading) (statuses : List (OperatorState Op)) :
    findStatus floatBounds op ⟨reading.now, reading.measurementTime, reading.congestLevel⟩ statuses =
      CongestionPolicy.findStatus op reading statuses := by
  induction statuses with
  | nil => rfl
  | cons status statuses ih =>
      rw [findStatus, CongestionPolicy.findStatus, ih]
      rfl

theorem degrade_float (array : LevelArray) (congestLevel : Float64) (curLevel targStep : ℕ) :
    degrade floatBounds ⟨array.levels, array.levelsLen⟩ congestLevel curLevel targStep =
      CongestionPolicy.degrade array congestLevel curLevel targStep := by
  induction targStep with
  | zero => rfl
  | succ targStep ih =>
      rw [degrade, CongestionPolicy.degrade, ih]
      rfl

theorem maxSupportedStep_float (array : LevelArray) (capacity : Float64) (curLevel room step : ℕ) :
    maxSupportedStep ⟨array.levels, array.levelsLen⟩ capacity curLevel room step =
      CongestionPolicy.maxSupportedStep array capacity curLevel room step := by
  induction room generalizing step with
  | zero => rfl
  | succ room ih => rw [maxSupportedStep, CongestionPolicy.maxSupportedStep, ih]

theorem targetStep_float (array : LevelArray) (congestLevel : Float64) (curLevel : ℕ) :
    targetStep floatBounds ⟨array.levels, array.levelsLen⟩ congestLevel curLevel =
      CongestionPolicy.targetStep array congestLevel curLevel := by
  rw [targetStep, CongestionPolicy.targetStep, degrade_float, shouldUpgrade, CongestionPolicy.shouldUpgrade,
    maxSupportedStep_float]
  rfl

/-- The policy in floating point is the same policy over its own arithmetic. -/
theorem getStep_float (statuses : List (OperatorState Op)) (op : Op) (array : LevelArray) (curLevel : ℕ)
    (read : Option MonitorReading) :
    getStep floatBounds statuses op ⟨array.levels, array.levelsLen⟩ curLevel
        (read.map fun reading => ⟨reading.now, reading.measurementTime, reading.congestLevel⟩) =
      CongestionPolicy.getStep statuses op array curLevel read := by
  cases read with
  | none => rfl
  | some reading =>
      simp only [getStep, CongestionPolicy.getStep, Option.map_some, findStatus_float, recordStep,
        CongestionPolicy.recordStep, targetStep_float]
      rfl

end Float

section Rational

/-- The constants of the policy are these rationals. -/
def rationalBounds : RatioBounds ℚ := ⟨0, 1, 95 / 100, 11 / 10⟩

/-- The levels do not decrease, are positive above the first, and are counted by an unsigned word. -/
structure Ascending (array : RatioLevels ℚ) : Prop where
  monotone : ∀ lower upper : ℤ, 0 ≤ lower → lower ≤ upper → upper < array.levelsLen →
    array.levels lower ≤ array.levels upper
  positive : ∀ level : ℤ, 0 < level → level < array.levelsLen → 0 < array.levels level
  word : array.levelsLen < 2 ^ 32

/-- The ratio is projected from the current level to another. -/
def projected (array : RatioLevels ℚ) (congestLevel : ℚ) (curLevel level : ℕ) : ℚ :=
  congestLevel * array.levels curLevel / array.levels level

/-- The target is the greatest level with a projected ratio that suffices, or zero when there is none. -/
def IsDegradeTarget (array : RatioLevels ℚ) (congestLevel : ℚ) (curLevel : ℕ) (target : ℤ) : Prop :=
  (∃ level ≤ curLevel, target = level ∧ 95 / 100 ≤ projected array congestLevel curLevel level ∧
    ∀ higher, level < higher → higher ≤ curLevel → projected array congestLevel curLevel higher < 95 / 100) ∨
  target = 0 ∧ ∀ level ≤ curLevel, projected array congestLevel curLevel level < 95 / 100

variable {Op : Type} [DecidableEq Op]

/-- The step leads to a level of the array, degrades exactly as far as needed, and goes up only with room. -/
structure StepsExactly (statuses : List (OperatorState Op)) (op : Op) (array : RatioLevels ℚ) (curLevel : ℕ)
    (read : Option (RatioReading ℚ)) : Prop where
  range : 0 ≤ curLevel + (getStep rationalBounds statuses op array curLevel read).delta ∧
    curLevel + (getStep rationalBounds statuses op array curLevel read).delta < array.levelsLen
  degrades : ∀ reading ∈ read, suppressed rationalBounds statuses op reading = false →
    reading.congestLevel < 95 / 100 → IsDegradeTarget array reading.congestLevel curLevel
      (curLevel + (getStep rationalBounds statuses op array curLevel read).delta)
  steady : ∀ reading ∈ read, reading.congestLevel ≤ 11 / 10 →
    (getStep rationalBounds statuses op array curLevel read).delta ≤ 0

variable {array : RatioLevels ℚ} {curLevel : ℕ}

theorem projected_eq (congestLevel : ℚ) (level : ℕ) : projected array congestLevel curLevel level =
    congestLevel / array.levels level * array.levels curLevel := (div_mul_eq_mul_div _ _ _).symm

/-- The loop finds the target. -/
theorem degrade_isDegradeTarget (congestLevel : ℚ) :
    IsDegradeTarget array congestLevel curLevel (degrade rationalBounds array congestLevel curLevel curLevel) := by
  obtain ⟨below, reached, higher⟩ : degrade rationalBounds array congestLevel curLevel curLevel ≤ curLevel ∧ _ ∧ _ :=
    degrade_spec congestLevel curLevel
  generalize degrade rationalBounds array congestLevel curLevel curLevel = target at below reached higher ⊢
  have above (level : ℕ) (over_target : target < level) (within : level ≤ curLevel) :
      projected array congestLevel curLevel level < 95 / 100 := by
    rw [projected_eq]
    exact higher level over_target within
  by_cases suffices_here : 95 / 100 ≤ projected array congestLevel curLevel target
  · exact .inl ⟨target, below, rfl, suffices_here, above⟩
  · right
    have zero : target = 0 := by
      by_contra nonzero
      apply suffices_here
      rw [projected_eq]
      exact not_lt.mp (reached nonzero)
    refine ⟨by rw [zero]; rfl, fun level within => ?_⟩
    rcases Nat.eq_or_lt_of_le (show target ≤ level by omega) with rfl | more
    · exact not_le.mp suffices_here
    · exact above level more within

theorem targetStep_rational (congestLevel : ℚ) : targetStep rationalBounds array congestLevel curLevel =
    if congestLevel < 95 / 100 then
      if toInt32 curLevel ≤ 0 then toInt32 curLevel else degrade rationalBounds array congestLevel curLevel curLevel
    else if 11 / 10 < congestLevel then toInt32 (shouldUpgrade rationalBounds array congestLevel curLevel)
    else toInt32 curLevel := rfl

/-- Below the middle of the words the degraded target is the one that is found. -/
theorem targetStep_degrading {congestLevel : ℚ} (low : congestLevel < 95 / 100) (small : curLevel < 2 ^ 31) :
    targetStep rationalBounds array congestLevel curLevel =
      degrade rationalBounds array congestLevel curLevel curLevel := by
  have same : toInt32 curLevel = curLevel := toInt32_eq small
  rw [targetStep_rational, if_pos low, same]
  split
  · rename_i bottom
    obtain rfl : curLevel = 0 := by omega
    rfl
  · rfl

/-- A level in the upper half of the words becomes a negative target, which stays. -/
theorem targetStep_degrading_large {congestLevel : ℚ} (low : congestLevel < 95 / 100) (large : 2 ^ 31 ≤ curLevel)
    (word : curLevel < 2 ^ 32) : targetStep rationalBounds array congestLevel curLevel = toInt32 curLevel := by
  have negative : toInt32 curLevel ≤ 0 := by
    unfold toInt32 Int.bmod
    dsimp only
    split <;> omega
  rw [targetStep_rational, if_pos low, if_pos negative]

/-- The step from the target stays in the array and goes up only with room. -/
theorem targetStep_range (within : curLevel < array.levelsLen) (word : array.levelsLen < 2 ^ 32) (congestLevel : ℚ) :
    (0 ≤ curLevel + (targetStep rationalBounds array congestLevel curLevel - curLevel).bmod (2 ^ 32) ∧
      curLevel + (targetStep rationalBounds array congestLevel curLevel - curLevel).bmod (2 ^ 32) < array.levelsLen) ∧
    (congestLevel ≤ 11 / 10 → (targetStep rationalBounds array congestLevel curLevel - curLevel).bmod (2 ^ 32) ≤ 0) := by
  have stays : (toInt32 curLevel - curLevel).bmod (2 ^ 32) = 0 := CongestionPolicy.toInt32_sub_self curLevel
  by_cases low : congestLevel < 95 / 100
  · by_cases small : curLevel < 2 ^ 31
    · have below : degrade rationalBounds array congestLevel curLevel curLevel ≤ curLevel :=
        (degrade_spec congestLevel curLevel).1
      rw [targetStep_degrading low small, Int.bmod_eq_of_le (by omega) (by omega)]
      omega
    · rw [targetStep_degrading_large low (by omega) (by omega), stays]
      omega
  · rw [targetStep_rational, if_neg low]
    by_cases room : 11 / 10 < congestLevel
    · rw [if_pos room]
      exact ⟨upgrade_range within word congestLevel, fun steady => absurd steady (not_le.mpr room)⟩
    · rw [if_neg room, stays]
      omega

/-- A large level does not degrade although its ratio is too low. -/
theorem not_isDegradeTarget_self {congestLevel : ℚ} (low : congestLevel < 95 / 100) (large : 2 ^ 31 ≤ curLevel)
    (positive : 0 < array.levels curLevel) : ¬ IsDegradeTarget array congestLevel curLevel curLevel := by
  have same : projected array congestLevel curLevel curLevel = congestLevel :=
    mul_div_cancel_right₀ congestLevel positive.ne'
  rintro (⟨level, -, target, reached, -⟩ | ⟨zero, -⟩)
  · obtain rfl : curLevel = level := by exact_mod_cast target
    rw [same] at reached
    exact absurd low (not_lt.mpr reached)
  · omega

theorem stepsExactly_some_iff (statuses : List (OperatorState Op)) (op : Op) (reading : RatioReading ℚ) :
    StepsExactly statuses op array curLevel (some reading) ↔
      (0 ≤ curLevel + (getStep rationalBounds statuses op array curLevel (some reading)).delta ∧
        curLevel + (getStep rationalBounds statuses op array curLevel (some reading)).delta < array.levelsLen) ∧
      (suppressed rationalBounds statuses op reading = false → reading.congestLevel < 95 / 100 →
        IsDegradeTarget array reading.congestLevel curLevel
          (curLevel + (getStep rationalBounds statuses op array curLevel (some reading)).delta)) ∧
      (reading.congestLevel ≤ 11 / 10 →
        (getStep rationalBounds statuses op array curLevel (some reading)).delta ≤ 0) := by
  constructor
  · intro exactly
    exact ⟨exactly.range, exactly.degrades reading rfl, exactly.steady reading rfl⟩
  · rintro ⟨range, degrades, steady⟩
    exact ⟨range, by simpa using degrades, by simpa using steady⟩

/-- A call that is held back stays at its level. -/
theorem stepsExactly_of_suppressed (within : curLevel < array.levelsLen) {statuses : List (OperatorState Op)} {op : Op}
    {reading : RatioReading ℚ} (held : suppressed rationalBounds statuses op reading = true) :
    StepsExactly statuses op array curLevel (some reading) := by
  rw [stepsExactly_some_iff, getStep_delta, if_pos held]
  refine ⟨by omega, fun free => ?_, fun _ => le_rfl⟩
  exact absurd (held.symm.trans free) (by simp)

/-- The step is exact unless a call that is not held back has to degrade from a level in the upper half of the words. -/
theorem getStep_exact_iff (ascending : Ascending array) (within : curLevel < array.levelsLen)
    (statuses : List (OperatorState Op)) (op : Op) (read : Option (RatioReading ℚ)) :
    StepsExactly statuses op array curLevel read ↔ ∀ reading ∈ read,
      suppressed rationalBounds statuses op reading = false → reading.congestLevel < 95 / 100 → curLevel < 2 ^ 31 := by
  have word := ascending.word
  cases read with
  | none => exact iff_of_true ⟨by simpa [getStep] using within, by simp, by simp⟩ (by simp)
  | some reading =>
      simp only [Option.mem_some_iff, forall_eq']
      by_cases held : suppressed rationalBounds statuses op reading
      · exact iff_of_true (stepsExactly_of_suppressed within held) fun free => absurd (held.symm.trans free) (by simp)
      · obtain ⟨range, steady⟩ := targetStep_range within word reading.congestLevel
        rw [stepsExactly_some_iff, getStep_delta, if_neg held, and_iff_right range, and_iff_left steady]
        refine forall_congr' fun _ => forall_congr' fun low => ⟨fun target => ?_, fun small => ?_⟩
        · by_contra large
          rw [targetStep_degrading_large low (by omega) (by omega), CongestionPolicy.toInt32_sub_self, add_zero] at target
          exact not_isDegradeTarget_self low (by omega) (ascending.positive curLevel (by omega) (by omega)) target
        · have below : degrade rationalBounds array reading.congestLevel curLevel curLevel ≤ curLevel :=
            (degrade_spec reading.congestLevel curLevel).1
          rw [targetStep_degrading low small, Int.bmod_eq_of_le (by omega) (by omega), add_sub_cancel]
          exact degrade_isDegradeTarget reading.congestLevel

/-- All levels of a long array are one. -/
def manyLevels : RatioLevels ℚ := ⟨fun _ => 1, 2 ^ 31 + 1⟩

theorem manyLevels_ascending : Ascending manyLevels :=
  ⟨fun _ _ _ _ _ => le_rfl, fun _ _ _ => one_pos, by decide⟩

def halfReading : RatioReading ℚ := ⟨5000, 5000, 1 / 2⟩

/-- A policy with one fresh record does not degrade at half of the needed ratio. -/
theorem getStep_stays_large : Ascending manyLevels ∧ 2 ^ 31 < manyLevels.levelsLen ∧
    ¬ StepsExactly [{op := 0}] (0 : ℕ) manyLevels (2 ^ 31) (some halfReading) := by
  refine ⟨manyLevels_ascending, by decide, fun exactly => ?_⟩
  have free : suppressed rationalBounds [{op := 0}] (0 : ℕ) halfReading = false := by decide +kernel
  have stays : (getStep rationalBounds [{op := 0}] (0 : ℕ) manyLevels (2 ^ 31) (some halfReading)).delta = 0 := by
    decide +kernel
  have target := exactly.degrades halfReading rfl free (by decide +kernel)
  rw [stays, add_zero] at target
  exact not_isDegradeTarget_self (by decide +kernel) (by decide) one_pos target

/-- From the third of three levels the ratio of a half leads down to the first one. -/
theorem getStep_exact_three : StepsExactly [{op := 0}] (0 : ℕ) ⟨fun level => level + 1, 3⟩ 2 (some halfReading) := by
  have ascending : Ascending ⟨fun level => level + 1, 3⟩ := by
    refine ⟨fun lower upper _ order _ => ?_, fun level positive _ => ?_, by decide⟩
    · exact add_le_add (by exact_mod_cast order) le_rfl
    · exact add_pos (by exact_mod_cast positive) one_pos
  exact (getStep_exact_iff ascending (by decide) _ _ _).mpr fun _ _ _ _ => by decide

end Rational

end RatioPolicy

end JetStream
