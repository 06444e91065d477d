import JetStream.Dataplane.RatioPolicy

namespace JetStream

/-- The filter shares its policy with other operators, and `passed` records how many tuples of the window it let through. -/
structure WindowLenFilter (Op : Type) where
  kInWin : ℕ
  bound : ℕ
  errBoundLev : ℤ
  errField : ℤ
  statuses : List (OperatorState Op)
  passed : ℕ

/-- A batch comes with or without the end of a window, and other operators ask the policy too. -/
inductive FilterEvent (Op T : Type) where
  | process (tuples : List (Option T)) (endOfWindow : Bool) (read : Option MonitorReading) (memory : ℤ → Float64)
  | otherStep (op : Op) (array : LevelArray) (curLevel : ℕ) (read : Option MonitorReading)

namespace WindowLenFilter

variable {Op T : Type} [DecidableEq Op]

def uintMax : ℕ := 2 ^ 32 - 1

def levelCount : ℕ := 20

/-- A vector that grows is filled with null pointers. -/
def resize (tuples : List (Option T)) (size : ℕ) : List (Option T) :=
  tuples.take size ++ List.replicate (size - tuples.length) none

/-- The bound of a level is computed in floating point from the tuples of the window. -/
def levelBound (kInWin i : ℕ) : ℕ := (Float64.ofInt kInWin * .ofInt (i + 1 : ℕ) / .ofInt levelCount).truncate.toNat

/-- The last level has no bound. -/
def bounds (kInWin : ℕ) : List ℕ := ((List.range levelCount).map (levelBound kInWin)).set (levelCount - 1) uintMax

/-- The ratios are in a vector, and around it is other memory. -/
def ratios (memory : ℤ → Float64) : LevelArray where
  levels i := if 0 ≤ i ∧ i < levelCount then Float64.ofInt (i + 1) / .ofInt levelCount else memory i
  levelsLen := levelCount

/-- The current level is the first one whose bound reaches the bound of the filter. -/
def curLevel (kInWin bound : ℕ) : ℕ :=
  (List.range levelCount).foldl
    (fun cur i => if cur = levelCount - 1 ∧ bound ≤ levelBound kInWin i then i else cur) (levelCount - 1)

/-- A tuple beyond the bound is read for the error, and the vector is cut there. -/
def cut (numeric : T → ℤ → ℤ) (filter : WindowLenFilter Op) (tuples : List (Option T)) :
    Option (WindowLenFilter Op × List (Option T)) :=
  if filter.bound < filter.kInWin + tuples.length then
    let tuplesToPass := toUInt32 (filter.bound - filter.kInWin)
    if -1 < filter.errField ∧ filter.errBoundLev = 0 then
      (tuples[tuplesToPass]?.join).map fun t =>
        ({filter with errBoundLev := numeric t filter.errField}, resize tuples tuplesToPass)
    else some (filter, resize tuples tuplesToPass)
  else some (filter, tuples)

/-- The end of a window sets the bound for the next one. -/
def endWindow (id : Op) (filter : WindowLenFilter Op) (read : Option MonitorReading) (memory : ℤ → Float64) :
    Option (WindowLenFilter Op) :=
  let level := curLevel filter.kInWin filter.bound
  let result := CongestionPolicy.getStep filter.statuses id (ratios memory) level read
  (bounds filter.kInWin)[addInt level result.delta]?.map fun bound =>
    {filter with kInWin := 0, bound := bound, errBoundLev := 0, statuses := result.statuses, passed := 0}

/-- The tuples that are let through are counted. -/
def process (numeric : T → ℤ → ℤ) (id : Op) (filter : WindowLenFilter Op) (tuples : List (Option T)) (endOfWindow : Bool)
    (read : Option MonitorReading) (memory : ℤ → Float64) : Option (WindowLenFilter Op) := do
  let (filter, tuples) ← filter.cut numeric tuples
  let filter := {filter with
    kInWin := (filter.kInWin + tuples.length) % 2 ^ 32, passed := filter.passed + tuples.length}
  if endOfWindow then filter.endWindow id read memory else some filter

/-- A call of the policy by another operator changes the records. -/
def step (numeric : T → ℤ → ℤ) (id : Op) (filter : WindowLenFilter Op) : FilterEvent Op T → Option (WindowLenFilter Op)
  | .process tuples endOfWindow read memory => filter.process numeric id tuples endOfWindow read memory
  | .otherStep op array curLevel read =>
      some {filter with statuses := (CongestionPolicy.getStep filter.statuses op array curLevel read).statuses}

/-- The counter is not set by `configure`, and the policy has any records. -/
def new (kInWin : UInt32) (errField : ℤ) (statuses : List (OperatorState Op)) : WindowLenFilter Op :=
  ⟨kInWin.toNat, uintMax, 0, errField, statuses, 0⟩

def system (numeric : T → ℤ → ℤ) (id : Op) (kInWin : UInt32) (errField : ℤ) (statuses : List (OperatorState Op)) :
    EventSystem (WindowLenFilter Op) (FilterEvent Op T) :=
  ⟨new kInWin errField statuses, step numeric id⟩

/-- In an uncongested window with enough tuples the reading is at least one, and the filter gets more than it may pass. -/
def Uncongested (bound : ℕ) : FilterEvent Op T → Prop
  | .process tuples endOfWindow read _ => endOfWindow = true ∧ bound ≤ tuples.length ∧
      (∀ tuple ∈ tuples, tuple.isSome) ∧ ∃ reading ∈ read, .ofInt 1 ≤ reading.congestLevel
  | .otherStep _ _ _ _ => False

/-- A finite bound increases in some continuation of uncongested windows. -/
def Recovers (numeric : T → ℤ → ℤ) (id : Op) (filter : WindowLenFilter Op) : Prop :=
  filter.bound < uintMax → ∃ windows : List (FilterEvent Op T), (∀ window ∈ windows, Uncongested filter.bound window) ∧
    ∃ final, windows.foldlM (step numeric id) filter = some final ∧ filter.bound < final.bound

/-- The tuples of the window stay within its bound, also together with the ones that any next batch lets through, which
may be the last of the window. -/
def PassesWithin (numeric : T → ℤ → ℤ) (filter : WindowLenFilter Op) : Prop :=
  filter.passed ≤ filter.bound ∧ ∀ (tuples : List (Option T)) after kept, filter.cut numeric tuples = some (after, kept) →
    filter.passed + kept.length ≤ filter.bound

/-- No more tuples than the bound are passed, and the filter can recover. -/
def Sound (numeric : T → ℤ → ℤ) (id : Op) (filter : WindowLenFilter Op) : Prop :=
  filter.PassesWithin numeric ∧ filter.Recovers numeric id

/-- The filter lets this many tuples of the window through when it gets a batch. -/
def countAfter (filter : WindowLenFilter Op) (size : ℕ) : ℕ := min (filter.kInWin + size) filter.bound

/-- When the policy degrades at the end of a window, some level with a bound above zero suffices, or twenty tuples were
passed, which is enough for the lowest level. -/
def Keeps (id : Op) (filter : WindowLenFilter Op) : FilterEvent Op T → Prop
  | .process tuples endOfWindow read memory => endOfWindow = true → ∀ reading ∈ read,
      RatioPolicy.suppressed RatioPolicy.floatBounds filter.statuses id
        ⟨reading.now, reading.measurementTime, reading.congestLevel⟩ = false →
      reading.congestLevel < CongestionPolicy.degradeBelow → levelCount ≤ filter.countAfter tuples.length ∨
        ∃ level < levelCount,
          (level = levelCount - 1 ∨ levelCount ≤ filter.countAfter tuples.length * (level + 1)) ∧
          ¬ reading.congestLevel / (ratios memory).levels level * (ratios memory).levels (levelCount - 1 : ℕ) <
            CongestionPolicy.degradeBelow
  | .otherStep _ _ _ _ => True

/-- The counts stay below the bound, which is an unsigned word. -/
structure Counted (filter : WindowLenFilter Op) : Prop where
  passed : filter.passed ≤ filter.kInWin
  within : filter.kInWin ≤ filter.bound
  word : filter.bound ≤ uintMax

section Levels

variable {kInWin bound : ℕ}

/-- The floating-point bound of a level is the integer quotient. -/
theorem levelBound_eq (word : kInWin ≤ uintMax) {i : ℕ} (inside : i < levelCount) :
    levelBound kInWin i = kInWin * (i + 1) / levelCount := by
  unfold uintMax at word
  unfold levelCount at inside
  have product : kInWin * (i + 1) ≤ (2 ^ 32 - 1) * 20 := Nat.mul_le_mul word inside
  rw [levelBound, Float64.ofInt_mul_ofInt (by omega) (by omega) (by omega),
    Float64.truncate_ofInt_div (by decide) (by unfold levelCount; omega)]
  rfl

theorem bounds_getElem? (word : kInWin ≤ uintMax) {level : ℕ} (inside : level < levelCount) :
    (bounds kInWin)[level]? =
      some (if level = levelCount - 1 then uintMax else kInWin * (level + 1) / levelCount) := by
  rw [bounds, List.getElem?_set, List.length_map, List.length_range]
  by_cases last : level = levelCount - 1
  · rw [if_pos last.symm, if_pos (by decide), if_pos last]
  · rw [if_neg (Ne.symm last), if_neg last, List.getElem?_map, List.getElem?_range inside, Option.map_some,
      levelBound_eq word inside]

omit [DecidableEq Op] in
theorem Counted.countAfter_le {filter : WindowLenFilter Op} (counted : filter.Counted) (size : ℕ) :
    filter.kInWin ≤ filter.countAfter size ∧ filter.countAfter size ≤ filter.bound := by
  have within := counted.within
  unfold countAfter
  omega

/-- With a bound above zero the window was at the last level. -/
theorem curLevel_of_pos (word : kInWin ≤ uintMax) (within : kInWin ≤ bound) (positive : 0 < bound) :
    curLevel kInWin bound = levelCount - 1 := by
  have stays (levels : List ℕ) (inside : ∀ i ∈ levels, i < levelCount) :
      levels.foldl (fun cur i => if cur = levelCount - 1 ∧ bound ≤ levelBound kInWin i then i else cur)
        (levelCount - 1) = levelCount - 1 := by
    induction levels with
    | nil => rfl
    | cons i levels ih =>
        have here := inside i List.mem_cons_self
        have next : (if levelCount - 1 = levelCount - 1 ∧ bound ≤ levelBound kInWin i then i else levelCount - 1) =
            levelCount - 1 := by
          rw [levelBound_eq word here]
          unfold levelCount at here ⊢
          split
          · rename_i reached
            have scaled := (Nat.le_div_iff_mul_le (by decide)).mp reached.2
            by_contra lower
            have fewer : kInWin * (i + 1) ≤ bound * 19 := Nat.mul_le_mul within (by omega)
            omega
          · rfl
        rw [List.foldl_cons, next]
        exact ih fun j later => inside j (List.mem_cons_of_mem _ later)
  exact stays _ fun i member => List.mem_range.mp member

/-- With a bound of zero the window was at the first level. -/
theorem curLevel_zero : curLevel 0 0 = 0 := by decide +kernel

end Levels

section Policy

variable {statuses : List (OperatorState Op)} {id : Op} {memory : ℤ → Float64}

/-- The step at a level follows from the target unless the call is held back. -/
theorem getStep_ratios_delta (level : ℕ) (reading : MonitorReading) :
    (CongestionPolicy.getStep statuses id (ratios memory) level (some reading)).delta =
      if RatioPolicy.suppressed RatioPolicy.floatBounds statuses id
          ⟨reading.now, reading.measurementTime, reading.congestLevel⟩ then 0
      else (CongestionPolicy.targetStep (ratios memory) reading.congestLevel level - level).bmod (2 ^ 32) := by
  rw [← RatioPolicy.getStep_float, Option.map_some, RatioPolicy.getStep_delta]
  simp only [RatioPolicy.targetStep_float]

/-- The policy leads from the last level to this one. -/
def nextLevel (statuses : List (OperatorState Op)) (id : Op) (memory : ℤ → Float64) : Option MonitorReading → ℕ
  | none => levelCount - 1
  | some reading =>
      if RatioPolicy.suppressed RatioPolicy.floatBounds statuses id
          ⟨reading.now, reading.measurementTime, reading.congestLevel⟩ = false ∧
          reading.congestLevel < CongestionPolicy.degradeBelow then
        CongestionPolicy.degrade (ratios memory) reading.congestLevel (levelCount - 1) (levelCount - 1)
      else levelCount - 1

theorem nextLevel_lt (read : Option MonitorReading) : nextLevel statuses id memory read < levelCount := by
  cases read with
  | none => exact show levelCount - 1 < levelCount by decide
  | some reading =>
      have below := CongestionPolicy.degrade_le (ratios memory) reading.congestLevel (levelCount - 1) (levelCount - 1)
      rw [nextLevel]
      unfold levelCount at below ⊢
      split <;> omega

/-- At the last level the policy can only degrade. -/
theorem targetStep_last (congestLevel : Float64) :
    CongestionPolicy.targetStep (ratios memory) congestLevel (levelCount - 1) =
      (if congestLevel < CongestionPolicy.degradeBelow then
        CongestionPolicy.degrade (ratios memory) congestLevel (levelCount - 1) (levelCount - 1)
      else levelCount - 1 : ℕ) := by
  have last : toInt32 (levelCount - 1) = (levelCount - 1 : ℕ) := by decide
  have full : unsignedPred (ratios memory).levelsLen ≤ levelCount - 1 := le_rfl
  have top : CongestionPolicy.shouldUpgrade (ratios memory) congestLevel (levelCount - 1) = levelCount - 1 := if_pos full
  have positive : ¬ ((levelCount - 1 : ℕ) : ℤ) ≤ 0 := by decide
  rw [CongestionPolicy.targetStep, top, last, ite_self, if_neg positive]
  split <;> rfl

theorem addInt_getStep (read : Option MonitorReading) :
    addInt (levelCount - 1)
        (CongestionPolicy.getStep statuses id (ratios memory) (levelCount - 1) read).delta =
      nextLevel statuses id memory read := by
  have stays : addInt (levelCount - 1) 0 = levelCount - 1 := by decide
  cases read with
  | none => exact stays
  | some reading =>
      rw [getStep_ratios_delta, targetStep_last, nextLevel]
      by_cases held : RatioPolicy.suppressed RatioPolicy.floatBounds statuses id
          ⟨reading.now, reading.measurementTime, reading.congestLevel⟩
      · rw [if_pos held, stays, if_neg (by simp [held])]
      · have below := CongestionPolicy.degrade_le (ratios memory) reading.congestLevel (levelCount - 1) (levelCount - 1)
        rw [if_neg held, eq_false_of_ne_true held]
        by_cases low : reading.congestLevel < CongestionPolicy.degradeBelow
        · rw [if_pos low, if_pos ⟨rfl, low⟩]
          unfold levelCount at below ⊢
          rw [Int.bmod_eq_of_le (by omega) (by omega), addInt, toUInt32]
          omega
        · rw [if_neg low, if_neg (by simp [low]), Int.sub_self]
          exact stays

/-- The policy degrades to the first level downwards whose projected ratio is not too low. -/
theorem degrade_ratios_spec (congestLevel : Float64) (last : ℕ) :
    CongestionPolicy.degrade (ratios memory) congestLevel last last ≤ last ∧
      (CongestionPolicy.degrade (ratios memory) congestLevel last last ≠ 0 →
        ¬ congestLevel / (ratios memory).levels (CongestionPolicy.degrade (ratios memory) congestLevel last last : ℕ) *
          (ratios memory).levels last < CongestionPolicy.degradeBelow) ∧
      ∀ level, CongestionPolicy.degrade (ratios memory) congestLevel last last < level → level ≤ last →
        congestLevel / (ratios memory).levels level * (ratios memory).levels last < CongestionPolicy.degradeBelow := by
  rw [← RatioPolicy.degrade_float]
  exact RatioPolicy.degrade_spec congestLevel last

/-- At the first level the policy goes up by at most one. -/
theorem getStep_first (read : Option MonitorReading) :
    (CongestionPolicy.getStep statuses id (ratios memory) 0 read).delta = 0 ∨
      (CongestionPolicy.getStep statuses id (ratios memory) 0 read).delta = 1 := by
  cases read with
  | none => exact .inl rfl
  | some reading =>
      rw [getStep_ratios_delta]
      split
      · exact .inl rfl
      · have zero : toInt32 0 = 0 := by decide
        rw [CongestionPolicy.targetStep, zero, if_pos le_rfl]
        split
        · exact .inl (by decide)
        · split
          · rename_i room
            have positive : Float64.ofInt 0 < reading.congestLevel := Float64.lt_trans (by decide +kernel) room
            have more : ¬ unsignedPred (ratios memory).levelsLen ≤ 0 := show ¬ unsignedPred levelCount ≤ 0 by decide
            rw [CongestionPolicy.shouldUpgrade, if_neg more, if_pos ⟨rfl, positive⟩]
            exact .inr (by decide)
          · exact .inl (by decide)

end Policy

section Window

variable {id : Op} {memory : ℤ → Float64} {filter next : WindowLenFilter Op}

/-- A window with a bound above zero ends with the bound of the level that the policy leads to. -/
theorem endWindow_pos (counted : filter.Counted) (positive : 0 < filter.bound) (read : Option MonitorReading) :
    filter.endWindow id read memory = some {filter with
      kInWin := 0
      bound := if nextLevel filter.statuses id memory read = levelCount - 1 then uintMax
        else filter.kInWin * (nextLevel filter.statuses id memory read + 1) / levelCount
      errBoundLev := 0
      statuses := (CongestionPolicy.getStep filter.statuses id (ratios memory) (levelCount - 1) read).statuses
      passed := 0} := by
  have word : filter.kInWin ≤ uintMax := counted.within.trans counted.word
  rw [endWindow, curLevel_of_pos word counted.within positive, addInt_getStep, bounds_getElem? word (nextLevel_lt read),
    Option.map_some]

/-- A window with a bound of zero ends with a bound of zero. -/
theorem endWindow_zero (counted : filter.Counted) (zero : filter.bound = 0) {read : Option MonitorReading}
    (ended : filter.endWindow id read memory = some next) : next.bound = 0 := by
  have none_ : filter.kInWin = 0 := by
    have within := counted.within
    omega
  obtain ⟨bound, found, rfl⟩ := Option.map_eq_some_iff.mp ended
  rw [none_, zero, curLevel_zero] at found
  have first : (bounds 0)[0]? = some 0 := by decide +kernel
  have second : (bounds 0)[1]? = some 0 := by decide +kernel
  have steps : (CongestionPolicy.getStep filter.statuses id (ratios memory) 0 read).delta = 0 ∨
      (CongestionPolicy.getStep filter.statuses id (ratios memory) 0 read).delta = 1 := getStep_first read
  rcases steps with same | up
  · rw [same, show addInt 0 0 = 0 by decide, first] at found
    exact (Option.some.inj found).symm
  · rw [up, show addInt 0 1 = 1 by decide, second] at found
    exact (Option.some.inj found).symm

variable {numeric : T → ℤ → ℤ} {tuples : List (Option T)}

omit [DecidableEq Op] in
/-- The room below the bound fits into a word. -/
theorem Counted.room (counted : filter.Counted) :
    toUInt32 (filter.bound - filter.kInWin) = filter.bound - filter.kInWin := by
  have within := counted.within
  have word := counted.word
  unfold uintMax at word
  unfold toUInt32
  omega

omit [DecidableEq Op] in
/-- The cut leaves as many tuples as the bound allows. -/
theorem Counted.cut (counted : filter.Counted) {kept : List (Option T)}
    (cuts : filter.cut numeric tuples = some (next, kept)) :
    (∃ errBoundLev, next = {filter with errBoundLev := errBoundLev}) ∧
      filter.kInWin + kept.length = filter.countAfter tuples.length := by
  have within := counted.within
  unfold WindowLenFilter.cut countAfter at *
  by_cases full : filter.bound < filter.kInWin + tuples.length
  · have length : filter.kInWin + (resize tuples (filter.bound - filter.kInWin)).length =
        min (filter.kInWin + tuples.length) filter.bound := by
      rw [resize, List.length_append, List.length_take, List.length_replicate]
      omega
    rw [if_pos full, counted.room] at cuts
    split at cuts
    · obtain ⟨t, -, same⟩ := Option.map_eq_some_iff.mp cuts
      obtain ⟨rfl, rfl⟩ := Prod.mk.inj same
      exact ⟨⟨_, rfl⟩, length⟩
    · obtain ⟨rfl, rfl⟩ := Prod.mk.inj (Option.some.inj cuts)
      exact ⟨⟨_, rfl⟩, length⟩
  · rw [if_neg full] at cuts
    obtain ⟨rfl, rfl⟩ := Prod.mk.inj (Option.some.inj cuts)
    exact ⟨⟨_, rfl⟩, by omega⟩

/-- The filter has counted the tuples of a batch. -/
def batched (filter : WindowLenFilter Op) (size : ℕ) (errBoundLev : ℤ) : WindowLenFilter Op :=
  {filter with
    errBoundLev := errBoundLev
    kInWin := filter.countAfter size
    passed := filter.passed + (filter.countAfter size - filter.kInWin)}

omit [DecidableEq Op] in
theorem Counted.batched (counted : filter.Counted) (size : ℕ) (errBoundLev : ℤ) :
    (filter.batched size errBoundLev).Counted := by
  have after := counted.countAfter_le size
  have passed := counted.passed
  refine ⟨?_, after.2, counted.word⟩
  show filter.passed + (filter.countAfter size - filter.kInWin) ≤ filter.countAfter size
  omega

/-- A batch that can be cut is counted, and after it the window may end. -/
theorem Counted.process_eq (counted : filter.Counted) {result : WindowLenFilter Op × List (Option T)}
    (cuts : filter.cut numeric tuples = some result) (endOfWindow : Bool) (read : Option MonitorReading) :
    ∃ errBoundLev, filter.process numeric id tuples endOfWindow read memory =
      if endOfWindow then (filter.batched tuples.length errBoundLev).endWindow id read memory
      else some (filter.batched tuples.length errBoundLev) := by
  obtain ⟨after, kept⟩ := result
  obtain ⟨⟨errBoundLev, rfl⟩, length⟩ := counted.cut cuts
  have bounds := counted.countAfter_le tuples.length
  have word := counted.word
  unfold uintMax at word
  have same : WindowLenFilter.batched filter tuples.length errBoundLev = {filter with
      errBoundLev := errBoundLev
      kInWin := (filter.kInWin + kept.length) % 2 ^ 32
      passed := filter.passed + kept.length} := by
    rw [WindowLenFilter.batched, length, Nat.mod_eq_of_lt (by omega), ← length, Nat.add_sub_cancel_left]
  refine ⟨errBoundLev, ?_⟩
  rw [same, process, cuts]
  rfl

theorem Counted.process_cases (counted : filter.Counted) {endOfWindow : Bool} {read : Option MonitorReading}
    (processed : filter.process numeric id tuples endOfWindow read memory = some next) : ∃ errBoundLev,
      (if endOfWindow then (filter.batched tuples.length errBoundLev).endWindow id read memory
        else some (filter.batched tuples.length errBoundLev)) = some next := by
  obtain ⟨result, cuts, -⟩ := Option.bind_eq_some_iff.mp processed
  obtain ⟨errBoundLev, same⟩ := counted.process_eq cuts endOfWindow read
  exact ⟨errBoundLev, same.symm.trans processed⟩

theorem Counted.endWindow (counted : filter.Counted) {read : Option MonitorReading}
    (ended : filter.endWindow id read memory = some next) : next.Counted := by
  rcases Nat.eq_zero_or_pos filter.bound with zero | positive
  · have stays := endWindow_zero counted zero ended
    obtain ⟨bound, -, rfl⟩ := Option.map_eq_some_iff.mp ended
    exact ⟨le_rfl, Nat.zero_le _, stays.le.trans (Nat.zero_le _)⟩
  · rw [endWindow_pos counted positive] at ended
    obtain rfl := Option.some.inj ended
    refine ⟨le_rfl, Nat.zero_le _, ?_⟩
    dsimp only
    split
    · exact le_rfl
    · have inside : nextLevel filter.statuses id memory read < levelCount := nextLevel_lt read
      have word := counted.within.trans counted.word
      refine le_trans (Nat.div_le_of_le_mul ?_) word
      rw [Nat.mul_comm levelCount]
      exact Nat.mul_le_mul_left _ inside

theorem Counted.step (counted : filter.Counted) {event : FilterEvent Op T}
    (stepped : filter.step numeric id event = some next) : next.Counted := by
  cases event with
  | process tuples endOfWindow read memory =>
      obtain ⟨errBoundLev, ended⟩ := counted.process_cases stepped
      split at ended
      · exact (counted.batched tuples.length errBoundLev).endWindow ended
      · obtain rfl := Option.some.inj ended
        exact counted.batched tuples.length errBoundLev
  | otherStep op array curLevel read =>
      obtain rfl := Option.some.inj stepped
      exact ⟨counted.passed, counted.within, counted.word⟩

/-- Once the bound is zero it stays zero. -/
theorem Counted.step_zero (counted : filter.Counted) (zero : filter.bound = 0) {event : FilterEvent Op T}
    (stepped : filter.step numeric id event = some next) : next.bound = 0 := by
  cases event with
  | process tuples endOfWindow read memory =>
      obtain ⟨errBoundLev, ended⟩ := counted.process_cases stepped
      split at ended
      · exact endWindow_zero (counted.batched tuples.length errBoundLev) zero ended
      · obtain rfl := Option.some.inj ended
        exact zero
  | otherStep op array curLevel read =>
      obtain rfl := Option.some.inj stepped
      exact zero

theorem Counted.run_zero (counted : filter.Counted) (zero : filter.bound = 0) {events : List (FilterEvent Op T)}
    (ran : events.foldlM (WindowLenFilter.step numeric id) filter = some next) : next.bound = 0 := by
  induction events generalizing filter with
  | nil =>
      obtain rfl := Option.some.inj ran
      exact zero
  | cons event events ih =>
      obtain ⟨after, stepped, rest⟩ := Option.bind_eq_some_iff.mp ran
      exact ih (counted.step stepped) (counted.step_zero zero stepped) rest

omit [DecidableEq Op] in
/-- Tuples that are there can be cut. -/
theorem Counted.exists_cut (counted : filter.Counted) (present : ∀ tuple ∈ tuples, tuple.isSome) :
    ∃ result, filter.cut numeric tuples = some result := by
  have within := counted.within
  unfold WindowLenFilter.cut
  split
  · rename_i full
    dsimp only
    rw [counted.room]
    split
    · have inside : filter.bound - filter.kInWin < tuples.length := by omega
      obtain ⟨t, found⟩ := Option.isSome_iff_exists.mp (present _ (List.getElem_mem inside))
      rw [List.getElem?_eq_getElem inside, found]
      exact ⟨_, rfl⟩
    · exact ⟨_, rfl⟩
  · exact ⟨_, rfl⟩

/-- One uncongested window takes the bound away. -/
theorem Counted.recover (counted : filter.Counted) (positive : 0 < filter.bound) (present : ∀ tuple ∈ tuples, tuple.isSome)
    {reading : MonitorReading} (uncongested : ¬ reading.congestLevel < CongestionPolicy.degradeBelow) :
    ∃ final, filter.step numeric id (.process tuples true (some reading) memory) = some final ∧ final.bound = uintMax := by
  obtain ⟨result, cuts⟩ := @Counted.exists_cut _ _ _ numeric _ counted present
  obtain ⟨errBoundLev, processed⟩ := @Counted.process_eq _ _ _ id memory _ _ _ counted _ cuts true (some reading)
  have level : nextLevel filter.statuses id memory (some reading) = levelCount - 1 := if_neg fun low => uncongested low.2
  rw [if_pos rfl, endWindow_pos (counted.batched tuples.length errBoundLev) positive] at processed
  exact ⟨_, processed, if_pos level⟩

/-- The bound of a level is above zero at the last level, and below it when the window was long enough. -/
theorem levelBound_pos_iff (kInWin target : ℕ) :
    0 < (if target = levelCount - 1 then uintMax else kInWin * (target + 1) / levelCount) ↔
      target = levelCount - 1 ∨ levelCount ≤ kInWin * (target + 1) := by
  split
  · rename_i last
    exact iff_of_true (by decide) (.inl last)
  · rename_i lower
    rw [Nat.div_pos_iff, or_iff_right lower]
    exact and_iff_right (by decide)

/-- A degradation leaves a bound above zero exactly when some level that it may stop at does. -/
theorem degrade_enough_iff (congestLevel : Float64) (kInWin : ℕ) :
    (CongestionPolicy.degrade (ratios memory) congestLevel (levelCount - 1) (levelCount - 1) = levelCount - 1 ∨
        levelCount ≤ kInWin *
          (CongestionPolicy.degrade (ratios memory) congestLevel (levelCount - 1) (levelCount - 1) + 1)) ↔
      levelCount ≤ kInWin ∨ ∃ level < levelCount, (level = levelCount - 1 ∨ levelCount ≤ kInWin * (level + 1)) ∧
        ¬ congestLevel / (ratios memory).levels level * (ratios memory).levels (levelCount - 1 : ℕ) <
          CongestionPolicy.degradeBelow := by
  have spec := @degrade_ratios_spec memory congestLevel (levelCount - 1)
  generalize CongestionPolicy.degrade (ratios memory) congestLevel (levelCount - 1) (levelCount - 1) = target at spec ⊢
  obtain ⟨below, reached, higher⟩ := spec
  constructor
  · intro enough
    by_cases bottom : target = 0
    · subst bottom
      rcases enough with last | many
      · exact absurd last (by decide)
      · exact .inl (by simpa using many)
    · exact .inr ⟨target, Nat.lt_of_le_of_lt below (by decide), enough, reached bottom⟩
  · rintro (many | ⟨level, inside, enough, projects⟩)
    · exact .inr (many.trans (Nat.le_mul_of_pos_right _ (Nat.succ_pos target)))
    · have order : level ≤ target := by
        by_contra above
        exact projects (higher level (not_le.mp above) (Nat.le_sub_one_of_lt inside))
      rcases enough with rfl | many
      · exact .inl (le_antisymm below order)
      · exact .inr (many.trans (Nat.mul_le_mul_left _ (Nat.succ_le_succ order)))

/-- A batch that ends a window leaves a bound above zero exactly when the policy does not degrade too far. -/
theorem Counted.endWindow_pos_iff (counted : filter.Counted) (positive : 0 < filter.bound) {read : Option MonitorReading}
    (ended : filter.endWindow id read memory = some next) : 0 < next.bound ↔ ∀ reading ∈ read,
      RatioPolicy.suppressed RatioPolicy.floatBounds filter.statuses id
        ⟨reading.now, reading.measurementTime, reading.congestLevel⟩ = false →
      reading.congestLevel < CongestionPolicy.degradeBelow → levelCount ≤ filter.kInWin ∨
        ∃ level < levelCount, (level = levelCount - 1 ∨ levelCount ≤ filter.kInWin * (level + 1)) ∧
          ¬ reading.congestLevel / (ratios memory).levels level * (ratios memory).levels (levelCount - 1 : ℕ) <
            CongestionPolicy.degradeBelow := by
  rw [endWindow_pos counted positive] at ended
  obtain rfl := Option.some.inj ended
  dsimp only
  rw [levelBound_pos_iff]
  cases read with
  | none => exact iff_of_true (.inl rfl) (by simp)
  | some reading =>
      simp only [Option.mem_some_iff, forall_eq']
      by_cases degrades : RatioPolicy.suppressed RatioPolicy.floatBounds filter.statuses id
          ⟨reading.now, reading.measurementTime, reading.congestLevel⟩ = false ∧
          reading.congestLevel < CongestionPolicy.degradeBelow
      · rw [nextLevel, if_pos degrades, forall_prop_of_true degrades.1, forall_prop_of_true degrades.2]
        exact degrade_enough_iff reading.congestLevel filter.kInWin
      · rw [nextLevel, if_neg degrades]
        exact iff_of_true (.inl rfl) fun free low => absurd ⟨free, low⟩ degrades

/-- A filter can recover exactly when its bound is above zero. -/
theorem Counted.recovers_iff [Inhabited T] (counted : filter.Counted) :
    filter.Recovers numeric id ↔ 0 < filter.bound := by
  constructor
  · intro recovers
    by_contra stuck
    have zero : filter.bound = 0 := by omega
    obtain ⟨windows, -, final, ran, more⟩ := recovers (by rw [zero]; decide)
    have stays := counted.run_zero zero ran
    omega
  · intro positive finite_
    have present : ∀ tuple ∈ List.replicate filter.bound (some (default : T)), tuple.isSome := by
      intro tuple member
      rw [List.eq_of_mem_replicate member]
      rfl
    have calm : ¬ Float64.ofInt 2 < CongestionPolicy.degradeBelow := by decide +kernel
    obtain ⟨final, stepped, unbounded⟩ := @Counted.recover _ _ _ id (fun _ => .ofInt 0) _ numeric _ counted positive
      present ⟨0, 0, .ofInt 2⟩ calm
    refine ⟨[.process (List.replicate filter.bound (some default)) true (some ⟨0, 0, .ofInt 2⟩) fun _ => .ofInt 0], ?_,
      final, ?_, unbounded ▸ finite_⟩
    · intro window member
      rw [List.mem_singleton.mp member]
      exact ⟨rfl, by rw [List.length_replicate], present, _, rfl, by decide +kernel⟩
    · rw [List.foldlM_cons, stepped]
      rfl

omit [DecidableEq Op] in
theorem Counted.passesWithin (counted : filter.Counted) : filter.PassesWithin numeric := by
  refine ⟨counted.passed.trans counted.within, ?_⟩
  intro tuples after kept cuts
  have length := (counted.cut cuts).2
  have within := (counted.countAfter_le tuples.length).2
  have passed := counted.passed
  omega

theorem Counted.sound_iff [Inhabited T] (counted : filter.Counted) :
    filter.Sound numeric id ↔ 0 < filter.bound := by
  rw [Sound, counted.recovers_iff]
  exact and_iff_right counted.passesWithin

/-- A step from a bound above zero keeps it above zero exactly when it meets the condition. -/
theorem Counted.step_sound_iff [Inhabited T] (counted : filter.Counted) (sound : filter.Sound numeric id)
    {event : FilterEvent Op T} (stepped : filter.step numeric id event = some next) :
    next.Sound numeric id ↔ filter.Keeps id event := by
  have positive := counted.sound_iff.mp sound
  rw [(counted.step stepped).sound_iff]
  cases event with
  | process tuples endOfWindow read memory =>
      obtain ⟨errBoundLev, ended⟩ := counted.process_cases stepped
      cases endOfWindow with
      | true =>
          have kept := (counted.batched tuples.length errBoundLev).endWindow_pos_iff positive ended
          exact ⟨fun bounded _ => kept.mp bounded, fun keeps => kept.mpr (keeps rfl)⟩
      | false =>
          obtain rfl := Option.some.inj ended
          exact iff_of_true positive fun ends => absurd ends Bool.false_ne_true
  | otherStep op array curLevel read =>
      obtain rfl := Option.some.inj stepped
      exact iff_of_true positive trivial

end Window

omit [DecidableEq Op] in
theorem new_counted (kInWin : UInt32) (errField : ℤ) (statuses : List (OperatorState Op)) :
    (new kInWin errField statuses).Counted := by
  have word := kInWin.toNat_lt
  refine ⟨Nat.zero_le _, ?_, le_rfl⟩
  show kInWin.toNat ≤ uintMax
  unfold uintMax
  omega

/-- The filter passes no more than its bound and can recover in every state of a run exactly when no window ends with a
degradation to a bound of zero. -/
theorem filter_recovers_iff [Inhabited T] (numeric : T → ℤ → ℤ) (id : Op) (kInWin : UInt32) (errField : ℤ)
    (statuses : List (OperatorState Op)) (events : List (FilterEvent Op T)) :
    (system numeric id kInWin errField statuses).EveryState (Sound numeric id) (new kInWin errField statuses) events ↔
      (system numeric id kInWin errField statuses).EveryStep (Keeps id) (new kInWin errField statuses) events := by
  have start := new_counted kInWin errField statuses
  apply EventSystem.everyState_iff Counted _ _ events start
  · exact start.sound_iff.mpr (show 0 < uintMax by decide)
  · exact fun _ _ _ counted stepped => counted.step stepped
  · exact fun _ _ _ counted sound stepped => counted.step_sound_iff sound stepped

/-- Three tuples end a window at a tenth of the needed capacity. -/
def congestedWindow : FilterEvent ℕ ℕ :=
  .process [some 1, some 2, some 3] true (some ⟨5000, 5000, .ofRatio 1 10⟩) fun _ => .ofInt 0

/-- These tuples are their own values. -/
def ownValue (t : ℕ) (_ : ℤ) : ℤ := t

/-- After a small congested window the bound is zero, and it stays zero. -/
theorem filter_stuck_at_zero : ¬ ∀ events : List (FilterEvent ℕ ℕ),
    (system ownValue 0 0 (-1) [{op := 0}]).EveryState (Sound ownValue 0) (new 0 (-1) [{op := 0}]) events := by
  intro every
  have bounded : (step ownValue 0 (new 0 (-1) [{op := 0}]) congestedWindow).map WindowLenFilter.bound = some 0 := by
    decide +kernel
  obtain ⟨next, stepped, zero⟩ := Option.map_eq_some_iff.mp bounded
  have sound : next.Sound ownValue 0 := (every [congestedWindow]).2 next stepped
  have counted : next.Counted := (new_counted 0 (-1) [{op := 0}]).step stepped
  exact absurd (counted.sound_iff.mp sound) (by omega)

end WindowLenFilter

end JetStream
