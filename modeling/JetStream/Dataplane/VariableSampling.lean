import JetStream.Dataplane.DegradeSummary
import JetStream.Lib.EventSystem
import JetStream.Utils.ReadInts

namespace JetStream

/-- The options of the operator are texts, and a missing one is empty. -/
structure SamplingConfig where
  steps : String := ""
  fraction : String := ""
  hashField : String := ""
  hashType : String := ""

/-- A tuple passes when the hash of its field reaches the threshold. -/
structure VariableSampling where
  hashField : ℤ
  hashType : Char
  curStep : ℕ
  steps : List Float64
  threshold : ℕ

/-- At the end of a window the policy is asked with its records, a reading of its monitor and the memory around the
levels. -/
structure SamplingCall (Op : Type) where
  statuses : List (OperatorState Op)
  id : Op
  reading : Option MonitorReading
  outside : ℤ → Float64

namespace VariableSampling

/-- This is the largest `uint32`. -/
def maxWord : ℕ := 2 ^ 32 - 1

/-- The steps go up from zero to one, in equal parts. -/
def ladder (numSteps : ℕ) : List Float64 :=
  (List.range numSteps).map fun i => .ofInt i / .ofInt (unsignedPred numSteps)

/-- The conversion to `uint32` is defined when the value fits. -/
def thresh (level : Float64) : Option ℕ := ((.ofInt 1 - level) * .ofInt maxWord).toWord

def readSteps (text : String) : Except String ℕ :=
  if text.length = 0 then .ok 11
  else match readUnsignedText text.toList with
    | some numSteps => .ok numSteps
    | none => .error "steps must be an int"

/-- A fraction that is missing or no number counts as zero. -/
def fractionThreshold (config : SamplingConfig) : Option ℕ :=
  ((readDouble config.fraction.toList).getD (.ofInt 0) * .ofInt maxWord).toWord

/-- The operator starts at its last step. A fraction gives the first threshold, and its conversion can be undefined. -/
def configure (config : SamplingConfig) : Except String (Option VariableSampling) :=
  (readSteps config.steps).bind fun numSteps =>
    match readInt config.hashField.toList with
    | none => .error "hash_field must be an int"
    | some (hashField, _) =>
        match config.hashType.toList with
        | [] => .error "hash_type must be defined"
        | hashType :: _ => .ok ((fractionThreshold config).map fun threshold =>
            ⟨hashField, hashType, unsignedPred numSteps, ladder numSteps, threshold⟩)

/-- The operator passes its steps by a pointer, and their number keeps 32 bits. -/
def levelArray (op : VariableSampling) (outside : ℤ → Float64) : LevelArray where
  levels index := if 0 ≤ index then op.steps.getD index.toNat (outside index) else outside index
  levelsLen := op.steps.length % 2 ^ 32

variable {Op T : Type} [DecidableEq Op]

def delta (op : VariableSampling) (call : SamplingCall Op) : ℤ :=
  (CongestionPolicy.getStep call.statuses call.id (op.levelArray call.outside) op.curStep call.reading).delta

/-- The step changes with its threshold, and the marker gets the step as its filter level. Nothing is returned when this
reads outside of the steps or when a conversion is undefined, while the policy may look one level further. -/
def endOfWindow (op : VariableSampling) (call : SamplingCall Op) : Option (VariableSampling × Float64) :=
  if op.delta call = 0 then op.steps[op.curStep]?.map fun level => (op, level)
  else do
    let curStep := addInt op.curStep (op.delta call)
    let level ← op.steps[curStep]?
    let threshold ← thresh level
    some ({op with curStep := curStep, threshold := threshold}, level)

/-- These types of a field can be hashed. -/
def hashTypes : List Char := ['I', 'D', 'S', 'T']

def passes (op : VariableSampling) (hashval : ℕ) : Bool := op.threshold ≤ hashval

/-- A field of another type is a fatal error, which is no result. -/
def shouldEmit (op : VariableSampling) (hash : Char → ℤ → T → ℕ) (t : T) : Option Bool :=
  if op.hashType ∈ hashTypes then some (op.passes (hash op.hashType op.hashField t)) else none

def emitted (op : VariableSampling) (hash : Char → ℤ → T → ℕ) : List T → Option (List T)
  | [] => some []
  | t :: tuples => do
      let emits ← op.shouldEmit hash t
      let rest ← op.emitted hash tuples
      some (if emits then t :: rest else rest)

/-- The tuples of a call are filtered before the end of their window. -/
def process (op : VariableSampling) (hash : Char → ℤ → T → ℕ) (tuples : List T) (window : Option (SamplingCall Op)) :
    Option (VariableSampling × List T × Option Float64) := do
  let passed ← op.emitted hash tuples
  match window with
  | none => some (op, passed, none)
  | some call => (op.endOfWindow call).map fun (op, level) => (op, passed, some level)

/-- Tuples come in with or without the end of their window. -/
def system (Op : Type) [DecidableEq Op] (hash : Char → ℤ → T → ℕ) (start : VariableSampling) :
    EventSystem VariableSampling (List T × Option (SamplingCall Op)) :=
  ⟨start, fun op event => (op.process hash event.1 event.2).map Prod.fst⟩

theorem endOfWindow_eq {op : VariableSampling} {call : SamplingCall Op} {level : Float64} {threshold : ℕ}
    (moves : op.delta call ≠ 0) (step : op.steps[addInt op.curStep (op.delta call)]? = some level)
    (converted : thresh level = some threshold) : op.endOfWindow call =
      some ({op with curStep := addInt op.curStep (op.delta call), threshold := threshold}, level) := by
  rw [endOfWindow, if_neg moves]
  simp only [step, converted, Option.bind_eq_bind, Option.bind_some]

section Threshold

variable {n i j count : ℕ}

/-- These are the units of a step. -/
def levelUnits (n i : ℕ) : ℕ := Float64.roundUnits (i * Float64.one) (n - 1)

/-- These are the units of the threshold before it is cut to an integer. -/
def threshUnits (count n i : ℕ) : ℕ :=
  Float64.roundUnits (Float64.roundUnits (Float64.one - levelUnits n i) 1 * count) 1

theorem levelUnits_le (several : 2 ≤ n) (within : i < n) : levelUnits n i ≤ Float64.one := by
  have positive : 0 < n - 1 := by omega
  have scaled := Float64.roundUnits_mul_mul positive Float64.one 1
  rw [Nat.mul_one, Float64.roundUnits_one] at scaled
  exact (Float64.roundUnits_mono positive (Nat.mul_le_mul_right _ (by omega))).trans scaled.le

theorem levelUnits_mono (several : 2 ≤ n) (less : i ≤ j) : levelUnits n i ≤ levelUnits n j :=
  Float64.roundUnits_mono (by omega) (Nat.mul_le_mul_right _ less)

theorem levelUnits_last (several : 2 ≤ n) : levelUnits n (n - 1) = Float64.one := by
  have scaled := Float64.roundUnits_mul_mul (show 0 < n - 1 by omega) Float64.one 1
  rw [Nat.mul_one, Float64.roundUnits_one] at scaled
  exact scaled

theorem level_eq (several : 2 ≤ n) (word : n < 2 ^ 32) (within : i < n) :
    Float64.ofInt i / Float64.ofInt (unsignedPred n) = .finite false (levelUnits n i) := by
  have last : unsignedPred n = n - 1 := if_neg (by omega)
  have positive : 0 < n - 1 := by omega
  have scaled : Float64.roundUnits (i * Float64.one * Float64.one) ((n - 1) * Float64.one) = levelUnits n i := by
    rw [Nat.mul_comm _ Float64.one, Nat.mul_comm (n - 1), Float64.roundUnits_mul_mul Float64.one_pos, levelUnits]
  have small : levelUnits n i < Float64.limit := (levelUnits_le several within).trans_lt Float64.one_lt_limit
  rw [last, Float64.ofInt_natCast (show i < 2 ^ 53 by omega), Float64.ofInt_natCast (show n - 1 < 2 ^ 53 by omega),
    Float64.finite_div_finite (Nat.mul_pos positive Float64.one_pos),
    Float64.round_eq_finite (by rw [scaled]; exact small), scaled]

/-- The rest of a step up to one is rounded once. -/
theorem one_sub_eq {units : ℕ} (below : units ≤ Float64.one) :
    Float64.ofInt 1 - .finite false units = .finite false (Float64.roundUnits (Float64.one - units) 1) := by
  rw [Float64.ofInt_one]
  show Float64.addFinite false Float64.one true units = _
  have difference : Float64.value false Float64.one + Float64.value true units = ((Float64.one - units : ℕ) : ℤ) := by
    simp only [Float64.value, if_true, Bool.false_eq_true, if_false]
    omega
  have small : Float64.roundUnits (Float64.one - units) 1 < Float64.limit :=
    (Float64.roundUnits_le_one (Nat.sub_le _ _)).trans_lt Float64.one_lt_limit
  unfold Float64.addFinite
  dsimp only
  rw [difference]
  split_ifs with zero
  · have rest : Float64.one - units = 0 := by exact_mod_cast zero
    rw [rest]
    rfl
  · have sign : decide (((Float64.one - units : ℕ) : ℤ) < 0) = false :=
      decide_eq_false (by omega)
    rw [Int.natAbs_natCast, sign, Float64.round_eq_finite small]

theorem roundUnits_mul_one (bits : count < 2 ^ 53) : Float64.roundUnits (count * Float64.one) 1 = count * Float64.one :=
  Float64.roundUnits_mul_two_pow bits

theorem threshUnits_le (bits : count < 2 ^ 53) (n i : ℕ) : threshUnits count n i ≤ count * Float64.one := by
  have rest : Float64.roundUnits (Float64.one - levelUnits n i) 1 ≤ Float64.one :=
    Float64.roundUnits_le_one (Nat.sub_le _ _)
  have below : Float64.roundUnits (Float64.one - levelUnits n i) 1 * count ≤ count * Float64.one := by
    rw [Nat.mul_comm]
    exact Nat.mul_le_mul_left _ rest
  exact (Float64.roundUnits_mono Nat.one_pos below).trans (roundUnits_mul_one bits).le

/-- A higher step has a lower threshold. -/
theorem threshUnits_antitone (count : ℕ) (several : 2 ≤ n) (less : i ≤ j) :
    threshUnits count n j ≤ threshUnits count n i := by
  have rest : Float64.one - levelUnits n j ≤ Float64.one - levelUnits n i :=
    Nat.sub_le_sub_left (levelUnits_mono several less) _
  exact Float64.roundUnits_mono Nat.one_pos (Nat.mul_le_mul_right _ (Float64.roundUnits_mono Nat.one_pos rest))

theorem finite_mul_ofInt (bits : count < 2 ^ 53) (n i : ℕ) :
    Float64.finite false (Float64.roundUnits (Float64.one - levelUnits n i) 1) * Float64.ofInt count =
      .finite false (threshUnits count n i) := by
  have small : threshUnits count n i < Float64.limit :=
    (threshUnits_le bits n i).trans_lt (Float64.mul_one_lt_limit bits)
  have cancelled := Float64.roundUnits_mul_mul Float64.one_pos
    (Float64.roundUnits (Float64.one - levelUnits n i) 1 * count) 1
  rw [threshUnits] at small ⊢
  generalize Float64.roundUnits (Float64.one - levelUnits n i) 1 = units at small cancelled ⊢
  rw [Nat.mul_one] at cancelled
  have scaled : Float64.roundUnits (units * (count * Float64.one)) Float64.one =
      Float64.roundUnits (units * count) 1 := by
    rw [← Nat.mul_assoc, Nat.mul_comm _ Float64.one, cancelled]
  rw [Float64.ofInt_natCast bits]
  show Float64.round (false ^^ false) (units * (count * Float64.one)) Float64.one = _
  rw [Float64.round_eq_finite (by rw [scaled]; exact small), scaled]
  rfl

theorem toWord_eq {units whole : ℕ} (cut : units / Float64.one = whole) (fits : whole < 2 ^ 32) :
    (Float64.finite false units).toWord = some whole := by
  have inside : (0 : ℤ) ≤ (whole : ℤ) ∧ (whole : ℤ) < 2 ^ 32 := by omega
  simp only [Float64.toWord, Float64.truncate_finite, cut]
  rw [if_pos inside, Int.toNat_natCast]

theorem toWord_threshUnits (bits : count < 2 ^ 32) (n i : ℕ) :
    (Float64.finite false (threshUnits count n i)).toWord = some (threshUnits count n i / Float64.one) := by
  have below : threshUnits count n i ≤ Float64.one * count := by
    rw [Nat.mul_comm Float64.one]
    exact threshUnits_le (bits.trans (by decide)) n i
  have whole : threshUnits count n i / Float64.one ≤ count := Nat.div_le_of_le_mul below
  exact toWord_eq rfl (whole.trans_lt bits)

theorem maxWord_lt : maxWord < 2 ^ 32 := by decide

theorem thresh_eq (several : 2 ≤ n) (word : n < 2 ^ 32) (within : i < n) :
    thresh (Float64.ofInt i / Float64.ofInt (unsignedPred n)) = some (threshUnits maxWord n i / Float64.one) := by
  rw [thresh, level_eq several word within, one_sub_eq (levelUnits_le several within),
    finite_mul_ofInt (maxWord_lt.trans (by decide)), toWord_threshUnits maxWord_lt]

theorem roundUnits_zero {denominator : ℕ} (positive : 0 < denominator) : Float64.roundUnits 0 denominator = 0 := by
  simp [Float64.roundUnits, Float64.nearestEven, positive.ne']

theorem threshUnits_last (count : ℕ) (several : 2 ≤ n) : threshUnits count n (n - 1) = 0 := by
  rw [threshUnits, levelUnits_last several, Nat.sub_self, roundUnits_zero Nat.one_pos, Nat.zero_mul,
    roundUnits_zero Nat.one_pos]

theorem threshUnits_zero (bits : count < 2 ^ 53) (several : 2 ≤ n) : threshUnits count n 0 = count * Float64.one := by
  have nothing : levelUnits n 0 = 0 := by
    rw [levelUnits, Nat.zero_mul]
    exact roundUnits_zero (by omega)
  rw [threshUnits, nothing, Nat.sub_zero, Float64.roundUnits_one, Nat.mul_comm]
  exact roundUnits_mul_one bits

end Threshold

theorem ladder_getElem? {n i : ℕ} (within : i < n) :
    (ladder n)[i]? = some (.ofInt i / .ofInt (unsignedPred n)) := by
  rw [ladder, List.getElem?_map, List.getElem?_range within]
  rfl

theorem ladder_length (n : ℕ) : (ladder n).length = n := by rw [ladder, List.length_map, List.length_range]

/-- A tuple is hashed unless its field has an unknown type. -/
theorem isSome_emitted_iff {op : VariableSampling} {hash : Char → ℤ → T → ℕ} {tuples : List T} :
    (op.emitted hash tuples).isSome ↔ op.hashType ∈ hashTypes ∨ tuples = [] := by
  induction tuples with
  | nil => exact iff_of_true rfl (Or.inr rfl)
  | cons t tuples ih =>
      rw [emitted, shouldEmit]
      by_cases known : op.hashType ∈ hashTypes
      · obtain ⟨rest, later⟩ := Option.isSome_iff_exists.mp (ih.mpr (Or.inl known))
        simp [known, later]
      · simp [known]

theorem endOfWindow_hashes {op next : VariableSampling} {call : SamplingCall Op} {level : Float64}
    (closed : op.endOfWindow call = some (next, level)) :
    next.hashField = op.hashField ∧ next.hashType = op.hashType := by
  rw [endOfWindow] at closed
  split_ifs at closed
  · obtain ⟨other, -, same⟩ := Option.map_eq_some_iff.mp closed
    obtain ⟨rfl, -⟩ := Prod.mk.inj same
    exact ⟨rfl, rfl⟩
  · simp only [Option.bind_eq_bind, Option.bind_eq_some_iff] at closed
    obtain ⟨other, -, threshold, -, made⟩ := closed
    obtain ⟨rfl, -⟩ := Prod.mk.inj (Option.some.inj made)
    exact ⟨rfl, rfl⟩

/-- Only the end of a window changes the operator. -/
theorem step_cases {op next start : VariableSampling} {hash : Char → ℤ → T → ℕ}
    {event : List T × Option (SamplingCall Op)} (stepped : (system Op hash start).step op event = some next) :
    next = op ∨ ∃ (call : SamplingCall Op) (level : Float64), op.endOfWindow call = some (next, level) := by
  obtain ⟨tuples, window⟩ := event
  obtain ⟨result, processed, rfl⟩ := Option.map_eq_some_iff.mp stepped
  obtain ⟨passed, -, processed⟩ := Option.bind_eq_some_iff.mp processed
  cases window with
  | none => exact Or.inl (Option.some.inj processed ▸ rfl)
  | some call =>
      obtain ⟨⟨after, level⟩, closed, rfl⟩ := Option.map_eq_some_iff.mp processed
      exact Or.inr ⟨call, level, closed⟩

/-- The threshold is that of the step, which is one of the steps. -/
structure Fits (n : ℕ) (op : VariableSampling) : Prop where
  steps : op.steps = ladder n
  within : op.curStep < n
  threshold : op.threshold = threshUnits maxWord n op.curStep / Float64.one

variable {n : ℕ} {op next : VariableSampling} (several : 2 ≤ n) (word : n < 2 ^ 32)

/-- The operator at another of its steps has the threshold of that step. -/
theorem Fits.moved (fits : op.Fits n) {curStep : ℕ} (within : curStep < n) :
    Fits n {op with curStep := curStep, threshold := threshUnits maxWord n curStep / Float64.one} :=
  ⟨fits.steps, within, rfl⟩

include word in
theorem Fits.delta_lt (fits : op.Fits n) (call : SamplingCall Op) : addInt op.curStep (op.delta call) < n := by
  have size : (op.levelArray call.outside).levelsLen = n := by
    show op.steps.length % 2 ^ 32 = n
    rw [fits.steps, ladder_length, Nat.mod_eq_of_lt word]
  have stays := CongestionPolicy.addInt_getStep_lt (size.symm ▸ fits.within) (size.symm ▸ word) call.statuses call.id
    call.reading
  rw [size] at stays
  exact stays

include several word in
/-- The policy leads to a step of the operator, and every conversion on the way is defined. -/
theorem Fits.endOfWindow (fits : op.Fits n) (call : SamplingCall Op) :
    ∃ next, op.endOfWindow call = some (next, .ofInt next.curStep / .ofInt (unsignedPred n)) ∧ next.Fits n := by
  have moves := fits.delta_lt word call
  by_cases still : op.delta call = 0
  · refine ⟨op, ?_, fits⟩
    rw [VariableSampling.endOfWindow, if_pos still, fits.steps, ladder_getElem? fits.within, Option.map_some]
  · have level : op.steps[addInt op.curStep (op.delta call)]? =
        some (.ofInt (addInt op.curStep (op.delta call)) / .ofInt (unsignedPred n)) := by
      rw [fits.steps, ladder_getElem? moves]
    exact ⟨_, endOfWindow_eq still level (thresh_eq several word moves), fits.moved moves⟩

include several word in
theorem Fits.step (fits : op.Fits n) {hash : Char → ℤ → T → ℕ} {start : VariableSampling}
    {event : List T × Option (SamplingCall Op)} (stepped : (system Op hash start).step op event = some next) :
    next.Fits n := by
  rcases step_cases stepped with rfl | ⟨call, level, closed⟩
  · exact fits
  · obtain ⟨after, same, kept⟩ := fits.endOfWindow several word call
    obtain ⟨rfl, -⟩ := Prod.mk.inj (Option.some.inj (same.symm.trans closed))
    exact kept

include several word in
/-- A run keeps the threshold of the step, and the field is hashed in one way. -/
theorem Fits.reachable {hash : Char → ℤ → T → ℕ} {start : VariableSampling} (fits : start.Fits n)
    (reached : (system Op hash start).Reachable op) :
    op.Fits n ∧ op.hashField = start.hashField ∧ op.hashType = start.hashType := by
  refine reached.invariant (fun op => op.Fits n ∧ op.hashField = start.hashField ∧ op.hashType = start.hashType)
    ⟨fits, rfl, rfl⟩ ?_
  rintro before event after ⟨fits, field, type⟩ stepped
  refine ⟨fits.step several word stepped, ?_⟩
  rcases step_cases stepped with rfl | ⟨call, level, closed⟩
  · exact ⟨field, type⟩
  · obtain ⟨sameField, sameType⟩ := endOfWindow_hashes closed
    exact ⟨sameField.trans field, sameType.trans type⟩

theorem readSteps_lt {text : String} {numSteps : ℕ} (read : readSteps text = .ok numSteps) : numSteps < 2 ^ 32 := by
  rw [readSteps] at read
  split_ifs at read
  · rw [← Except.ok.inj read]
    decide
  · split at read
    · rename_i parsed
      rw [← Except.ok.inj read]
      exact DegradeSummary.readUnsignedText_lt parsed
    · cases read

/-- Without a fraction the operator starts with everything passing. -/
theorem configure_fits {config : SamplingConfig} {start : VariableSampling}
    (configured : configure config = .ok (some start)) (whole : config.fraction = "")
    (several : 2 ≤ start.steps.length) :
    start.steps.length < 2 ^ 32 ∧ start.Fits start.steps.length := by
  rw [configure] at configured
  obtain ⟨numSteps, read, configured⟩ := Except.exists_of_bind_eq_ok configured
  have word : numSteps < 2 ^ 32 := readSteps_lt read
  have zero : fractionThreshold config = some 0 := by
    rw [fractionThreshold, whole]
    decide +kernel
  split at configured
  · cases configured
  · split at configured
    · cases configured
    · rw [zero] at configured
      obtain rfl := Option.some.inj (Except.ok.inj configured)
      rw [ladder_length] at several ⊢
      have last : unsignedPred numSteps = numSteps - 1 := if_neg (by omega)
      refine ⟨word, rfl, ?_, ?_⟩
      · show unsignedPred numSteps < numSteps
        omega
      · show 0 = threshUnits maxWord numSteps (unsignedPred numSteps) / Float64.one
        rw [last, threshUnits_last maxWord several, Nat.zero_div]

/-- The threshold is what the code computes from the step. At its last step the operator lets everything pass, and at its
first one only the largest hash. The policy leads it to one of its steps, whose ratio the marker takes along, and only a
tuple whose field cannot be hashed ends the program. -/
structure Samples (Op : Type) [DecidableEq Op] (hash : Char → ℤ → T → ℕ) (op : VariableSampling) : Prop where
  threshold : ∃ level, op.steps[op.curStep]? = some level ∧ thresh level = some op.threshold
  everything : op.curStep + 1 = op.steps.length → ∀ hashval, op.passes hashval = true
  nothing : op.curStep = 0 → ∀ hashval, op.passes hashval = true ↔ maxWord ≤ hashval
  windows : ∀ call : SamplingCall Op, ∃ next, op.endOfWindow call =
    some (next, .ofInt next.curStep / .ofInt (unsignedPred op.steps.length)) ∧ next.curStep < op.steps.length
  lasts : ∀ (tuples : List T) (window : Option (SamplingCall Op)),
    (op.process hash tuples window).isSome ↔ op.hashType ∈ hashTypes ∨ tuples = []

include several word in
theorem Fits.samples (fits : op.Fits n) (hash : Char → ℤ → T → ℕ) : op.Samples Op hash := by
  have size : op.steps.length = n := by rw [fits.steps, ladder_length]
  constructor
  · refine ⟨_, by rw [fits.steps, ladder_getElem? fits.within], ?_⟩
    rw [thresh_eq several word fits.within, fits.threshold]
  · intro last hashval
    have position : op.curStep = n - 1 := by omega
    have whole : op.threshold = 0 := by rw [fits.threshold, position, threshUnits_last maxWord several, Nat.zero_div]
    rw [passes, whole]
    exact decide_eq_true (Nat.zero_le _)
  · intro first hashval
    have whole : op.threshold = maxWord := by
      rw [fits.threshold, first, threshUnits_zero (maxWord_lt.trans (by decide)) several,
        Nat.mul_div_cancel _ Float64.one_pos]
    rw [passes, whole, decide_eq_true_iff]
  · intro call
    obtain ⟨next, closed, kept⟩ := fits.endOfWindow several word call
    rw [size]
    exact ⟨next, closed, kept.within⟩
  · intro tuples window
    rw [← @isSome_emitted_iff T op hash, process]
    cases op.emitted hash tuples with
    | none => simp
    | some passed =>
        cases window with
        | none => simp
        | some call =>
            obtain ⟨next, closed, -⟩ := fits.endOfWindow several word call
            simp [closed]

/-- In every run a tuple that passes at some step also passes at every higher step, at each operator with as many steps
that hashes the same field. -/
theorem variableSampling_nests (Op : Type) [DecidableEq Op] (hash : Char → ℤ → T → ℕ) {config config' : SamplingConfig}
    {start start' first second : VariableSampling} (configured : configure config = .ok (some start))
    (configured' : configure config' = .ok (some start')) (whole : config.fraction = "")
    (whole' : config'.fraction = "") (several : 2 ≤ start.steps.length)
    (same : start'.steps.length = start.steps.length) (field : start'.hashField = start.hashField)
    (type : start'.hashType = start.hashType) (reached : (system Op hash start).Reachable first)
    (reached' : (system Op hash start').Reachable second) :
    first.Samples Op hash ∧ (first.curStep ≤ second.curStep →
      ∀ t, first.shouldEmit hash t = some true → second.shouldEmit hash t = some true) := by
  obtain ⟨word, startFits⟩ := configure_fits configured whole several
  obtain ⟨-, startFits'⟩ := configure_fits configured' whole' (same.symm ▸ several)
  rw [same] at startFits'
  obtain ⟨fits, firstField, firstType⟩ := startFits.reachable several word reached
  obtain ⟨fits', secondField, secondType⟩ := startFits'.reachable several word reached'
  have sameField : second.hashField = first.hashField := secondField.trans (field.trans firstField.symm)
  have sameType : second.hashType = first.hashType := secondType.trans (type.trans firstType.symm)
  refine ⟨fits.samples several word hash, fun higher t emits => ?_⟩
  have lower : second.threshold ≤ first.threshold := by
    rw [fits.threshold, fits'.threshold]
    exact Nat.div_le_div_right (threshUnits_antitone maxWord several higher)
  obtain ⟨known, passes⟩ := Option.ite_none_right_eq_some.mp emits
  have reaches : first.threshold ≤ hash first.hashType first.hashField t := of_decide_eq_true (Option.some.inj passes)
  rw [shouldEmit, sameField, sameType, if_pos known]
  exact congrArg some (decide_eq_true (lower.trans reaches))

/-- The client names the field and its type only. -/
def samplerConfig : SamplingConfig where
  hashField := "1"
  hashType := "S"

def sampler : VariableSampling := ⟨1, 'S', 10, ladder 11, 0⟩

theorem configure_sampler : configure samplerConfig = .ok (some sampler) := by
  have zero : fractionThreshold samplerConfig = some 0 := by decide +kernel
  show Except.ok ((fractionThreshold samplerConfig).map _) = _
  rw [zero]
  rfl

/-- The tuples are their own hash. -/
def ownHash (_ : Char) (_ : ℤ) (t : ℕ) : ℕ := t

theorem variableSampling_nests_sampler : sampler.Samples ℕ ownHash ∧ sampler.shouldEmit ownHash 7 = some true := by
  obtain ⟨samples, nested⟩ := variableSampling_nests ℕ ownHash configure_sampler configure_sampler rfl rfl
    (by decide) rfl rfl rfl ⟨[], rfl⟩ ⟨[], rfl⟩
  exact ⟨samples, nested le_rfl 7 (by decide)⟩

end VariableSampling

end JetStream
