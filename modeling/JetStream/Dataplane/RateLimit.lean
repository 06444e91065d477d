import JetStream.Dataplane.CongestPolicy
import JetStream.Utils.Monitors

namespace JetStream

/-- A chained monitor without a next one is a plain queue monitor. -/
inductive LocalMonitor where
  | queue (monitor : QueueCongestionMonitor)
  | chained (monitor : QueueCongestionMonitor) (dest : LocalMonitor)
  | smoothing (monitor : SmoothingQCongestionMonitor)
  | window (monitor : WindowCongestionMonitor)

/-- One monitor's call reads the microsecond clock and its atomic counters. -/
structure Sampled where
  now : UInt64
  readQLen : UInt32
  inserts : UInt32
  removes : UInt32

/-- The millisecond clock is the microsecond clock without its last digits. -/
def msec (usec : UInt64) : UInt64 := usec / 1000

namespace LocalMonitor

def measurementTime : LocalMonitor → UInt64
  | .queue monitor => monitor.measurementTime
  | .chained monitor _ => monitor.measurementTime
  | .smoothing monitor => monitor.measurementTime
  | .window monitor => monitor.measurementTime

/-- A chained monitor asks the next one first, and every monitor on the way uses its own sample. -/
def capacityRatio : LocalMonitor → List Sampled → Option (Float64 × LocalMonitor)
  | .queue monitor, sampled :: _ =>
      (monitor.capacityRatio sampled.now sampled.readQLen sampled.inserts).map fun (ratio, monitor) =>
        (ratio, .queue monitor)
  | .chained monitor dest, sampled :: rest =>
      (dest.capacityRatio rest).bind fun (downstream, dest) =>
        let monitor := {monitor with
          toNetCongestionMonitor := monitor.setDownstreamCongestion downstream dest.measurementTime}
        (monitor.capacityRatio sampled.now sampled.readQLen sampled.inserts).map fun (ratio, monitor) =>
          (ratio, .chained monitor dest)
  | .smoothing monitor, sampled :: _ =>
      let (ratio, monitor) := monitor.capacityRatio (msec sampled.now) sampled.inserts sampled.removes
      some (ratio, .smoothing monitor)
  | .window monitor, _ => some (monitor.capacityRatio, .window monitor)
  | _, [] => none

/-- These monitors give their own measurement time in microseconds. -/
def inMicroseconds : LocalMonitor → Bool
  | .queue _ => true
  | .chained _ _ => true
  | .smoothing _ => false
  | .window _ => false

/-- The ends of windows, the inserts and the limits reach a monitor between the calls. -/
inductive Change where
  | setMaxRate (rate : Float64)
  | setQueueSize (size : UInt32)
  | reportInsert (now : UInt64) (weight : UInt32)
  | endOfWindow (now : UInt64) (windowDataMs : Int32) (processingStartTime : UInt64)

def Change.time : Change → Option UInt64
  | .reportInsert now _ => some now
  | .endOfWindow now _ _ => some now
  | _ => none

/-- The counters of a queue belong to the samples, so an insert changes only a window monitor here. -/
def change : LocalMonitor → Change → LocalMonitor
  | .queue monitor, .setMaxRate rate => .queue {monitor with maxPerSec := rate}
  | .queue monitor, .setQueueSize size => .queue {monitor with queueTarget := size}
  | .chained monitor dest, .setMaxRate rate => .chained {monitor with maxPerSec := rate} dest
  | .chained monitor dest, .setQueueSize size => .chained {monitor with queueTarget := size} dest
  | .smoothing monitor, .setMaxRate rate => .smoothing {monitor with maxPerSec := rate}
  | .smoothing monitor, .setQueueSize size => .smoothing {monitor with queueTarget := size}
  | .window monitor, .setMaxRate rate => .window {monitor with maxPerSec := rate}
  | .window monitor, .reportInsert now weight => .window (monitor.reportInsert (msec now) weight)
  | .window monitor, .endOfWindow now windowDataMs start =>
      .window (monitor.endOfWindow (msec now) windowDataMs start)
  | monitor, _ => monitor

/-- A change may also reach a monitor further down the chain. -/
def changeAt : ℕ → LocalMonitor → Change → LocalMonitor
  | 0, monitor, change => monitor.change change
  | depth + 1, .chained monitor dest, change => .chained monitor (changeAt depth dest change)
  | _ + 1, monitor, _ => monitor

/-- Another caller may ask a monitor further down the chain for its ratio. -/
def pollAt : ℕ → LocalMonitor → List Sampled → Option LocalMonitor
  | 0, monitor, samples => (monitor.capacityRatio samples).map Prod.snd
  | depth + 1, .chained monitor dest, samples => (pollAt depth dest samples).map fun dest => .chained monitor dest
  | _ + 1, _, _ => none

/-- A monitor in milliseconds has only times that the clock has passed, and no report from downstream. -/
def Timely (clock : UInt64) : LocalMonitor → Prop
  | .smoothing monitor => monitor.downstreamStatus = .infinity false ∧ ∀ index, monitor.tstamps index ≤ msec clock
  | .window monitor => monitor.downstreamStatus = .infinity false ∧ monitor.lastWindowEnd ≤ msec clock
  | _ => True

theorem msec_mono {earlier later : UInt64} (order : earlier ≤ later) : msec earlier ≤ msec later := by
  rw [UInt64.le_iff_toNat_le] at order ⊢
  rw [msec, msec, UInt64.toNat_div, UInt64.toNat_div]
  exact Nat.div_le_div_right order

theorem reportTime_local {monitor : NetCongestionMonitor} (localOnly : monitor.downstreamStatus = .infinity false)
    (own : UInt64) : monitor.reportTime own = own := by
  rw [NetCongestionMonitor.reportTime, localOnly, if_neg (Float64.not_infinity_lt _)]

theorem Timely.measurementTime {monitor : LocalMonitor} {clock now : UInt64} (timely : monitor.Timely clock)
    (order : clock ≤ now) (milliseconds : ¬ monitor.inMicroseconds) : monitor.measurementTime ≤ msec now := by
  cases monitor with
  | queue monitor => exact absurd rfl milliseconds
  | chained monitor dest => exact absurd rfl milliseconds
  | smoothing monitor =>
      show monitor.measurementTime ≤ _
      rw [SmoothingQCongestionMonitor.measurementTime, reportTime_local timely.1]
      exact UInt64.le_trans (timely.2 _) (msec_mono order)
  | window monitor =>
      show monitor.measurementTime ≤ _
      rw [WindowCongestionMonitor.measurementTime, reportTime_local timely.1]
      exact UInt64.le_trans timely.2 (msec_mono order)

theorem Timely.mono {monitor : LocalMonitor} {clock later : UInt64} (timely : monitor.Timely clock)
    (order : clock ≤ later) : monitor.Timely later := by
  cases monitor with
  | queue monitor => trivial
  | chained monitor dest => trivial
  | smoothing monitor => exact ⟨timely.1, fun index => UInt64.le_trans (timely.2 index) (msec_mono order)⟩
  | window monitor => exact ⟨timely.1, UInt64.le_trans timely.2 (msec_mono order)⟩

/-- A call leaves the times of the monitor before its end. -/
theorem Timely.capacityRatio {monitor after : LocalMonitor} {clock done : UInt64} {samples : List Sampled}
    {ratio : Float64} (timely : monitor.Timely clock) (order : clock ≤ done)
    (within : ∀ sampled ∈ samples, sampled.now ≤ done)
    (called : monitor.capacityRatio samples = some (ratio, after)) : after.Timely done := by
  cases monitor with
  | queue monitor =>
      cases samples with
      | nil => cases called
      | cons sampled samples =>
          obtain ⟨result, -, same⟩ := Option.map_eq_some_iff.mp called
          obtain ⟨-, rfl⟩ := Prod.mk.inj same
          trivial
  | chained monitor dest =>
      cases samples with
      | nil => cases called
      | cons sampled samples =>
          obtain ⟨downstream, -, called⟩ := Option.bind_eq_some_iff.mp called
          obtain ⟨result, -, same⟩ := Option.map_eq_some_iff.mp called
          obtain ⟨-, rfl⟩ := Prod.mk.inj same
          trivial
  | smoothing monitor =>
      cases samples with
      | nil => cases called
      | cons sampled samples =>
          obtain ⟨-, rfl⟩ := Prod.mk.inj (Option.some.inj called)
          have stamp : msec sampled.now ≤ msec done := msec_mono (within sampled List.mem_cons_self)
          have kept (index : Fin 3) : monitor.tstamps index ≤ msec done :=
            UInt64.le_trans (timely.2 index) (msec_mono order)
          show Timely done (.smoothing (monitor.capacityRatio _ _ _).2)
          unfold SmoothingQCongestionMonitor.capacityRatio
          split
          · refine ⟨timely.1, fun index => ?_⟩
            show Function.update monitor.tstamps (monitor.vIdx + 1) (msec sampled.now) index ≤ _
            by_cases newest : index = monitor.vIdx + 1
            · rw [newest, Function.update_self]
              exact stamp
            · rw [Function.update_of_ne newest]
              exact kept index
          · exact ⟨timely.1, kept⟩
  | window monitor =>
      have same : some (monitor.capacityRatio, LocalMonitor.window monitor) = some (ratio, after) := called
      obtain ⟨-, rfl⟩ := Prod.mk.inj (Option.some.inj same)
      exact timely.mono order

theorem Timely.change {monitor : LocalMonitor} {clock now : UInt64} {change : Change} (timely : monitor.Timely clock)
    (order : clock ≤ now) (time : change.time.getD clock = now) : (monitor.change change).Timely now := by
  have later := timely.mono order
  cases monitor with
  | queue monitor => cases change <;> trivial
  | chained monitor dest => cases change <;> trivial
  | smoothing monitor => cases change <;> exact later
  | window monitor =>
      cases change with
      | setMaxRate rate => exact later
      | setQueueSize size => exact later
      | reportInsert now weight => exact later
      | endOfWindow now windowDataMs start =>
          have same : now = _ := time
          rw [← same]
          constructor
          · rw [WindowCongestionMonitor.endOfWindow_downstreamStatus]
            exact timely.1
          · exact UInt64.le_refl (msec now)

theorem Timely.changeAt {monitor : LocalMonitor} {clock now : UInt64} {change : Change} {depth : ℕ}
    (timely : monitor.Timely clock) (order : clock ≤ now) (time : change.time.getD clock = now) :
    (changeAt depth monitor change).Timely now := by
  cases depth with
  | zero => exact timely.change order time
  | succ depth => cases monitor <;> exact timely.mono order

theorem Timely.pollAt {monitor after : LocalMonitor} {clock done : UInt64} {samples : List Sampled} {depth : ℕ}
    (timely : monitor.Timely clock) (order : clock ≤ done) (within : ∀ sampled ∈ samples, sampled.now ≤ done)
    (polled : LocalMonitor.pollAt depth monitor samples = some after) : after.Timely done := by
  cases depth with
  | zero =>
      obtain ⟨⟨ratio, result⟩, called, rfl⟩ := Option.map_eq_some_iff.mp polled
      exact timely.capacityRatio order within called
  | succ depth =>
      cases monitor with
      | chained monitor dest =>
          obtain ⟨dest, -, rfl⟩ := Option.map_eq_some_iff.mp polled
          trivial
      | queue monitor => cases polled
      | smoothing monitor => cases polled
      | window monitor => cases polled

end LocalMonitor

/-- The constructors of the monitors take these arguments. -/
inductive MonitorSpec where
  | queue (qTarg : UInt32)
  | chained (qTarg : UInt32) (dest : MonitorSpec)
  | smoothing (qTarg : UInt32) (stepMs : UInt64)
  | window (smoothingPrevValue : Float64)

def MonitorSpec.build (clock : UInt64) : MonitorSpec → LocalMonitor
  | .queue qTarg => .queue {queueTarget := qTarg}
  | .chained qTarg dest => .chained {queueTarget := qTarg} (dest.build clock)
  | .smoothing qTarg stepMs => .smoothing {queueTarget := qTarg, smoothStepMs := stepMs}
  | .window smoothingPrevValue => .window {lastWindowEnd := msec clock, smoothingFactor := smoothingPrevValue}

theorem MonitorSpec.build_timely (clock : UInt64) (spec : MonitorSpec) : (spec.build clock).Timely clock := by
  cases spec with
  | queue qTarg => trivial
  | chained qTarg dest => trivial
  | smoothing qTarg stepMs => exact ⟨rfl, fun _ => UInt64.zero_le⟩
  | window smoothingPrevValue => exact ⟨rfl, UInt64.le_refl _⟩

/-- An action is a call with a non-zero step, at a time of the policy's millisecond clock. -/
structure LevelChange (Op : Type) where
  op : Op
  time : UInt64
  ratio : Float64

/-- The policy runs with its monitor under one clock, and `actions` has the newest action first. -/
structure RateRun (Op : Type) where
  statuses : List (OperatorState Op)
  monitor : LocalMonitor
  clock : UInt64
  actions : List (LevelChange Op)

/-- A call of `get_step` reads the clock before its monitors do. -/
inductive RateEvent (Op : Type) where
  | getStep (op : Op) (array : LevelArray) (curLevel : ℕ) (now : UInt64) (samples : List Sampled) (done : UInt64)
  | poll (depth : ℕ) (samples : List Sampled) (done : UInt64)
  | change (depth : ℕ) (change : LocalMonitor.Change)

namespace RateRun

open CongestionPolicy

variable {Op : Type} [DecidableEq Op]

def new (ops : List Op) (spec : MonitorSpec) (clock : UInt64) : RateRun Op :=
  ⟨ops.map fun op => {op := op}, spec.build clock, clock, []⟩

/-- The clock readings of a call lie between its start and its end. -/
def Between (start : UInt64) (samples : List Sampled) (done : UInt64) : Prop :=
  start ≤ done ∧ ∀ sampled ∈ samples, start ≤ sampled.now ∧ sampled.now ≤ done

instance (start : UInt64) (samples : List Sampled) (done : UInt64) : Decidable (Between start samples done) :=
  inferInstanceAs (Decidable (_ ∧ _))

/-- The measurement time is read before the ratio, which may take a new sample. -/
def getStep (run : RateRun Op) (op : Op) (array : LevelArray) (curLevel : ℕ) (now : UInt64)
    (samples : List Sampled) (done : UInt64) : Option (RateRun Op) :=
  (run.monitor.capacityRatio samples).map fun (ratio, monitor) =>
    let reading : MonitorReading := ⟨msec now, run.monitor.measurementTime, ratio⟩
    let result := CongestionPolicy.getStep run.statuses op array curLevel (some reading)
    { statuses := result.statuses
      monitor := monitor
      clock := done
      actions := if result.delta = 0 then run.actions else ⟨op, msec now, ratio⟩ :: run.actions }

/-- A reading of the clock that goes backwards is refused, and a fatal check ends the run. -/
def step (run : RateRun Op) : RateEvent Op → Option (RateRun Op)
  | .getStep op array curLevel now samples done =>
      if run.clock ≤ now ∧ Between now samples done then run.getStep op array curLevel now samples done else none
  | .poll depth samples done =>
      if Between run.clock samples done then
        (LocalMonitor.pollAt depth run.monitor samples).map fun monitor => {run with monitor := monitor, clock := done}
      else none
  | .change depth change =>
      let now := change.time.getD run.clock
      if run.clock ≤ now then some {run with monitor := LocalMonitor.changeAt depth run.monitor change, clock := now} else none

def system (ops : List Op) (spec : MonitorSpec) (clock : UInt64) : EventSystem (RateRun Op) (RateEvent Op) :=
  ⟨new ops spec clock, step⟩

/-- Two actions of one operator are a second apart, unless the later one has read the ratio zero. -/
def Apart (later earlier : LevelChange Op) : Prop :=
  later.op = earlier.op →
    earlier.time.toNat + minMsBetweenActions.toNat ≤ later.time.toNat ∨ ∃ negative, later.ratio = .finite negative 0

def RateLimited (run : RateRun Op) : Prop := run.actions.Pairwise Apart

instance decidableApart (later earlier : LevelChange Op) : Decidable (Apart later earlier) :=
  inferInstanceAs (Decidable (_ → _))

instance decidableRateLimited (run : RateRun Op) : Decidable run.RateLimited :=
  inferInstanceAs (Decidable (List.Pairwise _ _))

/-- A queue monitor's time is not ahead of the millisecond clock, and the ratio is not negative. -/
def InUnit (run : RateRun Op) : RateEvent Op → Prop
  | .getStep _ _ _ now samples _ =>
      (run.monitor.inMicroseconds → run.monitor.measurementTime ≤ msec now) ∧
        ∀ result ∈ run.monitor.capacityRatio samples, ¬ result.1 < .ofInt 0
  | _ => True

instance decidableInUnit (run : RateRun Op) : (event : RateEvent Op) → Decidable (run.InUnit event)
  | .getStep _ _ _ _ _ _ => inferInstanceAs (Decidable (_ ∧ _))
  | .poll _ _ _ => isTrue trivial
  | .change _ _ => isTrue trivial

/-- The policy looks at the first record of an operator. -/
def lastChange (statuses : List (OperatorState Op)) (op : Op) : UInt64 :=
  ((statuses.find? fun status => status.op = op).map OperatorState.lastStateChange).getD 0

theorem lastChange_own {before after : List (OperatorState Op)} {own : OperatorState Op} {op : Op} (isOwn : own.op = op)
    (first : ∀ status ∈ before, status.op ≠ op) : lastChange (before ++ own :: after) op = own.lastStateChange := by
  have none : before.find? (fun status => status.op = op) = none := by
    rw [List.find?_eq_none]
    intro status present
    simpa using first status present
  simp [lastChange, none, isOwn]

theorem lastChange_other {before after : List (OperatorState Op)} {own own' : OperatorState Op} {op : Op}
    (same : own'.op = own.op) (other : own.op ≠ op) :
    lastChange (before ++ own' :: after) op = lastChange (before ++ own :: after) op := by
  unfold lastChange
  rw [List.find?_append, List.find?_append, List.find?_cons_of_neg, List.find?_cons_of_neg]
  · simpa using other
  · simpa [same] using other

/-- A write to an operator's record that keeps its time changes no operator's time. -/
theorem lastChange_kept {before after : List (OperatorState Op)} {own own' : OperatorState Op}
    (first : ∀ status ∈ before, status.op ≠ own.op) (same : own'.op = own.op)
    (kept : own'.lastStateChange = own.lastStateChange) (op : Op) :
    lastChange (before ++ own' :: after) op = lastChange (before ++ own :: after) op := by
  by_cases isOwn : own.op = op
  · subst isOwn
    rw [lastChange_own rfl first, lastChange_own same first, kept]
  · exact lastChange_other same isOwn

/-- A zero step keeps every time, and another one sets the time of its own operator after the guard has passed. -/
theorem getStep_lastChange (statuses : List (OperatorState Op)) (op : Op) (array : LevelArray) (curLevel : ℕ)
    (reading : MonitorReading) :
    let result := CongestionPolicy.getStep statuses op array curLevel (some reading)
    (result.delta = 0 ∧ ∀ other, lastChange result.statuses other = lastChange statuses other) ∨
    (result.delta ≠ 0 ∧ lastChange result.statuses op = reading.now ∧
      (∀ other, op ≠ other → lastChange result.statuses other = lastChange statuses other) ∧
      (.ofInt 0 < reading.congestLevel →
        lastChange statuses op + minMsBetweenActions ≤ reading.measurementTime) ∧
      (reading.congestLevel < degradeBelow ∨ upgradeAbove < reading.congestLevel)) := by
  intro result
  rcases getStep_cases statuses op array curLevel (some reading) with
    idle | ⟨reading', isReading, before, own, after, rfl, rfl, first, quiet, -, -, noted | done⟩
  · left
    rw [show result = _ from idle]
    exact ⟨rfl, fun _ => rfl⟩
  · left
    rw [show result = _ from noted]
    exact ⟨rfl, lastChange_kept first rfl rfl⟩
  · obtain rfl := Option.some.inj isReading
    rw [show result = _ from done]
    by_cases moved : (recordStep array reading curLevel own).1 = 0
    · left
      exact ⟨moved, lastChange_kept first rfl (if_neg (not_not.mpr moved))⟩
    · right
      refine ⟨moved, ?_, fun other isOther => lastChange_other rfl isOther, ?_, recordStep_delta_ne moved⟩
      · show lastChange (before ++ (recordStep array reading curLevel own).2 :: after) own.op = _
        rw [lastChange_own (show (recordStep array reading curLevel own).2.op = own.op from rfl) first]
        exact if_pos moved
      · intro positive
        rw [lastChange_own rfl first]
        have guard : ¬ recentChange own reading.measurementTime = true := fun recent => quiet ⟨recent, positive⟩
        rwa [recentChange, decide_eq_true_eq, UInt64.not_lt] at guard

/-- Every action is recorded in the policy, no record is ahead of the clock, and the actions so far are apart. -/
structure Recorded (run : RateRun Op) : Prop where
  timely : run.monitor.Timely run.clock
  passed : ∀ op, lastChange run.statuses op ≤ msec run.clock
  recorded : ∀ action ∈ run.actions, action.time ≤ lastChange run.statuses action.op
  apart : run.RateLimited

theorem new_recorded (ops : List Op) (spec : MonitorSpec) (clock : UInt64) : (new ops spec clock).Recorded := by
  constructor
  · exact spec.build_timely clock
  · intro op
    have zero : lastChange (new ops spec clock).statuses op = 0 := by
      unfold lastChange new
      rw [List.find?_map]
      cases ops.find? _ <;> rfl
    rw [zero]
    exact UInt64.zero_le
  · exact List.forall_mem_nil _
  · exact List.Pairwise.nil

/-- A time of the millisecond clock leaves room for the pause. -/
theorem toNat_add_minMsBetweenActions {time clock : UInt64} (passed : time ≤ msec clock) :
    (time + minMsBetweenActions).toNat = time.toNat + minMsBetweenActions.toNat := by
  have bound := clock.toNat_lt
  rw [UInt64.le_iff_toNat_le, msec, UInt64.toNat_div] at passed
  have pause : minMsBetweenActions.toNat = 1000 := rfl
  have thousand : (1000 : UInt64).toNat = 1000 := rfl
  rw [UInt64.toNat_add, pause, Nat.mod_eq_of_lt]
  rw [thousand] at passed
  omega

/-- A non-zero step in the unit of the clock is apart from every earlier one of its operator. -/
theorem Recorded.apart_new {run : RateRun Op} (recorded : run.Recorded) {op : Op} {now : UInt64} {ratio : Float64}
    (guarded : .ofInt 0 < ratio → lastChange run.statuses op + minMsBetweenActions ≤ run.monitor.measurementTime)
    (outside : ratio < degradeBelow ∨ upgradeAbove < ratio) (inUnit : run.monitor.measurementTime ≤ msec now)
    (nonnegative : ¬ ratio < .ofInt 0) : ∀ earlier ∈ run.actions, Apart ⟨op, msec now, ratio⟩ earlier := by
  intro earlier present same
  by_cases positive : .ofInt 0 < ratio
  · left
    have before := recorded.recorded earlier present
    have guard := UInt64.le_trans (guarded positive) inUnit
    rw [← same, UInt64.le_iff_toNat_le] at before
    rw [UInt64.le_iff_toNat_le, toNat_add_minMsBetweenActions (recorded.passed op)] at guard
    exact (Nat.add_le_add_right before _).trans guard
  · right
    cases outside with
    | inl below => exact Float64.eq_zero_of_not_lt below nonnegative positive
    | inr above =>
        have zeroBelow : .ofInt 0 < upgradeAbove := by decide +kernel
        exact absurd (Float64.lt_trans zeroBelow above) positive

theorem Recorded.getStep {run after : RateRun Op} (recorded : run.Recorded) {op : Op} {array : LevelArray}
    {curLevel : ℕ} {now done : UInt64} {samples : List Sampled} (order : run.clock ≤ now)
    (between : Between now samples done) (inUnit : run.InUnit (.getStep op array curLevel now samples done))
    (stepped : run.getStep op array curLevel now samples done = some after) : after.Recorded := by
  obtain ⟨⟨ratio, monitor⟩, called, rfl⟩ := Option.map_eq_some_iff.mp stepped
  have clock : run.clock ≤ done := UInt64.le_trans order between.1
  have timely : monitor.Timely done :=
    recorded.timely.capacityRatio clock (fun sampled present => (between.2 sampled present).2) called
  have passed (op : Op) : lastChange run.statuses op ≤ msec done :=
    UInt64.le_trans (recorded.passed op) (LocalMonitor.msec_mono clock)
  rcases getStep_lastChange run.statuses op array curLevel ⟨msec now, run.monitor.measurementTime, ratio⟩ with
    ⟨zero, kept⟩ | ⟨moved, own, others, guarded, outside⟩
  · constructor
    · exact timely
    · intro other
      exact (kept other).symm ▸ passed other
    · intro action present
      dsimp only at present ⊢
      rw [if_pos zero] at present
      rw [kept]
      exact recorded.recorded action present
    · show (ite _ _ _ : List (LevelChange Op)).Pairwise Apart
      rw [if_pos zero]
      exact recorded.apart
  · have start : msec now ≤ msec done := LocalMonitor.msec_mono between.1
    constructor
    · exact timely
    · intro other
      dsimp only
      by_cases isOwn : op = other
      · rw [← isOwn, own]
        exact start
      · rw [others other isOwn]
        exact passed other
    · intro action present
      dsimp only at present ⊢
      rw [if_neg moved, List.mem_cons] at present
      by_cases isOwn : op = action.op
      · rw [← isOwn, own]
        cases present with
        | inl isNew => exact isNew ▸ UInt64.le_refl _
        | inr isOld =>
            exact UInt64.le_trans (recorded.recorded action isOld)
              (UInt64.le_trans (recorded.passed action.op) (LocalMonitor.msec_mono order))
      · rw [others action.op isOwn]
        cases present with
        | inl isNew => exact absurd (isNew ▸ rfl) isOwn
        | inr isOld => exact recorded.recorded action isOld
    · show (ite _ _ _ : List (LevelChange Op)).Pairwise Apart
      rw [if_neg moved, List.pairwise_cons]
      refine ⟨recorded.apart_new guarded outside ?_ (inUnit.2 _ called), recorded.apart⟩
      by_cases microseconds : run.monitor.inMicroseconds
      · exact inUnit.1 microseconds
      · exact recorded.timely.measurementTime order microseconds

theorem Recorded.step {run after : RateRun Op} (recorded : run.Recorded) {event : RateEvent Op}
    (inUnit : run.InUnit event) (stepped : run.step event = some after) : after.Recorded := by
  cases event with
  | getStep op array curLevel now samples done =>
      rw [RateRun.step, Option.ite_none_right_eq_some] at stepped
      exact recorded.getStep stepped.1.1 stepped.1.2 inUnit stepped.2
  | poll depth samples done =>
      rw [RateRun.step, Option.ite_none_right_eq_some] at stepped
      obtain ⟨between, advanced⟩ := stepped
      obtain ⟨monitor, polled, rfl⟩ := Option.map_eq_some_iff.mp advanced
      constructor
      · exact recorded.timely.pollAt between.1 (fun sampled present => (between.2 sampled present).2) polled
      · intro op
        exact UInt64.le_trans (recorded.passed op) (LocalMonitor.msec_mono between.1)
      · exact recorded.recorded
      · exact recorded.apart
  | change depth change =>
      rw [RateRun.step, Option.ite_none_right_eq_some] at stepped
      obtain ⟨order, changed⟩ := stepped
      obtain rfl := Option.some.inj changed
      constructor
      · exact recorded.timely.changeAt order rfl
      · intro op
        exact UInt64.le_trans (recorded.passed op) (LocalMonitor.msec_mono order)
      · exact recorded.recorded
      · exact recorded.apart

/-- In every run whose readings are in the unit of the clock and not negative, the level changes are a second apart. -/
theorem level_changes_apart (ops : List Op) (spec : MonitorSpec) (clock : UInt64) (events : List (RateEvent Op))
    (inUnit : (system ops spec clock).EveryStep InUnit (new ops spec clock) events) :
    (system ops spec clock).EveryState RateLimited (new ops spec clock) events := by
  apply EventSystem.EveryStep.everyState Recorded _ _ (new_recorded ops spec clock) inUnit
  · intro run event after recorded inUnit stepped
    exact recorded.step inUnit stepped
  · intro run recorded
    exact recorded.apart

/-- The levels of the example operator double from step to step. -/
def doublingLevels : LevelArray := ⟨fun level => .ofInt (2 ^ level.toNat), 4⟩

/-- A window that took twice its nominal length gives the ratio one half. -/
def slowWindow (now : UInt64) : RateEvent Unit := .change 0 (.endOfWindow now 500 (msec now - 1000))

/-- The operator checks five times, and the second change waits for a check after a new window. -/
def windowEvents : List (RateEvent Unit) :=
  [slowWindow 6000000, .getStep () doublingLevels 3 7000000 [] 7000000,
    slowWindow 7500000, .getStep () doublingLevels 2 8000000 [] 8000000,
    slowWindow 9000000, .getStep () doublingLevels 2 9500000 [] 9500000,
    .getStep () doublingLevels 2 9600000 [] 9600000]

theorem level_changes_apart_windowEvents :
    (system [()] (.window (.ofInt 0)) 5000000).EveryState RateLimited (new [()] (.window (.ofInt 0)) 5000000)
      windowEvents :=
  level_changes_apart [()] (.window (.ofInt 0)) 5000000 windowEvents (by decide +kernel)

/-- The queue monitor samples twenty inserts in each of three periods. -/
def queueEvents : List (RateEvent Unit) :=
  [.getStep () doublingLevels 3 5000000 [⟨5000000, 10, 20, 0⟩] 5000000,
    .getStep () doublingLevels 3 5200000 [⟨5200000, 15, 20, 0⟩] 5200000,
    .getStep () doublingLevels 2 5400000 [⟨5400000, 17, 20, 0⟩] 5400000]

/-- The guard takes the microseconds of the queue monitor for milliseconds, and two changes follow in 200 milliseconds. -/
theorem level_changes_close_queueEvents :
    ∃ run ∈ (system [()] (.queue 10) 1000000).runFrom (new [()] (.queue 10) 1000000) queueEvents,
      run.actions.map (fun action => action.time) = [5400, 5200] ∧ ¬ run.RateLimited := by
  decide +kernel

end RateRun

end JetStream
