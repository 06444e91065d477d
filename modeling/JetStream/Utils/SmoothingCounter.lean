import Mathlib.Data.UInt
import JetStream.Lib.EventSystem
import JetStream.Utils.Monitors

namespace JetStream

/-- The call of `write_and_clear` stands before its first read or before a compare-and-swap. -/
inductive ClearCall where
  | read
  | swap (mostRecentVal finalVal : UInt32)
  deriving DecidableEq

/-- A counter records the weight added to it, the values that were exchanged with what was written for them, and the
values returned. -/
structure PeriodCounter where
  value : UInt32 := 0
  reported : UInt32 := 0
  exchanged : List (UInt32 × UInt32) := []
  returned : List UInt32 := []

namespace PeriodCounter

def add (counter : PeriodCounter) (weight : UInt32) : PeriodCounter :=
  {counter with value := counter.value + weight, reported := counter.reported + weight}

/-- The compare-and-swap gives the value it found, and it writes when that value is the expected one. -/
def atomicCas (counter : PeriodCounter) (written expected : UInt32) : UInt32 × PeriodCounter :=
  if counter.value = expected then
    (counter.value, {counter with value := written, exchanged := counter.exchanged ++ [(counter.value, written)]})
  else (counter.value, counter)

/-- One atomic step of the call goes on with the call or returns a value. -/
def clearStep (counter : PeriodCounter) : ClearCall → PeriodCounter × (ClearCall ⊕ UInt32)
  | .read => (counter, .inl (.swap counter.value counter.value))
  | .swap mostRecentVal finalVal =>
      let (found, counter) := counter.atomicCas 0 mostRecentVal
      if found ≠ finalVal then (counter, .inl (.swap found found))
      else ({counter with returned := counter.returned ++ [finalVal]}, .inr finalVal)

/-- What was returned is what was exchanged for zero, and with the residual it is all that was reported. -/
def Conserved (counter : PeriodCounter) : Prop :=
  counter.exchanged = counter.returned.map (fun value => (value, 0)) ∧
    counter.returned.sum + counter.value = counter.reported

theorem Conserved.add {counter : PeriodCounter} (conserved : counter.Conserved) (weight : UInt32) :
    (counter.add weight).Conserved := by
  refine ⟨conserved.1, ?_⟩
  show counter.returned.sum + (counter.value + weight) = counter.reported + weight
  rw [← UInt32.add_assoc, conserved.2]

theorem sum_append_singleton (values : List UInt32) (value : UInt32) : (values ++ [value]).sum = values.sum + value := by
  simp [List.sum_append]

/-- The call expects the value it would return. -/
def CallSound : ClearCall → Prop
  | .read => True
  | .swap mostRecentVal finalVal => mostRecentVal = finalVal

/-- A step that returns a value has exchanged it for zero, and any other step leaves the counter alone. -/
theorem clearStep_cases (counter : PeriodCounter) {call : ClearCall} (sound : CallSound call) :
    (∃ next, CallSound next ∧ counter.clearStep call = (counter, .inl next)) ∨
    counter.clearStep call = ({counter with
      value := 0
      exchanged := counter.exchanged ++ [(counter.value, 0)]
      returned := counter.returned ++ [counter.value]}, .inr counter.value) := by
  cases call with
  | read => exact Or.inl ⟨.swap counter.value counter.value, rfl, rfl⟩
  | swap mostRecentVal finalVal =>
      obtain rfl : mostRecentVal = finalVal := sound
      by_cases same : counter.value = mostRecentVal
      · right
        simp [clearStep, atomicCas, same]
      · left
        exact ⟨.swap counter.value counter.value, rfl, by simp [clearStep, atomicCas, same]⟩

/-- Exchanging the value for zero and returning it keeps the sum. -/
theorem Conserved.clear {counter : PeriodCounter} (conserved : counter.Conserved) :
    PeriodCounter.Conserved {counter with
      value := 0
      exchanged := counter.exchanged ++ [(counter.value, 0)]
      returned := counter.returned ++ [counter.value]} := by
  constructor
  · show counter.exchanged ++ [(counter.value, 0)] = (counter.returned ++ [counter.value]).map _
    rw [List.map_append, conserved.1, List.map_singleton]
  · show (counter.returned ++ [counter.value]).sum + 0 = counter.reported
    rw [sum_append_singleton, UInt32.add_zero, conserved.2]

end PeriodCounter

/-- The sampling section stands before its next step with the locals that it has so far. -/
inductive Section where
  | clearInserts (now : UInt64) (call : ClearCall)
  | clearRemoves (now : UInt64) (myInserts : UInt32) (call : ClearCall)
  | readQueueLen (now : UInt64) (myInserts myRemoves : UInt32)
  | writeQueueLen (now : UInt64) (myInserts myRemoves newQLen : UInt32)
  | finish (now : UInt64) (myInserts myRemoves newQLen : UInt32)
  deriving DecidableEq

/-- The threads in `waiting` have found a sample due and want the lock, and the one that holds it is in the section. -/
structure SmoothingCounter where
  monitor : SmoothingQCongestionMonitor
  inserts : PeriodCounter := {}
  removes : PeriodCounter := {}
  waiting : List UInt64 := []
  inside : Option Section := none

/-- Every event is one atomic step of a reporter or of a thread that runs `capacity_ratio`. -/
inductive SmoothingEvent where
  | reportInsert (weight : UInt32)
  | reportDelete (weight : UInt32)
  | setQueueSize (size : UInt32)
  | setMaxRate (rate : Float64)
  | capacityRatio (now : UInt64)
  | lock (thread : ℕ)
  | sample

namespace SmoothingCounter

def new (queueTarget : UInt32) (smoothStepMs : UInt64) : SmoothingCounter :=
  {monitor := .new queueTarget smoothStepMs}

/-- The thread in the section makes its next step, and the last one releases the lock. -/
def sample (counter : SmoothingCounter) : Option SmoothingCounter :=
  counter.inside.map fun
    | .clearInserts now call =>
        let (inserts, next) := counter.inserts.clearStep call
        {counter with
          inserts := inserts
          inside := some (next.elim (.clearInserts now) fun myInserts => .clearRemoves now myInserts .read)}
    | .clearRemoves now myInserts call =>
        let (removes, next) := counter.removes.clearStep call
        {counter with
          removes := removes
          inside := some (next.elim (.clearRemoves now myInserts) (.readQueueLen now myInserts))}
    | .readQueueLen now myInserts myRemoves =>
        let newQLen := counter.monitor.queueLen + myInserts - myRemoves
        {counter with inside := some (.writeQueueLen now myInserts myRemoves newQLen)}
    | .writeQueueLen now myInserts myRemoves newQLen =>
        {counter with
          monitor := {counter.monitor with queueLen := newQLen}
          inside := some (.finish now myInserts myRemoves newQLen)}
    | .finish now myInserts myRemoves newQLen =>
        let monitor := {counter.monitor.addSample now myInserts myRemoves with queueLen := newQLen}
        {counter with monitor := {monitor with ratio := monitor.projectedRatio}, inside := none}

def step (counter : SmoothingCounter) : SmoothingEvent → Option SmoothingCounter
  | .reportInsert weight => some {counter with inserts := counter.inserts.add weight}
  | .reportDelete weight => some {counter with removes := counter.removes.add weight}
  | .setQueueSize size => some {counter with monitor := {counter.monitor with queueTarget := size}}
  | .setMaxRate rate => some {counter with monitor := {counter.monitor with maxPerSec := rate}}
  | .capacityRatio now =>
      if counter.monitor.smoothStepMs ≤ now - counter.monitor.tstamps counter.monitor.vIdx then
        some {counter with waiting := counter.waiting ++ [now]}
      else some counter
  | .lock thread =>
      if counter.inside.isSome then none
      else counter.waiting[thread]?.map fun now =>
        {counter with waiting := counter.waiting.eraseIdx thread, inside := some (.clearInserts now .read)}
  | .sample => counter.sample

/-- The reporters and the sampling threads interleave in any order. -/
def system (queueTarget : UInt32) (smoothStepMs : UInt64) : EventSystem SmoothingCounter SmoothingEvent :=
  ⟨new queueTarget smoothStepMs, step⟩

/-- Both counters are conserved, and between samples the queue length follows from them. -/
def Conserved (counter : SmoothingCounter) : Prop :=
  counter.inserts.Conserved ∧ counter.removes.Conserved ∧ (counter.inside = none →
    counter.monitor.queueLen + counter.inserts.value - counter.removes.value =
      counter.inserts.reported - counter.removes.reported)

/-- The values that the section holds have been returned and are not yet in the queue length. -/
def Holds (counter : SmoothingCounter) : Prop :=
  let taken := counter.inserts.returned.sum - counter.removes.returned.sum
  match counter.inside with
  | none => counter.monitor.queueLen = taken
  | some (.clearInserts _ call) => counter.monitor.queueLen = taken ∧ PeriodCounter.CallSound call
  | some (.clearRemoves _ myInserts call) =>
      counter.monitor.queueLen + myInserts = taken ∧ PeriodCounter.CallSound call
  | some (.readQueueLen _ myInserts myRemoves) => counter.monitor.queueLen + myInserts - myRemoves = taken
  | some (.writeQueueLen _ _ _ newQLen) => newQLen = taken
  | some (.finish _ _ _ newQLen) => newQLen = taken

structure Sound (counter : SmoothingCounter) : Prop where
  inserts : counter.inserts.Conserved
  removes : counter.removes.Conserved
  holds : counter.Holds

theorem new_sound (queueTarget : UInt32) (smoothStepMs : UInt64) : (new queueTarget smoothStepMs).Sound := by
  refine ⟨⟨rfl, rfl⟩, ⟨rfl, rfl⟩, ?_⟩
  show (0 : UInt32) = 0 - 0
  rfl

theorem Sound.conserved {counter : SmoothingCounter} (sound : counter.Sound) : counter.Conserved := by
  refine ⟨sound.inserts, sound.removes, ?_⟩
  intro outside
  have queueLen : counter.monitor.queueLen = counter.inserts.returned.sum - counter.removes.returned.sum := by
    simpa [Holds, outside] using sound.holds
  rw [queueLen, ← sound.inserts.2, ← sound.removes.2]
  grind

theorem Sound.sample {counter after : SmoothingCounter} (sound : counter.Sound) (sampled : counter.sample = some after) :
    after.Sound := by
  have holds := sound.holds
  obtain ⟨place, isInside, rfl⟩ := Option.map_eq_some_iff.mp sampled
  simp only [Holds, isInside] at holds
  cases place with
  | clearInserts now call =>
      rcases counter.inserts.clearStep_cases holds.2 with ⟨next, nextSound, stepped⟩ | stepped
      · simp only [stepped]
        exact ⟨sound.inserts, sound.removes, holds.1, nextSound⟩
      · simp only [stepped]
        refine ⟨sound.inserts.clear, sound.removes, ?_, trivial⟩
        show counter.monitor.queueLen + counter.inserts.value =
          (counter.inserts.returned ++ [counter.inserts.value]).sum - counter.removes.returned.sum
        rw [PeriodCounter.sum_append_singleton, holds.1]
        grind
  | clearRemoves now myInserts call =>
      rcases counter.removes.clearStep_cases holds.2 with ⟨next, nextSound, stepped⟩ | stepped
      · simp only [stepped]
        exact ⟨sound.inserts, sound.removes, holds.1, nextSound⟩
      · simp only [stepped]
        refine ⟨sound.inserts, sound.removes.clear, ?_⟩
        show counter.monitor.queueLen + myInserts - counter.removes.value =
          counter.inserts.returned.sum - (counter.removes.returned ++ [counter.removes.value]).sum
        rw [PeriodCounter.sum_append_singleton, holds.1]
        grind
  | readQueueLen now myInserts myRemoves => exact ⟨sound.inserts, sound.removes, holds⟩
  | writeQueueLen now myInserts myRemoves newQLen => exact ⟨sound.inserts, sound.removes, holds⟩
  | finish now myInserts myRemoves newQLen => exact ⟨sound.inserts, sound.removes, holds⟩

/-- A step that leaves the counters' returned values, the queue length and the section alone keeps the state sound. -/
theorem Holds.congr {counter after : SmoothingCounter} (holds : counter.Holds)
    (inserts : after.inserts.returned = counter.inserts.returned)
    (removes : after.removes.returned = counter.removes.returned)
    (queueLen : after.monitor.queueLen = counter.monitor.queueLen) (inside : after.inside = counter.inside) :
    after.Holds := by
  unfold Holds at holds ⊢
  rw [inserts, removes, queueLen, inside]
  exact holds

theorem Sound.step {counter after : SmoothingCounter} {event : SmoothingEvent} (sound : counter.Sound)
    (stepped : counter.step event = some after) : after.Sound := by
  cases event with
  | reportInsert weight =>
      obtain rfl := Option.some.inj stepped
      exact ⟨sound.inserts.add weight, sound.removes, sound.holds.congr rfl rfl rfl rfl⟩
  | reportDelete weight =>
      obtain rfl := Option.some.inj stepped
      exact ⟨sound.inserts, sound.removes.add weight, sound.holds.congr rfl rfl rfl rfl⟩
  | setQueueSize size =>
      obtain rfl := Option.some.inj stepped
      exact ⟨sound.inserts, sound.removes, sound.holds.congr rfl rfl rfl rfl⟩
  | setMaxRate rate =>
      obtain rfl := Option.some.inj stepped
      exact ⟨sound.inserts, sound.removes, sound.holds.congr rfl rfl rfl rfl⟩
  | capacityRatio now =>
      rw [SmoothingCounter.step] at stepped
      split at stepped
      · obtain rfl := Option.some.inj stepped
        exact ⟨sound.inserts, sound.removes, sound.holds.congr rfl rfl rfl rfl⟩
      · obtain rfl := Option.some.inj stepped
        exact sound
  | lock thread =>
      rw [SmoothingCounter.step, Option.ite_none_left_eq_some] at stepped
      obtain ⟨outside, locked⟩ := stepped
      obtain ⟨now, -, rfl⟩ := Option.map_eq_some_iff.mp locked
      rw [Bool.not_eq_true, Option.isSome_eq_false_iff, Option.isNone_iff_eq_none] at outside
      have queueLen : counter.monitor.queueLen = counter.inserts.returned.sum - counter.removes.returned.sum := by
        simpa [Holds, outside] using sound.holds
      exact ⟨sound.inserts, sound.removes, queueLen, trivial⟩
  | sample => exact sound.sample stepped

/-- In every state of every run, what the samples took and what is left is all that was reported, and between samples
the queue length follows from the counters. -/
theorem counts_conserved (queueTarget : UInt32) (smoothStepMs : UInt64) (events : List SmoothingEvent) :
    (system queueTarget smoothStepMs).EveryState Conserved (new queueTarget smoothStepMs) events := by
  apply EventSystem.everyState_of_invariant Sound _ _ events (new_sound queueTarget smoothStepMs)
  · intro counter event after sound stepped
    exact sound.step stepped
  · intro counter sound
    exact sound.conserved

end SmoothingCounter

end JetStream
