import JetStream.Lib.EventSystem
import JetStream.Utils.Monitors

namespace JetStream

/-- The sampling section stands before its next atomic step with the locals that it has read so far. -/
inductive Sampler where
  | idle
  | readQueueLen
  | readInserts (readQLen : UInt32)
  | swap (readQLen inserts newi : UInt32)
  | rereadQueueLen (newi : UInt32)
  deriving DecidableEq

/-- The next compare-and-swap expects this value. -/
def Sampler.expected : Sampler → Option UInt32
  | .swap _ _ newi => some newi
  | _ => none

/-- The reporters in `reporting` have made their first add, and the last three fields record what was counted. -/
structure InsertCounter where
  monitor : QueueCongestionMonitor
  sampler : Sampler
  reporting : List UInt32
  used : UInt32
  taken : UInt32
  reported : UInt32

/-- Every event is one atomic step of a reporter or of the sampling thread. -/
inductive CounterEvent where
  | reportInsert (weight : UInt32)
  | finishInsert (reporter : ℕ)
  | reportDelete (weight : UInt32)
  | setQueueSize (size : UInt32)
  | setMaxRate (rate : Float64)
  | capacityRatio (now : UInt64)
  | sample

namespace InsertCounter

def new (queueTarget : UInt32) : InsertCounter := ⟨⟨{}, queueTarget, 0, 0, 0, 0, 0, 0⟩, .idle, [], 0, 0, 0⟩

/-- The compare-and-swap writes zero exactly when the counter still has the expected value. -/
def cleared (counter : InsertCounter) (newi : UInt32) : InsertCounter :=
  if counter.monitor.insertsInPeriod = newi then
    {counter with
      monitor := {counter.monitor with insertsInPeriod := 0}
      taken := counter.taken + newi}
  else counter

/-- The sample ends with the value that its loop kept. -/
def endSample (counter : InsertCounter) (readQLen inserts : UInt32) : Option InsertCounter :=
  (counter.monitor.finishSample readQLen inserts).map fun monitor =>
    {counter with monitor := monitor, sampler := .idle, used := counter.used + inserts, taken := 0}

/-- The loop ends when the compare-and-swap finds zero, and reads the queue length again when the counter has moved. -/
def swap (counter : InsertCounter) (readQLen inserts newi : UInt32) : Option InsertCounter :=
  let found := counter.monitor.insertsInPeriod
  let counter := counter.cleared newi
  if found = 0 then counter.endSample readQLen inserts
  else if inserts = found then some {counter with sampler := .swap readQLen found found}
  else some {counter with sampler := .rereadQueueLen found}

/-- The sampling thread makes its next atomic step. -/
def sample (counter : InsertCounter) : Option InsertCounter :=
  match counter.sampler with
  | .idle => none
  | .readQueueLen => some {counter with sampler := .readInserts counter.monitor.queueLen}
  | .readInserts readQLen =>
      let inserts := counter.monitor.insertsInPeriod
      some {counter with sampler := .swap readQLen inserts inserts}
  | .swap readQLen inserts newi => counter.swap readQLen inserts newi
  | .rereadQueueLen newi => some {counter with sampler := .swap counter.monitor.queueLen newi newi}

def step (counter : InsertCounter) : CounterEvent → Option InsertCounter
  | .reportInsert weight => some {counter with
      monitor := {counter.monitor with insertsInPeriod := counter.monitor.insertsInPeriod + weight}
      reporting := counter.reporting ++ [weight]
      reported := counter.reported + weight}
  | .finishInsert reporter => counter.reporting[reporter]?.map fun weight => {counter with
      monitor := {counter.monitor with queueLen := counter.monitor.queueLen + weight}
      reporting := counter.reporting.eraseIdx reporter}
  | .reportDelete weight =>
      some {counter with monitor := {counter.monitor with queueLen := counter.monitor.queueLen + -weight}}
  | .setQueueSize size => some {counter with monitor := {counter.monitor with queueTarget := size}}
  | .setMaxRate rate => some {counter with monitor := {counter.monitor with maxPerSec := rate}}
  | .capacityRatio now =>
      if counter.sampler ≠ .idle then none
      else if counter.monitor.due now then
        some {counter with monitor := {counter.monitor with lastQueryTS := now}, sampler := .readQueueLen}
      else some counter
  | .sample => counter.sample

/-- The reporters and the sampling thread interleave in any order. -/
def system (queueTarget : UInt32) : EventSystem InsertCounter CounterEvent := ⟨new queueTarget, step⟩

/-- Between samples, the used values and the residual counter add up to the reported weight. -/
def Balanced (counter : InsertCounter) : Prop :=
  counter.sampler = .idle → counter.used + counter.monitor.insertsInPeriod = counter.reported

instance decidableBalanced (counter : InsertCounter) : Decidable counter.Balanced :=
  inferInstanceAs (Decidable (_ → _))

/-- A swap after a clearing one finds zero, and a first swap finds zero only where zero was read. -/
def SwapSound (counter : InsertCounter) : CounterEvent → Prop
  | .sample => ∀ newi ∈ counter.sampler.expected,
      if counter.taken = 0 then counter.monitor.insertsInPeriod = 0 → newi = 0
      else counter.monitor.insertsInPeriod = 0
  | _ => True

instance decidableSwapSound (counter : InsertCounter) : (event : CounterEvent) → Decidable (counter.SwapSound event)
  | .sample =>
      match found : counter.sampler.expected with
      | none => isTrue (by simp [SwapSound, found])
      | some newi =>
          decidable_of_iff
            (if counter.taken = 0 then counter.monitor.insertsInPeriod = 0 → newi = 0
              else counter.monitor.insertsInPeriod = 0)
            (by simp [SwapSound, found])
  | .reportInsert _ => isTrue trivial
  | .finishInsert _ => isTrue trivial
  | .reportDelete _ => isTrue trivial
  | .setQueueSize _ => isTrue trivial
  | .setMaxRate _ => isTrue trivial
  | .capacityRatio _ => isTrue trivial

/-- Within a sample, the loop holds what it has taken so far. -/
def Holds (counter : InsertCounter) : Prop :=
  match counter.sampler with
  | .swap _ inserts newi => inserts = newi ∧ (counter.taken = 0 ∨ counter.taken = inserts)
  | _ => counter.taken = 0

/-- The weights are used, taken by the current sample, or still in the counter. -/
structure Counted (counter : InsertCounter) : Prop where
  holds : counter.Holds
  sum : counter.used + counter.taken + counter.monitor.insertsInPeriod = counter.reported

theorem new_counted (queueTarget : UInt32) : (new queueTarget).Counted := ⟨rfl, rfl⟩

theorem Counted.balanced {counter : InsertCounter} (counted : counter.Counted) : counter.Balanced := by
  intro idle
  have nothing : counter.taken = 0 := by simpa [Holds, idle] using counted.holds
  simpa [nothing] using counted.sum

theorem finishSample_insertsInPeriod {monitor after : QueueCongestionMonitor} {readQLen inserts : UInt32}
    (finished : monitor.finishSample readQLen inserts = some after) :
    after.insertsInPeriod = monitor.insertsInPeriod := by
  unfold QueueCongestionMonitor.finishSample at finished
  rw [Option.ite_none_left_eq_some] at finished
  rw [← Option.some.inj finished.2]

theorem cleared_of_eq {counter : InsertCounter} {newi : UInt32} (same : counter.monitor.insertsInPeriod = newi) :
    counter.cleared newi = {counter with
      monitor := {counter.monitor with insertsInPeriod := 0}
      taken := counter.taken + newi} := if_pos same

theorem cleared_of_ne {counter : InsertCounter} {newi : UInt32} (moved : counter.monitor.insertsInPeriod ≠ newi) :
    counter.cleared newi = counter := if_neg moved

/-- A compare-and-swap moves the counter's value to the sample, or does nothing. -/
theorem cleared_sum (counter : InsertCounter) (newi : UInt32) :
    (counter.cleared newi).used + (counter.cleared newi).taken + (counter.cleared newi).monitor.insertsInPeriod =
      counter.used + counter.taken + counter.monitor.insertsInPeriod := by
  by_cases same : counter.monitor.insertsInPeriod = newi
  · rw [cleared_of_eq same, same]
    show counter.used + (counter.taken + newi) + 0 = counter.used + counter.taken + newi
    rw [UInt32.add_zero, UInt32.add_assoc]
  · rw [cleared_of_ne same]

theorem cleared_reported (counter : InsertCounter) (newi : UInt32) :
    (counter.cleared newi).reported = counter.reported := by
  unfold cleared
  split <;> rfl

/-- A sample that uses exactly what it took keeps the sum. -/
theorem Counted.endSample {counter after : InsertCounter} {readQLen inserts : UInt32}
    (sum : counter.used + counter.taken + counter.monitor.insertsInPeriod = counter.reported)
    (same : inserts = counter.taken) (ended : counter.endSample readQLen inserts = some after) : after.Counted := by
  unfold InsertCounter.endSample at ended
  rw [Option.map_eq_some_iff] at ended
  obtain ⟨monitor, finished, rfl⟩ := ended
  constructor
  · rfl
  · simp only [finishSample_insertsInPeriod finished, same, UInt32.add_zero, sum]

/-- A swap that finds zero leaves the sample with what it took. -/
theorem taken_of_found_zero {counter : InsertCounter} {readQLen newi : UInt32}
    (atSwap : counter.sampler = .swap readQLen newi newi) (held : counter.taken = 0 ∨ counter.taken = newi)
    (sound : counter.SwapSound .sample) (zero : counter.monitor.insertsInPeriod = 0) :
    newi = (counter.cleared newi).taken := by
  have sound := sound newi (by rw [atSwap]; rfl)
  by_cases nothing : counter.taken = 0
  · rw [if_pos nothing] at sound
    rw [sound zero, cleared_of_eq zero, nothing]
    rfl
  · have same : counter.taken = newi := held.resolve_left nothing
    have moved : counter.monitor.insertsInPeriod ≠ newi := by
      rw [zero, ← same]
      exact Ne.symm nothing
    rw [cleared_of_ne moved, same]

theorem Counted.swap {counter after : InsertCounter} {readQLen inserts newi : UInt32} (counted : counter.Counted)
    (atSwap : counter.sampler = .swap readQLen inserts newi) (sound : counter.SwapSound .sample)
    (swapped : counter.swap readQLen inserts newi = some after) : after.Counted := by
  have ⟨same, held⟩ : inserts = newi ∧ (counter.taken = 0 ∨ counter.taken = inserts) := by
    simpa [Holds, atSwap] using counted.holds
  subst same
  have sum := (counter.cleared_sum inserts).trans (counted.sum.trans (counter.cleared_reported inserts).symm)
  unfold InsertCounter.swap at swapped
  by_cases zero : counter.monitor.insertsInPeriod = 0
  · rw [if_pos zero] at swapped
    exact Counted.endSample sum (taken_of_found_zero atSwap held sound zero) swapped
  · rw [if_neg zero] at swapped
    have nothing : counter.taken = 0 := by
      by_contra taken
      have sound := sound inserts (by rw [atSwap]; rfl)
      rw [if_neg taken] at sound
      exact zero sound
    by_cases found : inserts = counter.monitor.insertsInPeriod
    · rw [if_pos found] at swapped
      obtain rfl := Option.some.inj swapped
      constructor
      · show counter.monitor.insertsInPeriod = _ ∧ ((counter.cleared inserts).taken = 0 ∨
          (counter.cleared inserts).taken = counter.monitor.insertsInPeriod)
        rw [cleared_of_eq found.symm, nothing, found]
        exact ⟨rfl, .inr (UInt32.zero_add _)⟩
      · exact sum
    · rw [if_neg found] at swapped
      obtain rfl := Option.some.inj swapped
      constructor
      · show (counter.cleared inserts).taken = 0
        rw [cleared_of_ne (Ne.symm found), nothing]
      · exact sum

theorem Counted.sample {counter after : InsertCounter} (counted : counter.Counted)
    (sound : counter.SwapSound .sample) (sampled : counter.sample = some after) : after.Counted := by
  have holds := counted.holds
  unfold Holds at holds
  unfold InsertCounter.sample at sampled
  cases atStep : counter.sampler with
  | idle =>
      rw [atStep] at sampled
      cases sampled
  | readQueueLen =>
      rw [atStep] at sampled holds
      obtain rfl := Option.some.inj sampled
      exact ⟨holds, counted.sum⟩
  | readInserts readQLen =>
      rw [atStep] at sampled holds
      obtain rfl := Option.some.inj sampled
      exact ⟨⟨rfl, .inl holds⟩, counted.sum⟩
  | swap readQLen inserts newi =>
      rw [atStep] at sampled
      exact counted.swap atStep sound sampled
  | rereadQueueLen newi =>
      rw [atStep] at sampled holds
      obtain rfl := Option.some.inj sampled
      exact ⟨⟨rfl, .inl holds⟩, counted.sum⟩

theorem Counted.step {counter after : InsertCounter} {event : CounterEvent} (counted : counter.Counted)
    (sound : counter.SwapSound event) (stepped : counter.step event = some after) : after.Counted := by
  cases event with
  | reportInsert weight =>
      obtain rfl := Option.some.inj stepped
      constructor
      · exact counted.holds
      · show counter.used + counter.taken + (counter.monitor.insertsInPeriod + weight) = counter.reported + weight
        rw [← UInt32.add_assoc, counted.sum]
  | finishInsert reporter =>
      obtain ⟨weight, _, rfl⟩ := Option.map_eq_some_iff.mp stepped
      exact ⟨counted.holds, counted.sum⟩
  | reportDelete weight =>
      obtain rfl := Option.some.inj stepped
      exact ⟨counted.holds, counted.sum⟩
  | setQueueSize size =>
      obtain rfl := Option.some.inj stepped
      exact ⟨counted.holds, counted.sum⟩
  | setMaxRate rate =>
      obtain rfl := Option.some.inj stepped
      exact ⟨counted.holds, counted.sum⟩
  | capacityRatio now =>
      rw [InsertCounter.step, Option.ite_none_left_eq_some] at stepped
      obtain ⟨idle, started⟩ := stepped
      rw [not_not] at idle
      have nothing : counter.taken = 0 := by simpa [Holds, idle] using counted.holds
      split at started
      · obtain rfl := Option.some.inj started
        exact ⟨nothing, counted.sum⟩
      · obtain rfl := Option.some.inj started
        exact counted
  | sample => exact counted.sample sound stepped

/-- In every run whose swaps are sound, every weight is used once or still counted between samples. -/
theorem inserts_counted_once (queueTarget : UInt32) (events : List CounterEvent)
    (sound : (system queueTarget).EveryStep SwapSound (new queueTarget) events) :
    (system queueTarget).EveryState Balanced (new queueTarget) events := by
  apply EventSystem.EveryStep.everyState Counted _ _ (new_counted queueTarget) sound
  · intro counter event after counted sound stepped
    exact counted.step sound stepped
  · intro counter counted
    exact counted.balanced

/-- An insert between the two reads is counted by the loop's second round. -/
def raceBeforeSwap : List CounterEvent :=
  [.reportInsert 1, .capacityRatio 200000, .sample, .sample, .reportInsert 2, .sample, .sample, .sample, .sample]

theorem inserts_counted_once_raceBeforeSwap : (system 10).EveryState Balanced (new 10) raceBeforeSwap :=
  inserts_counted_once 10 raceBeforeSwap (by decide +kernel)

/-- An insert after the clearing swap makes the loop forget what it cleared. -/
def raceAfterSwap : List CounterEvent :=
  [.reportInsert 1, .capacityRatio 200000, .sample, .sample, .sample, .reportInsert 2, .sample, .sample, .sample,
    .sample]

theorem inserts_lost_raceAfterSwap : ∃ counter ∈ (system 10).runFrom (new 10) raceAfterSwap,
    counter.used = 2 ∧ counter.monitor.insertsInPeriod = 0 ∧ counter.reported = 3 ∧ ¬ counter.Balanced := by
  decide +kernel

end InsertCounter

end JetStream
