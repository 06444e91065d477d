import JetStream.Machine
import JetStream.Lib.EventSystem
import JetStream.Lib.OrderedMap
import Mathlib.Data.List.Chain

namespace JetStream

/-- Level 0 is fully rolled up and the last level has one bucket for each second. -/
def dtcSecsPerLevel : List ℕ := [intMax, 3600, 1800, 600, 300, 60, 30, 10, 5, 1]

def dtcLevelCount : ℕ := dtcSecsPerLevel.length

/-- The leaf level stands for a dimension without rollup. -/
def leafLevel : ℕ := 100000

/-- These values are fixed by `configure`, where a coarsening subscriber also has a largest window size and a simulation
has a rate and the second in which it was started. -/
structure SubscriberConfig where
  tsField : ℕ
  fields : ℕ
  startTs : ℤ
  sliceTs : ℤ
  windowSizeMs : ℤ
  windowOffsetMs : ℤ
  rollupLevels : List ℕ
  maxWindowSize : Option ℕ
  simulationRate : Option ℤ
  realStart : ℤ

/-- The clock counts the seconds of a time in microseconds, and a simulated one runs from `start_ts` at its rate. -/
def SubscriberConfig.now (config : SubscriberConfig) (micros : ℤ) : ℤ :=
  match config.simulationRate with
  | none => micros / 1000000
  | some rate => config.startTs + rate * (micros / 1000000 - config.realStart)

/-- A coarsening subscriber offers the levels whose period is not above its largest window size. -/
def SubscriberConfig.rollupTimePeriods (config : SubscriberConfig) : List ℕ :=
  match config.maxWindowSize with
  | none => []
  | some size => dtcSecsPerLevel.filter (· ≤ size)

/-- The metadata of a chain announces the end of a window or the end of the data. -/
inductive ChainMeta where
  | endOfWindow (windowEnd : Option ℕ)
  | noMoreData
  | other
  deriving DecidableEq

/-- The subscriber has its own fields, the time from which its timer fires, and the flushes under way. The history keeps
its windows and their starts, the clock less the offset at the last batch, and the ends announced at each batch. -/
structure TimeBasedSubscriber where
  curLevel : ℤ
  windowSizeMs : ℤ
  rollupLevels : List ℕ
  times : OrderedMap ℕ ℕ
  min : ℤ
  max : ℤ
  nextWindowStartTime : ℤ
  due : Option ℤ
  flushes : List ℕ
  windows : List (ℤ × ℤ)
  starts : List ℤ
  held : ℤ
  announced : List (List ℕ)

/-- Metadata arrives from any chain, the timer emits a batch that reads the clock at a time in microseconds, and a flush
comes back. -/
inductive SubscriberEvent where
  | incomingMeta (chain : ℕ) (message : ChainMeta)
  | emitBatch (micros delta : ℤ)
  | postFlush
  deriving DecidableEq

namespace TimeBasedSubscriber

section Environment

variable (config : SubscriberConfig) (isUnrolled : List ℕ → Bool)

/-- The query starts at `start_ts`, its upper end is still that of the slice, and the timer fires at once. -/
def new : TimeBasedSubscriber where
  curLevel := config.rollupTimePeriods.length - 1
  windowSizeMs := config.windowSizeMs
  rollupLevels := config.rollupLevels
  times := .empty
  min := config.startTs
  max := config.sliceTs
  nextWindowStartTime := 0
  due := some 0
  flushes := []
  windows := []
  starts := [0]
  held := 1
  announced := []

/-- The levels are forgotten again when none of them rolls anything up. -/
def setRollupLevel (subscriber : TimeBasedSubscriber) (level : ℕ) : Option TimeBasedSubscriber :=
  let levels := if subscriber.rollupLevels.isEmpty then List.replicate config.fields leafLevel
    else subscriber.rollupLevels
  if config.tsField < levels.length then
    let levels := levels.set config.tsField level
    some {subscriber with rollupLevels := if isUnrolled levels then [] else levels}
  else none

/-- The period and the window are compared in 32 bits, and a longer period is slept for by the microseconds that it is
longer. -/
def sleepMicros (period : ℕ) (windowSizeMs : ℤ) : ℕ :=
  let changeInWindow := ((period * 1000 : ℕ) - windowSizeMs : ℤ).bmod (2 ^ 32)
  if 0 < changeInWindow then toUInt32 (1000 * changeInWindow) else 0

/-- Only a coarsening subscriber changes its level, and a level outside the table has no period. A longer window delays
the batch. -/
def respondToCongestion (subscriber : TimeBasedSubscriber) (delta : ℤ) : Option (TimeBasedSubscriber × ℕ) :=
  if config.maxWindowSize.isNone || delta = 0 then some (subscriber, 0)
  else if subscriber.curLevel + delta < 0 then none
  else
    let level := (subscriber.curLevel + delta).toNat
    (config.rollupTimePeriods[level]?).bind fun period =>
      (setRollupLevel config isUnrolled {subscriber with curLevel := level, windowSizeMs := toInt32 (period * 1000)}
        (level + (dtcLevelCount - config.rollupTimePeriods.length))).map fun changed =>
          (changed, sleepMicros period subscriber.windowSizeMs)

/-- A window is held back by the configured offset, and longer while its level is not yet complete. -/
def getWindowOffsetSec (subscriber : TimeBasedSubscriber) : Option ℕ :=
  if subscriber.rollupLevels.isEmpty then some (toUInt32 ((config.windowOffsetMs + 999).tdiv 1000))
  else (subscriber.rollupLevels[config.tsField]?).map fun timeLevel =>
    let levelOffset := if timeLevel < dtcLevelCount - 1 then Min.min 3600 (dtcSecsPerLevel.getD timeLevel 0) else 0
    toUInt32 ((config.windowOffsetMs + 999).tdiv 1000 + levelOffset)

/-- Each chain keeps the latest end that it has announced. -/
def incomingMeta (subscriber : TimeBasedSubscriber) (chain : ℕ) : ChainMeta → TimeBasedSubscriber
  | .endOfWindow (some windowEnd) =>
      {subscriber with
        times := subscriber.times.set chain (Max.max windowEnd ((subscriber.times.get? chain).getD 0))}
  | .noMoreData => {subscriber with times := subscriber.times.erase chain}
  | _ => subscriber

/-- The earliest announced end is searched from the largest time on. -/
def minWindowSeen (announced : List ℕ) : ℤ :=
  announced.foldl (fun (least : ℤ) (announcedEnd : ℕ) => Min.min least announcedEnd) (2 ^ 63 - 1)

/-- The window ends at the offset from the clock, or later when all chains have announced a later end. -/
def newMax (now : ℤ) (offset : ℕ) (announced : List ℕ) : ℤ :=
  if announced.isEmpty then now - offset
  else Max.max (now - offset) (minWindowSeen announced)

/-- The clock is read after the timer has fired and the subscriber has slept. The end of the window goes through the cube
as the number of a flush, and the timer is set again unless the window has a negative size. -/
def emitBatch (subscriber : TimeBasedSubscriber) (micros delta : ℤ) : Option TimeBasedSubscriber :=
  (respondToCongestion config isUnrolled subscriber delta).bind fun (changed, slept) =>
    if ∃ due ∈ subscriber.due, due + slept ≤ micros then
      (getWindowOffsetSec config changed).map fun offset =>
        {changed with
          due := if 0 ≤ changed.windowSizeMs then some (micros + changed.windowSizeMs * 1000) else none
          flushes := changed.flushes ++ [toUInt32 (newMax (config.now micros) offset changed.times.values)]
          held := config.now micros - offset
          announced := changed.announced ++ [changed.times.values]}
    else none

/-- The upper end of the query that a flush leaves. -/
def flushedMax (max : ℤ) (newMax : ℕ) : ℤ := if 0 < newMax then toInt32 newMax else max

/-- The window up to the new end is queried, and the next one starts behind it. -/
def postFlush (subscriber : TimeBasedSubscriber) (newMax : ℕ) : TimeBasedSubscriber :=
  {subscriber with
    max := flushedMax subscriber.max newMax
    min := (flushedMax subscriber.max newMax + 1).bmod (2 ^ 32)
    nextWindowStartTime := flushedMax subscriber.max newMax + 1
    windows := subscriber.windows ++ [(subscriber.min, flushedMax subscriber.max newMax)]
    starts := subscriber.starts ++ [flushedMax subscriber.max newMax + 1]}

/-- The flushes come back in the order in which they were sent. -/
def step (subscriber : TimeBasedSubscriber) : SubscriberEvent → Option TimeBasedSubscriber
  | .incomingMeta chain message => some (subscriber.incomingMeta chain message)
  | .emitBatch micros delta => subscriber.emitBatch config isUnrolled micros delta
  | .postFlush =>
      match subscriber.flushes with
      | [] => none
      | newMax :: rest => some {subscriber.postFlush newMax with flushes := rest}

def system : EventSystem TimeBasedSubscriber SubscriberEvent := ⟨new config, step config isUnrolled⟩

end Environment

/-- These windows have at least one second. -/
def nonempty (subscriber : TimeBasedSubscriber) : List (ℤ × ℤ) :=
  subscriber.windows.filter fun window => window.1 ≤ window.2

/-- The windows that are not empty follow one another without overlap and without a gap. -/
structure EmitsOnce (subscriber : TimeBasedSubscriber) : Prop where
  increasing : subscriber.nonempty.Pairwise fun first second => first.2 < second.1
  gapless : subscriber.nonempty.IsChain fun first second => second.1 = first.2 + 1
  starts : subscriber.starts.Pairwise (· ≤ ·)

/-- The clock less the offset has come to a time, or else chains have announced ends and none of these lies before it. -/
def Covers (time now : ℤ) (offset : ℕ) (announced : List ℕ) : Prop :=
  time ≤ now - offset ∨ (announced ≠ [] ∧ ∀ announcedEnd ∈ announced, time ≤ announcedEnd)

instance (time now : ℤ) (offset : ℕ) (announced : List ℕ) : Decidable (Covers time now offset announced) :=
  inferInstanceAs (Decidable (_ ∨ _))

/-- The offset is not negative, the fully rolled up level is not offered, and a simulated clock does not stand still. -/
def Regular (config : SubscriberConfig) : Prop :=
  (0 ≤ config.windowOffsetMs ∧ config.windowOffsetMs ≤ intMax) ∧ (∀ size ∈ config.maxWindowSize, size < intMax) ∧
    ∀ rate ∈ config.simulationRate, 1 ≤ rate

instance (config : SubscriberConfig) : Decidable (Regular config) := inferInstanceAs (Decidable (_ ∧ _))

/-- What the chains had announced at an earlier batch is not taken back: one of those ends is reached by the clock or by
all the ends announced now. The ends are positive and below the largest `int`, and where the settings let the clock less
the offset go back, the announced ends make up for it. -/
def OnTime (config : SubscriberConfig) (subscriber : TimeBasedSubscriber) (now : ℤ) (offset : ℕ)
    (announced : List ℕ) : Prop :=
  (∀ earlier ∈ subscriber.announced, earlier ≠ [] → ∃ announcedEnd ∈ earlier, Covers announcedEnd now offset announced) ∧
    Covers 1 now offset announced ∧ now - offset < intMax ∧
    (announced ≠ [] → ∃ announcedEnd ∈ announced, announcedEnd < intMax) ∧
    (Regular config ∨ Covers subscriber.held now offset announced)

instance (config : SubscriberConfig) (subscriber : TimeBasedSubscriber) (now : ℤ) (offset : ℕ) (announced : List ℕ) :
    Decidable (OnTime config subscriber now offset announced) := inferInstanceAs (Decidable (_ ∧ _))

section Environment

variable (config : SubscriberConfig) (isUnrolled : List ℕ → Bool)

/-- Batches are on time at the offset of the level after the congestion step. -/
def Timely (subscriber : TimeBasedSubscriber) : SubscriberEvent → Prop
  | .emitBatch micros delta => ∀ changed ∈ respondToCongestion config isUnrolled subscriber delta,
      ∀ offset ∈ getWindowOffsetSec config changed.1,
        OnTime config subscriber (config.now micros) offset subscriber.times.values
  | _ => True

instance (subscriber : TimeBasedSubscriber) : DecidablePred (subscriber.Timely config isUnrolled)
  | .emitBatch micros delta => inferInstanceAs (Decidable (∀ changed ∈ respondToCongestion config isUnrolled subscriber
      delta, ∀ offset ∈ getWindowOffsetSec config changed.1,
        OnTime config subscriber (config.now micros) offset subscriber.times.values))
  | .incomingMeta _ _ => isTrue trivial
  | .postFlush => isTrue trivial

end Environment

theorem le_foldl_min {time bound : ℤ} {announced : List ℕ} :
    time ≤ announced.foldl (fun (least : ℤ) (announcedEnd : ℕ) => Min.min least announcedEnd) bound ↔
      time ≤ bound ∧ ∀ announcedEnd ∈ announced, time ≤ announcedEnd := by
  induction announced generalizing bound with
  | nil => simp
  | cons announcedEnd announced ih =>
      rw [List.foldl_cons, ih, le_min_iff, List.forall_mem_cons, and_assoc]

/-- A covered time is reached by the end of the window. -/
theorem Covers.le_newMax {time now : ℤ} {offset : ℕ} {announced : List ℕ} (covers : Covers time now offset announced)
    (small : announced ≠ [] → ∃ announcedEnd ∈ announced, announcedEnd < intMax) :
    time ≤ newMax now offset announced := by
  unfold newMax
  by_cases none_announced : announced = []
  · subst none_announced
    simpa [Covers] using covers
  · rw [if_neg (by simpa using none_announced), le_max_iff, minWindowSeen, le_foldl_min]
    refine covers.imp_right fun late => ⟨?_, late.2⟩
    obtain ⟨some_end, member, small⟩ := small none_announced
    have reached := late.2 some_end member
    unfold intMax at small
    omega

/-- The end of the window is the clock less the offset, or no announced end lies before it. -/
theorem newMax_cases (now : ℤ) (offset : ℕ) (announced : List ℕ) :
    newMax now offset announced = now - offset ∨
      announced ≠ [] ∧ ∀ announcedEnd ∈ announced, newMax now offset announced ≤ announcedEnd := by
  unfold newMax
  split_ifs with none_announced
  · exact Or.inl rfl
  · rcases max_choice (now - offset) (minWindowSeen announced) with clock | ends
    · exact Or.inl clock
    · refine Or.inr ⟨by simpa using none_announced, ?_⟩
      rw [ends]
      exact (le_foldl_min.mp le_rfl).2

/-- An end on time is below the largest `int` and goes through the 32-bit number of its flush unchanged. -/
theorem OnTime.newMax {config : SubscriberConfig} {subscriber : TimeBasedSubscriber} {now : ℤ} {offset : ℕ}
    {announced : List ℕ} (onTime : OnTime config subscriber now offset announced) :
    newMax now offset announced < intMax ∧
      (toUInt32 (newMax now offset announced) : ℤ) = newMax now offset announced := by
  obtain ⟨-, positive, clock, ends, -⟩ := onTime
  have atLeast : 1 ≤ TimeBasedSubscriber.newMax now offset announced := positive.le_newMax ends
  have below : TimeBasedSubscriber.newMax now offset announced < intMax := by
    rcases newMax_cases now offset announced with same | ⟨some_announced, least⟩
    · exact same ▸ clock
    · obtain ⟨some_end, member, small⟩ := ends some_announced
      have bound := least some_end member
      omega
  refine ⟨below, ?_⟩
  unfold toUInt32
  unfold intMax at below
  omega

/-- The windows follow one another without a gap up to the given end. -/
structure Follows (windows : List (ℤ × ℤ)) (finish : ℤ) : Prop where
  increasing : windows.Pairwise fun first second => first.2 < second.1
  gapless : windows.IsChain fun first second => second.1 = first.2 + 1
  below : ∀ window ∈ windows, window.2 ≤ finish
  last : ∀ window ∈ windows.getLast?, window.2 = finish

theorem Follows.nil (finish : ℤ) : Follows [] finish := ⟨List.Pairwise.nil, List.IsChain.nil, nofun, nofun⟩

theorem Follows.append {windows : List (ℤ × ℤ)} {finish start next : ℤ} (follows : Follows windows finish)
    (adjacent : windows ≠ [] → start = finish + 1) (nonempty : start ≤ next) :
    Follows (windows ++ [(start, next)]) next where
  increasing := by
    rw [List.pairwise_append]
    refine ⟨follows.increasing, List.pairwise_singleton _ _, fun first member second same => ?_⟩
    rw [List.mem_singleton.mp same, adjacent (List.ne_nil_of_mem member)]
    exact Int.lt_add_one_of_le (follows.below first member)
  gapless := by
    apply follows.gapless.append (List.isChain_singleton _)
    intro first last second same
    obtain rfl : (start, next) = second := by simpa using same
    rw [adjacent (List.ne_nil_of_mem (List.mem_of_mem_getLast? last)), follows.last first last]
  below := by
    intro window member
    rcases List.mem_append.mp member with old | same
    · have started := adjacent (List.ne_nil_of_mem old)
      have below := follows.below window old
      omega
    · rw [List.mem_singleton.mp same]
  last := by simp

/-- A time was reached by the clock less the offset at the last batch, or by all the ends announced at some batch. -/
def Backed (subscriber : TimeBasedSubscriber) (time : ℤ) : Prop :=
  time ≤ subscriber.held ∨
    ∃ earlier ∈ subscriber.announced, earlier ≠ [] ∧ ∀ announcedEnd ∈ earlier, time ≤ announcedEnd

/-- What was reached before is covered by a batch on time. -/
theorem Backed.le_newMax {config : SubscriberConfig} {subscriber : TimeBasedSubscriber} {time now : ℤ} {offset : ℕ}
    {announced : List ℕ} (backed : subscriber.Backed time) (onTime : OnTime config subscriber now offset announced)
    (held : Covers subscriber.held now offset announced) : time ≤ newMax now offset announced := by
  obtain ⟨kept, -, -, ends, -⟩ := onTime
  rcases backed with clock | ⟨earlier, member, some_announced, least⟩
  · exact clock.trans (held.le_newMax ends)
  · obtain ⟨announcedEnd, announced, covers⟩ := kept earlier member some_announced
    exact (least announcedEnd announced).trans (covers.le_newMax ends)

/-- The flushes under way carry ends that do not decrease, and none of them lies before the last queried end. -/
structure Inv (subscriber : TimeBasedSubscriber) : Prop where
  sorted : subscriber.flushes.Pairwise (· ≤ ·)
  range : ∀ newMax ∈ subscriber.flushes, 0 < newMax ∧ newMax < intMax
  following : subscriber.windows ≠ [] → ∀ newMax ∈ subscriber.flushes, subscriber.max ≤ newMax
  begun : subscriber.windows ≠ [] →
    0 < subscriber.max ∧ subscriber.min = subscriber.max + 1 ∧ subscriber.nextWindowStartTime = subscriber.max + 1
  fresh : subscriber.windows = [] → subscriber.nextWindowStartTime = 0
  follows : Follows subscriber.nonempty subscriber.max
  ordered : subscriber.starts.Pairwise (· ≤ ·)
  starts : ∀ start ∈ subscriber.starts, start ≤ subscriber.nextWindowStartTime
  backed : ∀ newMax ∈ subscriber.flushes, subscriber.Backed newMax
  queried : subscriber.windows ≠ [] → subscriber.Backed subscriber.max

theorem Inv.emitsOnce {subscriber : TimeBasedSubscriber} (inv : subscriber.Inv) : subscriber.EmitsOnce :=
  ⟨inv.follows.increasing, inv.follows.gapless, inv.ordered⟩

theorem new_inv (config : SubscriberConfig) : (new config).Inv where
  sorted := List.Pairwise.nil
  range := nofun
  following := fun begun => absurd rfl begun
  begun := fun begun => absurd rfl begun
  fresh := fun _ => rfl
  follows := .nil _
  ordered := List.pairwise_singleton _ _
  starts := fun _ member => (List.mem_singleton.mp member).le
  backed := nofun
  queried := fun begun => absurd rfl begun

/-- What covers the clock less the offset at the last batch keeps all that was reached. -/
theorem Backed.keep {subscriber changed : TimeBasedSubscriber} {time now : ℤ} {offset : ℕ} {announced : List ℕ}
    (backed : subscriber.Backed time) (covers : Covers subscriber.held now offset announced)
    (held : changed.held = now - offset) (history : changed.announced = subscriber.announced ++ [announced]) :
    changed.Backed time := by
  rw [Backed, held, history]
  rcases backed with clock | ⟨earlier, member, reached⟩
  · exact covers.imp clock.trans fun late =>
      ⟨announced, by simp, late.1, fun announcedEnd member => clock.trans (late.2 announcedEnd member)⟩
  · exact Or.inr ⟨earlier, List.mem_append_left _ member, reached⟩

/-- A flush behind all that was reached extends those under way. -/
theorem Inv.send {subscriber changed : TimeBasedSubscriber} {newMax : ℕ} (inv : subscriber.Inv)
    (late : ∀ time, subscriber.Backed time → time ≤ newMax) (range : 0 < newMax ∧ newMax < intMax)
    (flushes : changed.flushes = subscriber.flushes ++ [newMax])
    (kept : ∀ time, subscriber.Backed time → changed.Backed time) (backed : changed.Backed newMax)
    (windows : changed.windows = subscriber.windows ∧ changed.min = subscriber.min ∧ changed.max = subscriber.max)
    (starts : changed.starts = subscriber.starts ∧ changed.nextWindowStartTime = subscriber.nextWindowStartTime) :
    changed.Inv := by
  have each {holds : ℕ → Prop} (before : ∀ sent ∈ subscriber.flushes, holds sent) (last : holds newMax) :
      ∀ sent ∈ changed.flushes, holds sent := by
    rw [flushes]
    exact List.forall_mem_append.mpr ⟨before, by simpa using last⟩
  constructor
  · rw [flushes, List.pairwise_append]
    refine ⟨inv.sorted, List.pairwise_singleton _ _, fun first before second same => ?_⟩
    rw [List.mem_singleton.mp same]
    exact_mod_cast late first (inv.backed first before)
  · exact each inv.range range
  · rw [windows.1, windows.2.2]
    intro begun
    exact each (inv.following begun) (late _ (inv.queried begun))
  · rw [windows.1, windows.2.1, windows.2.2, starts.2]
    exact inv.begun
  · rw [windows.1, starts.2]
    exact inv.fresh
  · rw [nonempty, windows.1, windows.2.2]
    exact inv.follows
  · rw [starts.1]
    exact inv.ordered
  · rw [starts.1, starts.2]
    exact inv.starts
  · exact each (fun sent before => kept _ (inv.backed sent before)) backed
  · rw [windows.1, windows.2.2]
    intro begun
    exact kept _ (inv.queried begun)

/-- Whatever was queried before, the flush that comes back next does not end earlier. -/
theorem Inv.flushed {subscriber : TimeBasedSubscriber} {newMax : ℕ} (inv : subscriber.Inv)
    (sent : newMax ∈ subscriber.flushes) :
    flushedMax subscriber.max newMax = newMax ∧ subscriber.nextWindowStartTime ≤ newMax + 1 := by
  obtain ⟨positive, small⟩ := inv.range newMax sent
  constructor
  · rw [flushedMax, if_pos positive]
    exact toInt32_eq (by unfold intMax at small; omega)
  · by_cases fresh : subscriber.windows = []
    · rw [inv.fresh fresh]
      omega
    · have following := inv.following fresh newMax sent
      rw [(inv.begun fresh).2.2]
      omega

/-- The next window either continues the earlier ones or is empty. -/
theorem Inv.follows_next {subscriber : TimeBasedSubscriber} {newMax : ℕ} (inv : subscriber.Inv)
    (sent : newMax ∈ subscriber.flushes) :
    Follows ((subscriber.windows ++ [(subscriber.min, (newMax : ℤ))]).filter fun window => window.1 ≤ window.2)
      newMax := by
  have started (some_window : subscriber.nonempty ≠ []) : subscriber.windows ≠ [] := by
    intro fresh
    exact some_window (by rw [nonempty, fresh, List.filter_nil])
  rw [List.filter_append, ← nonempty]
  by_cases long : subscriber.min ≤ newMax
  · rw [List.filter_cons_of_pos (by simpa using long), List.filter_nil]
    exact inv.follows.append (fun some_window => (inv.begun (started some_window)).2.1) long
  · rw [List.filter_cons_of_neg (by simpa using long), List.filter_nil, List.append_nil]
    by_cases none_yet : subscriber.nonempty = []
    · rw [none_yet]
      exact .nil _
    · have following := inv.following (started none_yet) newMax sent
      have begun := (inv.begun (started none_yet)).2.1
      have same : (newMax : ℤ) = subscriber.max := by omega
      rw [same]
      exact inv.follows

theorem Inv.postFlush {subscriber : TimeBasedSubscriber} {newMax : ℕ} {rest : List ℕ} (inv : subscriber.Inv)
    (flushes : subscriber.flushes = newMax :: rest) :
    Inv {subscriber.postFlush newMax with flushes := rest} := by
  have sent : newMax ∈ subscriber.flushes := by simp [flushes]
  have sorted := inv.sorted
  have range := inv.range
  have positive := (inv.range newMax sent).1
  obtain ⟨value, earlier⟩ := inv.flushed sent
  rw [flushes] at sorted range
  rw [List.pairwise_cons] at sorted
  have next : ((newMax : ℤ) + 1).bmod (2 ^ 32) = newMax + 1 := by
    have small := (inv.range newMax sent).2
    unfold intMax at small
    rw [Int.bmod_eq_emod_of_lt] <;> omega
  unfold TimeBasedSubscriber.postFlush
  rw [value, next]
  exact {
    sorted := sorted.2
    range := fun other member => range other (List.mem_cons_of_mem _ member)
    following := fun _ other member => Int.ofNat_le.mpr (sorted.1 other member)
    begun := fun _ => ⟨Int.natCast_pos.mpr positive, rfl, rfl⟩
    fresh := fun fresh => absurd fresh (by simp)
    follows := inv.follows_next sent
    ordered := by
      rw [List.pairwise_append]
      refine ⟨inv.ordered, List.pairwise_singleton _ _, fun first member second same => ?_⟩
      rw [List.mem_singleton.mp same]
      exact (inv.starts first member).trans earlier
    starts := by
      intro start member
      rcases List.mem_append.mp member with old | same
      · exact (inv.starts start old).trans earlier
      · exact (List.mem_singleton.mp same).le
    backed := fun other member => inv.backed other (flushes ▸ List.mem_cons_of_mem _ member)
    queried := fun _ => inv.backed newMax sent}

section Environment

variable {config : SubscriberConfig} {isUnrolled : List ℕ → Bool}

/-- The timer keeps the next batch away from the last one for the size of a window. -/
def Paced (config : SubscriberConfig) (subscriber : TimeBasedSubscriber) : Prop :=
  ∀ due ∈ subscriber.due, subscriber.held = 1 ∨ ∃ (micros : ℤ) (offset : ℕ), subscriber.held = config.now micros - offset ∧
    getWindowOffsetSec config subscriber = some offset ∧ 0 ≤ subscriber.windowSizeMs ∧
      micros + subscriber.windowSizeMs * 1000 ≤ due

/-- The levels that are set have the level of the time field, or nothing is rolled up any more. -/
theorem setRollupLevel_eq_some {subscriber changed : TimeBasedSubscriber} {level : ℕ}
    (sets : setRollupLevel config isUnrolled subscriber level = some changed) :
    ∃ levels, changed = {subscriber with rollupLevels := levels} ∧
      (levels = [] ∨ levels[config.tsField]? = some level) := by
  unfold setRollupLevel at sets
  generalize (if subscriber.rollupLevels.isEmpty then List.replicate config.fields leafLevel
    else subscriber.rollupLevels) = before at sets
  obtain ⟨inside, same⟩ := Option.ite_none_right_eq_some.mp sets
  refine ⟨_, (Option.some.inj same).symm, ?_⟩
  split_ifs
  · exact Or.inl rfl
  · exact Or.inr (List.getElem?_set_self inside)

/-- A congestion step leaves the subscriber as it is, or it goes to the period of another level. -/
theorem respondToCongestion_cases {subscriber changed : TimeBasedSubscriber} {delta : ℤ} {slept : ℕ}
    (responds : respondToCongestion config isUnrolled subscriber delta = some (changed, slept)) :
    changed = subscriber ∧ slept = 0 ∨ ∃ (level period : ℕ) (levels : List ℕ),
      config.rollupTimePeriods[level]? = some period ∧
      changed = {subscriber with
        curLevel := level
        windowSizeMs := toInt32 (period * 1000)
        rollupLevels := levels} ∧
      slept = sleepMicros period subscriber.windowSizeMs ∧ (levels = [] ∨
        levels[config.tsField]? = some (level + (dtcLevelCount - config.rollupTimePeriods.length))) := by
  unfold respondToCongestion at responds
  split_ifs at responds with stays negative
  · obtain ⟨rfl, rfl⟩ := Prod.mk.inj (Option.some.inj responds)
    exact Or.inl ⟨rfl, rfl⟩
  · obtain ⟨period, listed, mapped⟩ := Option.bind_eq_some_iff.mp responds
    obtain ⟨other, sets, same⟩ := Option.map_eq_some_iff.mp mapped
    obtain ⟨rfl, rfl⟩ := Prod.mk.inj same
    obtain ⟨levels, rfl, rolled⟩ := setRollupLevel_eq_some sets
    refine Or.inr ⟨(subscriber.curLevel + delta).toNat, period, levels, listed, ?_, ?_, rolled⟩
    · dsimp only
    · rfl

/-- It touches the level, the window size and the rollup levels only. -/
theorem respondToCongestion_eq {subscriber changed : TimeBasedSubscriber} {delta : ℤ} {slept : ℕ}
    (responds : respondToCongestion config isUnrolled subscriber delta = some (changed, slept)) :
    ∃ level size levels, changed = {subscriber with
      curLevel := level
      windowSizeMs := size
      rollupLevels := levels} := by
  rcases respondToCongestion_cases responds with ⟨rfl, -⟩ | ⟨level, period, levels, -, rfl, -⟩
  · exact ⟨_, _, _, rfl⟩
  · exact ⟨_, _, _, rfl⟩

/-- A batch is emitted after the timer has fired and the subscriber has slept. -/
theorem emitBatch_eq_some {subscriber next : TimeBasedSubscriber} {micros delta : ℤ}
    (emits : subscriber.emitBatch config isUnrolled micros delta = some next) :
    ∃ changed slept due offset, respondToCongestion config isUnrolled subscriber delta = some (changed, slept) ∧
      subscriber.due = some due ∧ due + slept ≤ micros ∧ getWindowOffsetSec config changed = some offset ∧
      next = {changed with
        due := if 0 ≤ changed.windowSizeMs then some (micros + changed.windowSizeMs * 1000) else none
        flushes := changed.flushes ++ [toUInt32 (newMax (config.now micros) offset changed.times.values)]
        held := config.now micros - offset
        announced := changed.announced ++ [changed.times.values]} := by
  obtain ⟨⟨changed, slept⟩, responds, sends⟩ := Option.bind_eq_some_iff.mp emits
  obtain ⟨⟨due, fires, late⟩, sends⟩ := Option.ite_none_right_eq_some.mp sends
  obtain ⟨offset, offsets, rfl⟩ := Option.map_eq_some_iff.mp sends
  exact ⟨changed, slept, due, offset, responds, fires, late, offsets, rfl⟩

/-- In a list that goes down the small entries are the last ones. -/
theorem filter_le_eq_drop {entries : List ℕ} {size : ℕ} (sorted : entries.Pairwise (· ≥ ·)) :
    entries.filter (· ≤ size) = entries.drop (entries.length - (entries.filter (· ≤ size)).length) := by
  induction entries with
  | nil => rfl
  | cons entry entries ih =>
      obtain ⟨least, sorted⟩ := List.pairwise_cons.mp sorted
      by_cases small : entry ≤ size
      · have all : (entry :: entries).filter (· ≤ size) = entry :: entries := by
          rw [List.filter_eq_self]
          exact List.forall_mem_cons.mpr ⟨by simpa using small, fun other member => by
            simpa using (least other member).trans small⟩
        rw [all, Nat.sub_self, List.drop_zero]
      · have fewer : (entries.filter (· ≤ size)).length ≤ entries.length := List.length_filter_le _ _
        rw [List.filter_cons_of_neg (by simpa using small), List.length_cons, Nat.succ_sub fewer, List.drop_succ_cons]
        exact ih sorted

/-- The periods are the last entries of the table. -/
theorem rollupTimePeriods_getElem? {level period : ℕ} (listed : config.rollupTimePeriods[level]? = some period) :
    dtcSecsPerLevel[level + (dtcLevelCount - config.rollupTimePeriods.length)]? = some period := by
  unfold SubscriberConfig.rollupTimePeriods at listed ⊢
  cases most : config.maxWindowSize with
  | none => simp [most] at listed
  | some size =>
      simp only [most] at listed ⊢
      rw [filter_le_eq_drop (by decide), List.getElem?_drop] at listed
      rw [Nat.add_comm]
      exact listed

theorem Regular.period_le (regular : Regular config) {level period : ℕ}
    (listed : config.rollupTimePeriods[level]? = some period) : period ≤ 3600 := by
  have member := List.mem_of_getElem? listed
  unfold SubscriberConfig.rollupTimePeriods at member
  cases most : config.maxWindowSize with
  | none => simp [most] at member
  | some size =>
      simp only [most, List.mem_filter, decide_eq_true_iff] at member
      have small := regular.2.1 size (by simp [most])
      have table : ∀ entry ∈ dtcSecsPerLevel, entry ≤ 3600 ∨ intMax ≤ entry := by decide
      have bound := table period member.1
      omega

/-- This is the offset without that of a level. -/
def baseOffset (config : SubscriberConfig) : ℕ := ((config.windowOffsetMs + 999).tdiv 1000).toNat

theorem Regular.toUInt32_offset (regular : Regular config) {levelOffset : ℕ} (small : levelOffset ≤ 3600) :
    toUInt32 ((config.windowOffsetMs + 999).tdiv 1000 + levelOffset) = baseOffset config + levelOffset := by
  obtain ⟨⟨low, high⟩, -⟩ := regular
  unfold toUInt32 baseOffset
  unfold intMax at high
  rw [Int.tdiv_eq_ediv_of_nonneg (by omega)]
  omega

/-- No level makes the offset shorter. -/
theorem Regular.baseOffset_le (regular : Regular config) {subscriber : TimeBasedSubscriber} {offset : ℕ}
    (offsets : getWindowOffsetSec config subscriber = some offset) : baseOffset config ≤ offset := by
  unfold getWindowOffsetSec at offsets
  split_ifs at offsets
  · have plain := @Regular.toUInt32_offset config regular 0 (Nat.zero_le _)
    rw [Nat.cast_zero, Int.add_zero, Nat.add_zero] at plain
    exact (plain.symm.trans (Option.some.inj offsets)).le
  · obtain ⟨timeLevel, -, rfl⟩ := Option.map_eq_some_iff.mp offsets
    dsimp only
    rw [regular.toUInt32_offset (by split_ifs <;> omega)]
    exact Nat.le_add_right _ _

/-- A level makes it longer by at most its period. -/
theorem Regular.offset_le (regular : Regular config) {subscriber : TimeBasedSubscriber} {level period offset : ℕ}
    (listed : config.rollupTimePeriods[level]? = some period)
    (levels : subscriber.rollupLevels = [] ∨ subscriber.rollupLevels[config.tsField]? =
      some (level + (dtcLevelCount - config.rollupTimePeriods.length)))
    (offsets : getWindowOffsetSec config subscriber = some offset) : offset ≤ baseOffset config + period := by
  unfold getWindowOffsetSec at offsets
  split_ifs at offsets with rolled
  · have plain := @Regular.toUInt32_offset config regular 0 (Nat.zero_le _)
    rw [Nat.cast_zero, Int.add_zero, Nat.add_zero] at plain
    rw [← Option.some.inj offsets, plain]
    exact Nat.le_add_right _ _
  · rcases levels with none_rolled | read
    · exact absurd (by rw [none_rolled]; rfl) rolled
    · rw [read, Option.map_some] at offsets
      rw [← Option.some.inj offsets, regular.toUInt32_offset (by split_ifs <;> omega)]
      have entry := rollupTimePeriods_getElem? listed
      rw [List.getD_eq_getElem?_getD, entry, Option.getD_some]
      split_ifs <;> omega

/-- The clock of such settings is at least as fast as the time. -/
theorem Regular.now_add_le (regular : Regular config) {micros later : ℤ} {seconds : ℕ}
    (passed : micros + seconds * 1000000 ≤ later) : config.now micros + seconds ≤ config.now later := by
  have apart : micros / 1000000 + seconds ≤ later / 1000000 := by omega
  unfold SubscriberConfig.now
  cases simulated : config.simulationRate with
  | none => exact apart
  | some rate =>
      have fast := regular.2.2 rate simulated
      have scaled : rate * (micros / 1000000 - config.realStart + seconds) ≤ rate * (later / 1000000 - config.realStart) :=
        Int.mul_le_mul_of_nonneg_left (by omega) (by omega)
      have least : (1 : ℤ) * seconds ≤ rate * seconds := Int.mul_le_mul_of_nonneg_right fast (Int.natCast_nonneg _)
      rw [Int.mul_add] at scaled
      dsimp only
      omega

/-- A longer window is slept for. -/
theorem period_le_of_slept {period : ℕ} {windowSizeMs : ℤ} (small : period ≤ 3600) (size : 0 ≤ windowSizeMs) :
    (period : ℤ) * 1000000 ≤ windowSizeMs * 1000 + sleepMicros period windowSizeMs := by
  by_cases longer : windowSizeMs < period * 1000
  · have change : ((period * 1000 : ℕ) - windowSizeMs : ℤ).bmod (2 ^ 32) = period * 1000 - windowSizeMs := by
      rw [Int.bmod_eq_emod_of_lt] <;> push_cast <;> omega
    unfold sleepMicros
    dsimp only
    rw [change, if_pos (by omega), toUInt32, Int.emod_eq_of_lt (by omega) (by omega), Int.toNat_of_nonneg (by omega)]
    omega
  · omega

/-- With regular settings the clock less the offset does not go back from one batch to the next. -/
theorem Paced.held_le {subscriber changed : TimeBasedSubscriber} {micros delta due : ℤ} {slept offset : ℕ}
    (paced : Paced config subscriber) (regular : Regular config)
    (responds : respondToCongestion config isUnrolled subscriber delta = some (changed, slept))
    (fires : subscriber.due = some due) (late : due + slept ≤ micros)
    (offsets : getWindowOffsetSec config changed = some offset) :
    subscriber.held = 1 ∨ subscriber.held ≤ config.now micros - offset := by
  refine (paced due fires).imp_right ?_
  rintro ⟨before, offset', held, offsets', size, spaced⟩
  rw [held]
  rcases respondToCongestion_cases responds with ⟨rfl, rfl⟩ | ⟨level, period, levels, listed, rfl, rfl, rolled⟩
  · obtain rfl := Option.some.inj (offsets'.symm.trans offsets)
    have clock := @Regular.now_add_le config regular before micros 0 (by omega)
    omega
  · have slept := period_le_of_slept (regular.period_le listed) size
    have clock := @Regular.now_add_le config regular before micros period (by omega)
    have least := regular.baseOffset_le offsets'
    have most := regular.offset_le listed rolled offsets
    omega

theorem Paced.emitBatch {subscriber next : TimeBasedSubscriber} {micros delta : ℤ}
    (emits : subscriber.emitBatch config isUnrolled micros delta = some next) : Paced config next := by
  obtain ⟨changed, slept, due, offset, -, -, -, offsets, rfl⟩ := emitBatch_eq_some emits
  intro due set
  dsimp only at set
  rw [Option.mem_def, Option.ite_none_right_eq_some] at set
  obtain ⟨size, same⟩ := set
  exact Or.inr ⟨micros, offset, rfl, offsets, size, (Option.some.inj same).le⟩

/-- A batch on time sends an end behind all earlier ones. -/
theorem Inv.emitBatch {subscriber next : TimeBasedSubscriber} {micros delta : ℤ} (inv : subscriber.Inv)
    (paced : Paced config subscriber) (timely : subscriber.Timely config isUnrolled (.emitBatch micros delta))
    (emits : subscriber.emitBatch config isUnrolled micros delta = some next) : next.Inv := by
  obtain ⟨changed, slept, due, offset, responds, fires, late, offsets, rfl⟩ := emitBatch_eq_some emits
  have onTime := timely (changed, slept) responds offset offsets
  obtain ⟨small, value⟩ := onTime.newMax
  have held : Covers subscriber.held (config.now micros) offset subscriber.times.values := by
    rcases onTime.2.2.2.2 with regular | covers
    · rcases paced.held_le regular responds fires late offsets with fresh | later
      · exact fresh ▸ onTime.2.1
      · exact Or.inl later
    · exact covers
  have reached (time : ℤ) (backed : subscriber.Backed time) :
      time ≤ newMax (config.now micros) offset subscriber.times.values := backed.le_newMax onTime held
  have positive : 1 ≤ newMax (config.now micros) offset subscriber.times.values := onTime.2.1.le_newMax onTime.2.2.2.1
  obtain ⟨level, size, levels, rfl⟩ := respondToCongestion_eq responds
  dsimp only
  refine inv.send ?_ ⟨?_, ?_⟩ rfl (fun time before => before.keep held rfl rfl) ?_ ⟨rfl, rfl, rfl⟩ ⟨rfl, rfl⟩
  · rw [value]
    exact reached
  · omega
  · omega
  · rw [value]
    exact (newMax_cases _ _ _).imp Eq.le fun ends => ⟨_, by simp, ends⟩

theorem Inv.step {subscriber next : TimeBasedSubscriber} {event : SubscriberEvent}
    (inv : subscriber.Inv ∧ Paced config subscriber) (timely : subscriber.Timely config isUnrolled event)
    (stepped : subscriber.step config isUnrolled event = some next) : next.Inv ∧ Paced config next := by
  cases event with
  | incomingMeta chain message =>
      obtain rfl := Option.some.inj stepped
      unfold TimeBasedSubscriber.incomingMeta
      split
      · exact ⟨{inv.1 with}, inv.2⟩
      · exact ⟨{inv.1 with}, inv.2⟩
      · exact inv
  | emitBatch micros delta => exact ⟨inv.1.emitBatch inv.2 timely stepped, Paced.emitBatch stepped⟩
  | postFlush =>
      simp only [TimeBasedSubscriber.step] at stepped
      split at stepped
      · exact absurd stepped nofun
      · rename_i newMax rest flushes
        obtain rfl := Option.some.inj stepped
        exact ⟨inv.1.postFlush flushes, inv.2⟩

/-- No slice is emitted twice or skipped in a run that never takes back an announced end. -/
theorem everyState_emitsOnce (config : SubscriberConfig) (isUnrolled : List ℕ → Bool) (events : List SubscriberEvent)
    (timely : (system config isUnrolled).EveryStep (Timely config isUnrolled) (new config) events) :
    (system config isUnrolled).EveryState EmitsOnce (new config) events := by
  apply EventSystem.EveryStep.everyState (fun subscriber => subscriber.Inv ∧ Paced config subscriber) _ _ _ timely
  · intro subscriber event next inv met stepped
    exact Inv.step inv met stepped
  · intro subscriber inv
    exact inv.1.emitsOnce
  · exact ⟨new_inv config, fun _ _ => Or.inl rfl⟩

/-- A coarsening subscriber with the default offset of 100 ms and windows of up to five minutes. -/
def coarseningConfig : SubscriberConfig where
  tsField := 0
  fields := 1
  startTs := 900
  sliceTs := 0
  windowSizeMs := 1000
  windowOffsetMs := 100
  rollupLevels := []
  maxWindowSize := some 300
  simulationRate := none
  realStart := 0

/-- A step to buckets of five seconds waits for four more seconds, and a chain has announced the end that it comes to. -/
theorem everyState_emitsOnce_coarsens :
    (system coarseningConfig (· == [9])).EveryStep (Timely coarseningConfig (· == [9])) (new coarseningConfig)
        [.emitBatch 1000000000 0, .incomingMeta 7 (.endOfWindow (some 1004)), .postFlush, .emitBatch 1005000000 (-1),
          .postFlush] ∧
      (system coarseningConfig (· == [9])).EveryState EmitsOnce (new coarseningConfig)
        [.emitBatch 1000000000 0, .incomingMeta 7 (.endOfWindow (some 1004)), .postFlush, .emitBatch 1005000000 (-1),
          .postFlush] :=
  ⟨by decide, everyState_emitsOnce _ _ _ (by decide)⟩

example : ((system coarseningConfig (· == [9])).runFrom (new coarseningConfig)
    [.emitBatch 1000000000 0, .incomingMeta 7 (.endOfWindow (some 1004)), .postFlush, .emitBatch 1005000000 (-1),
      .postFlush]).map (fun subscriber => subscriber.windows) = some [(900, 999), (1000, 1004)] := by decide

/-- A subscriber whose windows are held back by five seconds. -/
def heldBackConfig : SubscriberConfig := {coarseningConfig with
  windowOffsetMs := 5000
  maxWindowSize := none}

/-- A chain announces the end 1000 and is gone at the next batch, and the second 997 is emitted again. -/
theorem emitsOnce_finished_repeats : ¬∀ (config : SubscriberConfig) (isUnrolled : List ℕ → Bool)
    (events : List SubscriberEvent), (system config isUnrolled).EveryState EmitsOnce (new config) events := by
  intro every
  have run := every heldBackConfig (· == [9]) [.incomingMeta 7 (.endOfWindow (some 1000)), .emitBatch 1000000000 0,
    .postFlush, .incomingMeta 7 .noMoreData, .emitBatch 1001000000 0, .postFlush, .emitBatch 1002000000 0, .postFlush]
  have repeats : EmitsOnce _ :=
    (((((((run.2 _ rfl).2 _ rfl).2 _ rfl).2 _ rfl).2 _ rfl).2 _ rfl).2 _ rfl).2 _ rfl
  exact absurd repeats.increasing (by decide)

end Environment

end TimeBasedSubscriber

end JetStream
