import JetStream.Dataplane.TimerSource
import JetStream.Utils.Monitors
import Mathlib.Data.List.ReduceOption

namespace JetStream

/-- The type is the number of the data plane type, and `rest` stands for the fields that the queue does not look at. -/
structure QueuedMessage (T F : Type) where
  type : ℕ
  windowLengthMs : Int32
  data : List T
  rest : F
  deriving DecidableEq

namespace QueuedMessage

variable {T F : Type}

def endOfWindow : ℕ := 10

/-- A new message has the first type of the declaration. -/
def empty [Inhabited F] : QueuedMessage T F := ⟨2, 0, [], default⟩

def ofTuple [Inhabited F] (t : T) : QueuedMessage T F := {(empty : QueuedMessage T F) with data := [t]}

end QueuedMessage

/-- These are the calls that the queue makes of its monitor. -/
inductive MonitorCall where
  | reportInsert (weight : UInt32)
  | reportDelete (weight : UInt32)
  | endOfWindow (windowMs : Int32)
  | newWindowStart
  deriving DecidableEq

/-- A queue monitor takes no notice of windows. -/
def QueueCongestionMonitor.report (monitor : QueueCongestionMonitor) : MonitorCall → QueueCongestionMonitor
  | .reportInsert weight => {monitor with
      insertsInPeriod := monitor.insertsInPeriod + weight
      queueLen := monitor.queueLen + weight}
  | .reportDelete weight => {monitor with queueLen := monitor.queueLen + (0 - weight)}
  | .endOfWindow _ => monitor
  | .newWindowStart => monitor

/-- A slow link is simulated by a queue that gives one message at a time, and the calls of its monitor are kept. -/
structure FixedRateQueue (T F : Type) where
  msPerDequeue : Int32
  q : List (QueuedMessage T F)
  mon : List MonitorCall

namespace FixedRateQueue

variable {T F : Type} [Inhabited F]

def new (msPerDequeue : Int32) : FixedRateQueue T F := ⟨msPerDequeue, [], []⟩

def pushTuple (queue : FixedRateQueue T F) : Option T → FixedRateQueue T F
  | none => queue
  | some t => {queue with
      q := queue.q ++ [.ofTuple t]
      mon := queue.mon ++ [.reportInsert 1]}

/-- Each tuple becomes a message of its own, and the marker follows as it came. -/
def process (queue : FixedRateQueue T F) (given : List (Option T) × QueuedMessage T F) : FixedRateQueue T F :=
  let queue := given.1.foldl pushTuple queue
  {queue with q := queue.q ++ [given.2]}

/-- The first message gives one call of the chain, where no result stands for the fatal check on its tuples. -/
def emitData (queue : FixedRateQueue T F) :
    Option (FixedRateQueue T F × List (List T × QueuedMessage T F) × ℤ) :=
  match queue.q with
  | [] => some (queue, [], queue.msPerDequeue.toInt)
  | msg :: q =>
      match msg.data with
      | [] =>
          let calls := if msg.type = QueuedMessage.endOfWindow then
            [.endOfWindow msg.windowLengthMs, .newWindowStart] else []
          some ({queue with q := q, mon := queue.mon ++ calls}, [([], msg)], queue.msPerDequeue.toInt)
      | [t] => some ({queue with q := q, mon := queue.mon ++ [.reportDelete 1]}, [([t], QueuedMessage.empty)],
          queue.msPerDequeue.toInt)
      | _ :: _ :: _ => none

def operator : SourceOperator (FixedRateQueue T F) (List (Option T) × QueuedMessage T F)
    (List T × QueuedMessage T F) := ⟨process, emitData⟩

/-- The messages of one call are its tuples one by one and then its marker. -/
def messages (given : List (Option T) × QueuedMessage T F) : List (QueuedMessage T F) :=
  given.1.reduceOption.map QueuedMessage.ofTuple ++ [given.2]

/-- A message with a tuple goes on as that tuple alone. -/
def call (msg : QueuedMessage T F) : List T × QueuedMessage T F :=
  if msg.data = [] then ([], msg) else (msg.data, QueuedMessage.empty)

/-- The monitor hears of each call of the chain, of a tuple that leaves or of a window that ends. -/
def reports (called : List T × QueuedMessage T F) : List MonitorCall :=
  if called.1 = [] then
    if called.2.type = QueuedMessage.endOfWindow then [.endOfWindow called.2.windowLengthMs, .newWindowStart] else []
  else [.reportDelete 1]

def isInsert : MonitorCall → Bool
  | .reportInsert _ => true
  | _ => false

/-- What came in has been sent in order up to a place, and the rest is in the queue. The monitor has heard of every tuple
that came in and of every call, in the order of the calls. -/
structure Holds (msPerDequeue : Int32) (queue : FixedRateQueue T F) (given : List (List (Option T) × QueuedMessage T F))
    (emitted : List (List T × QueuedMessage T F)) : Prop where
  wait : queue.msPerDequeue = msPerDequeue
  order : ∃ sent, given.flatMap messages = sent ++ queue.q ∧ emitted = sent.map call
  reported : queue.mon.filter (!isInsert ·) = emitted.flatMap reports
  counted : ∀ monitor : QueueCongestionMonitor, (queue.mon.foldl .report monitor).queueLen +
    .ofNat (emitted.countP (·.1 ≠ [])) = monitor.queueLen + .ofNat (given.flatMap (·.1.reduceOption)).length

variable {msPerDequeue : Int32} {queue next : FixedRateQueue T F} {given : List (List (Option T) × QueuedMessage T F)}
    {emitted calls : List (List T × QueuedMessage T F)} {delay : ℤ}

theorem new_holds : (new msPerDequeue : FixedRateQueue T F).Holds msPerDequeue [] [] where
  wait := rfl
  order := ⟨[], rfl, rfl⟩
  reported := rfl
  counted := fun _ => rfl

/-- The tuples of one call are queued in order, and each of them is reported. -/
theorem foldl_pushTuple (queue : FixedRateQueue T F) (tuples : List (Option T)) :
    tuples.foldl pushTuple queue = {queue with
      q := queue.q ++ tuples.reduceOption.map QueuedMessage.ofTuple
      mon := queue.mon ++ List.replicate tuples.reduceOption.length (.reportInsert 1)} := by
  induction tuples generalizing queue with
  | nil => simp [List.reduceOption]
  | cons tuple tuples ih =>
      cases tuple with
      | none => rw [List.foldl_cons, ih, List.reduceOption_cons_of_none, pushTuple]
      | some t =>
          rw [List.foldl_cons, ih, List.reduceOption_cons_of_some, pushTuple, List.length_cons, List.replicate_succ,
            List.map_cons, List.append_assoc, List.append_assoc]
          rfl

theorem foldl_inserts (monitor : QueueCongestionMonitor) (count : ℕ) :
    ((List.replicate count (MonitorCall.reportInsert 1)).foldl .report monitor).queueLen =
      monitor.queueLen + .ofNat count := by
  induction count generalizing monitor with
  | zero => simp
  | succ count ih =>
      rw [List.replicate_succ, List.foldl_cons, ih, UInt32.ofNat_add, UInt32.add_comm (.ofNat count), ← UInt32.add_assoc]
      rfl

theorem Holds.process (holds : queue.Holds msPerDequeue given emitted)
    (item : List (Option T) × QueuedMessage T F) :
    (queue.process item).Holds msPerDequeue (given ++ [item]) emitted := by
  obtain ⟨sent, order, calls⟩ := holds.order
  rw [FixedRateQueue.process, foldl_pushTuple]
  refine ⟨holds.wait, ⟨sent, ?_, calls⟩, ?_, fun monitor => ?_⟩
  · rw [List.flatMap_append, List.flatMap_singleton, order, messages, List.append_assoc, List.append_assoc]
  · have inserts : (List.replicate item.1.reduceOption.length (MonitorCall.reportInsert 1)).filter (!isInsert ·) = [] := by
      rw [List.filter_replicate]
      rfl
    rw [List.filter_append, inserts, List.append_nil, holds.reported]
  · rw [List.foldl_append, foldl_inserts, UInt32.add_assoc, UInt32.add_comm (.ofNat _), ← UInt32.add_assoc,
      holds.counted, List.flatMap_append, List.length_append, List.flatMap_singleton, UInt32.ofNat_add,
      UInt32.add_assoc]

/-- An emission waits for more, or it takes the first message and calls the chain with it. -/
theorem emitData_cases (emits : queue.emitData = some (next, calls, delay)) :
    delay = queue.msPerDequeue.toInt ∧ next.msPerDequeue = queue.msPerDequeue ∧
      (queue.q = [] ∧ next = queue ∧ calls = [] ∨
        ∃ msg, queue.q = msg :: next.q ∧ calls = [call msg] ∧ next.mon = queue.mon ++ reports (call msg)) := by
  unfold emitData at emits
  split at emits
  · rename_i empty
    obtain ⟨rfl, rfl, rfl⟩ := by simpa using emits
    exact ⟨rfl, rfl, Or.inl ⟨empty, rfl, rfl⟩⟩
  · rename_i msg q first
    split at emits
    · rename_i none_left
      obtain ⟨rfl, rfl, rfl⟩ := by simpa using emits
      exact ⟨rfl, rfl, Or.inr ⟨msg, first, by simp [call, none_left], by simp [call, reports, none_left]⟩⟩
    · rename_i t one
      obtain ⟨rfl, rfl, rfl⟩ := by simpa using emits
      exact ⟨rfl, rfl, Or.inr ⟨msg, first, by simp [call, one], by simp [call, reports, one]⟩⟩
    · cases emits

omit [Inhabited F] in
theorem queueLen_reports (monitor : QueueCongestionMonitor) (called : List T × QueuedMessage T F) :
    ((reports called).foldl .report monitor).queueLen + .ofNat ([called].countP (·.1 ≠ [])) = monitor.queueLen := by
  unfold reports
  split_ifs with empty window
  · simp [empty, QueueCongestionMonitor.report]
  · simp [empty]
  · simp only [List.foldl_cons, List.foldl_nil, QueueCongestionMonitor.report, List.countP_singleton, ne_eq, empty,
      not_false_eq_true, decide_true, if_true]
    rw [UInt32.add_assoc]
    exact UInt32.add_zero _

theorem Holds.emitData (holds : queue.Holds msPerDequeue given emitted)
    (emits : queue.emitData = some (next, calls, delay)) : next.Holds msPerDequeue given (emitted ++ calls) := by
  obtain ⟨-, wait, ⟨-, rfl, rfl⟩ | ⟨msg, first, rfl, mon⟩⟩ := emitData_cases emits
  · rwa [List.append_nil]
  · obtain ⟨sent, order, called⟩ := holds.order
    refine ⟨wait.trans holds.wait, ⟨sent ++ [msg], ?_, ?_⟩, ?_, fun monitor => ?_⟩
    · rw [order, first, List.append_assoc, List.singleton_append]
    · rw [called, List.map_append, List.map_singleton]
    · have leaves : (reports (call msg)).filter (!isInsert ·) = reports (call msg) := by
        rw [reports]
        split_ifs <;> rfl
      rw [mon, List.filter_append, leaves, holds.reported, List.flatMap_append, List.flatMap_singleton]
    · rw [mon, List.foldl_append, List.countP_append, UInt32.ofNat_add, UInt32.add_comm (.ofNat _), ← UInt32.add_assoc,
        queueLen_reports, holds.counted]

/-- A queue that waits for a while between two messages never ends the chain itself. -/
theorem keeps (msPerDequeue : Int32) : TimerSource.Keeps (operator (T := T) (F := F)) (fun _ => True)
    (Holds msPerDequeue) (fun queue given emitted => msPerDequeue < 0 ∧ queue.Holds msPerDequeue given emitted) where
  process := fun _ _ _ item _ holds => holds.process item
  processDone := fun _ _ _ item _ ⟨negative, holds⟩ => ⟨negative, holds.process item⟩
  single := by
    intro queue next calls delay emits
    obtain ⟨-, -, ⟨-, -, rfl⟩ | ⟨msg, -, rfl, -⟩⟩ := emitData_cases emits
    · exact Nat.zero_le 1
    · exact Nat.le_refl 1
  emit := fun _ _ _ _ _ _ holds emits _ => holds.emitData emits
  finish := by
    intro queue given emitted next calls delay holds emits negative
    refine ⟨?_, holds.emitData emits⟩
    rw [(emitData_cases emits).1, holds.wait] at negative
    rwa [Int32.lt_iff_toInt_lt]

theorem countP_ofTuple (tuples : List T) :
    (tuples.map (QueuedMessage.ofTuple (F := F))).countP (·.data ≠ []) = tuples.length := by
  rw [List.countP_map, List.countP_eq_length.mpr]
  intro t _
  rfl

/-- When no marker has tuples, the monitor counts exactly the tuples that wait in the queue. -/
theorem Holds.exact (holds : queue.Holds msPerDequeue given emitted) (plain : ∀ item ∈ given, item.2.data = [])
    (monitor : QueueCongestionMonitor) : (queue.mon.foldl .report monitor).queueLen =
      monitor.queueLen + .ofNat (queue.q.countP (·.data ≠ [])) := by
  obtain ⟨sent, order, calls⟩ := holds.order
  have tuples : (given.flatMap messages).countP (·.data ≠ []) = (given.flatMap (·.1.reduceOption)).length := by
    clear holds order calls
    induction given with
    | nil => rfl
    | cons item given ih =>
        obtain ⟨first, others⟩ := List.forall_mem_cons.mp plain
        rw [List.flatMap_cons, List.flatMap_cons, List.countP_append, List.length_append, ih others, messages,
          List.countP_append, countP_ofTuple, List.countP_singleton, first]
        simp
  have called : emitted.countP (·.1 ≠ []) = sent.countP (·.data ≠ []) := by
    rw [calls, List.countP_map]
    refine List.countP_congr fun msg _ => ?_
    rw [Function.comp_apply, call]
    split_ifs with empty <;> simp [empty]
  have counted := holds.counted monitor
  rw [called, ← tuples, order, List.countP_append, Nat.add_comm, UInt32.ofNat_add, ← UInt32.add_assoc] at counted
  exact (UInt32.add_left_inj _).mp counted

/-- Only a marker with several tuples meets the fatal check. -/
theorem Holds.fatal (holds : queue.Holds msPerDequeue given emitted) (fails : queue.emitData = none) :
    ∃ item ∈ given, 2 ≤ item.2.data.length := by
  obtain ⟨sent, order, -⟩ := holds.order
  unfold FixedRateQueue.emitData at fails
  split at fails
  · cases fails
  · rename_i msg q first
    have several : 2 ≤ msg.data.length := by
      split at fails
      · cases fails
      · cases fails
      · rename_i several
        rw [several]
        exact Nat.le_add_left 2 _
    have member : msg ∈ given.flatMap messages := by
      rw [order, first]
      exact List.mem_append_right _ List.mem_cons_self
    obtain ⟨item, given, here⟩ := List.mem_flatMap.mp member
    refine ⟨item, given, ?_⟩
    rcases List.mem_append.mp here with tuple | marker
    · obtain ⟨t, -, rfl⟩ := List.mem_map.mp tuple
      exact absurd several (Nat.not_succ_le_self 1)
    · rwa [List.mem_singleton.mp marker] at several

/-- This is what a queue promises about a run, where `given` is everything that came in. -/
structure Delivers (msPerDequeue : Int32) (given : List (List (Option T) × QueuedMessage T F))
    (source : TimerSource (FixedRateQueue T F) (List (Option T) × QueuedMessage T F) (List T × QueuedMessage T F)) :
    Prop where
  inOrder : ∃ sent, given.flatMap messages = sent ++ source.op.q ∧ source.emitted = sent.map call
  paced : source.emitted.length + (source.waits.filter AsyncOp.unfinished).length ≤ source.waits.length
  reported : source.op.mon.filter (!isInsert ·) = source.emitted.flatMap reports
  counted : (∀ item ∈ given, item.2.data = []) → ∀ monitor : QueueCongestionMonitor,
    (source.op.mon.foldl .report monitor).queueLen = monitor.queueLen + .ofNat (source.op.q.countP (·.data ≠ []))
  fatal : source.op.emitData = none → ∃ item ∈ given, 2 ≤ item.2.data.length
  lasts : 0 ≤ msPerDequeue → source.unregistered = 0

/-- Whatever comes in and however the timer runs, the queue gives every tuple and every marker once and in order. -/
theorem fixedRateQueue_delivers (msPerDequeue : Int32)
    (events : List (SourceEvent (List (Option T) × QueuedMessage T F)))
    (source : TimerSource (FixedRateQueue T F) (List (Option T) × QueuedMessage T F) (List T × QueuedMessage T F))
    (ran : (TimerSource.system operator (new msPerDequeue)).runFrom (.started (new msPerDequeue)) events = some source) :
    Delivers msPerDequeue (events.filterMap SourceEvent.item?) source := by
  have outcome := TimerSource.outcome (keeps msPerDequeue) new_holds (fun _ _ => trivial) ran
  have holds : source.op.Holds msPerDequeue source.given source.emitted := by
    rcases outcome.phase with ⟨-, holds⟩ | ⟨-, -, -, holds⟩ <;> exact holds
  rw [← outcome.given]
  refine ⟨holds.order, outcome.paced, holds.reported, holds.exact, holds.fatal, fun nonnegative => ?_⟩
  rcases outcome.phase with ⟨zero, -⟩ | ⟨-, -, negative, -⟩
  · exact zero
  · rw [Int32.lt_iff_toInt_lt] at negative
    rw [Int32.le_iff_toInt_le] at nonnegative
    omega

/-- Two tuples and the end of their window come in, and the timer runs three times. -/
def twoTuples : List (SourceEvent (List (Option ℕ) × QueuedMessage ℕ Unit)) :=
  [.process ([some 7, none, some 8], ⟨QueuedMessage.endOfWindow, 1000, [], ()⟩), .expires 0, .emitWrapper 0, .expires 1,
    .emitWrapper 1, .expires 2, .emitWrapper 2]

/-- The window ends for the chain after both tuples have left. -/
theorem fixedRateQueue_delivers_twoTuples : ∃ source,
    (TimerSource.system operator (new 500)).runFrom (.started (new 500)) twoTuples = some source ∧
      source.emitted = [([7], QueuedMessage.empty), ([8], QueuedMessage.empty),
        ([], ⟨QueuedMessage.endOfWindow, 1000, [], ()⟩)] ∧
      Delivers 500 (twoTuples.filterMap SourceEvent.item?) source :=
  ⟨_, rfl, rfl, fixedRateQueue_delivers 500 twoTuples _ rfl⟩

end FixedRateQueue

end JetStream
