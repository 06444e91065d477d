import JetStream.Lib.AsyncOperation
import JetStream.Lib.EventSystem
import Mathlib.Data.Int.Order.Basic

namespace JetStream

/-- An operator takes what it is handed, and each emission makes calls of its chain and gives the delay to the next one,
where no result stands for a fatal check. -/
structure SourceOperator (S I O : Type) where
  process : S → I → S
  emitData : S → Option (S × List O × ℤ)

/-- The waits of the timer are kept, with what came in, the calls of the chain and the number of times that the node has
unregistered it. -/
structure TimerSource (S I O : Type) where
  op : S
  running : Bool
  chain : Bool
  waits : List (AsyncOp Bool)
  given : List I
  emitted : List O
  unregistered : ℕ

/-- The chain is started and stopped from outside, data come in, and the timer and the strand take their turns. -/
inductive SourceEvent (I : Type) where
  | start
  | process (item : I)
  | expires (wait : ℕ)
  | emitWrapper (wait : ℕ)
  | chainStopping
  deriving DecidableEq

/-- Only data that come in hand something over. -/
def SourceEvent.item? {I : Type} : SourceEvent I → Option I
  | .process item => some item
  | _ => none

namespace TimerSource

variable {S I O : Type}

def new (op : S) : TimerSource S I O := ⟨op, false, true, [], [], [], 0⟩

/-- A new expiry cancels the wait before it. -/
def asyncWait (source : TimerSource S I O) : TimerSource S I O :=
  { source with waits := source.waits.map (·.cancel true) ++ [.pending] }

/-- A source without a chain cannot be started. -/
def start (source : TimerSource S I O) : Option (TimerSource S I O) :=
  if source.running then some source
  else if source.chain then some (asyncWait { source with running := true })
  else none

def chainStopping (source : TimerSource S I O) : TimerSource S I O :=
  { source with
    running := false
    chain := false
    waits := if source.running then source.waits.map (·.cancel true) else source.waits }

/-- The handler does not look at its error, and a negative delay ends the chain from within. -/
def emitWrapper (operator : SourceOperator S I O) (source : TimerSource S I O) : Option (TimerSource S I O) :=
  if source.running then do
    let (op, calls, delay) ← operator.emitData source.op
    let source := { source with op := op, emitted := source.emitted ++ calls }
    if 0 ≤ delay then some source.asyncWait
    else some { chainStopping { source with running := false } with unregistered := source.unregistered + 1 }
  else some source

def step (operator : SourceOperator S I O) (source : TimerSource S I O) : SourceEvent I → Option (TimerSource S I O)
  | .start => source.start
  | .process item => some { source with op := operator.process source.op item, given := source.given ++ [item] }
  | .expires wait => do
      let op ← source.waits[wait]?
      let op ← op.complete false
      some { source with waits := source.waits.set wait op }
  | .emitWrapper wait => do
      let op ← source.waits[wait]?
      let (_, op) ← op.handle
      emitWrapper operator { source with waits := source.waits.set wait op }
  | .chainStopping => some source.chainStopping

/-- The chain starts its source when it begins. -/
def started (op : S) : TimerSource S I O := ⟨op, true, true, [.pending], [], [], 0⟩

def system (operator : SourceOperator S I O) (op : S) : EventSystem (TimerSource S I O) (SourceEvent I) :=
  ⟨started op, step operator⟩

example (op : S) : (new op : TimerSource S I O).start = some (started op) := rfl

/-- One property of the operator, of what it was handed and of what it has emitted holds until the last emission, and
another one after it, when all that it is handed is allowed. -/
structure Keeps (operator : SourceOperator S I O) (allowed : I → Prop) (going done : S → List I → List O → Prop) :
    Prop where
  process : ∀ op given emitted item, allowed item → going op given emitted →
    going (operator.process op item) (given ++ [item]) emitted
  processDone : ∀ op given emitted item, allowed item → done op given emitted →
    done (operator.process op item) (given ++ [item]) emitted
  single : ∀ op next calls delay, operator.emitData op = some (next, calls, delay) → calls.length ≤ 1
  emit : ∀ op given emitted next calls delay, going op given emitted →
    operator.emitData op = some (next, calls, delay) → 0 ≤ delay → going next given (emitted ++ calls)
  finish : ∀ op given emitted next calls delay, going op given emitted →
    operator.emitData op = some (next, calls, delay) → delay < 0 → done next given (emitted ++ calls)

/-- A running source has one wait that is not handled. -/
inductive Waiting : Bool → Option (AsyncOp Bool) → Prop
  | pending : Waiting true (some .pending)
  | queued (aborted : Bool) : Waiting true (some (.queued aborted))
  | free : Waiting false none
  | cancelled (aborted : Bool) : Waiting false (some (.queued aborted))

/-- The source has run from its start, and it has not ended from within more than once. -/
structure Inv (going done : S → List I → List O → Prop) (source : TimerSource S I O) (results : List Bool)
    (current : Option (AsyncOp Bool)) : Prop where
  waits : source.waits = results.map .handled ++ current.toList
  waiting : Waiting source.running current
  chain : source.chain = source.running
  paced : source.emitted.length ≤ results.length
  phase : source.unregistered = 0 ∧ going source.op source.given source.emitted ∨
    source.unregistered = 1 ∧ source.running = false ∧ done source.op source.given source.emitted

variable {operator : SourceOperator S I O} {allowed : I → Prop} {going done : S → List I → List O → Prop}
    {source next : TimerSource S I O} {results : List Bool} {current : Option (AsyncOp Bool)}

theorem inv_started {op : S} (begins : going op [] []) : Inv going done (started op) [] (some .pending) where
  waits := rfl
  waiting := .pending
  chain := rfl
  paced := Nat.le_refl _
  phase := Or.inl ⟨rfl, begins⟩

theorem Inv.chainStopping (inv : Inv going done source results current) :
    ∃ current, Inv going done source.chainStopping results current := by
  have waiting := inv.waiting
  cases running : source.running with
  | false =>
      refine ⟨current, ?_, ?_, rfl, inv.paced, ?_⟩
      · rw [TimerSource.chainStopping, running]
        exact inv.waits
      · rwa [running] at waiting
      · rcases inv.phase with ⟨zero, holds⟩ | ⟨one, -, holds⟩
        · exact Or.inl ⟨zero, holds⟩
        · exact Or.inr ⟨one, rfl, holds⟩
  | true =>
      refine ⟨current.map (·.cancel true), ?_, ?_, rfl, inv.paced, ?_⟩
      · rw [TimerSource.chainStopping, running, if_pos rfl, inv.waits, AsyncOp.map_cancel]
      · rw [running] at waiting
        cases waiting with
        | pending => exact .cancelled true
        | queued aborted => exact .cancelled aborted
      · rcases inv.phase with ⟨zero, holds⟩ | ⟨-, stopped, -⟩
        · exact Or.inl ⟨zero, holds⟩
        · rw [running] at stopped
          cases stopped

/-- A source that runs emits and goes on or ends, and another one stays as it is. -/
theorem emitWrapper_cases (emits : emitWrapper operator source = some next) :
    source.running = false ∧ next = source ∨
      ∃ op calls delay, source.running = true ∧ operator.emitData source.op = some (op, calls, delay) ∧
        (0 ≤ delay ∧ next = asyncWait { source with op := op, emitted := source.emitted ++ calls } ∨
          delay < 0 ∧ next = { source with
            op := op
            running := false
            chain := false
            emitted := source.emitted ++ calls
            unregistered := source.unregistered + 1 }) := by
  unfold TimerSource.emitWrapper at emits
  split_ifs at emits with running
  · simp only [Option.bind_eq_bind, Option.bind_eq_some_iff, Prod.exists] at emits
    obtain ⟨op, calls, delay, emitted, ends⟩ := emits
    refine Or.inr ⟨op, calls, delay, running, emitted, ?_⟩
    split_ifs at ends with later
    · exact Or.inl ⟨later, (Option.some.inj ends).symm⟩
    · exact Or.inr ⟨not_le.mp later, (Option.some.inj ends).symm⟩
  · exact Or.inl ⟨Bool.eq_false_iff.mpr running, (Option.some.inj emits).symm⟩

/-- Each event does one of these things. -/
inductive Steps (operator : SourceOperator S I O) (source : TimerSource S I O) :
    SourceEvent I → TimerSource S I O → Prop
  | started (running : source.running = true) : Steps operator source .start source
  | start (stopped : source.running = false) (chain : source.chain = true) :
      Steps operator source .start (asyncWait { source with running := true })
  | process (item : I) : Steps operator source (.process item)
      { source with op := operator.process source.op item, given := source.given ++ [item] }
  | expires (wait : ℕ) (read : source.waits[wait]? = some .pending) :
      Steps operator source (.expires wait) { source with waits := source.waits.set wait (.queued false) }
  | emitWrapper (wait : ℕ) (aborted : Bool) (next : TimerSource S I O)
      (read : source.waits[wait]? = some (.queued aborted))
      (emits : emitWrapper operator { source with waits := source.waits.set wait (.handled aborted) } = some next) :
      Steps operator source (.emitWrapper wait) next
  | chainStopping : Steps operator source .chainStopping source.chainStopping

theorem steps_of_step {event : SourceEvent I} (stepped : step operator source event = some next) :
    Steps operator source event next := by
  cases event with
  | start =>
      have stepped : source.start = some next := stepped
      unfold TimerSource.start at stepped
      split_ifs at stepped with running chained
      · obtain rfl := Option.some.inj stepped
        exact .started running
      · obtain rfl := Option.some.inj stepped
        exact .start (Bool.eq_false_iff.mpr running) chained
  | process item =>
      obtain rfl := Option.some.inj stepped
      exact .process item
  | expires wait =>
      simp only [TimerSource.step, Option.bind_eq_bind, Option.bind_eq_some_iff] at stepped
      obtain ⟨op, read, op', completed, stepped⟩ := stepped
      obtain ⟨rfl, rfl⟩ := AsyncOp.complete_eq_some.mp completed
      obtain rfl := Option.some.inj stepped
      exact .expires wait read
  | emitWrapper wait =>
      simp only [TimerSource.step, Option.bind_eq_bind, Option.bind_eq_some_iff, Prod.exists] at stepped
      obtain ⟨op, read, aborted, op', taken, emits⟩ := stepped
      obtain ⟨rfl, rfl⟩ := AsyncOp.handle_eq_some.mp taken
      exact .emitWrapper wait aborted next read emits
  | chainStopping =>
      obtain rfl := Option.some.inj stepped
      exact .chainStopping

/-- The handler begins the next wait or ends the chain. -/
theorem Inv.emitWrapper (keeps : Keeps operator allowed going done) {aborted : Bool}
    (inv : Inv going done source results (some (.queued aborted)))
    (stepped : emitWrapper operator { source with waits := source.waits.set results.length (.handled aborted) } =
      some next) : ∃ results current, Inv going done next results current := by
  have waits : source.waits.set results.length (.handled aborted) =
      (results ++ [aborted]).map AsyncOp.handled ++ (none : Option (AsyncOp Bool)).toList := by
    rw [inv.waits, Option.toList_some, AsyncOp.set_current, AsyncOp.handled_append]
  obtain ⟨halted, rfl⟩ | ⟨op, calls, delay, running, emitted, ends⟩ := emitWrapper_cases stepped
  · refine ⟨results ++ [aborted], none, waits, ?_, inv.chain, ?_, inv.phase⟩
    · rw [halted]
      exact .free
    · rw [List.length_append]
      exact Nat.le_add_right_of_le inv.paced
  · have running : source.running = true := running
    have holds : source.unregistered = 0 ∧ going source.op source.given source.emitted := by
      rcases inv.phase with ⟨zero, holds⟩ | ⟨-, stopped, -⟩
      · exact ⟨zero, holds⟩
      · rw [running] at stopped
        cases stopped
    have paced : (source.emitted ++ calls).length ≤ (results ++ [aborted]).length := by
      rw [List.length_append, List.length_append, List.length_singleton]
      exact Nat.add_le_add inv.paced (keeps.single _ _ _ _ emitted)
    obtain ⟨later, rfl⟩ | ⟨ended, rfl⟩ := ends
    · refine ⟨results ++ [aborted], some .pending, ?_, ?_, inv.chain, paced, ?_⟩
      · rw [asyncWait, waits, AsyncOp.map_cancel]
        simp
      · rw [asyncWait, running]
        exact .pending
      · exact Or.inl ⟨holds.1, keeps.emit _ _ _ _ _ _ holds.2 emitted later⟩
    · refine ⟨results ++ [aborted], none, waits, .free, rfl, paced, ?_⟩
      exact Or.inr ⟨congrArg (· + 1) holds.1, rfl, keeps.finish _ _ _ _ _ _ holds.2 emitted ended⟩

/-- Every step keeps the invariant when what is handed over is allowed. -/
theorem Inv.step (keeps : Keeps operator allowed going done) (inv : Inv going done source results current)
    {event : SourceEvent I} (given : ∀ item, event = .process item → allowed item)
    (stepped : step operator source event = some next) : ∃ results current, Inv going done next results current := by
  cases steps_of_step stepped with
  | started running => exact ⟨results, current, inv⟩
  | start halted chained =>
      rw [inv.chain, halted] at chained
      cases chained
  | process item =>
      refine ⟨results, current, inv.waits, inv.waiting, inv.chain, inv.paced, ?_⟩
      rcases inv.phase with ⟨zero, holds⟩ | ⟨one, stopped, holds⟩
      · exact Or.inl ⟨zero, keeps.process _ _ _ _ (given item rfl) holds⟩
      · exact Or.inr ⟨one, stopped, keeps.processDone _ _ _ _ (given item rfl) holds⟩
  | expires wait read =>
      obtain ⟨rfl, rfl⟩ := AsyncOp.current_of_unfinished (inv.waits ▸ read) AsyncOp.pending_ne_handled
      refine ⟨results, some (.queued false), ?_, ?_, inv.chain, inv.paced, inv.phase⟩
      · dsimp only
        rw [inv.waits, Option.toList_some, AsyncOp.set_current, Option.toList_some]
      · have waiting := inv.waiting
        generalize running : source.running = running at waiting
        cases waiting with
        | pending => exact .queued false
  | emitWrapper wait aborted next read emits =>
      obtain ⟨rfl, rfl⟩ := AsyncOp.current_of_unfinished (inv.waits ▸ read) (AsyncOp.queued_ne_handled aborted)
      exact inv.emitWrapper keeps emits
  | chainStopping => exact ⟨results, inv.chainStopping⟩

theorem Inv.run (keeps : Keeps operator allowed going done) (inv : Inv going done source results current) {op : S}
    {events : List (SourceEvent I)} (given : ∀ item, .process item ∈ events → allowed item)
    (ran : (system operator op).runFrom source events = some next) :
    ∃ results current, Inv going done next results current := by
  induction events generalizing source results current with
  | nil =>
      obtain rfl := Option.some.inj ran
      exact ⟨results, current, inv⟩
  | cons event events ih =>
      rw [EventSystem.runFrom_cons, Option.bind_eq_some_iff] at ran
      obtain ⟨middle, stepped, rest⟩ := ran
      obtain ⟨results, current, inv⟩ := inv.step keeps
        (fun item same => given item (same ▸ List.mem_cons_self)) stepped
      exact ih inv (fun item member => given item (List.mem_cons_of_mem _ member)) rest

/-- A source that has not been stopped from outside runs or has ended from within. -/
theorem alive_step {event : SourceEvent I} (stepped : step operator source event = some next)
    (inside : event ≠ .chainStopping) (alive : source.running = true ∨ 0 < source.unregistered) :
    next.running = true ∨ 0 < next.unregistered := by
  cases steps_of_step stepped with
  | started running => exact alive
  | start halted chained => exact Or.inl rfl
  | process item => exact alive
  | expires wait read => exact alive
  | emitWrapper wait aborted next read emits =>
      obtain ⟨halted, rfl⟩ | ⟨op, calls, delay, running, emitted, ⟨later, rfl⟩ | ⟨ended, rfl⟩⟩ := emitWrapper_cases emits
      · exact alive
      · exact Or.inl running
      · exact Or.inr (Nat.succ_pos _)
  | chainStopping => exact absurd rfl inside

theorem alive_run {op : S} {events : List (SourceEvent I)} (inside : .chainStopping ∉ events)
    (ran : (system operator op).runFrom source events = some next)
    (alive : source.running = true ∨ 0 < source.unregistered) : next.running = true ∨ 0 < next.unregistered := by
  induction events generalizing source with
  | nil =>
      obtain rfl := Option.some.inj ran
      exact alive
  | cons event events ih =>
      rw [EventSystem.runFrom_cons, Option.bind_eq_some_iff] at ran
      obtain ⟨middle, stepped, rest⟩ := ran
      obtain ⟨first, others⟩ := List.ne_and_not_mem_of_not_mem_cons inside
      exact ih others rest (alive_step stepped first.symm alive)

/-- The wait of a running source can go on. -/
theorem goes_on (total : ∀ op given emitted, going op given emitted → (operator.emitData op).isSome)
    (inv : Inv going done source results current) (running : source.running = true) :
    (step operator source (.expires results.length)).isSome ∨
      (step operator source (.emitWrapper results.length)).isSome := by
  have waiting := inv.waiting
  rw [running] at waiting
  have read {op : AsyncOp Bool} (same : current = some op) : source.waits[results.length]? = some op := by
    rw [inv.waits, same, List.getElem?_append_right (Nat.le_of_eq (List.length_map _)), List.length_map, Nat.sub_self]
    rfl
  cases waiting with
  | pending =>
      refine Or.inl ?_
      simp only [step, read rfl]
      rfl
  | queued aborted =>
      refine Or.inr ?_
      have holds : going source.op source.given source.emitted := by
        rcases inv.phase with ⟨-, holds⟩ | ⟨-, stopped, -⟩
        · exact holds
        · rw [running] at stopped
          cases stopped
      obtain ⟨⟨op, calls, delay⟩, emitted⟩ := Option.isSome_iff_exists.mp (total _ _ _ holds)
      simp only [step, read rfl, Option.bind_eq_bind, Option.bind_some, AsyncOp.handle, emitWrapper, running, if_true,
        emitted]
      split_ifs <;> rfl

/-- A stopped source emits nothing more. -/
theorem stopped_step {event : SourceEvent I} (stepped : step operator source event = some next)
    (stopped : source.running = false ∧ source.chain = false) :
    (next.running = false ∧ next.chain = false) ∧ next.emitted = source.emitted := by
  obtain ⟨halted, free⟩ := stopped
  cases steps_of_step stepped with
  | started running => exact ⟨⟨halted, free⟩, rfl⟩
  | start halted chained =>
      rw [free] at chained
      cases chained
  | process item => exact ⟨⟨halted, free⟩, rfl⟩
  | expires wait read => exact ⟨⟨halted, free⟩, rfl⟩
  | emitWrapper wait aborted next read emits =>
      obtain ⟨-, rfl⟩ | ⟨op, calls, delay, running, -⟩ := emitWrapper_cases emits
      · exact ⟨⟨halted, free⟩, rfl⟩
      · have running : source.running = true := running
        rw [halted] at running
        cases running
  | chainStopping => exact ⟨⟨rfl, rfl⟩, rfl⟩

theorem given_step {event : SourceEvent I} (stepped : step operator source event = some next) :
    next.given = source.given ++ event.item?.toList := by
  cases steps_of_step stepped with
  | process item => rfl
  | emitWrapper wait aborted next read emits =>
      obtain ⟨-, rfl⟩ | ⟨op, calls, delay, -, -, ⟨-, rfl⟩ | ⟨-, rfl⟩⟩ := emitWrapper_cases emits <;>
        exact (List.append_nil _).symm
  | _ => exact (List.append_nil _).symm

/-- What has come in is the record of what was handed over. -/
theorem given_run {op : S} {events : List (SourceEvent I)}
    (ran : (system operator op).runFrom source events = some next) :
    next.given = source.given ++ events.filterMap SourceEvent.item? := by
  induction events generalizing source with
  | nil =>
      obtain rfl := Option.some.inj ran
      exact (List.append_nil _).symm
  | cons event events ih =>
      rw [EventSystem.runFrom_cons, Option.bind_eq_some_iff] at ran
      obtain ⟨middle, stepped, rest⟩ := ran
      rw [ih rest, given_step stepped, List.append_assoc]
      cases event <;> rfl

/-- At most one wait is not handled, and each handled one has made at most one call. The property of the operator holds, a
stopped source emits nothing more, and a source that nobody has stopped ends by its last emission alone, once. -/
structure Outcome (operator : SourceOperator S I O) (going done : S → List I → List O → Prop)
    (events : List (SourceEvent I)) (source : TimerSource S I O) : Prop where
  single : (source.waits.filter AsyncOp.unfinished).length ≤ 1
  paced : source.emitted.length + (source.waits.filter AsyncOp.unfinished).length ≤ source.waits.length
  given : source.given = events.filterMap SourceEvent.item?
  phase : source.unregistered = 0 ∧ going source.op source.given source.emitted ∨
    source.unregistered = 1 ∧ source.running = false ∧ done source.op source.given source.emitted
  stopped : source.running = false → ∀ op later final,
    (system operator op).runFrom source later = some final → final.emitted = source.emitted
  ends : (∀ op given emitted, going op given emitted → (operator.emitData op).isSome) → .chainStopping ∉ events →
    (∀ wait, step operator source (.expires wait) = none ∧ step operator source (.emitWrapper wait) = none) →
    source.unregistered = 1

theorem outcome (keeps : Keeps operator allowed going done) {op : S} (begins : going op [] [])
    {events : List (SourceEvent I)} (given : ∀ item, .process item ∈ events → allowed item)
    (ran : (system operator op).runFrom (started op) events = some source) :
    Outcome operator going done events source := by
  obtain ⟨results, current, inv⟩ := (inv_started begins).run keeps given ran
  have waiting := inv.waiting
  constructor
  · rw [inv.waits]
    exact AsyncOp.length_filter_unfinished _ _
  · rw [inv.waits, AsyncOp.filter_unfinished, List.length_append, List.length_map]
    exact Nat.add_le_add inv.paced (List.length_filter_le _ _)
  · exact given_run ran
  · exact inv.phase
  · intro halted op later final ranOn
    exact (@EventSystem.runFrom_invariant _ _ (system operator op)
      (fun state => (state.running = false ∧ state.chain = false) ∧ state.emitted = source.emitted)
      (fun state event after before stepped => by
        obtain ⟨stays, same⟩ := stopped_step stepped before.1
        exact ⟨stays, same.trans before.2⟩) _ _ _
      ⟨⟨halted, inv.chain.trans halted⟩, rfl⟩ ranOn).2
  · intro total inside stuck
    rcases alive_run inside ran (Or.inl rfl) with running | ended
    · obtain ⟨expires, emits⟩ := stuck results.length
      have possible := goes_on total inv running
      rw [expires, emits] at possible
      simp at possible
    · rcases inv.phase with ⟨zero, -⟩ | ⟨one, -⟩
      · omega
      · exact one

end TimerSource

end JetStream
