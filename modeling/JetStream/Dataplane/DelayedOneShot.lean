import Mathlib.Data.List.Count
import Mathlib.Data.List.Nodup
import Mathlib.Logic.Function.Basic
import JetStream.Lib.EventSystem

namespace JetStream

/-- A chain that is stopping has decremented the counter, and it is stopped when its last message has been handled. -/
inductive InChain where
  | running
  | stopping
  | stopped
  deriving DecidableEq

/-- The metadata of a chain ends a window, ends the chain, or does not matter to the subscriber. -/
inductive MarkerType where
  | endOfWindow
  | noMoreData
  | other
  deriving DecidableEq

/-- The cube counts its incoming chains, and each request for a flush records how many chains were closed by then. -/
structure DelayedOneShot where
  inChainCount : ℕ
  chains : List InChain
  times : ℕ → Option UInt64
  formerChains : List ℕ
  firstData : UInt64
  firstClose : UInt64
  lastClose : UInt64
  flushes : List ℕ

/-- Every event is one step of the thread of a chain. -/
inductive OneShotEvent where
  | data (chain : ℕ) (now : UInt64)
  | incomingMeta (chain : ℕ) (type : MarkerType) (now : UInt64)
  | decrement (chain : ℕ)
  | notify (chain : ℕ) (now : UInt64)

namespace DelayedOneShot

/-- All chains have been added to the cube. -/
def new (n : ℕ) : DelayedOneShot := ⟨n, List.replicate n .running, fun _ => none, [], 0, 0, 0, []⟩

/-- The first tuple of a chain sets its time. -/
def actionOnTuple (state : DelayedOneShot) (chain : ℕ) (now : UInt64) : DelayedOneShot :=
  if state.times chain = none ∧ chain ∉ state.formerChains then
    {state with
      firstData := if state.firstData = 0 then now else state.firstData
      times := Function.update state.times chain (some now)}
  else state

/-- The subscriber keeps its times under its lock. -/
def recordMeta (state : DelayedOneShot) (chain : ℕ) (type : MarkerType) (now : UInt64) : DelayedOneShot :=
  match type with
  | .endOfWindow => {state with times := Function.update state.times chain (some now)}
  | .noMoreData => {state with
      times := Function.update state.times chain none
      formerChains := state.formerChains.insert chain
      firstClose := if state.firstClose = 0 then now else state.firstClose}
  | .other => state

/-- A flush is requested when the cube has no incoming chain left. -/
def incomingMeta (state : DelayedOneShot) (chain : ℕ) (type : MarkerType) (now : UInt64) : DelayedOneShot :=
  let state := state.recordMeta chain type now
  if state.inChainCount = 0 then
    {state with lastClose := now, flushes := state.flushes ++ [state.formerChains.length]}
  else state

def step (state : DelayedOneShot) : OneShotEvent → Option DelayedOneShot
  | .data chain now =>
      if state.chains[chain]? = some .running then some (state.actionOnTuple chain now) else none
  | .incomingMeta chain type now =>
      if state.chains[chain]? = some .running ∧ type ≠ .noMoreData then some (state.incomingMeta chain type now) else none
  | .decrement chain =>
      if state.chains[chain]? = some .running then
        some {state with inChainCount := state.inChainCount - 1, chains := state.chains.set chain .stopping}
      else none
  | .notify chain now =>
      if state.chains[chain]? = some .stopping then
        some {state.incomingMeta chain .noMoreData now with chains := state.chains.set chain .stopped}
      else none

/-- The threads of the chains interleave in any order. -/
def system (n : ℕ) : EventSystem DelayedOneShot OneShotEvent := ⟨new n, step⟩

/-- All chains have stopped. -/
def Done (state : DelayedOneShot) : Prop := ∀ chain ∈ state.chains, chain = .stopped

instance decidableDone (state : DelayedOneShot) : Decidable state.Done :=
  inferInstanceAs (Decidable (∀ chain ∈ state.chains, chain = .stopped))

/-- The last decrement comes when no other chain is between its decrement and its last message. -/
def LastAlone (state : DelayedOneShot) : OneShotEvent → Prop
  | .decrement _ => state.inChainCount = 1 → InChain.stopping ∉ state.chains
  | _ => True

instance decidableLastAlone (state : DelayedOneShot) : (event : OneShotEvent) → Decidable (state.LastAlone event)
  | .decrement _ => inferInstanceAs (Decidable (_ → _))
  | .data _ _ => isTrue trivial
  | .incomingMeta _ _ _ => isTrue trivial
  | .notify _ _ => isTrue trivial

/-- The counter counts the running chains, and the closed chains are the stopped ones. -/
structure Counted (n : ℕ) (state : DelayedOneShot) : Prop where
  count : state.inChainCount = state.chains.count .running
  former : state.formerChains.length = state.chains.count .stopped
  stopped : ∀ chain ∈ state.formerChains, state.chains[chain]? = some .stopped
  total : state.chains.count .running + state.chains.count .stopping + state.chains.count .stopped = n

variable {n : ℕ} {state next final : DelayedOneShot} {event : OneShotEvent} {events : List OneShotEvent}

theorem new_counted (n : ℕ) : (new n).Counted n := by
  constructor
  · simp [new]
  · simp [new, List.count_replicate]
  · simp [new]
  · simp [new, List.count_replicate]

theorem actionOnTuple_cases (state : DelayedOneShot) (chain : ℕ) (now : UInt64) :
    (state.actionOnTuple chain now).inChainCount = state.inChainCount ∧
      (state.actionOnTuple chain now).chains = state.chains ∧
      (state.actionOnTuple chain now).formerChains = state.formerChains ∧
      (state.actionOnTuple chain now).flushes = state.flushes := by
  rw [actionOnTuple]
  split <;> exact ⟨rfl, rfl, rfl, rfl⟩

/-- A state with the same counter, chains and closed chains is counted too. -/
theorem Counted.congr (counted : state.Counted n) (count : next.inChainCount = state.inChainCount)
    (chains : next.chains = state.chains) (former : next.formerChains = state.formerChains) : next.Counted n := by
  refine ⟨?_, ?_, ?_, ?_⟩
  · rw [count, chains, counted.count]
  · rw [former, chains, counted.former]
  · rw [former, chains]
    exact counted.stopped
  · rw [chains, counted.total]

theorem Counted.pos_of_running (counted : state.Counted n) {chain : ℕ} (running : state.chains[chain]? = some .running) :
    0 < state.inChainCount := by
  rw [counted.count, List.count_pos_iff]
  exact List.mem_of_getElem? running

/-- While a chain is running, what it sends changes no count and requests no flush. -/
theorem Counted.sent (counted : state.Counted n) (stepped : state.step event = some next)
    (sent : (∃ chain now, event = .data chain now) ∨ ∃ chain type now, event = .incomingMeta chain type now) :
    next.Counted n ∧ 0 < state.inChainCount ∧ next.inChainCount = state.inChainCount ∧ next.chains = state.chains ∧
      next.flushes = state.flushes := by
  rcases sent with ⟨chain, now, rfl⟩ | ⟨chain, type, now, rfl⟩
  · rw [step, Option.ite_none_right_eq_some] at stepped
    obtain ⟨running, stepped⟩ := stepped
    obtain rfl := Option.some.inj stepped
    obtain ⟨count, chains, former, flushes⟩ := state.actionOnTuple_cases chain now
    exact ⟨counted.congr count chains former, counted.pos_of_running running, count, chains, flushes⟩
  · rw [step, Option.ite_none_right_eq_some] at stepped
    obtain ⟨⟨running, notLast⟩, stepped⟩ := stepped
    obtain rfl := Option.some.inj stepped
    have positive := counted.pos_of_running running
    cases type with
    | noMoreData => exact absurd rfl notLast
    | endOfWindow =>
        simp only [incomingMeta, recordMeta, Nat.ne_of_gt positive, if_false]
        exact ⟨counted.congr rfl rfl rfl, positive, trivial, trivial, trivial⟩
    | other =>
        simp only [incomingMeta, recordMeta, Nat.ne_of_gt positive, if_false]
        exact ⟨counted, positive, trivial, trivial, trivial⟩

theorem count_set_chain {chains : List InChain} {chain : ℕ} {old : InChain} (here : chains[chain]? = some old)
    (new phase : InChain) : (chains.set chain new).count phase =
      chains.count phase - (if old = phase then 1 else 0) + (if new = phase then 1 else 0) := by
  obtain ⟨inside, rfl⟩ := List.getElem?_eq_some_iff.mp here
  rw [List.count_set inside]
  simp only [beq_iff_eq]

/-- A decrement makes a running chain a stopping one. -/
theorem Counted.decrement (counted : state.Counted n) {chain : ℕ} (stepped : state.step (.decrement chain) = some next) :
    next.Counted n ∧ next.inChainCount + 1 = state.inChainCount ∧
      next.chains.count .stopping = state.chains.count .stopping + 1 ∧ next.flushes = state.flushes := by
  rw [step, Option.ite_none_right_eq_some] at stepped
  obtain ⟨running, stepped⟩ := stepped
  obtain rfl := Option.some.inj stepped
  have positive := counted.pos_of_running running
  have runningCount := count_set_chain running .stopping .running
  have stoppingCount := count_set_chain running .stopping .stopping
  have stoppedCount := count_set_chain running .stopping .stopped
  simp only [reduceCtorEq, if_true, if_false] at runningCount stoppingCount stoppedCount
  have count := counted.count
  have total := counted.total
  refine ⟨⟨?_, ?_, ?_, ?_⟩, ?_, ?_, rfl⟩
  · dsimp only
    omega
  · dsimp only
    rw [counted.former]
    omega
  · intro other member
    have closed := counted.stopped other member
    have different : chain ≠ other := by
      rintro rfl
      rw [running] at closed
      cases closed
    exact (List.getElem?_set_ne different).trans closed
  · dsimp only
    omega
  · dsimp only
    omega
  · dsimp only
    omega

/-- The last message of a chain requests a flush when no chain is running. -/
theorem Counted.notify (counted : state.Counted n) {chain : ℕ} {now : UInt64}
    (stepped : state.step (.notify chain now) = some next) :
    next.Counted n ∧ next.inChainCount = state.inChainCount ∧
      next.chains.count .stopping + 1 = state.chains.count .stopping ∧
      next.chains.count .stopped = state.chains.count .stopped + 1 ∧
      next.flushes = if state.inChainCount = 0 then state.flushes ++ [state.chains.count .stopped + 1]
        else state.flushes := by
  rw [step, Option.ite_none_right_eq_some] at stepped
  obtain ⟨stopping, stepped⟩ := stepped
  obtain rfl := Option.some.inj stepped
  have positive : 0 < state.chains.count .stopping := List.count_pos_iff.mpr (List.mem_of_getElem? stopping)
  have runningCount := count_set_chain stopping .stopped .running
  have stoppingCount := count_set_chain stopping .stopped .stopping
  have stoppedCount := count_set_chain stopping .stopped .stopped
  simp only [reduceCtorEq, if_true, if_false] at runningCount stoppingCount stoppedCount
  have new : chain ∉ state.formerChains := by
    intro member
    have closed := counted.stopped chain member
    rw [stopping] at closed
    cases closed
  have grown : (state.formerChains.insert chain).length = state.chains.count .stopped + 1 := by
    rw [List.length_insert_of_not_mem new, counted.former]
  have fields : (state.incomingMeta chain .noMoreData now).inChainCount = state.inChainCount ∧
      (state.incomingMeta chain .noMoreData now).formerChains = state.formerChains.insert chain ∧
      (state.incomingMeta chain .noMoreData now).flushes = if state.inChainCount = 0 then
        state.flushes ++ [state.chains.count .stopped + 1] else state.flushes := by
    rw [incomingMeta]
    by_cases zero : state.inChainCount = 0
    · simp [recordMeta, zero, ← grown]
    · simp [recordMeta, zero]
  have count := counted.count
  have total := counted.total
  refine ⟨⟨?_, ?_, ?_, ?_⟩, fields.1, ?_, ?_, fields.2.2⟩
  · dsimp only
    rw [fields.1]
    omega
  · dsimp only
    rw [fields.2.1]
    omega
  · dsimp only
    rw [fields.2.1]
    intro other member
    rcases List.mem_insert_iff.mp member with rfl | member
    · exact List.getElem?_set_self (List.getElem?_eq_some_iff.mp stopping).1
    · have different : chain ≠ other := fun same => new (same ▸ member)
      exact (List.getElem?_set_ne different).trans (counted.stopped other member)
  · dsimp only
    omega
  · dsimp only
    omega
  · dsimp only
    omega

/-- When no chain is running, every stopping chain requests a flush. -/
theorem Counted.flushes_eq (counted : state.Counted n) (none : state.inChainCount = 0)
    (ran : (system n).runFrom state events = some final) (done : final.Done) :
    final.flushes = state.flushes ++ List.range' (state.chains.count .stopped + 1) (state.chains.count .stopping) ∧
      (system n).EveryStep LastAlone state events := by
  induction events generalizing state with
  | nil =>
      obtain rfl := Option.some.inj ran
      have nothing : state.chains.count .stopping = 0 := by
        rw [List.count_eq_zero]
        intro member
        cases done _ member
      rw [nothing, List.range'_zero, List.append_nil]
      exact ⟨rfl, trivial⟩
  | cons event events ih =>
      rw [EventSystem.runFrom_cons, Option.bind_eq_some_iff] at ran
      obtain ⟨next, stepped, rest⟩ := ran
      cases event with
      | data chain now =>
          have sends : state.step (.data chain now) = some next := stepped
          have positive := (counted.sent sends (Or.inl ⟨_, _, rfl⟩)).2.1
          omega
      | incomingMeta chain type now =>
          have sends : state.step (.incomingMeta chain type now) = some next := stepped
          have positive := (counted.sent sends (Or.inr ⟨_, _, _, rfl⟩)).2.1
          omega
      | decrement chain =>
          have fewer := (counted.decrement stepped).2.1
          omega
      | notify chain now =>
          obtain ⟨counted', count, stopping, stopped, flushes⟩ := counted.notify stepped
          obtain ⟨flushes', met⟩ := ih counted' (count.trans none) rest
          constructor
          · rw [flushes', flushes, if_pos none, stopped, ← stopping, List.range'_succ, List.append_assoc,
              List.singleton_append]
          · intro other same
            obtain rfl := Option.some.inj (stepped.symm.trans same)
            exact ⟨trivial, met⟩

/-- While a chain is running, the rest of the run fires once exactly when its last decrement comes alone. -/
theorem Counted.flushes_eq_iff (counted : state.Counted n) (running : 0 < state.inChainCount)
    (quiet : state.flushes = []) (ran : (system n).runFrom state events = some final) (done : final.Done) :
    final.flushes = [n] ↔ (system n).EveryStep LastAlone state events := by
  induction events generalizing state with
  | nil =>
      obtain rfl := Option.some.inj ran
      rw [counted.count, List.count_pos_iff] at running
      cases done _ running
  | cons event events ih =>
      rw [EventSystem.runFrom_cons, Option.bind_eq_some_iff] at ran
      obtain ⟨next, stepped, rest⟩ := ran
      have unfold : (system n).EveryStep LastAlone state (event :: events) ↔
          state.LastAlone event ∧ (system n).EveryStep LastAlone next events := by
        constructor
        · exact fun met => met next stepped
        · intro met other same
          obtain rfl := Option.some.inj (stepped.symm.trans same)
          exact met
      rw [unfold]
      cases event with
      | data chain now =>
          obtain ⟨counted', -, count, -, flushes⟩ :=
            counted.sent (show state.step (.data chain now) = some next from stepped) (Or.inl ⟨_, _, rfl⟩)
          rw [ih counted' (count ▸ running) (flushes.trans quiet) rest]
          exact (and_iff_right trivial).symm
      | incomingMeta chain type now =>
          obtain ⟨counted', -, count, -, flushes⟩ :=
            counted.sent (show state.step (.incomingMeta chain type now) = some next from stepped) (Or.inr ⟨_, _, _, rfl⟩)
          rw [ih counted' (count ▸ running) (flushes.trans quiet) rest]
          exact (and_iff_right trivial).symm
      | notify chain now =>
          obtain ⟨counted', count, -, -, flushes⟩ := counted.notify stepped
          rw [if_neg (Nat.ne_of_gt running)] at flushes
          rw [ih counted' (count ▸ running) (flushes.trans quiet) rest]
          exact (and_iff_right trivial).symm
      | decrement chain =>
          obtain ⟨counted', count, stopping, flushes⟩ := counted.decrement stepped
          by_cases last : state.inChainCount = 1
          · have none : next.inChainCount = 0 := by omega
            obtain ⟨fired, met⟩ := counted'.flushes_eq none rest done
            have total := counted'.total
            rw [← counted'.count, none] at total
            rw [fired, flushes, quiet, List.nil_append, and_iff_left met]
            show _ ↔ (state.inChainCount = 1 → InChain.stopping ∉ state.chains)
            rw [← List.count_eq_zero]
            constructor
            · intro once _
              have size := congrArg List.length once
              rw [List.length_range', List.length_singleton] at size
              omega
            · intro alone
              have one : next.chains.count .stopping = 1 := by rw [stopping, alone last]
              have all : next.chains.count .stopped + 1 = n := by omega
              rw [one, all]
              rfl
          · rw [ih counted' (by omega) (flushes.trans quiet) rest]
            exact (and_iff_right fun isLast => absurd isLast last).symm

/-- In every run that stops all chains, one flush is requested and it comes after the last chain was closed, exactly when
the last decrement comes while no other chain is between its decrement and its last message. -/
theorem fires_once_iff (n : ℕ) (some : 1 ≤ n) (events : List OneShotEvent) (final : DelayedOneShot)
    (ran : (system n).runFrom (new n) events = .some final) (done : final.Done) :
    final.flushes = [n] ↔ (system n).EveryStep LastAlone (new n) events :=
  (new_counted n).flushes_eq_iff some rfl ran done

/-- The first chain is closed before the second one stops. -/
def closedInTurn : List OneShotEvent :=
  [.data 0 3, .data 1 4, .incomingMeta 1 .endOfWindow 5, .decrement 0, .notify 0 7, .decrement 1, .notify 1 9]

theorem fires_once_iff_closedInTurn : ∃ final, (system 2).runFrom (new 2) closedInTurn = some final ∧ final.Done ∧
    (final.flushes = [2] ↔ (system 2).EveryStep LastAlone (new 2) closedInTurn) :=
  ⟨_, rfl, by decide, fires_once_iff 2 (by decide) closedInTurn _ rfl (by decide)⟩

/-- Both chains decrement the counter before the first one is closed. -/
def closedTogether : List OneShotEvent := [.decrement 0, .decrement 1, .notify 0 7, .notify 1 9]

theorem fires_twice_closedTogether : ∃ final, (system 2).runFrom (new 2) closedTogether = some final ∧ final.Done ∧
    final.flushes = [1, 2] :=
  ⟨_, rfl, by decide, by decide⟩

end DelayedOneShot

end JetStream
