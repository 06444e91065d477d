import JetStream.Lib.FamilySum
import JetStream.Cube.ProcessorInvariant

namespace JetStream

variable {K V : Type} [LinearOrder K] {n : ℕ}

namespace DataCube

/-- These barriers of a flush have still to be pushed or to pass. -/
def remaining (cube : DataCube K V n) (flush : ℕ) : ℕ :=
  (n - (cube.info flush).pushed) + ∑ i, (cube.processors i).passing.count flush

/-- The count is the number of barriers that remain, and the callback has run when none remains. -/
structure CountsDown (n remaining : ℕ) (info : FlushInfo n) : Prop where
  pushed : info.pushed ≤ n
  bounded : remaining ≤ n
  count : info.count = BitVec.ofNat 32 remaining
  callbacks : info.callbacks = if remaining = 0 then 1 else 0

/-- This is the invariant of the cube over every interleaving. -/
structure Inv (cube : DataCube K V n) : Prop where
  valid : ∀ i, (cube.processors i).Valid fun flush => (cube.info flush).marks i
  numbered : ∀ i, (cube.processors i).Numbered
  known : ∀ i, ∀ flush ∈ (cube.processors i).passing, flush < cube.calls
  marks : ∀ flush < cube.calls, ∀ i, (cube.info flush).marks i ≤ (cube.processors i).assigned.length
  counts : ∀ flush < cube.calls, CountsDown n (cube.remaining flush) (cube.info flush)
  passed : ∀ flush < cube.calls, ∀ i : Fin n, i.val < (cube.info flush).pushed →
    flush ∈ (cube.processors i).passing ∨ (cube.processors i).Covered ((cube.info flush).marks i)

variable {cube : DataCube K V n}

theorem inv_new : (new : DataCube K V n).Inv where
  valid := fun _ => ProcessCallable.valid_new
  numbered := fun _ => ProcessCallable.numbered_new
  known := fun _ _ member => absurd member List.not_mem_nil
  marks := fun _ called => absurd called (Nat.not_lt_zero _)
  counts := fun _ called => absurd called (Nat.not_lt_zero _)
  passed := fun _ called => absurd called (Nat.not_lt_zero _)

theorem setProcessor_of_ne {i j : Fin n} (proc : ProcessCallable K V) (other : j ≠ i) :
    (cube.setProcessor i proc).processors j = cube.processors j := Function.update_of_ne other _ _

theorem setProcessor_self (i : Fin n) (proc : ProcessCallable K V) :
    (cube.setProcessor i proc).processors i = proc := Function.update_self _ _ _

theorem forall_setProcessor (P : Fin n → ProcessCallable K V → Prop) {i : Fin n} {proc : ProcessCallable K V}
    (here : P i proc) (others : ∀ j, P j (cube.processors j)) (j : Fin n) :
    P j ((cube.setProcessor i proc).processors j) := by
  apply (Function.forall_update_iff cube.processors P).mpr
  exact ⟨here, fun other _ => others other⟩

/-- Replacing one processor changes the barriers on their way by its own. -/
theorem sum_passing (cube : DataCube K V n) (i : Fin n) (proc : ProcessCallable K V) (flush : ℕ) :
    ∑ j, ((cube.setProcessor i proc).processors j).passing.count flush + (cube.processors i).passing.count flush =
      ∑ j, (cube.processors j).passing.count flush + proc.passing.count flush :=
  sum_update_member (fun _ (proc : ProcessCallable K V) => proc.passing.count flush) cube.processors i proc

theorem Inv.move (inv : cube.Inv) {i : Fin n} {proc : ProcessCallable K V} (move : (cube.processors i).Move proc) :
    (cube.setProcessor i proc).Inv := by
  have remaining : ∀ flush, (cube.setProcessor i proc).remaining flush = cube.remaining flush := by
    intro flush
    have sum := cube.sum_passing i proc flush
    rw [move.passing_eq] at sum
    rw [DataCube.remaining, DataCube.remaining, Nat.add_right_cancel sum]
    rfl
  refine ⟨?_, ?_, ?_, ?_, ?_, ?_⟩
  · exact forall_setProcessor (fun j proc => proc.Valid fun flush => (cube.info flush).marks j)
      ((inv.valid i).move move) inv.valid
  · exact forall_setProcessor (fun _ proc => proc.Numbered) ((inv.numbered i).move move) inv.numbered
  · apply forall_setProcessor (fun _ proc => ∀ flush ∈ proc.passing, flush < cube.calls) _ inv.known
    rw [move.passing_eq]
    exact inv.known i
  · intro flush called
    exact forall_setProcessor (fun j proc => (cube.info flush).marks j ≤ proc.assigned.length)
      ((inv.marks flush called i).trans move.assigned_le) (inv.marks flush called)
  · intro flush called
    rw [remaining]
    exact inv.counts flush called
  · intro flush called
    apply forall_setProcessor (fun j proc => j.val < (cube.info flush).pushed →
      flush ∈ proc.passing ∨ proc.Covered ((cube.info flush).marks j)) _ (inv.passed flush called)
    intro pushed
    rw [move.passing_eq]
    exact (inv.passed flush called i pushed).imp_right fun covered => covered.move move

theorem setInfo_of_ne {flush other : ℕ} (info : FlushInfo n) (different : other ≠ flush) :
    (cube.setInfo flush info).info other = cube.info other := Function.update_of_ne different _ _

theorem setInfo_self (flush : ℕ) (info : FlushInfo n) : (cube.setInfo flush info).info flush = info :=
  Function.update_self _ _ _

/-- A new flush starts with one barrier for each processor. -/
theorem Inv.flush (inv : cube.Inv) (positive : 0 < n) : cube.flush.Inv := by
  have earlier : ∀ flush < cube.calls, cube.flush.info flush = cube.info flush := fun flush called =>
    setInfo_of_ne _ called.ne
  have here : cube.flush.info cube.calls =
      ⟨BitVec.ofNat 32 n, 0, 0, fun i => (cube.processors i).assigned.length⟩ := setInfo_self _ _
  have fresh : cube.flush.remaining cube.calls = n := by
    have none : ∀ i, (cube.processors i).passing.count cube.calls = 0 := by
      intro i
      rw [List.count_eq_zero]
      intro member
      exact absurd (inv.known i _ member) (lt_irrefl _)
    rw [DataCube.remaining, here]
    simp [DataCube.flush, setInfo, none]
  refine ⟨?_, inv.numbered, ?_, ?_, ?_, ?_⟩
  · intro i
    apply (inv.valid i).congr
    intro flush member
    rw [earlier flush (inv.known i flush member)]
  · intro i flush member
    exact (inv.known i flush member).trans (Nat.lt_succ_self _)
  · intro flush called i
    rcases Nat.lt_succ_iff_lt_or_eq.mp called with old | rfl
    · rw [earlier flush old]
      exact inv.marks flush old i
    · rw [here]
      exact le_rfl
  · intro flush called
    rcases Nat.lt_succ_iff_lt_or_eq.mp called with old | rfl
    · rw [DataCube.remaining, earlier flush old]
      exact inv.counts flush old
    · rw [fresh, here]
      exact ⟨Nat.zero_le _, le_rfl, rfl, (if_neg positive.ne').symm⟩
  · intro flush called i pushed
    rcases Nat.lt_succ_iff_lt_or_eq.mp called with old | rfl
    · rw [earlier flush old] at pushed ⊢
      exact inv.passed flush old i pushed
    · rw [here] at pushed
      exact absurd pushed (Nat.not_lt_zero _)

/-- A barrier of one flush is pushed to one processor or leaves it. -/
theorem Inv.update (inv : cube.Inv) {i : Fin n} {flush : ℕ} {proc : ProcessCallable K V} {info : FlushInfo n}
    (called : flush < cube.calls) (marks : info.marks = (cube.info flush).marks)
    (valid : proc.Valid fun other => (cube.info other).marks i) (numbered : proc.Numbered)
    (assigned : proc.assigned = (cube.processors i).assigned) (covered : proc.Covered = (cube.processors i).Covered)
    (others : ∀ other ≠ flush, proc.passing.count other = (cube.processors i).passing.count other)
    (counts : CountsDown n ((n - info.pushed) + ∑ j, ((cube.setProcessor i proc).processors j).passing.count flush) info)
    (passed : ∀ j : Fin n, j.val < info.pushed → flush ∈ ((cube.setProcessor i proc).processors j).passing ∨
      ((cube.setProcessor i proc).processors j).Covered (info.marks j)) :
    ((cube.setProcessor i proc).setInfo flush info).Inv := by
  have sameMarks : ∀ other, (((cube.setProcessor i proc).setInfo flush info).info other).marks =
      (cube.info other).marks := by
    intro other
    by_cases same : other = flush
    · rw [same, setInfo_self, marks]
    · rw [setInfo_of_ne info same]
      rfl
  have members : ∀ other ≠ flush, (other ∈ proc.passing ↔ other ∈ (cube.processors i).passing) := by
    intro other different
    rw [← List.count_pos_iff, ← List.count_pos_iff, others other different]
  refine ⟨?_, ?_, ?_, ?_, ?_, ?_⟩
  · simp only [sameMarks]
    exact forall_setProcessor (fun j proc => proc.Valid fun other => (cube.info other).marks j) valid inv.valid
  · exact forall_setProcessor (fun _ proc => proc.Numbered) numbered inv.numbered
  · apply forall_setProcessor (fun _ proc => ∀ other ∈ proc.passing, other < cube.calls) _ inv.known
    intro other member
    by_cases same : other = flush
    · rw [same]
      exact called
    · exact inv.known i other ((members other same).mp member)
  · intro other known
    rw [sameMarks]
    apply forall_setProcessor (fun j proc => (cube.info other).marks j ≤ proc.assigned.length) _ (inv.marks other known)
    rw [assigned]
    exact inv.marks other known i
  · intro other known
    by_cases same : other = flush
    · rw [same, remaining, setInfo_self]
      exact counts
    · have sum := cube.sum_passing i proc other
      rw [others other same] at sum
      rw [remaining, setInfo_of_ne info same]
      have unchanged := inv.counts other known
      rw [remaining, ← Nat.add_right_cancel sum] at unchanged
      exact unchanged
  · intro other known
    by_cases same : other = flush
    · rw [same, setInfo_self]
      exact passed
    · rw [setInfo_of_ne info same]
      apply forall_setProcessor (fun j proc => j.val < (cube.info other).pushed →
        other ∈ proc.passing ∨ proc.Covered ((cube.info other).marks j)) _ (inv.passed other known)
      rw [members other same, covered]
      exact inv.passed other known i

/-- The pushed barrier waits behind the tuples that were assigned before the flush. -/
theorem Inv.barrier (inv : cube.Inv) {flush : ℕ} (called : flush < cube.calls)
    (inside : (cube.info flush).pushed < n) :
    ((cube.setProcessor ⟨_, inside⟩ ((cube.processors ⟨_, inside⟩).barrier flush)).setInfo flush
      { cube.info flush with pushed := (cube.info flush).pushed + 1 }).Inv := by
  have passing : ((cube.processors ⟨_, inside⟩).barrier flush).passing =
      (cube.processors ⟨_, inside⟩).passing ++ [flush] := by
    simp [ProcessCallable.passing, ProcessCallable.barrier, ProcessThreadTask.flush?]
  have counts := inv.counts flush called
  refine inv.update called rfl ((inv.valid _).barrier (inv.marks flush called _))
    ⟨(inv.numbered _).swapped, (inv.numbered _).flushed, (inv.numbered _).ready⟩ rfl rfl ?_ ?_ ?_
  · intro other different
    rw [passing, List.count_append, List.count_singleton, if_neg (by simpa using different.symm), Nat.add_zero]
  · have sum := cube.sum_passing ⟨_, inside⟩ ((cube.processors ⟨_, inside⟩).barrier flush) flush
    rw [passing, List.count_append, List.count_singleton_self] at sum
    have same : n - ((cube.info flush).pushed + 1) + ∑ j, ((cube.setProcessor ⟨_, inside⟩
        ((cube.processors ⟨_, inside⟩).barrier flush)).processors j).passing.count flush = cube.remaining flush := by
      rw [remaining]
      omega
    rw [same]
    exact ⟨inside, counts.bounded, counts.count, counts.callbacks⟩
  · intro j pushed
    rcases Nat.lt_succ_iff_lt_or_eq.mp pushed with earlier | now
    · by_cases here : j = ⟨_, inside⟩
      · exact absurd (congrArg Fin.val here) earlier.ne
      · rw [setProcessor_of_ne _ here]
        exact inv.passed flush called j earlier
    · have here : j = ⟨_, inside⟩ := Fin.ext now
      rw [here, setProcessor_self, passing]
      exact Or.inl (by simp)

theorem doBarrier_eq (info : FlushInfo n) : info.doBarrier =
    if info.count = 1 then { info with count := info.count - 1, callbacks := info.callbacks + 1 }
    else { info with count := info.count - 1 } := rfl

theorem doBarrier_marks (info : FlushInfo n) : info.doBarrier.marks = info.marks := by
  rw [doBarrier_eq, apply_ite FlushInfo.marks]
  exact ite_self _

theorem doBarrier_pushed (info : FlushInfo n) : info.doBarrier.pushed = info.pushed := by
  rw [doBarrier_eq, apply_ite FlushInfo.pushed]
  exact ite_self _

/-- The count reaches zero with the last barrier, and the callback runs then. -/
theorem CountsDown.doBarrier {info : FlushInfo n} {left : ℕ} (counts : CountsDown n (left + 1) info)
    (unsigned : n < 2 ^ 32) : CountsDown n left info.doBarrier := by
  have bounded := counts.bounded
  have zero : info.callbacks = 0 := by
    rw [counts.callbacks, if_neg (Nat.succ_ne_zero left)]
  have last : info.count = 1 ↔ left = 0 := by
    rw [counts.count, ← BitVec.toNat_inj, BitVec.toNat_ofNat, Nat.mod_eq_of_lt (by omega)]
    simp
  have next : info.count - 1 = BitVec.ofNat 32 left := by
    rw [counts.count, BitVec.ofNat_add]
    exact BitVec.add_sub_cancel _ _
  rw [doBarrier_eq]
  by_cases done : left = 0
  · rw [if_pos (last.mpr done)]
    exact ⟨counts.pushed, by omega, next, by simp [zero, done]⟩
  · rw [if_neg (mt last.mp done)]
    exact ⟨counts.pushed, by omega, next, by simp [zero, done]⟩

/-- The barrier that passes has its tuples covered and counts the flush down. -/
theorem Inv.doBarrier (inv : cube.Inv) (unsigned : n < 2 ^ 32) {i : Fin n} {flush : ℕ} {tasks : List FlushThreadTask}
    (idle : (cube.processors i).threadFlush = .idle)
    (front : (cube.processors i).serviceFlush = .doBarrier flush :: tasks) :
    ((cube.setProcessor i { cube.processors i with serviceFlush := tasks }).setInfo flush
      (cube.info flush).doBarrier).Inv := by
  have passing : (cube.processors i).passing =
      flush :: ({ cube.processors i with serviceFlush := tasks } : ProcessCallable K V).passing := by
    simp [ProcessCallable.passing, front, FlushThreadTask.flush?]
  have called : flush < cube.calls := inv.known i flush (by simp [passing])
  obtain ⟨valid, covered⟩ := (inv.valid i).doBarrier idle front
  have sum := cube.sum_passing i { cube.processors i with serviceFlush := tasks } flush
  rw [passing, List.count_cons_self] at sum
  have counts := inv.counts flush called
  have less : cube.remaining flush = (n - (cube.info flush).pushed + ∑ j, ((cube.setProcessor i
      { cube.processors i with serviceFlush := tasks }).processors j).passing.count flush) + 1 := by
    rw [remaining]
    omega
  rw [less] at counts
  refine inv.update called (doBarrier_marks _) valid ⟨(inv.numbered i).swapped, (inv.numbered i).flushed,
    (inv.numbered i).ready⟩ rfl rfl ?_ ?_ ?_
  · intro other different
    rw [passing, List.count_cons_of_ne different.symm]
  · rw [doBarrier_pushed]
    exact counts.doBarrier unsigned
  · intro j pushed
    rw [doBarrier_pushed] at pushed
    rw [doBarrier_marks]
    by_cases here : j = i
    · rw [here, setProcessor_self]
      exact Or.inr covered
    · rw [setProcessor_of_ne _ here]
      exact inv.passed flush called j pushed

/-- Every step keeps the invariant. -/
theorem Inv.step (inv : cube.Inv) (positive : 0 < n) (unsigned : n < 2 ^ 32) {hash : K → ℕ} {next : DataCube K V n}
    {event : CubeEvent K V n} (batches : event.Batches) (stepped : cube.step hash event = some next) : next.Inv := by
  rcases step_cases batches stepped with ⟨i, proc, move, rfl⟩ | rfl | ⟨flush, inside, called, rfl⟩ |
    ⟨i, flush, tasks, idle, front, rfl⟩
  · exact inv.move move
  · exact inv.flush positive
  · exact inv.barrier called inside
  · exact inv.doBarrier unsigned idle front

end DataCube

section Reachable

variable {hash : K → ℕ} {config : NodeConfig} {cube final : DataCube K V config.cubeProcessorThreads}
  {events : List (CubeEvent K V config.cubeProcessorThreads)}

open DataCube

theorem DataCube.Inv.systemStep {next : DataCube K V config.cubeProcessorThreads}
    {event : CubeEvent K V config.cubeProcessorThreads} (inv : cube.Inv)
    (stepped : (system hash config).step cube event = some next) : next.Inv := by
  obtain ⟨batches, stepped⟩ := EventSystem.restrict_step.mp stepped
  exact inv.step config.positive config.unsigned batches stepped

theorem inv_of_reachable (reachable : (system hash config).Reachable cube) : cube.Inv :=
  reachable.invariant DataCube.Inv inv_new fun _ _ _ inv stepped => inv.systemStep stepped

theorem inv_of_run (inv : cube.Inv) (ran : (system hash config).runFrom cube events = some final) : final.Inv :=
  EventSystem.runFrom_invariant DataCube.Inv (fun _ _ _ inv stepped => inv.systemStep stepped) inv ran

/-- The flush was called when these tuples had been assigned. -/
structure CalledAfter (earlier : DataCube K V n) (flush : ℕ) (cube : DataCube K V n) : Prop where
  called : flush < cube.calls
  marks : ∀ i, (cube.info flush).marks i = (earlier.processors i).assigned.length
  assigned : ∀ i, (earlier.processors i).assigned <+: (cube.processors i).assigned

theorem calledAfter_flush (earlier : DataCube K V n) : CalledAfter earlier earlier.calls earlier.flush where
  called := Nat.lt_succ_self _
  marks := fun _ => congrFun (congrArg FlushInfo.marks (setInfo_self _ _)) _
  assigned := fun _ => List.prefix_rfl

/-- Later steps keep the marks of a flush. -/
theorem CalledAfter.step {hash : K → ℕ} {earlier cube next : DataCube K V n} {flush : ℕ} {event : CubeEvent K V n}
    (after : CalledAfter earlier flush cube) (batches : event.Batches) (stepped : cube.step hash event = some next) :
    CalledAfter earlier flush next := by
  rcases step_cases batches stepped with ⟨i, proc, move, rfl⟩ | rfl | ⟨other, inside, called, rfl⟩ |
    ⟨i, other, tasks, idle, front, rfl⟩
  · refine ⟨after.called, after.marks, ?_⟩
    exact forall_setProcessor (fun j proc => (earlier.processors j).assigned <+: proc.assigned)
      ((after.assigned i).trans move.extends.1) after.assigned
  · refine ⟨after.called.trans (Nat.lt_succ_self _), ?_, after.assigned⟩
    intro i
    rw [← after.marks i]
    exact congrFun (congrArg FlushInfo.marks (setInfo_of_ne _ after.called.ne)) i
  · refine ⟨after.called, ?_, ?_⟩
    · intro i
      rw [← after.marks i]
      by_cases same : flush = other
      · rw [same, setInfo_self]
      · rw [setInfo_of_ne _ same]
        rfl
    · exact forall_setProcessor (fun j proc => (earlier.processors j).assigned <+: proc.assigned)
        (after.assigned _) after.assigned
  · refine ⟨after.called, ?_, ?_⟩
    · intro i
      rw [← after.marks i]
      by_cases same : flush = other
      · rw [same, setInfo_self, doBarrier_marks]
      · rw [setInfo_of_ne _ same]
        rfl
    · exact forall_setProcessor (fun j proc => (earlier.processors j).assigned <+: proc.assigned)
        (after.assigned _) after.assigned

/-- The callback of a flush runs at most once, has run when the queues are drained, and finds the earlier tuples
saved with their callbacks issued. -/
theorem flush_callback_barrier {earlier : DataCube K V config.cubeProcessorThreads}
    (reachable : (system hash config).Reachable earlier)
    (ran : (system hash config).runFrom earlier.flush events = some final) :
    (final.info earlier.calls).callbacks ≤ 1 ∧
    (final.Drained → (final.info earlier.calls).pushed = config.cubeProcessorThreads →
      (final.info earlier.calls).callbacks = 1) ∧
    (0 < (final.info earlier.calls).callbacks → ∀ i,
      (earlier.processors i).assigned.Subperm (contributions (final.processors i).saved) ∧
      (earlier.processors i).assigned.Subperm (contributions (final.processors i).issued)) := by
  have inv := inv_of_run ((inv_of_reachable reachable).flush config.positive) ran
  have after : CalledAfter earlier earlier.calls final := by
    apply EventSystem.runFrom_invariant (CalledAfter earlier earlier.calls) _ (calledAfter_flush earlier) ran
    intro cube event next after stepped
    obtain ⟨batches, stepped⟩ := EventSystem.restrict_step.mp stepped
    exact after.step batches stepped
  have counts := inv.counts _ after.called
  refine ⟨?_, ?_, ?_⟩
  · rw [counts.callbacks]
    split <;> omega
  · intro drained pushed
    have none : ∀ i, (final.processors i).passing.count earlier.calls = 0 := by
      intro i
      obtain ⟨processTasks, serviceFlush, -⟩ := drained i
      rw [ProcessCallable.passing, processTasks, serviceFlush]
      rfl
    rw [counts.callbacks, if_pos]
    rw [remaining, pushed]
    simp [none]
  · intro ran i
    have zero : final.remaining earlier.calls = 0 := by
      by_contra more
      rw [counts.callbacks, if_neg more] at ran
      exact absurd ran (lt_irrefl _)
    rw [remaining, Nat.add_eq_zero_iff, Finset.sum_eq_zero_iff] at zero
    have passing : earlier.calls ∉ (final.processors i).passing :=
      List.count_eq_zero.mp (zero.2 i (Finset.mem_univ i))
    have pushed : i.val < (final.info earlier.calls).pushed := by omega
    obtain ⟨-, saved, issued⟩ := (inv.passed _ after.called i pushed).resolve_left passing
    rw [after.marks, ← List.prefix_iff_eq_take.mp (after.assigned i)] at saved issued
    exact ⟨saved, issued⟩

/-- Two processors serve the cube of the following runs. -/
def twoProcessors : NodeConfig := ⟨2, by decide, by decide⟩

/-- The call pushes its barriers, and then each thread works through its queue. -/
def drainTwo : List (CubeEvent ℕ ℕ twoProcessors.cubeProcessorThreads) :=
  [.barrier 0, .barrier 0] ++ List.replicate 2 (.runProcess 0 [.send]) ++ List.replicate 2 (.runProcess 1 [.noSend]) ++
    List.replicate 8 (.runFlush 1) ++ List.replicate 8 (.runFlush 0)

/-- Each of two processors saves its tuple before the flush calls back. -/
theorem flush_callback_barrier_two :
    ∃ earlier final : DataCube ℕ ℕ twoProcessors.cubeProcessorThreads,
      (system id twoProcessors).Reachable earlier ∧
      (system id twoProcessors).runFrom earlier.flush drainTwo = some final ∧
      (final.info earlier.calls).callbacks = 1 ∧
      ∀ i, (earlier.processors i).assigned.Subperm (contributions (final.processors i).saved) := by
  have runs : ∃ earlier final : DataCube ℕ ℕ twoProcessors.cubeProcessorThreads,
      (system id twoProcessors).runFrom new [.process 0 5, .process 1 6] = some earlier ∧
      (system id twoProcessors).runFrom earlier.flush drainTwo = some final ∧
      (final.info earlier.calls).callbacks = 1 := ⟨_, _, rfl, rfl, rfl⟩
  obtain ⟨earlier, final, first, second, called⟩ := runs
  have reachable : (system id twoProcessors).Reachable earlier := ⟨_, first⟩
  refine ⟨earlier, final, reachable, second, called, ?_⟩
  intro i
  exact ((flush_callback_barrier reachable second).2.2 (by rw [called]; exact Nat.one_pos) i).1

end Reachable

end JetStream
