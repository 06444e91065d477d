import JetStream.Cube.ExactlyOnce
import JetStream.Cube.Processor

namespace JetStream

variable {K V : Type}

/-- A tuple that every subscriber lets be batched becomes this operation. -/
def batched (tuple : K × V) : BatchOp K V := ⟨tuple.1, tuple.2, true⟩

theorem staysBatched_batched (inputs : List (K × V)) : StaysBatched (inputs.map batched) := by
  rw [StaysBatched, List.pairwise_map]
  exact List.pairwise_of_forall fun _ _ _ _ => rfl

variable [LinearOrder K]

/-- The batch has been filled with these tuples in this order. -/
def Holds (batch : TupleBatch K V) (inputs : List (K × V)) : Prop :=
  BatchState.run (inputs.map batched) = some ⟨batch, []⟩

section Holds

variable {batch : TupleBatch K V} {inputs : List (K × V)}

theorem Ledger.saved_batched (inputs : List (K × V)) : (Ledger.run (inputs.map batched)).saved = [] := by
  induction inputs using List.reverseRecOn with
  | nil => rfl
  | append_singleton inputs tuple ih =>
      rw [List.map_append, Ledger.run, List.foldl_append, List.map_singleton, List.foldl_cons, List.foldl_nil,
        Ledger.process]
      cases List.find? (fun tpi => tpi.key = (batched tuple).key)
          (List.foldl Ledger.process ⟨[], []⟩ (inputs.map batched)).pending with
      | none => exact ih
      | some tpi => exact ih

theorem holds_new : Holds (TupleBatch.new : TupleBatch K V) [] := rfl

/-- The next tuple joins the batch and nothing is saved. -/
theorem Holds.process (holds : Holds batch inputs) {key : K} {input : V} {next : BatchState K V}
    (stepped : (⟨batch, []⟩ : BatchState K V).doProcess ⟨key, input, true⟩ = some next) :
    next.saved = [] ∧ Holds next.batch (inputs ++ [(key, input)]) := by
  obtain ⟨state, ran, mirrors⟩ := mirrors_run (staysBatched_batched (inputs ++ [(key, input)]))
  have extended : BatchState.run ((inputs ++ [(key, input)]).map batched) = some next := by
    rw [List.map_append, List.map_singleton, BatchState.run_append, holds, Option.bind_some]
    exact stepped
  obtain rfl := Option.some.inj (extended.symm.trans ran)
  have saved : next.saved = [] := mirrors.saved.trans (Ledger.saved_batched _)
  refine ⟨saved, ?_⟩
  rw [Holds, extended, ← saved]

theorem Holds.isEmpty_iff (holds : Holds batch inputs) : batch.isEmpty = true ↔ inputs = [] := by
  obtain ⟨state, ran, mirrors⟩ := mirrors_run (staysBatched_batched inputs)
  obtain rfl := Option.some.inj (holds.symm.trans ran)
  have size : batch.size = _ := mirrors.aligned.size
  rw [TupleBatch.isEmpty, decide_eq_true_eq, size, List.length_eq_zero_iff]
  cases inputs with
  | nil => exact iff_of_true rfl rfl
  | cons tuple rest =>
      have pending := (Ledger.pending_iff (staysBatched_batched (tuple :: rest)) tuple.1).mpr
        ⟨batched tuple, List.mem_cons_self, rfl, rfl⟩
      apply iff_of_false
      · intro empty
        rw [empty] at pending
        exact List.not_mem_nil pending
      · exact List.cons_ne_nil _ _

/-- The flush saves what the batch has been filled with. -/
theorem Holds.flush (holds : Holds batch inputs) :
    ∃ flushed, (⟨batch, []⟩ : BatchState K V).flush = some flushed ∧ (contributions flushed.saved).Perm inputs := by
  obtain ⟨state, flushed, ran, saved, perm⟩ := flush_run (staysBatched_batched inputs)
  obtain rfl := Option.some.inj (holds.symm.trans ran)
  refine ⟨flushed, saved, perm.trans ?_⟩
  rw [List.map_map]
  exact List.Perm.of_eq (List.map_id _)

end Holds

/-- A caller or a thread moves one processor without touching the count of a flush. -/
inductive ProcessCallable.Move (proc : ProcessCallable K V) : ProcessCallable K V → Prop where
  | assign (key : K) (input : V) : Move proc (proc.assign key input)
  | insert (key : K) (input : V) (tasks : List (ProcessThreadTask K V)) (next : BatchState K V)
      (front : proc.processTasks = .tupleInsertion key input :: tasks)
      (stepped : (⟨proc.tupleBatcher, []⟩ : BatchState K V).doProcess ⟨key, input, true⟩ = some next) :
      Move proc { proc with
        processTasks := tasks
        tupleBatcher := next.batch
        processed := proc.processed ++ [(key, input)]
        saved := proc.saved ++ next.saved
        issued := proc.issued ++ next.saved
        serviceFlush := proc.serviceFlush ++
          if !next.batch.isEmpty && proc.tupleBatcher.isEmpty then [.doCheckFlush] else [] }
  | forward (flush : ℕ) (tasks : List (ProcessThreadTask K V)) (front : proc.processTasks = .flushTask flush :: tasks) :
      Move proc { proc with processTasks := tasks, serviceFlush := proc.serviceFlush ++ [.doBarrier flush] }
  | start (tasks : List FlushThreadTask) (idle : proc.threadFlush = .idle)
      (front : proc.serviceFlush = .doCheckFlush :: tasks) :
      Move proc { proc with serviceFlush := tasks, threadFlush := .testing }
  | leave (testing : proc.threadFlush = .testing) (empty : proc.tupleBatcher.isEmpty = true) :
      Move proc { proc with threadFlush := .idle }
  | enter (testing : proc.threadFlush = .testing) (nonempty : proc.tupleBatcher.isEmpty = false) :
      Move proc { proc with threadFlush := .ready proc.batchId }
  | swap (id : ℕ) (ready : proc.threadFlush = .ready id) : Move proc proc.batchFlush
  | save (id : ℕ) (batch : TupleBatch K V) (state : BatchState K V) (flushing : proc.threadFlush = .flushing id batch)
      (flushed : (⟨batch, []⟩ : BatchState K V).flush = some state) :
      Move proc { proc with saved := proc.saved ++ state.saved, threadFlush := .calling id state.saved }
  | call (id : ℕ) (tpi : TupleProcessingInfo K V) (rest : List (TupleProcessingInfo K V))
      (calling : proc.threadFlush = .calling id (tpi :: rest)) :
      Move proc { proc with threadFlush := .calling id rest, issued := proc.issued ++ [tpi] }
  | finish (id : ℕ) (calling : proc.threadFlush = .calling id []) :
      Move proc { proc with threadFlush := .testing, flushed := proc.flushed ++ [id] }

open ProcessCallable

theorem move_of_runProcess {proc next : ProcessCallable K V} {actions : List Action}
    (batches : Action.sendNoBatch ∉ actions) (ran : proc.runProcess actions = some next) : proc.Move next := by
  rw [runProcess] at ran
  cases tasks : proc.processTasks with
  | nil =>
      rw [tasks] at ran
      exact absurd ran (by simp)
  | cons task rest =>
      rw [tasks] at ran
      cases task with
      | tupleInsertion key input =>
          have flag : canBatch actions = true := by simpa [canBatch] using batches
          simp only [doProcess, flag, Option.map_eq_some_iff] at ran
          obtain ⟨state, stepped, rfl⟩ := ran
          have move := Move.insert key input rest state tasks stepped
          by_cases trigger : (!state.batch.isEmpty && proc.tupleBatcher.isEmpty) = true
          · rw [if_pos trigger] at move
            rw [if_pos trigger]
            exact move
          · rw [if_neg trigger, List.append_nil] at move
            rw [if_neg trigger]
            exact move
      | flushTask flush =>
          obtain rfl := Option.some.inj ran
          exact Move.forward flush rest tasks

theorem move_of_doCheckFlush {proc next : ProcessCallable K V} (ran : proc.doCheckFlush = some next) :
    proc.Move next := by
  rw [doCheckFlush] at ran
  cases thread : proc.threadFlush with
  | idle =>
      rw [thread] at ran
      exact absurd ran (by simp)
  | testing =>
      rw [thread] at ran
      obtain rfl := Option.some.inj ran
      rw [batcherReady]
      cases content : proc.tupleBatcher.isEmpty with
      | true => exact Move.leave thread content
      | false => exact Move.enter thread content
  | ready id =>
      rw [thread] at ran
      obtain rfl := Option.some.inj ran
      exact Move.swap id thread
  | flushing id batch =>
      rw [thread] at ran
      obtain ⟨state, flushed, rfl⟩ := Option.map_eq_some_iff.mp ran
      exact Move.save id batch state thread flushed
  | calling id rest =>
      cases rest with
      | nil =>
          rw [thread] at ran
          obtain rfl := Option.some.inj ran
          exact Move.finish id thread
      | cons tpi rest =>
          rw [thread] at ran
          obtain rfl := Option.some.inj ran
          exact Move.call id tpi rest thread

/-- A step of the cube moves one processor, calls flush, pushes a barrier or counts one down. -/
theorem DataCube.step_cases {n : ℕ} {hash : K → ℕ} {cube next : DataCube K V n} {event : CubeEvent K V n}
    (batches : event.Batches) (stepped : cube.step hash event = some next) :
    (∃ i proc, (cube.processors i).Move proc ∧ next = cube.setProcessor i proc) ∨ next = cube.flush ∨
    (∃ flush, ∃ inside : (cube.info flush).pushed < n, flush < cube.calls ∧
      next = (cube.setProcessor ⟨_, inside⟩ ((cube.processors ⟨_, inside⟩).barrier flush)).setInfo flush
        { cube.info flush with pushed := (cube.info flush).pushed + 1 }) ∨
    (∃ i flush tasks, (cube.processors i).threadFlush = .idle ∧
      (cube.processors i).serviceFlush = .doBarrier flush :: tasks ∧
      next = (cube.setProcessor i { cube.processors i with serviceFlush := tasks }).setInfo flush
        (cube.info flush).doBarrier) := by
  cases event with
  | process key input =>
      simp only [step, DataCube.process, Option.dite_none_right_eq_some, Option.some_inj] at stepped
      obtain ⟨positive, rfl⟩ := stepped
      exact Or.inl ⟨_, _, Move.assign key input, rfl⟩
  | flush =>
      obtain rfl := Option.some.inj stepped
      exact Or.inr (Or.inl rfl)
  | barrier flush =>
      simp only [step, DataCube.barrier, Option.ite_none_right_eq_some, Option.dite_none_right_eq_some,
        Option.some_inj] at stepped
      obtain ⟨called, inside, rfl⟩ := stepped
      exact Or.inr (Or.inr (Or.inl ⟨flush, inside, called, rfl⟩))
  | runProcess i actions =>
      obtain ⟨proc, ran, rfl⟩ := Option.map_eq_some_iff.mp stepped
      exact Or.inl ⟨i, proc, move_of_runProcess batches ran, rfl⟩
  | runFlush i =>
      simp only [step, runFlush] at stepped
      split at stepped
      case h_1 => exact absurd stepped (by simp)
      case h_2 tasks thread front =>
          obtain rfl := Option.some.inj stepped
          exact Or.inl ⟨i, _, Move.start tasks thread front, rfl⟩
      case h_3 flush tasks thread front =>
          obtain rfl := Option.some.inj stepped
          exact Or.inr (Or.inr (Or.inr ⟨i, flush, tasks, thread, front, rfl⟩))
      case h_4 =>
          obtain ⟨proc, ran, rfl⟩ := Option.map_eq_some_iff.mp stepped
          exact Or.inl ⟨i, proc, move_of_doCheckFlush ran, rfl⟩

end JetStream
