import JetStream.Cube.ProcessorMoves

namespace JetStream

variable {K V : Type}

def ProcessThreadTask.tuple? : ProcessThreadTask K V → Option (K × V)
  | .tupleInsertion key input => some (key, input)
  | .flushTask _ => none

def ProcessThreadTask.flush? : ProcessThreadTask K V → Option ℕ
  | .tupleInsertion _ _ => none
  | .flushTask flush => some flush

def FlushThreadTask.flush? : FlushThreadTask → Option ℕ
  | .doCheckFlush => none
  | .doBarrier flush => some flush

/-- Every barrier waits behind the tuples that were assigned before its flush was called. -/
def Waiting (marks : ℕ → ℕ) : ℕ → List (ProcessThreadTask K V) → Prop
  | _, [] => True
  | base, .tupleInsertion _ _ :: tasks => Waiting marks (base + 1) tasks
  | base, .flushTask flush :: tasks => marks flush ≤ base ∧ Waiting marks base tasks

theorem waiting_append_tuple {marks : ℕ → ℕ} (base : ℕ) (tasks : List (ProcessThreadTask K V)) (key : K) (input : V) :
    Waiting marks base (tasks ++ [.tupleInsertion key input]) ↔ Waiting marks base tasks := by
  induction tasks generalizing base with
  | nil => exact Iff.rfl
  | cons task tasks ih =>
      cases task with
      | tupleInsertion _ _ => exact ih (base + 1)
      | flushTask _ => exact and_congr_right fun _ => ih base

theorem waiting_append_flush {marks : ℕ → ℕ} (base flush : ℕ) (tasks : List (ProcessThreadTask K V)) :
    Waiting marks base (tasks ++ [.flushTask flush]) ↔
      Waiting marks base tasks ∧ marks flush ≤ base + (tasks.filterMap ProcessThreadTask.tuple?).length := by
  induction tasks generalizing base with
  | nil => simp [Waiting]
  | cons task tasks ih =>
      cases task with
      | tupleInsertion _ _ =>
          rw [List.cons_append, Waiting, Waiting, ih]
          simp only [List.filterMap_cons, ProcessThreadTask.tuple?, List.length_cons]
          rw [Nat.add_right_comm, Nat.add_assoc]
      | flushTask _ =>
          rw [List.cons_append, Waiting, Waiting, ih, List.filterMap_cons_none rfl, and_assoc]

theorem waiting_congr {marks marks' : ℕ → ℕ} {tasks : List (ProcessThreadTask K V)} {base : ℕ}
    (same : ∀ flush ∈ tasks.filterMap ProcessThreadTask.flush?, marks' flush = marks flush)
    (waiting : Waiting marks base tasks) : Waiting marks' base tasks := by
  induction tasks generalizing base with
  | nil => trivial
  | cons task tasks ih =>
      cases task with
      | tupleInsertion _ _ => exact ih same waiting
      | flushTask flush =>
          refine ⟨?_, ih (fun other member => same other (List.mem_cons_of_mem _ member)) waiting.2⟩
          rw [same flush List.mem_cons_self]
          exact waiting.1

/-- A barrier that is posted behind a check stays behind it. -/
theorem mem_takeWhile_append {tasks : List FlushThreadTask} {task other : FlushThreadTask}
    (member : other ∈ (tasks ++ [task]).takeWhile (· ≠ .doCheckFlush)) :
    other ∈ tasks.takeWhile (· ≠ .doCheckFlush) ∨ (other = task ∧ task ≠ .doCheckFlush ∧ .doCheckFlush ∉ tasks) := by
  induction tasks with
  | nil =>
      cases task with
      | doCheckFlush => simp at member
      | doBarrier flush => exact Or.inr ⟨by simpa using member, by simp, by simp⟩
  | cons head tasks ih =>
      cases head with
      | doCheckFlush => simp at member
      | doBarrier flush =>
          rw [List.cons_append, List.takeWhile_cons_of_pos (by simp), List.mem_cons] at member
          rw [List.takeWhile_cons_of_pos (by simp), List.mem_cons]
          rcases member with here | later
          · exact Or.inl (Or.inl here)
          · rcases ih later with before | ⟨same, different, none⟩
            · exact Or.inl (Or.inr before)
            · exact Or.inr ⟨same, different, by simpa using none⟩

variable [LinearOrder K]

/-- The flush thread still owes the callbacks of these saved tuples. -/
def FlushThread.outstanding : FlushThread K V → List (TupleProcessingInfo K V)
  | .calling _ rest => rest
  | _ => []

/-- The flush thread has taken these tuples and has not saved them. -/
def FlushThread.Holding (thread : FlushThread K V) (held : List (K × V)) : Prop :=
  match thread with
  | .flushing _ batch => Holds batch held
  | _ => held = []

/-- The flush thread is flushing this batch. -/
def FlushThread.batch? : FlushThread K V → Option ℕ
  | .flushing id _ => some id
  | .calling id _ => some id
  | _ => none

/-- The running check will test the current batch, or has found it ready and takes it next. -/
def FlushThread.Attends (thread : FlushThread K V) (current : ℕ) : Prop :=
  match thread with
  | .idle => False
  | .testing => True
  | .ready id => id = current
  | .flushing id _ => id < current
  | .calling id _ => id < current

namespace ProcessCallable

/-- The barriers of these flushes pass through the two queues in this order. -/
def passing (proc : ProcessCallable K V) : List ℕ :=
  proc.serviceFlush.filterMap FlushThreadTask.flush? ++ proc.processTasks.filterMap ProcessThreadTask.flush?

/-- The processed tuples are saved, held by the flush thread or in the current batch, in this order. -/
structure Accounts (proc : ProcessCallable K V) (done held current : List (K × V)) : Prop where
  assigned : proc.assigned = proc.processed ++ proc.processTasks.filterMap ProcessThreadTask.tuple?
  processed : proc.processed = done ++ held ++ current
  current : Holds proc.tupleBatcher current
  held : proc.threadFlush.Holding held
  saved : (contributions proc.saved).Perm done
  issued : (contributions (proc.issued ++ proc.threadFlush.outstanding)).Perm done

/-- A barrier that no check precedes finds every earlier tuple saved. -/
structure Ordered (marks : ℕ → ℕ) (proc : ProcessCallable K V) (done current : List (K × V)) : Prop where
  waiting : Waiting marks proc.processed.length proc.processTasks
  posted : ∀ flush, .doBarrier flush ∈ proc.serviceFlush → marks flush ≤ proc.processed.length
  covered : proc.threadFlush = .idle →
    ∀ flush, .doBarrier flush ∈ proc.serviceFlush.takeWhile (· ≠ .doCheckFlush) → marks flush ≤ done.length
  attended : current ≠ [] → .doCheckFlush ∈ proc.serviceFlush ∨ proc.threadFlush.Attends proc.batchId

/-- The swapped batches have been flushed in order, except the one that the flush thread holds. -/
structure Numbered (proc : ProcessCallable K V) : Prop where
  swapped : proc.swapped = List.range proc.batchId
  flushed : proc.flushed ++ proc.threadFlush.batch?.toList = proc.swapped
  ready : ∀ id, proc.threadFlush = .ready id → id = proc.batchId

variable {proc next : ProcessCallable K V} {marks : ℕ → ℕ} {done held current : List (K × V)}

theorem accounts_new : (new : ProcessCallable K V).Accounts [] [] [] where
  assigned := rfl
  processed := rfl
  current := holds_new
  held := rfl
  saved := List.Perm.refl _
  issued := List.Perm.refl _

theorem Move.passing_eq (move : proc.Move next) : next.passing = proc.passing := by
  cases move with
  | assign key input => simp [passing, ProcessCallable.assign, ProcessThreadTask.flush?]
  | insert key input tasks state front stepped =>
      rw [passing, passing, front]
      by_cases trigger : (!state.batch.isEmpty && proc.tupleBatcher.isEmpty) = true
      · simp [trigger, FlushThreadTask.flush?, ProcessThreadTask.flush?, List.filterMap_cons]
      · simp [trigger, ProcessThreadTask.flush?, List.filterMap_cons]
  | forward flush tasks front => simp [passing, front, FlushThreadTask.flush?, ProcessThreadTask.flush?]
  | start tasks idle front => simp [passing, front, FlushThreadTask.flush?, List.filterMap_cons]
  | leave | enter | swap | save | call | finish => rfl

/-- The processor accounts for its tuples and keeps each barrier behind them. -/
def Valid (marks : ℕ → ℕ) (proc : ProcessCallable K V) : Prop :=
  ∃ done held current, proc.Accounts done held current ∧ proc.Ordered marks done current

theorem valid_new : (new : ProcessCallable K V).Valid marks := by
  refine ⟨[], [], [], accounts_new, trivial, ?_, ?_, ?_⟩
  · intro flush member
    exact absurd member List.not_mem_nil
  · intro _ flush member
    exact absurd member List.not_mem_nil
  · intro nonempty
    exact absurd rfl nonempty

theorem Valid.assign (valid : proc.Valid marks) (key : K) (input : V) : (proc.assign key input).Valid marks := by
  obtain ⟨done, held, current, accounts, ordered⟩ := valid
  refine ⟨done, held, current, ⟨?_, accounts.processed, accounts.current, accounts.held, accounts.saved,
    accounts.issued⟩, ?_, ordered.posted, ordered.covered, ordered.attended⟩
  · simp [ProcessCallable.assign, accounts.assigned, ProcessThreadTask.tuple?]
  · exact (waiting_append_tuple _ _ key input).mpr ordered.waiting

theorem Valid.barrier (valid : proc.Valid marks) {flush : ℕ} (mark : marks flush ≤ proc.assigned.length) :
    (proc.barrier flush).Valid marks := by
  obtain ⟨done, held, current, accounts, ordered⟩ := valid
  refine ⟨done, held, current, ⟨?_, accounts.processed, accounts.current, accounts.held, accounts.saved,
    accounts.issued⟩, ?_, ordered.posted, ordered.covered, ordered.attended⟩
  · simp [ProcessCallable.barrier, accounts.assigned, ProcessThreadTask.tuple?, List.filterMap_cons]
  · refine (waiting_append_flush _ flush _).mpr ⟨ordered.waiting, ?_⟩
    rwa [accounts.assigned, List.length_append] at mark

/-- The inserted tuple joins the current batch, and a batch that was empty posts a check. -/
theorem Valid.insert (valid : proc.Valid marks) {key : K} {input : V} {tasks : List (ProcessThreadTask K V)}
    {state : BatchState K V} (front : proc.processTasks = .tupleInsertion key input :: tasks)
    (stepped : (⟨proc.tupleBatcher, []⟩ : BatchState K V).doProcess ⟨key, input, true⟩ = some state) :
    Valid marks { proc with
      processTasks := tasks
      tupleBatcher := state.batch
      processed := proc.processed ++ [(key, input)]
      saved := proc.saved ++ state.saved
      issued := proc.issued ++ state.saved
      serviceFlush := proc.serviceFlush ++
        if !state.batch.isEmpty && proc.tupleBatcher.isEmpty then [.doCheckFlush] else [] } := by
  obtain ⟨done, held, current, accounts, ordered⟩ := valid
  obtain ⟨nothing, holds⟩ := accounts.current.process stepped
  have filled : state.batch.isEmpty = false := by
    rw [← Bool.not_eq_true, holds.isEmpty_iff]
    simp
  have posts : (if !state.batch.isEmpty && proc.tupleBatcher.isEmpty then [FlushThreadTask.doCheckFlush] else []) =
      if proc.tupleBatcher.isEmpty then [.doCheckFlush] else [] := by
    rw [filled, Bool.not_false, Bool.true_and]
  rw [posts, nothing]
  refine ⟨done, held, current ++ [(key, input)], ⟨?_, ?_, holds, accounts.held, ?_, ?_⟩, ?_, ?_, ?_, ?_⟩
  · simp [accounts.assigned, front, ProcessThreadTask.tuple?]
  · simp [accounts.processed]
  · simpa using accounts.saved
  · simpa using accounts.issued
  · have waiting := ordered.waiting
    rw [front, Waiting] at waiting
    simpa using waiting
  · intro flush member
    have earlier : FlushThreadTask.doBarrier flush ∈ proc.serviceFlush := by
      rcases List.mem_append.mp member with before | now
      · exact before
      · by_cases empty : proc.tupleBatcher.isEmpty = true
        · simp [empty] at now
        · simp [empty] at now
    exact (ordered.posted flush earlier).trans (by simp)
  · intro idle flush member
    apply ordered.covered idle flush
    by_cases empty : proc.tupleBatcher.isEmpty = true
    · simp only [empty, if_true] at member
      rcases mem_takeWhile_append member with before | ⟨-, different, -⟩
      · exact before
      · exact absurd rfl different
    · simpa only [if_neg empty, List.append_nil] using member
  · intro _
    by_cases empty : proc.tupleBatcher.isEmpty = true
    · exact Or.inl (by simp [empty])
    · rcases ordered.attended (mt accounts.current.isEmpty_iff.mpr empty) with check | running
      · exact Or.inl (List.mem_append_left _ check)
      · exact Or.inr running

/-- The forwarded barrier has a check before it or finds every earlier tuple saved. -/
theorem Valid.forward (valid : proc.Valid marks) {flush : ℕ} {tasks : List (ProcessThreadTask K V)}
    (front : proc.processTasks = .flushTask flush :: tasks) :
    Valid marks { proc with processTasks := tasks, serviceFlush := proc.serviceFlush ++ [.doBarrier flush] } := by
  obtain ⟨done, held, current, accounts, ordered⟩ := valid
  have waiting := ordered.waiting
  rw [front, Waiting] at waiting
  refine ⟨done, held, current, ⟨?_, accounts.processed, accounts.current, accounts.held, accounts.saved,
    accounts.issued⟩, waiting.2, ?_, ?_, ?_⟩
  · simp [accounts.assigned, front, ProcessThreadTask.tuple?, List.filterMap_cons]
  · intro other member
    rcases List.mem_append.mp member with before | now
    · exact ordered.posted other before
    · rw [List.mem_singleton, FlushThreadTask.doBarrier.injEq] at now
      rw [now]
      exact waiting.1
  · intro idle other member
    rcases mem_takeWhile_append member with before | ⟨same, -, unchecked⟩
    · exact ordered.covered idle other before
    · have settled : current = [] := by
        by_contra nonempty
        rcases ordered.attended nonempty with check | running
        · exact unchecked check
        · rw [idle] at running
          exact running
      have released : held = [] := by
        have holding := accounts.held
        rwa [idle] at holding
      rw [FlushThreadTask.doBarrier.injEq] at same
      have mark := waiting.1
      rw [accounts.processed, settled, released, List.append_nil, List.append_nil] at mark
      rw [same]
      exact mark
  · intro nonempty
    rcases ordered.attended nonempty with check | running
    · exact Or.inl (List.mem_append_left _ check)
    · exact Or.inr running

/-- While the flush thread runs, no barrier can pass. -/
theorem Ordered.running {done' current' : List (K × V)} (ordered : proc.Ordered marks done current)
    (processTasks : next.processTasks = proc.processTasks) (processed : next.processed = proc.processed)
    (queue : next.serviceFlush ⊆ proc.serviceFlush) (running : next.threadFlush ≠ .idle)
    (attends : current' ≠ [] → .doCheckFlush ∈ next.serviceFlush ∨ next.threadFlush.Attends next.batchId) :
    next.Ordered marks done' current' where
  waiting := by
    rw [processTasks, processed]
    exact ordered.waiting
  posted := by
    intro flush member
    rw [processed]
    exact ordered.posted flush (queue member)
  covered := fun idle => absurd idle running
  attended := attends

/-- A turn of the flush thread that takes no batch and saves none leaves the accounts as they are. -/
theorem Valid.turn (valid : proc.Valid marks) {tasks : List FlushThreadTask} {thread : FlushThread K V}
    {issued : List (TupleProcessingInfo K V)} {flushed : List ℕ} (queue : tasks ⊆ proc.serviceFlush)
    (holding : proc.threadFlush.Holding = thread.Holding)
    (owed : issued ++ thread.outstanding = proc.issued ++ proc.threadFlush.outstanding) (running : thread ≠ .idle)
    (attends : .doCheckFlush ∈ proc.serviceFlush ∨ proc.threadFlush.Attends proc.batchId →
      .doCheckFlush ∈ tasks ∨ thread.Attends proc.batchId) :
    Valid marks { proc with serviceFlush := tasks, threadFlush := thread, issued := issued, flushed := flushed } := by
  obtain ⟨done, held, current, accounts, ordered⟩ := valid
  have holds := accounts.held
  have callbacks := accounts.issued
  rw [holding] at holds
  rw [← owed] at callbacks
  exact ⟨done, held, current, ⟨accounts.assigned, accounts.processed, accounts.current, holds, accounts.saved,
    callbacks⟩, ordered.running rfl rfl queue running fun nonempty => attends (ordered.attended nonempty)⟩

/-- The flush thread leaves its loop when every processed tuple has been saved. -/
theorem Valid.leave (valid : proc.Valid marks) (testing : proc.threadFlush = .testing)
    (empty : proc.tupleBatcher.isEmpty = true) : Valid marks { proc with threadFlush := .idle } := by
  obtain ⟨done, held, current, accounts, ordered⟩ := valid
  have holding : held = [] := by simpa [testing, FlushThread.Holding] using accounts.held
  have issued := accounts.issued
  rw [testing] at issued
  have settled : current = [] := accounts.current.isEmpty_iff.mp empty
  refine ⟨done, held, current, ⟨accounts.assigned, accounts.processed, accounts.current, holding,
    accounts.saved, issued⟩, ordered.waiting, ordered.posted, ?_, fun nonempty => absurd settled nonempty⟩
  intro _ flush member
  have mark := ordered.posted flush (List.takeWhile_subset _ member)
  rwa [accounts.processed, settled, holding, List.append_nil, List.append_nil] at mark

/-- The swap hands the tuples of the current batch to the flush thread. -/
theorem Valid.swap (valid : proc.Valid marks) {id : ℕ} (ready : proc.threadFlush = .ready id) :
    proc.batchFlush.Valid marks := by
  obtain ⟨done, held, current, accounts, ordered⟩ := valid
  have holding : held = [] := by simpa [ready, FlushThread.Holding] using accounts.held
  have issued := accounts.issued
  rw [ready] at issued
  refine ⟨done, current, [], ⟨accounts.assigned, ?_, holds_new, accounts.current, accounts.saved, issued⟩,
    ordered.running rfl rfl (List.Subset.refl _) nofun fun nonempty => absurd rfl nonempty⟩
  rw [batchFlush, accounts.processed, holding, List.append_nil, List.append_nil]

/-- The flush of a batch saves the tuples that it holds and owes their callbacks. -/
theorem Valid.save (valid : proc.Valid marks) {id : ℕ} {batch : TupleBatch K V} {state : BatchState K V}
    (flushing : proc.threadFlush = .flushing id batch)
    (flushed : (⟨batch, []⟩ : BatchState K V).flush = some state) :
    Valid marks { proc with saved := proc.saved ++ state.saved, threadFlush := .calling id state.saved } := by
  obtain ⟨done, held, current, accounts, ordered⟩ := valid
  have holding : Holds batch held := by simpa [flushing, FlushThread.Holding] using accounts.held
  obtain ⟨saved, same, perm⟩ := holding.flush
  obtain rfl := Option.some.inj (flushed.symm.trans same)
  have issued : (contributions proc.issued).Perm done := by
    simpa [flushing, FlushThread.outstanding] using accounts.issued
  refine ⟨done ++ held, [], current, ⟨accounts.assigned, ?_, accounts.current, rfl, ?_, ?_⟩,
    ordered.running rfl rfl (List.Subset.refl _) nofun ?_⟩
  · rw [accounts.processed, List.append_nil]
  · rw [contributions_append]
    exact accounts.saved.append perm
  · rw [FlushThread.outstanding, contributions_append]
    exact issued.append perm
  · intro nonempty
    have attended := ordered.attended nonempty
    rwa [flushing] at attended

/-- Every move keeps the processor valid. -/
theorem Valid.move (valid : proc.Valid marks) (move : proc.Move next) : next.Valid marks := by
  cases move with
  | assign key input => exact valid.assign key input
  | insert key input tasks state front stepped => exact valid.insert front stepped
  | forward flush tasks front => exact valid.forward front
  | start tasks idle front =>
      have queue : tasks ⊆ proc.serviceFlush := by
        rw [front]
        exact List.subset_cons_self _ _
      exact valid.turn queue (by rw [idle]; rfl) (by rw [idle]; rfl) nofun fun _ => Or.inr trivial
  | leave testing empty => exact valid.leave testing empty
  | enter testing nonempty =>
      exact valid.turn (List.Subset.refl _) (by rw [testing]; rfl) (by rw [testing]; rfl) nofun fun _ => Or.inr rfl
  | swap id ready => exact valid.swap ready
  | save id batch state flushing flushed => exact valid.save flushing flushed
  | call id tpi rest calling =>
      refine valid.turn (List.Subset.refl _) (by rw [calling]; rfl) ?_ nofun ?_
      · rw [calling, FlushThread.outstanding, FlushThread.outstanding, List.append_assoc, List.singleton_append]
      · intro attended
        rwa [calling] at attended
  | finish id calling =>
      exact valid.turn (List.Subset.refl _) (by rw [calling]; rfl) (by rw [calling]; rfl) nofun fun _ => Or.inr trivial

/-- The first tuples that were assigned have been saved, and their callbacks have been issued. -/
def Covered (proc : ProcessCallable K V) (mark : ℕ) : Prop :=
  mark ≤ proc.assigned.length ∧ (proc.assigned.take mark).Subperm (contributions proc.saved) ∧
    (proc.assigned.take mark).Subperm (contributions proc.issued)

/-- A barrier at the front of the flush queue finds the earlier tuples covered. -/
theorem Valid.doBarrier (valid : proc.Valid marks) {flush : ℕ} {tasks : List FlushThreadTask}
    (idle : proc.threadFlush = .idle) (front : proc.serviceFlush = .doBarrier flush :: tasks) :
    Valid marks { proc with serviceFlush := tasks } ∧ proc.Covered (marks flush) := by
  obtain ⟨done, held, current, accounts, ordered⟩ := valid
  constructor
  · refine ⟨done, held, current, ⟨accounts.assigned, accounts.processed, accounts.current, accounts.held,
      accounts.saved, accounts.issued⟩, ordered.waiting, ?_, ?_, ?_⟩
    · intro other member
      apply ordered.posted other
      rw [front]
      exact List.mem_cons_of_mem _ member
    · intro _ other member
      apply ordered.covered idle other
      rw [front, List.takeWhile_cons_of_pos (by simp)]
      exact List.mem_cons_of_mem _ member
    · intro nonempty
      have attended := ordered.attended nonempty
      simpa [front] using attended
  · have mark : marks flush ≤ done.length := by
      apply ordered.covered idle flush
      rw [front, List.takeWhile_cons_of_pos (by simp)]
      exact List.mem_cons_self
    have issued : (contributions proc.issued).Perm done := by
      simpa [idle, FlushThread.outstanding] using accounts.issued
    have taken : (proc.assigned.take (marks flush)).Subperm done := by
      rw [accounts.assigned, accounts.processed, List.append_assoc, List.append_assoc,
        List.take_append_of_le_length mark]
      exact (List.take_sublist _ _).subperm
    refine ⟨?_, taken.trans accounts.saved.symm.subperm, taken.trans issued.symm.subperm⟩
    rw [accounts.assigned, accounts.processed]
    simp only [List.length_append]
    omega

/-- Only the marks of the barriers on their way matter. -/
theorem Valid.congr {marks' : ℕ → ℕ} (valid : proc.Valid marks)
    (same : ∀ flush ∈ proc.passing, marks' flush = marks flush) : proc.Valid marks' := by
  obtain ⟨done, held, current, accounts, ordered⟩ := valid
  have posted : ∀ flush, .doBarrier flush ∈ proc.serviceFlush → marks' flush = marks flush := by
    intro flush member
    exact same flush (List.mem_append_left _ (List.mem_filterMap.mpr ⟨_, member, rfl⟩))
  refine ⟨done, held, current, accounts, ?_, ?_, ?_, ordered.attended⟩
  · exact waiting_congr (fun flush member => same flush (List.mem_append_right _ member)) ordered.waiting
  · intro flush member
    rw [posted flush member]
    exact ordered.posted flush member
  · intro idle flush member
    rw [posted flush (List.takeWhile_subset _ member)]
    exact ordered.covered idle flush member

theorem numbered_new : (new : ProcessCallable K V).Numbered where
  swapped := rfl
  flushed := rfl
  ready := nofun

/-- Every move keeps the batches numbered. -/
theorem Numbered.move (numbered : proc.Numbered) (move : proc.Move next) : next.Numbered := by
  have flushed := numbered.flushed
  cases move with
  | assign | insert | forward => exact ⟨numbered.swapped, numbered.flushed, numbered.ready⟩
  | start tasks idle front =>
      rw [idle] at flushed
      exact ⟨numbered.swapped, flushed, nofun⟩
  | leave testing empty =>
      rw [testing] at flushed
      exact ⟨numbered.swapped, flushed, nofun⟩
  | enter testing nonempty =>
      rw [testing] at flushed
      exact ⟨numbered.swapped, flushed, fun id same => (FlushThread.ready.inj same).symm⟩
  | swap id ready =>
      rw [ready] at flushed
      refine ⟨?_, ?_, nofun⟩
      · rw [batchFlush, numbered.swapped, List.range_succ]
      · simpa [batchFlush, FlushThread.batch?] using flushed
  | save id batch state flushing same =>
      rw [flushing] at flushed
      exact ⟨numbered.swapped, flushed, nofun⟩
  | call id tpi rest calling =>
      rw [calling] at flushed
      exact ⟨numbered.swapped, flushed, nofun⟩
  | finish id calling =>
      rw [calling] at flushed
      refine ⟨numbered.swapped, ?_, nofun⟩
      simpa [FlushThread.batch?] using flushed

/-- A swapped batch has been flushed once unless the flush thread is flushing it. -/
theorem Numbered.count_flushed (numbered : proc.Numbered) {id : ℕ} (swapped : id ∈ proc.swapped) :
    proc.flushed.count id = if proc.threadFlush.batch? = some id then 0 else 1 := by
  have once : (proc.flushed ++ proc.threadFlush.batch?.toList).count id = 1 := by
    rw [numbered.flushed, numbered.swapped]
    rw [numbered.swapped] at swapped
    exact List.count_eq_one_of_mem List.nodup_range swapped
  rw [List.count_append] at once
  cases holding : proc.threadFlush.batch? with
  | none =>
      rw [holding] at once
      simpa using once
  | some other =>
      rw [holding] at once
      by_cases same : other = id
      · rw [same, Option.toList_some, List.count_singleton_self] at once
        rw [same, if_pos rfl]
        omega
      · simpa [same] using once

/-- A batch that is not swapped out stays non-empty. -/
theorem Valid.progress (valid : proc.Valid marks) (move : proc.Move next) :
    (next.batchId = proc.batchId ∧ (proc.tupleBatcher.isEmpty = false → next.tupleBatcher.isEmpty = false)) ∨
      next.batchId = proc.batchId + 1 := by
  cases move with
  | insert key input tasks state front stepped =>
      obtain ⟨done, held, current, accounts, -⟩ := valid
      have holds := (accounts.current.process stepped).2
      refine Or.inl ⟨rfl, fun _ => ?_⟩
      rw [← Bool.not_eq_true, holds.isEmpty_iff]
      simp
  | swap => exact Or.inr rfl
  | assign | forward | start | leave | enter | save | call | finish => exact Or.inl ⟨rfl, id⟩

/-- A running check can always take its next step. -/
theorem Valid.doCheckFlush_isSome (valid : proc.Valid marks) (running : proc.threadFlush ≠ .idle) :
    proc.doCheckFlush.isSome = true := by
  obtain ⟨done, held, current, accounts, -⟩ := valid
  rw [ProcessCallable.doCheckFlush]
  cases thread : proc.threadFlush with
  | idle => exact absurd thread running
  | testing | ready => rfl
  | flushing id batch =>
      have holding : Holds batch held := by simpa [thread, FlushThread.Holding] using accounts.held
      obtain ⟨state, flushed, -⟩ := holding.flush
      simp [flushed]
  | calling id rest =>
      cases rest with
      | nil => rfl
      | cons tpi rest => rfl

/-- A move only extends what has been assigned, saved and issued. -/
theorem Move.extends (move : proc.Move next) :
    proc.assigned <+: next.assigned ∧ proc.saved <+: next.saved ∧ proc.issued <+: next.issued := by
  cases move with
  | assign => exact ⟨List.prefix_append _ _, List.prefix_rfl, List.prefix_rfl⟩
  | insert => exact ⟨List.prefix_rfl, List.prefix_append _ _, List.prefix_append _ _⟩
  | save => exact ⟨List.prefix_rfl, List.prefix_append _ _, List.prefix_rfl⟩
  | call => exact ⟨List.prefix_rfl, List.prefix_rfl, List.prefix_append _ _⟩
  | forward | start | leave | enter | swap | finish => exact ⟨List.prefix_rfl, List.prefix_rfl, List.prefix_rfl⟩

theorem Move.assigned_le (move : proc.Move next) : proc.assigned.length ≤ next.assigned.length :=
  move.extends.1.length_le

/-- What is covered stays covered. -/
theorem Covered.move {mark : ℕ} (covered : proc.Covered mark) (move : proc.Move next) : next.Covered mark := by
  obtain ⟨⟨tuples, assigned⟩, ⟨more, saved⟩, ⟨further, issued⟩⟩ := move.extends
  rw [Covered, ← assigned, ← saved, ← issued, List.take_append_of_le_length covered.1, contributions_append,
    contributions_append, List.length_append]
  refine ⟨covered.1.trans (Nat.le_add_right _ _), covered.2.1.trans ?_, covered.2.2.trans ?_⟩
  · exact (List.sublist_append_left _ _).subperm
  · exact (List.sublist_append_left _ _).subperm

end ProcessCallable

end JetStream
