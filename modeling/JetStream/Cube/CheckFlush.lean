import JetStream.Cube.FlushBarrier

namespace JetStream

variable {K V : Type} [LinearOrder K]

/-- A check is queued, or the running one will still reach the current batch. -/
def ProcessCallable.Checked (proc : ProcessCallable K V) : Prop :=
  .doCheckFlush ∈ proc.serviceFlush ∨ proc.threadFlush.Attends proc.batchId

/-- Every swapped batch has been flushed once, except the one that the flush thread is flushing. -/
def ProcessCallable.FlushesOnce (proc : ProcessCallable K V) : Prop :=
  ∀ id ∈ proc.swapped, proc.flushed.count id = if proc.threadFlush.batch? = some id then 0 else 1

/-- The flush thread has nothing left to check. -/
def ProcessCallable.Settled (proc : ProcessCallable K V) : Prop :=
  proc.threadFlush = .idle ∧ .doCheckFlush ∉ proc.serviceFlush

/-- A batch has been swapped out or is still the current one and not empty. -/
def ProcessCallable.Keeps (proc : ProcessCallable K V) (id : ℕ) : Prop :=
  id < proc.batchId ∨ (proc.batchId = id ∧ proc.tupleBatcher.isEmpty = false)

theorem ProcessCallable.Valid.checked {marks : ℕ → ℕ} {proc : ProcessCallable K V} (valid : proc.Valid marks)
    (nonempty : proc.tupleBatcher.isEmpty = false) : proc.Checked := by
  obtain ⟨done, held, current, accounts, ordered⟩ := valid
  apply ordered.attended
  intro empty
  rw [accounts.current.isEmpty_iff.mpr empty] at nonempty
  exact absurd nonempty (by decide)

theorem ProcessCallable.Keeps.move {marks : ℕ → ℕ} {proc next : ProcessCallable K V} {id : ℕ} (keeps : proc.Keeps id)
    (valid : proc.Valid marks) (move : proc.Move next) : next.Keeps id := by
  rcases valid.progress move with ⟨same, grows⟩ | swapped
  · rw [Keeps, same]
    exact keeps.imp_right fun current => ⟨current.1, grows current.2⟩
  · rcases keeps with earlier | ⟨current, -⟩
    · exact Or.inl (by omega)
    · exact Or.inl (by omega)

open DataCube

/-- A non-empty batch is kept until the flush thread swaps it out. -/
theorem DataCube.Inv.keeps {n : ℕ} {hash : K → ℕ} {cube next : DataCube K V n} {event : CubeEvent K V n}
    {i : Fin n} {id : ℕ} (inv : cube.Inv) (keeps : (cube.processors i).Keeps id) (batches : event.Batches)
    (stepped : cube.step hash event = some next) : (next.processors i).Keeps id := by
  have others : ∀ (j : Fin n) (proc : ProcessCallable K V), (j = i → proc.Keeps id) →
      ((cube.setProcessor j proc).processors i).Keeps id := by
    intro j proc here
    by_cases same : i = j
    · rw [same, setProcessor_self]
      exact here same.symm
    · rw [setProcessor_of_ne proc same]
      exact keeps
  rcases step_cases batches stepped with ⟨j, proc, move, rfl⟩ | rfl | ⟨flush, inside, called, rfl⟩ |
    ⟨j, flush, tasks, idle, front, rfl⟩
  · apply others j proc
    rintro rfl
    exact keeps.move (inv.valid j) move
  · exact keeps
  · apply others _ _
    intro same
    rw [same]
    exact keeps
  · apply others _ _
    rintro rfl
    exact keeps

variable {hash : K → ℕ} {config : NodeConfig} {cube : DataCube K V config.cubeProcessorThreads}

/-- A non-empty batch has a check that will still reach it, every swapped batch is flushed once, and no later
state leaves the batch behind. -/
theorem checkFlush_leaves_no_batch (reachable : (system hash config).Reachable cube)
    (i : Fin config.cubeProcessorThreads) :
    ((cube.processors i).tupleBatcher.isEmpty = false → (cube.processors i).Checked) ∧
    (cube.processors i).FlushesOnce ∧
    ((cube.processors i).threadFlush ≠ .idle → (cube.runFlush i).isSome = true) ∧
    ∀ events final, (system hash config).runFrom cube events = some final →
      (cube.processors i).tupleBatcher.isEmpty = false → (final.processors i).Settled →
      (final.processors i).flushed.count (cube.processors i).batchId = 1 := by
  have inv := inv_of_reachable reachable
  refine ⟨(inv.valid i).checked, fun id => (inv.numbered i).count_flushed, ?_, ?_⟩
  · intro running
    have moves := (inv.valid i).doCheckFlush_isSome running
    rw [runFlush]
    split
    case h_1 idle _ | h_2 idle _ | h_3 idle _ => exact absurd idle running
    case h_4 => rwa [Option.isSome_map]
  · intro events final ran nonempty settled
    have along : final.Inv ∧ (final.processors i).Keeps (cube.processors i).batchId := by
      apply EventSystem.runFrom_invariant (fun cube' : DataCube K V _ =>
        cube'.Inv ∧ (cube'.processors i).Keeps (cube.processors i).batchId) _
        ⟨inv, Or.inr ⟨rfl, nonempty⟩⟩ ran
      rintro cube' event next ⟨inv, keeps⟩ stepped
      obtain ⟨batches, moved⟩ := EventSystem.restrict_step.mp stepped
      exact ⟨inv.systemStep stepped, inv.keeps keeps batches moved⟩
    obtain ⟨finalInv, swapped | ⟨-, stranded⟩⟩ := along
    · have member : (cube.processors i).batchId ∈ (final.processors i).swapped := by
        rw [(finalInv.numbered i).swapped, List.mem_range]
        exact swapped
      rw [(finalInv.numbered i).count_flushed member, settled.1]
      rfl
    · rcases (finalInv.valid i).checked stranded with queued | running
      · exact absurd queued settled.2
      · rw [settled.1] at running
        exact running.elim

/-- The batch of the first processor is flushed once its check has run. -/
theorem checkFlush_leaves_no_batch_two :
    ∃ cube final : DataCube ℕ ℕ twoProcessors.cubeProcessorThreads,
      (system id twoProcessors).Reachable cube ∧
      (system id twoProcessors).runFrom cube (List.replicate 7 (.runFlush 0)) = some final ∧
      (cube.processors 0).Checked ∧ (final.processors 0).flushed.count (cube.processors 0).batchId = 1 := by
  have runs : ∃ cube final : DataCube ℕ ℕ twoProcessors.cubeProcessorThreads,
      (system id twoProcessors).runFrom new [.process 0 5, .runProcess 0 [.send]] = some cube ∧
      (system id twoProcessors).runFrom cube (List.replicate 7 (.runFlush 0)) = some final ∧
      (cube.processors 0).tupleBatcher.isEmpty = false ∧ (final.processors 0).Settled :=
    ⟨_, _, rfl, rfl, rfl, rfl, List.not_mem_nil⟩
  obtain ⟨cube, final, first, second, nonempty, settled⟩ := runs
  have reachable : (system id twoProcessors).Reachable cube := ⟨_, first⟩
  obtain ⟨checked, -, -, later⟩ := checkFlush_leaves_no_batch reachable 0
  exact ⟨cube, final, reachable, second, checked nonempty,
    later (List.replicate 7 (.runFlush 0)) final second nonempty settled⟩

end JetStream
