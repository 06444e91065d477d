import JetStream.Cube.MasstreeCube
import JetStream.Lib.Grouping
import Mathlib.Algebra.Order.BigOperators.Group.List

namespace JetStream

namespace CellStore

variable {store : CellStore} {key other : List Char}

/-- Every address lies on the heap, and no two keys share one. -/
structure Valid (store : CellStore) : Prop where
  inside : ∀ key aggs, store.tree.get? key = some aggs → aggs < store.heap.length
  separate : ∀ key other aggs, store.tree.get? key = some aggs → store.tree.get? other = some aggs → key = other

theorem valid_empty : empty.Valid where
  inside := fun _ _ found => by cases found
  separate := fun _ _ _ found => by cases found

theorem cell_eq {aggs : ℕ} (found : store.tree.get? key = some aggs) : store.cell key = store.heap[aggs]? := by
  rw [cell, found, Option.bind_some]

theorem cell_eq_none (absent : store.tree.get? key = none) : store.cell key = none := by
  rw [cell, absent, Option.bind_none]

theorem Valid.exists_cell (valid : store.Valid) {aggs : ℕ} (found : store.tree.get? key = some aggs) :
    ∃ buffer, store.heap[aggs]? = some buffer ∧ store.cell key = some buffer := by
  have inside := valid.inside key aggs found
  refine ⟨store.heap[aggs], List.getElem?_eq_getElem inside, ?_⟩
  rw [cell_eq found, List.getElem?_eq_getElem inside]

theorem get?_insert (store : CellStore) (key other : List Char) (buffer : AggregateBuffer) :
    (store.insert key buffer).tree.get? other =
      if other = key then some store.heap.length else store.tree.get? other := by
  rw [CellStore.insert, OrderedMap.get?_set]
  split_ifs <;> rfl

theorem Valid.insert (valid : store.Valid) (key : List Char) (buffer : AggregateBuffer) :
    (store.insert key buffer).Valid where
  inside := by
    intro other aggs found
    rw [get?_insert] at found
    rw [CellStore.insert, List.length_append, List.length_singleton]
    split_ifs at found with same
    · obtain rfl := Option.some.inj found
      exact Nat.lt_succ_self _
    · exact Nat.lt_succ_of_lt (valid.inside other aggs found)
  separate := by
    intro first second aggs left right
    rw [get?_insert] at left right
    split_ifs at left right with here there there
    · exact here.trans there.symm
    · obtain rfl := Option.some.inj left
      exact absurd (valid.inside _ _ right) (lt_irrefl _)
    · obtain rfl := Option.some.inj right
      exact absurd (valid.inside _ _ left) (lt_irrefl _)
    · exact valid.separate first second aggs left right

/-- A new buffer changes no other cell. -/
theorem Valid.cell_insert (valid : store.Valid) (key other : List Char) (buffer : AggregateBuffer) :
    (store.insert key buffer).cell other = if other = key then some buffer else store.cell other := by
  rw [cell, get?_insert, CellStore.insert]
  split_ifs with same
  · rw [Option.bind_some, List.getElem?_concat_length]
  · cases found : store.tree.get? other with
    | none => rw [Option.bind_none, cell_eq_none found]
    | some aggs =>
        rw [Option.bind_some, List.getElem?_append_left (valid.inside other aggs found), cell_eq found]

theorem Valid.modify (valid : store.Valid) (aggs : ℕ) (f : AggregateBuffer → AggregateBuffer) :
    (store.modify aggs f).Valid where
  inside := by
    intro key found listed
    rw [CellStore.modify, List.length_modify]
    exact valid.inside key found listed
  separate := valid.separate

/-- A buffer is changed for its own key alone. -/
theorem Valid.cell_modify (valid : store.Valid) {aggs : ℕ} (found : store.tree.get? key = some aggs)
    (f : AggregateBuffer → AggregateBuffer) (other : List Char) :
    (store.modify aggs f).cell other = if other = key then (store.cell key).map f else store.cell other := by
  have tree : (store.modify aggs f).tree = store.tree := rfl
  split_ifs with same
  · rw [same, cell, tree, found, cell_eq found, Option.bind_some, CellStore.modify, List.getElem?_modify_eq]
    rfl
  · cases listed : store.tree.get? other with
    | none => rw [cell_eq_none listed, cell, tree, listed, Option.bind_none]
    | some address =>
        have apart : aggs ≠ address := by
          rintro rfl
          exact same (valid.separate other key aggs listed found)
        rw [cell, tree, listed, cell_eq listed, Option.bind_some, CellStore.modify, List.getElem?_modify_ne _ _ apart]

end CellStore

/-- An aggregate gains this amount from a tuple. -/
def MasstreeAggregate.amount (aggregate : MasstreeAggregate) (task : TupleInsertion) : ℤ :=
  (aggregate.read task.t).getD 0

/-- The tuples of a cell bring this total to an aggregate. -/
def MasstreeAggregate.total (aggregate : MasstreeAggregate) (tasks : List TupleInsertion) (cell : List Char) : ℤ :=
  groupTotal TupleInsertion.cell aggregate.amount tasks cell

namespace InsertionThread

def task? : InsertionThread → Option TupleInsertion
  | .idle => none
  | .looking task | .missing task | .merging task _ _ | .storing task _ _ _ => some task

/-- The aggregates below this one have been added to. -/
def passed : InsertionThread → ℕ
  | .idle | .looking _ | .missing _ => 0
  | .merging _ _ i | .storing _ _ i _ => i

/-- What the thread has added to one aggregate of a cell so far. -/
def added (thread : InsertionThread) (aggregate : MasstreeAggregate) (j : ℕ) (cell : List Char) : ℤ :=
  if j < thread.passed then aggregate.total thread.task?.toList cell else 0

/-- The thread knows whether the cell of its task is there, and the sum that it has loaded is still stored. -/
def Knows (schema : MasstreeSchema) (store : CellStore) : InsertionThread → Prop
  | .idle | .looking _ => True
  | .missing task => store.tree.get? task.cell = none
  | .merging task aggs i => store.tree.get? task.cell = some aggs ∧ i ≤ schema.aggregates.length
  | .storing task aggs i loaded => store.tree.get? task.cell = some aggs ∧ i < schema.aggregates.length ∧
      ∃ buffer, store.cell task.cell = some buffer ∧ buffer.data[i]? = some loaded

end InsertionThread

namespace InsertionProcessor

/-- A processor handles its tuples in the order of their arrival. -/
def all (proc : InsertionProcessor) : List TupleInsertion := proc.done ++ proc.thread.task?.toList ++ proc.processTasks

/-- The cell of a key holds what its tuples add up to, and there is none before the first of them. -/
def Exact (schema : MasstreeSchema) (proc : InsertionProcessor) (key : List Char) : Option AggregateBuffer → Prop
  | none => ∀ task ∈ proc.done, task.cell ≠ key
  | some buffer => buffer.sz = 8 * schema.aggregates.length + 4 ∧ buffer.data.length = schema.aggregates.length ∧
      (∃ task ∈ proc.done ++ proc.thread.task?.toList, task.cell = key) ∧
      ∀ j aggregate, schema.aggregates[j]? = some aggregate →
        buffer.data[j]? = some (aggregate.total proc.done key + proc.thread.added aggregate j key)

end InsertionProcessor

section Total

variable {aggregate : MasstreeAggregate} {tasks : List TupleInsertion} {key : List Char}

theorem MasstreeAggregate.total_append (aggregate : MasstreeAggregate) (first second : List TupleInsertion)
    (key : List Char) :
    aggregate.total (first ++ second) key = aggregate.total first key + aggregate.total second key := by
  simp only [MasstreeAggregate.total, groupTotal, List.filter_append, List.map_append, List.sum_append]

theorem MasstreeAggregate.total_eq_zero (other : ∀ task ∈ tasks, task.cell ≠ key) : aggregate.total tasks key = 0 := by
  have none : (tasks.filter fun task => task.cell = key) = [] := by
    rw [List.filter_eq_nil_iff]
    intro task member
    simpa using other task member
  rw [MasstreeAggregate.total, groupTotal, none, List.map_nil, List.sum_nil]

theorem MasstreeAggregate.total_singleton (aggregate : MasstreeAggregate) (task : TupleInsertion) :
    aggregate.total [task] task.cell = aggregate.amount task := by
  simp [MasstreeAggregate.total, groupTotal]

theorem MasstreeAggregate.total_singleton_of_ne {task : TupleInsertion} (other : task.cell ≠ key) :
    aggregate.total [task] key = 0 := total_eq_zero fun _ member => by rwa [List.mem_singleton.mp member]

end Total

namespace MasstreeSchema

variable {schema : MasstreeSchema} {store after : CellStore} {proc next : InsertionProcessor}

theorem sz_allocate (schema : MasstreeSchema) : schema.allocate.sz = 8 * schema.aggregates.length + 4 := by
  have eight : schema.aggregates.map MasstreeAggregate.size = List.replicate schema.aggregates.length 8 := by
    rw [List.eq_replicate_iff, List.length_map]
    refine ⟨rfl, ?_⟩
    intro size member
    obtain ⟨aggregate, -, rfl⟩ := List.mem_map.mp member
    cases aggregate <;> rfl
  rw [allocate, eight, List.sum_replicate, Nat.nsmul_eq_mul]
  dsimp only
  omega

/-- What a step of one thread leaves to the others. -/
structure Frame (store after : CellStore) (proc next : InsertionProcessor) : Prop where
  valid : after.Valid
  all : next.all = proc.all
  others : ∀ key, (∀ task ∈ proc.all, task.cell ≠ key) →
    after.tree.get? key = store.tree.get? key ∧ after.cell key = store.cell key

theorem frame_rfl (valid : store.Valid) (all : next.all = proc.all) : Frame store store proc next :=
  ⟨valid, all, fun _ _ => ⟨rfl, rfl⟩⟩

end MasstreeSchema

section Exact

variable {schema : MasstreeSchema} {proc next : InsertionProcessor}

/-- A step that adds nothing keeps every cell exact. -/
theorem InsertionProcessor.Exact.of_same_sums {key : List Char} {cell : Option AggregateBuffer} (exact : proc.Exact schema key cell)
    (done : next.done = proc.done) (tasks : ∀ task ∈ proc.thread.task?.toList, task ∈ next.thread.task?.toList)
    (added : ∀ j aggregate, schema.aggregates[j]? = some aggregate →
      next.thread.added aggregate j key = proc.thread.added aggregate j key) : next.Exact schema key cell := by
  cases cell with
  | none =>
      intro task member
      rw [done] at member
      exact exact task member
  | some buffer =>
      obtain ⟨sz, length, ⟨task, member, here⟩, sums⟩ := exact
      refine ⟨sz, length, ⟨task, ?_, here⟩, ?_⟩
      · rw [done, List.mem_append]
        rcases List.mem_append.mp member with old | current
        · exact Or.inl old
        · exact Or.inr (tasks task current)
      · intro j aggregate listed
        rw [done, added j aggregate listed]
        exact sums j aggregate listed

variable {task : TupleInsertion} {tasks done : List TupleInsertion} {aggs i : ℕ}

/-- The thread has passed one more aggregate, which has gained the amount of the task. -/
theorem added_succ (aggregate : MasstreeAggregate) (j : ℕ) (key : List Char) :
    (InsertionThread.merging task aggs (i + 1)).added aggregate j key =
      (InsertionThread.merging task aggs i).added aggregate j key + if j = i then aggregate.total [task] key else 0 := by
  simp only [InsertionThread.added, InsertionThread.passed, InsertionThread.task?, Option.toList]
  split_ifs <;> omega

theorem added_zero (aggregate : MasstreeAggregate) (j : ℕ) (key : List Char) :
    (InsertionThread.merging task aggs 0).added aggregate j key = 0 := if_neg (Nat.not_lt_zero j)

/-- A finished task counts as done. -/
theorem InsertionProcessor.Exact.finish {key : List Char} {cell : Option AggregateBuffer}
    (exact : InsertionProcessor.Exact schema ⟨tasks, .merging task aggs i, done⟩ key cell)
    (passed : schema.aggregates[i]? = none) (present : cell = none → task.cell ≠ key) :
    InsertionProcessor.Exact schema ⟨tasks, .idle, done ++ [task]⟩ key cell := by
  cases cell with
  | none =>
      intro other member
      rcases List.mem_append.mp member with old | new
      · exact exact other old
      · rw [List.mem_singleton.mp new]
        exact present rfl
  | some buffer =>
      obtain ⟨sz, length, ⟨first, member, here⟩, sums⟩ := exact
      refine ⟨sz, length, ⟨first, List.mem_append_left _ member, here⟩, ?_⟩
      intro j aggregate listed
      have below : j < i := (List.getElem?_eq_some_iff.mp listed).1.trans_le (List.getElem?_eq_none_iff.mp passed)
      have all : (InsertionThread.merging task aggs i).added aggregate j key = aggregate.total [task] key := if_pos below
      rw [sums j aggregate listed, all, MasstreeAggregate.total_append]
      exact congrArg some (add_zero _).symm

/-- A new buffer is exact, because no task of its key was done. -/
theorem exact_allocate {key : List Char} (fresh : ∀ other ∈ done, other.cell ≠ key) (here : task.cell = key) :
    InsertionProcessor.Exact schema ⟨tasks, .merging task aggs 0, done⟩ key (some schema.allocate) := by
  refine ⟨schema.sz_allocate, List.length_replicate, ⟨task, List.mem_append_right _ List.mem_cons_self, here⟩, ?_⟩
  intro j aggregate listed
  have inside := (List.getElem?_eq_some_iff.mp listed).1
  rw [added_zero, MasstreeAggregate.total_eq_zero fresh, MasstreeSchema.allocate, List.getElem?_replicate, if_pos inside]
  rfl

/-- Storing the sum of one aggregate moves the thread past it. -/
theorem InsertionProcessor.Exact.store {buffer : AggregateBuffer} {loaded amount : ℤ} {aggregate : MasstreeAggregate}
    (exact : InsertionProcessor.Exact schema ⟨tasks, .merging task aggs i, done⟩ task.cell (some buffer))
    (listed : schema.aggregates[i]? = some aggregate) (read : aggregate.read task.t = some amount)
    (held : buffer.data[i]? = some loaded) :
    InsertionProcessor.Exact schema ⟨tasks, .merging task aggs (i + 1), done⟩ task.cell
      (some (buffer.setSlot i (loaded + amount))) := by
  obtain ⟨sz, length, member, sums⟩ := exact
  refine ⟨sz, (List.length_set ..).trans length, member, ?_⟩
  intro j other found
  have inside := (List.getElem?_eq_some_iff.mp held).1
  rw [added_succ, AggregateBuffer.setSlot, List.getElem?_set]
  by_cases same : i = j
  · subst same
    obtain rfl := Option.some.inj (listed.symm.trans found)
    have old := (sums i aggregate listed).symm.trans held
    have gain : aggregate.amount task = amount := by rw [MasstreeAggregate.amount, read, Option.getD_some]
    rw [if_pos rfl, if_pos inside, if_pos rfl, MasstreeAggregate.total_singleton, gain, ← Option.some.inj old, add_assoc]
  · rw [if_neg same, if_neg (Ne.symm same), add_zero]
    exact sums j other found

/-- The version is passed without a change. -/
theorem added_version {j : ℕ} {aggregate : MasstreeAggregate} (listed : schema.aggregates[j]? = some aggregate)
    (version : schema.aggregates[i]? = some .version) (key : List Char) :
    (InsertionThread.merging task aggs (i + 1)).added aggregate j key =
      (InsertionThread.merging task aggs i).added aggregate j key := by
  have nothing : MasstreeAggregate.version.total [task] key = 0 := by
    rw [MasstreeAggregate.total, groupTotal, List.sum_eq_zero]
    intro gain member
    obtain ⟨_, -, rfl⟩ := List.mem_map.mp member
    rfl
  rw [added_succ]
  split_ifs with same
  · subst same
    obtain rfl := Option.some.inj (listed.symm.trans version)
    rw [nothing, add_zero]
  · rw [add_zero]

end Exact

namespace MasstreeSchema

variable {schema : MasstreeSchema} {store after : CellStore} {proc next : InsertionProcessor} {mine : List Char → Prop}

/-- The cells of a processor are exact after a step, and all others are as they were. -/
structure Keeps (schema : MasstreeSchema) (mine : List Char → Prop) (store after : CellStore)
    (proc next : InsertionProcessor) : Prop where
  frame : Frame store after proc next
  knows : next.thread.Knows schema after
  exact : ∀ key, mine key → next.Exact schema key (after.cell key)

section MicroSteps

variable {tasks done : List TupleInsertion} {task : TupleInsertion} {aggs i : ℕ}

theorem looking_keeps (valid : store.Valid)
    (exact : ∀ key, mine key → InsertionProcessor.Exact schema ⟨tasks, .looking task, done⟩ key (store.cell key))
    (ran : schema.doProcess store ⟨tasks, .looking task, done⟩ = some (after, next)) :
    Keeps schema mine store after ⟨tasks, .looking task, done⟩ next := by
  rw [doProcess] at ran
  dsimp only at ran
  cases found : store.tree.get? task.cell with
  | none =>
      rw [found] at ran
      obtain ⟨rfl, rfl⟩ := Prod.mk.inj (Option.some.inj ran)
      refine ⟨frame_rfl valid rfl, found, ?_⟩
      intro key own
      exact (exact key own).of_same_sums rfl (fun _ member => member) fun _ _ _ => rfl
  | some aggs =>
      rw [found] at ran
      obtain ⟨rfl, rfl⟩ := Prod.mk.inj (Option.some.inj ran)
      refine ⟨frame_rfl valid rfl, ⟨found, Nat.zero_le _⟩, ?_⟩
      intro key own
      exact (exact key own).of_same_sums rfl (fun _ member => member) fun _ _ _ => by rw [added_zero]; rfl

/-- No other thread has made the cell in the meantime. -/
theorem missing_keeps (valid : store.Valid) (own : mine task.cell) (absent : store.tree.get? task.cell = none)
    (exact : ∀ key, mine key → InsertionProcessor.Exact schema ⟨tasks, .missing task, done⟩ key (store.cell key))
    (ran : schema.doProcess store ⟨tasks, .missing task, done⟩ = some (after, next)) :
    Keeps schema mine store after ⟨tasks, .missing task, done⟩ next := by
  obtain ⟨rfl, rfl⟩ := Prod.mk.inj (Option.some.inj ran)
  have fresh := exact task.cell own
  rw [CellStore.cell_eq_none absent] at fresh
  refine ⟨⟨valid.insert _ _, rfl, ?_⟩, ⟨?_, Nat.zero_le _⟩, ?_⟩
  · intro key other
    have apart : key ≠ task.cell :=
      (other task (by simp [InsertionProcessor.all, InsertionThread.task?])).symm
    rw [CellStore.get?_insert, if_neg apart, valid.cell_insert, if_neg apart]
    exact ⟨rfl, rfl⟩
  · rw [CellStore.get?_insert, if_pos rfl]
  · intro key mineKey
    rw [valid.cell_insert]
    split_ifs with same
    · subst same
      exact exact_allocate fresh rfl
    · exact (exact key mineKey).of_same_sums rfl (fun _ member => member) fun _ _ _ => by rw [added_zero]; rfl

/-- The thread loads the next sum, passes a version, or is done with its task. -/
theorem merging_keeps (valid : store.Valid) (found : store.tree.get? task.cell = some aggs)
    (exact : ∀ key, mine key → InsertionProcessor.Exact schema ⟨tasks, .merging task aggs i, done⟩ key (store.cell key))
    (ran : schema.doProcess store ⟨tasks, .merging task aggs i, done⟩ = some (after, next)) :
    Keeps schema mine store after ⟨tasks, .merging task aggs i, done⟩ next := by
  obtain ⟨buffer, read, held⟩ := valid.exists_cell found
  rw [doProcess] at ran
  dsimp only at ran
  cases listed : schema.aggregates[i]? with
  | none =>
      rw [listed] at ran
      obtain ⟨rfl, rfl⟩ := Prod.mk.inj (Option.some.inj ran)
      refine ⟨frame_rfl valid (by simp [InsertionProcessor.all, InsertionThread.task?]), trivial, ?_⟩
      intro key own
      apply (exact key own).finish listed
      rintro absent rfl
      rw [held] at absent
      cases absent
  | some aggregate =>
      rw [listed] at ran
      have inside := (List.getElem?_eq_some_iff.mp listed).1
      cases aggregate with
      | sum tupleIndex =>
          simp only [read, Option.bind_eq_bind, Option.bind_some, Option.bind_eq_some_iff] at ran
          obtain ⟨loaded, slot, ran⟩ := ran
          obtain ⟨rfl, rfl⟩ := Prod.mk.inj (Option.some.inj ran)
          refine ⟨frame_rfl valid rfl, ⟨found, inside, buffer, held, slot⟩, ?_⟩
          intro key own
          exact (exact key own).of_same_sums rfl (fun _ member => member) fun _ _ _ => rfl
      | version =>
          simp only [read, Option.bind_eq_bind, Option.bind_some, Option.ite_none_left_eq_some] at ran
          obtain ⟨rfl, rfl⟩ := Prod.mk.inj (Option.some.inj ran.2)
          refine ⟨frame_rfl valid rfl, ⟨found, inside⟩, ?_⟩
          intro key own
          exact (exact key own).of_same_sums rfl (fun _ member => member) fun _ _ here => added_version here listed key

/-- The loaded sum is still there when the larger one is stored. -/
theorem storing_keeps {loaded : ℤ} {buffer : AggregateBuffer} (valid : store.Valid)
    (found : store.tree.get? task.cell = some aggs) (bound : i < schema.aggregates.length)
    (held : store.cell task.cell = some buffer) (slot : buffer.data[i]? = some loaded)
    (exact : ∀ key, mine key →
      InsertionProcessor.Exact schema ⟨tasks, .storing task aggs i loaded, done⟩ key (store.cell key))
    (ran : schema.doProcess store ⟨tasks, .storing task aggs i loaded, done⟩ = some (after, next)) :
    Keeps schema mine store after ⟨tasks, .storing task aggs i loaded, done⟩ next := by
  simp only [doProcess, Option.bind_eq_bind, Option.bind_eq_some_iff, Option.ite_none_left_eq_some] at ran
  obtain ⟨aggregate, listed, amount, reads, total, added, same, sameRead, -, ran⟩ := ran
  obtain ⟨rfl, rfl⟩ := Prod.mk.inj (Option.some.inj ran)
  obtain ⟨-, rfl⟩ : _ ∧ loaded + amount = total := by simpa [addInt64] using added
  refine ⟨⟨valid.modify _ _, rfl, ?_⟩, ⟨found, bound⟩, ?_⟩
  · intro key other
    have apart : key ≠ task.cell :=
      (other task (by simp [InsertionProcessor.all, InsertionThread.task?])).symm
    rw [valid.cell_modify found, if_neg apart]
    exact ⟨rfl, rfl⟩
  · intro key mineKey
    rw [valid.cell_modify found]
    split_ifs with here
    · subst here
      have before := exact task.cell mineKey
      rw [held] at before ⊢
      exact before.store listed reads slot
    · refine (exact key mineKey).of_same_sums rfl (fun _ member => member) fun j other _ => ?_
      rw [added_succ, MasstreeAggregate.total_singleton_of_ne (Ne.symm here), ite_self, add_zero]
      rfl

end MicroSteps

/-- Each step of a thread keeps the cells of its processor exact and leaves all others as they are. -/
theorem doProcess_keeps (valid : store.Valid) (knows : proc.thread.Knows schema store)
    (routed : ∀ task ∈ proc.all, mine task.cell) (exact : ∀ key, mine key → proc.Exact schema key (store.cell key))
    (ran : schema.doProcess store proc = some (after, next)) : Keeps schema mine store after proc next := by
  obtain ⟨tasks, thread, done⟩ := proc
  cases thread with
  | idle =>
      cases tasks with
      | nil => cases ran
      | cons task tasks =>
          obtain ⟨rfl, rfl⟩ := Prod.mk.inj (Option.some.inj ran)
          refine ⟨frame_rfl valid (by simp [InsertionProcessor.all, InsertionThread.task?]), trivial, ?_⟩
          intro key own
          exact (exact key own).of_same_sums rfl (fun _ member => absurd member List.not_mem_nil) fun _ _ _ => rfl
  | looking task => exact looking_keeps valid exact ran
  | missing task =>
      exact missing_keeps valid (routed task (by simp [InsertionProcessor.all, InsertionThread.task?])) knows exact ran
  | merging task aggs i => exact merging_keeps valid knows.1 exact ran
  | storing task aggs i loaded =>
      obtain ⟨found, bound, buffer, held, slot⟩ := knows
      exact storing_keeps valid found bound held slot exact ran

end MasstreeSchema

end JetStream
