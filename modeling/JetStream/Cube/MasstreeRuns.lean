import JetStream.Cube.MasstreeExact
import JetStream.Lib.FamilySum
import Mathlib.Data.List.TakeWhile

namespace JetStream

/-- Two tuples belong to one cell when their dimension values and their levels are equal. -/
def TupleInsertion.InCell (dimensions : List Dimension) (given : Tuple ℚ × List ℕ) (t : Tuple ℚ) (levels : List ℕ) :
    Prop :=
  (∀ dimension ∈ dimensions, dimension.value given.1 = dimension.value t) ∧ given.2 = levels

instance (dimensions : List Dimension) (given : Tuple ℚ × List ℕ) (t : Tuple ℚ) (levels : List ℕ) :
    Decidable (TupleInsertion.InCell dimensions given t levels) := inferInstanceAs (Decidable (_ ∧ _))

/-- No dimension value contains the character that ends a C string. -/
def NulFree (dimensions : List Dimension) (t : Tuple ℚ) : Prop :=
  ∀ dimension ∈ dimensions, ∀ s, dimension.value t = some (.string s) → Char.ofNat 0 ∉ s

/-- A tuple is regular when it conforms to the schema and its strings are C strings. -/
structure Regular (dimensions : List Dimension) (t : Tuple ℚ) (levels : List ℕ) : Prop where
  conforms : Conforms dimensions t levels
  nulFree : NulFree dimensions t

namespace MasstreeSchema

/-- The answer for a cell lists the dimensions of the query and the sums over the tuples of the cell. -/
def answer (schema : MasstreeSchema) (tuples : List (Tuple ℚ)) (t : Tuple ℚ) : Option (Tuple ℚ) :=
  if tuples = [] then none
  else some ⟨schema.dimensions.map (fun dimension => t.e.getD dimension.tupleIndex {}) ++
    schema.sums.map fun tupleIndex =>
      { iVal := some ((tuples.map fun (u : Tuple ℚ) => (u.e.getD tupleIndex {}).iVal.getD 0).sum.bmod (2 ^ 32)) }⟩

end MasstreeSchema

section Keys

variable {dimensions : List Dimension} {t : Tuple ℚ} {levels : List ℕ} {key : List Char}

theorem cStr_eq (nulFree : Char.ofNat 0 ∉ key) : cStr key = key := by
  rw [cStr, List.takeWhile_eq_self_iff]
  intro c member
  have different : c ≠ Char.ofNat 0 := fun same => nulFree (same ▸ member)
  simpa using different

/-- The key of a regular tuple is a C string when no double is printed. -/
theorem Regular.nul_notMem_key (regular : Regular dimensions t levels)
    (precise : ∀ dimension ∈ dimensions, dimension.type ≠ .double)
    (made : getDimensionKey dimensions t levels = some key) : Char.ofNat 0 ∉ key := by
  obtain ⟨⟨present, length⟩, nulFree⟩ := regular
  induction dimensions generalizing levels key with
  | nil =>
      obtain rfl := Option.some.inj made
      exact List.not_mem_nil
  | cons dimension dimensions ih =>
      cases levels with
      | nil => cases length
      | cons level levels =>
          rw [getDimensionKey, dimension.getKey_eq] at made
          obtain ⟨value, found⟩ := Option.isSome_iff_exists.mp (present dimension List.mem_cons_self)
          rw [found] at made
          simp only [Option.map_some, Option.bind_eq_bind, Option.bind_some, Option.bind_eq_some_iff,
            Option.some_inj] at made
          obtain ⟨rest, restMade, rfl⟩ := made
          have later := ih (fun other member => precise other (List.mem_cons_of_mem _ member)) restMade
            (fun other member => nulFree other (List.mem_cons_of_mem _ member))
            (fun other member => present other (List.mem_cons_of_mem _ member)) (Nat.succ.inj length)
          have printed : Char.ofNat 0 ∉ value.print := by
            rcases Dimension.value_cases found with ⟨-, s, rfl⟩ | ⟨double, -⟩ | ⟨-, i, rfl⟩
            · exact nulFree dimension List.mem_cons_self s found
            · exact absurd double (precise dimension List.mem_cons_self)
            · exact List.count_eq_zero.mp (Printing.count_decimal (by decide) (by decide) i)
          have number := Printing.not_mem_toDigits (c := Char.ofNat 0) (by decide) level
          simp only [List.mem_append, List.mem_cons, not_or]
          exact ⟨⟨printed, by decide, number⟩, by decide, later⟩

/-- In a separable schema the tree keeps the cells of regular tuples apart. -/
theorem Separable.cell_eq_iff (separable : Separable dimensions) {task : TupleInsertion}
    (regular : Regular dimensions t levels) (made : getDimensionKey dimensions t levels = some key)
    (taskRegular : Regular dimensions task.t task.levels)
    (taskMade : getDimensionKey dimensions task.t task.levels = some task.key) :
    task.cell = cStr key ↔ TupleInsertion.InCell dimensions (task.t, task.levels) t levels := by
  rw [TupleInsertion.cell, cStr_eq (regular.nul_notMem_key separable.1 made),
    cStr_eq (taskRegular.nul_notMem_key separable.1 taskMade), TupleInsertion.InCell,
    ← separable.faithful task.t t task.levels levels taskRegular.conforms regular.conforms, taskMade, made,
    Option.some_inj]

end Keys

/-- The queue is empty and the thread waits for a task. -/
def InsertionProcessor.Waits (proc : InsertionProcessor) : Prop := proc.processTasks = [] ∧ proc.thread = .idle

namespace MasstreeCube

variable {n : ℕ} [NeZero n] {schema : MasstreeSchema} {cube next : MasstreeCube n}

/-- This holds over every interleaving of the callers and the process threads. -/
structure Inv (schema : MasstreeSchema) (cube : MasstreeCube n) : Prop where
  valid : cube.store.Valid
  routed : ∀ i, ∀ task ∈ (cube.processors i).all, processorOf task.cell = i
  knows : ∀ i, (cube.processors i).thread.Knows schema cube.store
  exact : ∀ key, (cube.processors (processorOf key)).Exact schema key (cube.store.cell key)
  accounted : ∀ key, (cube.processors (processorOf key)).all.filter (fun task => task.cell = key) =
    cube.accepted.filter fun task => task.cell = key
  keyed : ∀ task ∈ cube.accepted, getDimensionKey schema.dimensions task.t task.levels = some task.key

theorem inv_new (schema : MasstreeSchema) : (new : MasstreeCube n).Inv schema where
  valid := CellStore.valid_empty
  routed := fun _ _ member => absurd member List.not_mem_nil
  knows := fun _ => trivial
  exact := fun _ _ member => absurd member List.not_mem_nil
  accounted := fun _ => rfl
  keyed := fun _ member => absurd member List.not_mem_nil

/-- What a thread knows depends on the cell of its task alone. -/
theorem knows_congr {thread : InsertionThread} {store after : CellStore} (knows : thread.Knows schema store)
    (same : ∀ task ∈ thread.task?, after.tree.get? task.cell = store.tree.get? task.cell ∧
      after.cell task.cell = store.cell task.cell) : thread.Knows schema after := by
  cases thread with
  | idle => trivial
  | looking task => trivial
  | missing task => exact (same task rfl).1.trans knows
  | merging task aggs i => exact ⟨(same task rfl).1.trans knows.1, knows.2⟩
  | storing task aggs i loaded =>
      obtain ⟨tree, cell⟩ := same task rfl
      obtain ⟨found, bound, buffer, held, slot⟩ := knows
      exact ⟨tree.trans found, bound, buffer, cell.trans held, slot⟩

theorem Inv.process (inv : cube.Inv schema) {t : Tuple ℚ} {levels : List ℕ}
    (stepped : cube.process schema t levels = some next) : next.Inv schema := by
  obtain ⟨key, made, stepped⟩ := Option.bind_eq_some_iff.mp stepped
  obtain rfl := Option.some.inj stepped
  generalize chosen : @processorOf n _ (TupleInsertion.cell ⟨t, levels, key⟩) = i
  have all (j : Fin n) : (Function.update cube.processors i { cube.processors i with
      processTasks := (cube.processors i).processTasks ++ [⟨t, levels, key⟩] } j).all =
      (cube.processors j).all ++ if j = i then [⟨t, levels, key⟩] else [] := by
    by_cases same : j = i
    · rw [same, Function.update_self, if_pos rfl, InsertionProcessor.all, InsertionProcessor.all, List.append_assoc,
        List.append_assoc, List.append_assoc]
    · rw [Function.update_of_ne same, if_neg same, List.append_nil]
  have thread (j : Fin n) : (Function.update cube.processors i { cube.processors i with
      processTasks := (cube.processors i).processTasks ++ [⟨t, levels, key⟩] } j).thread =
      (cube.processors j).thread := by
    by_cases same : j = i
    · rw [same, Function.update_self]
    · rw [Function.update_of_ne same]
  have done (j : Fin n) : (Function.update cube.processors i { cube.processors i with
      processTasks := (cube.processors i).processTasks ++ [⟨t, levels, key⟩] } j).done = (cube.processors j).done := by
    by_cases same : j = i
    · rw [same, Function.update_self]
    · rw [Function.update_of_ne same]
  constructor
  · exact inv.valid
  · intro j task member
    rw [all, List.mem_append] at member
    rcases member with old | new
    · exact inv.routed j task old
    · split_ifs at new with same
      · rw [List.mem_singleton.mp new, same]
        exact chosen
      · exact absurd new List.not_mem_nil
  · intro j
    rw [thread]
    exact inv.knows j
  · intro other
    refine (inv.exact other).of_same_sums (done _) ?_ ?_
    · intro task member
      rw [thread]
      exact member
    · intro j aggregate _
      rw [thread]
  · intro other
    rw [all, List.filter_append, inv.accounted, List.filter_append]
    congr 1
    by_cases here : TupleInsertion.cell ⟨t, levels, key⟩ = other
    · rw [if_pos (here ▸ chosen)]
    · split_ifs <;> simp [here]
  · intro task member
    rcases List.mem_append.mp member with old | new
    · exact inv.keyed task old
    · rw [List.mem_singleton.mp new]
      exact made

theorem Inv.runProcess (inv : cube.Inv schema) {i : Fin n} (stepped : cube.runProcess schema i = some next) :
    next.Inv schema := by
  obtain ⟨⟨store, proc⟩, ran, stepped⟩ := Option.bind_eq_some_iff.mp stepped
  obtain rfl := Option.some.inj stepped
  obtain ⟨frame, knows, exact⟩ := @MasstreeSchema.doProcess_keeps _ _ _ _ _ (fun key => processorOf key = i) inv.valid
    (inv.knows i) (inv.routed i) (fun key own => own ▸ inv.exact key) ran
  have all (j : Fin n) : (Function.update cube.processors i proc j).all = (cube.processors j).all := by
    by_cases same : j = i
    · rw [same, Function.update_self, frame.all]
    · rw [Function.update_of_ne same]
  have apart {key : List Char} (other : processorOf key ≠ i) : ∀ task ∈ (cube.processors i).all, task.cell ≠ key := by
    rintro task member rfl
    exact other (inv.routed i task member)
  constructor
  · exact frame.valid
  · intro j task member
    exact inv.routed j task (all j ▸ member)
  · intro j
    by_cases same : j = i
    · rw [same]
      dsimp only
      rwa [Function.update_self]
    · dsimp only
      rw [Function.update_of_ne same]
      refine knows_congr (inv.knows j) fun task running => frame.others task.cell (apart ?_)
      have listed : task ∈ (cube.processors j).all := by
        simp [InsertionProcessor.all, Option.mem_def.mp running]
      rw [inv.routed j task listed]
      exact same
  · intro key
    by_cases own : processorOf key = i
    · dsimp only
      rw [own, Function.update_self]
      exact exact key own
    · dsimp only
      rw [Function.update_of_ne own, (frame.others key (apart own)).2]
      exact inv.exact key
  · intro key
    dsimp only
    rw [all]
    exact inv.accounted key
  · exact inv.keyed

theorem Inv.step (inv : cube.Inv schema) {event : MasstreeEvent n} (stepped : cube.step schema event = some next) :
    next.Inv schema := by
  cases event with
  | process t levels => exact inv.process stepped
  | runProcess i => exact inv.runProcess stepped

/-- These tuples were given to the cube with their levels. -/
def inputs (events : List (MasstreeEvent n)) : List (Tuple ℚ × List ℕ) :=
  events.filterMap fun
    | .process t levels => some (t, levels)
    | .runProcess _ => none

theorem Inv.run {events : List (MasstreeEvent n)} (inv : cube.Inv schema)
    (ran : (system schema).runFrom cube events = some next) :
    next.Inv schema ∧ next.accepted.map (fun task => (task.t, task.levels)) =
      cube.accepted.map (fun task => (task.t, task.levels)) ++ inputs events := by
  induction events generalizing cube with
  | nil =>
      obtain rfl := Option.some.inj ran
      exact ⟨inv, (List.append_nil _).symm⟩
  | cons event events ih =>
      rw [EventSystem.runFrom_cons, Option.bind_eq_some_iff] at ran
      obtain ⟨middle, stepped, rest⟩ := ran
      obtain ⟨final, all⟩ := ih (inv.step stepped) rest
      refine ⟨final, all.trans ?_⟩
      cases event with
      | process t levels =>
          obtain ⟨key, made, stepped⟩ := Option.bind_eq_some_iff.mp stepped
          obtain rfl := Option.some.inj stepped
          rw [List.map_append, List.append_assoc]
          rfl
      | runProcess i =>
          obtain ⟨_, -, stepped⟩ := Option.bind_eq_some_iff.mp stepped
          obtain rfl := Option.some.inj stepped
          rfl

section Answer

/-- All queues are empty and all process threads wait. -/
def Drained (cube : MasstreeCube n) : Prop := ∀ i, (cube.processors i).Waits

variable {t : Tuple ℚ} {levels : List ℕ} {key : List Char}

omit [NeZero n] in
theorem Drained.all_eq (drained : cube.Drained) (i : Fin n) :
    (cube.processors i).all = (cube.processors i).done := by
  rw [InsertionProcessor.all, (drained i).1, (drained i).2]
  simp [InsertionThread.task?]

/-- A drained cube holds the totals of all tuples that it has accepted for a cell. -/
theorem Inv.cell_drained (inv : cube.Inv schema) (drained : cube.Drained) (key : List Char) :
    (∀ task ∈ cube.accepted, task.cell ≠ key) ∧ cube.store.tree.get? key = none ∨
      (∃ task ∈ cube.accepted, task.cell = key) ∧ ∃ aggs buffer, cube.store.tree.get? key = some aggs ∧
        cube.store.heap[aggs]? = some buffer ∧ buffer.sz = 8 * schema.aggregates.length + 4 ∧
        ∀ (j : ℕ) (aggregate : MasstreeAggregate), schema.aggregates[j]? = some aggregate →
          buffer.data[j]? = some (aggregate.total cube.accepted key) := by
  have exact := inv.exact key
  have accounted := inv.accounted key
  rw [drained.all_eq] at accounted
  have members (task : TupleInsertion) (here : task.cell = key) :
      task ∈ (cube.processors (processorOf key)).done ↔ task ∈ cube.accepted := by
    have same := congrArg (task ∈ ·) accounted
    simpa [List.mem_filter, here] using same
  cases found : cube.store.tree.get? key with
  | none =>
      rw [CellStore.cell_eq_none found] at exact
      refine Or.inl ⟨fun task member here => ?_, rfl⟩
      exact exact task ((members task here).mpr member) here
  | some aggs =>
      obtain ⟨buffer, read, held⟩ := inv.valid.exists_cell found
      rw [held] at exact
      obtain ⟨sz, -, ⟨task, member, here⟩, sums⟩ := exact
      rw [(drained _).2, InsertionThread.task?, Option.toList_none, List.append_nil] at member
      refine Or.inr ⟨⟨task, (members task here).mp member, here⟩, aggs, buffer, rfl, read, sz, ?_⟩
      intro j aggregate listed
      rw [sums j aggregate listed, (drained _).2, MasstreeAggregate.total, groupTotal, accounted]
      exact congrArg some (add_zero _)

/-- The loop over the aggregates stays in the buffer. -/
theorem extendWithAggs_eq {buffer : AggregateBuffer} {aggregates : List MasstreeAggregate} {i : ℕ}
    {total : MasstreeAggregate → ℤ} (room : 8 * (i + aggregates.length) < buffer.sz)
    (held : ∀ j aggregate, aggregates[j]? = some aggregate → buffer.data[i + j]? = some (total aggregate)) :
    MasstreeSchema.extendWithAggs buffer aggregates i =
      some (aggregates.flatMap fun aggregate => aggregate.addToTuple (total aggregate)) := by
  induction aggregates generalizing i with
  | nil => rfl
  | cons aggregate rest ih =>
      rw [List.length_cons] at room
      have inside : buffer.overruns i = false := by
        rw [AggregateBuffer.overruns, decide_eq_false_iff_not]
        omega
      have here : buffer.data[i]? = some (total aggregate) := held 0 aggregate rfl
      have later := @ih (i + 1) (by omega) fun j other listed => by
        rw [Nat.add_right_comm]
        exact held (j + 1) other listed
      rw [MasstreeSchema.extendWithAggs, here, later]
      simp [inside]

theorem extendWithDimsFrom_eq (conforms : Conforms schema.dimensions t levels) :
    schema.extendWithDimsFrom t = some (schema.dimensions.map fun dimension => t.e.getD dimension.tupleIndex {}) := by
  have inside : ∀ dimension ∈ schema.dimensions,
      t.e[dimension.tupleIndex]? = some (t.e.getD dimension.tupleIndex {}) := by
    intro dimension member
    obtain ⟨value, found⟩ := Option.isSome_iff_exists.mp (conforms.values dimension member)
    obtain ⟨e, read, -⟩ := Option.bind_eq_some_iff.mp found
    rw [read, List.getD_eq_getElem?_getD, read, Option.getD_some]
  rw [MasstreeSchema.extendWithDimsFrom]
  generalize schema.dimensions = dimensions at inside
  induction dimensions with
  | nil => rfl
  | cons dimension rest ih =>
      rw [List.mapM_cons, inside dimension List.mem_cons_self,
        ih fun other member => inside other (List.mem_cons_of_mem _ member)]
      rfl

theorem amount_sum (tupleIndex : ℕ) (task : TupleInsertion) :
    (MasstreeAggregate.sum tupleIndex).amount task = (task.t.e.getD tupleIndex {}).iVal.getD 0 := by
  rw [MasstreeAggregate.amount, MasstreeAggregate.read, List.getD_eq_getElem?_getD]
  cases task.t.e[tupleIndex]? <;> rfl

/-- The version adds no element to the answer. -/
theorem aggregateElements_eq (schema : MasstreeSchema) (tasks : List TupleInsertion) (key : List Char) :
    (schema.aggregates.flatMap fun aggregate => aggregate.addToTuple (aggregate.total tasks key)) =
      schema.sums.map fun tupleIndex =>
        { iVal := some ((((tasks.filter fun task => task.cell = key).map TupleInsertion.t).map fun (u : Tuple ℚ) =>
          (u.e.getD tupleIndex {}).iVal.getD 0).sum.bmod (2 ^ 32)) } := by
  have version : (MasstreeAggregate.version.addToTuple (MasstreeAggregate.version.total tasks key)) = [] := rfl
  rw [MasstreeSchema.aggregates, List.flatMap_append, List.flatMap_singleton, version, List.append_nil,
    List.flatMap_map, List.map_eq_flatMap]
  congr 1
  funext tupleIndex
  rw [MasstreeAggregate.addToTuple, MasstreeAggregate.total, groupTotal, List.map_map]
  congr 6
  funext task
  exact amount_sum tupleIndex task

/-- Whatever the order of the threads was, the cells of a drained cube hold exactly the sums of their tuples. -/
theorem getCellValue_exact (schema : MasstreeSchema) (separable : Separable schema.dimensions)
    {events : List (MasstreeEvent n)} {cube : MasstreeCube n} (ran : (system schema).runFrom new events = some cube)
    (drained : cube.Drained) (regular : ∀ given ∈ inputs events, Regular schema.dimensions given.1 given.2)
    {t : Tuple ℚ} {levels : List ℕ} (queried : Regular schema.dimensions t levels) :
    cube.getCellValue schema t levels = some (schema.answer
      (((inputs events).filter fun given => TupleInsertion.InCell schema.dimensions given t levels).map Prod.fst) t) := by
  obtain ⟨inv, all⟩ := (inv_new schema).run ran
  rw [show (new : MasstreeCube n).accepted = [] from rfl, List.map_nil, List.nil_append] at all
  obtain ⟨values, -, made⟩ := getDimensionKey_eq queried.conforms
  generalize Printing.delimited '|' (keyFields values levels) = key at made
  have cells : ∀ task ∈ cube.accepted,
      (task.cell = cStr key ↔ TupleInsertion.InCell schema.dimensions (task.t, task.levels) t levels) := by
    intro task member
    have given : (task.t, task.levels) ∈ inputs events := all ▸ List.mem_map_of_mem member
    exact separable.cell_eq_iff queried made (regular _ given) (inv.keyed task member)
  have tuples : ((inputs events).filter fun given => TupleInsertion.InCell schema.dimensions given t levels).map Prod.fst =
      (cube.accepted.filter fun task => task.cell = cStr key).map TupleInsertion.t := by
    rw [← all, List.filter_map, List.map_map]
    congr 1
    apply List.filter_congr
    intro task member
    exact decide_eq_decide.mpr (cells task member).symm
  rw [tuples, getCellValue, made, Option.bind_eq_bind, Option.bind_some]
  rcases inv.cell_drained drained (cStr key) with ⟨none, absent⟩ | ⟨⟨task, member, here⟩, aggs, buffer, found, read, sz, sums⟩
  · have empty : (cube.accepted.filter fun task => task.cell = cStr key) = [] := by
      rw [List.filter_eq_nil_iff]
      intro task member
      simpa using none task member
    rw [absent, empty]
    rfl
  · have present : (cube.accepted.filter fun task => task.cell = cStr key).map TupleInsertion.t ≠ [] := by
      rw [Ne, List.map_eq_nil_iff]
      exact List.ne_nil_of_mem (List.mem_filter.mpr ⟨member, by simpa using here⟩)
    have loop := @extendWithAggs_eq buffer schema.aggregates 0
      (fun aggregate => aggregate.total cube.accepted (cStr key)) (by omega) (by simpa using sums)
    simp only [found, read, Option.bind_eq_bind, Option.bind_some, extendWithDimsFrom_eq queried.conforms, loop]
    rw [MasstreeSchema.answer, if_neg present, aggregateElements_eq]

/-- This schema counts the requests for each address and code. -/
def requestSchema : MasstreeSchema := ⟨[⟨.string, 0⟩, ⟨.int32, 1⟩], [2]⟩

def request (url : Char) (code count : ℤ) : Tuple ℚ :=
  ⟨[{ sVal := some [url] }, { iVal := some code }, { iVal := some count }]⟩

def requests : List (MasstreeEvent 2) :=
  [.process (request 'a' 200 3) [1, 1], .process (request 'b' 404 5) [1, 1], .process (request 'a' 200 4) [1, 1]]

/-- One thread inserts two tuples of one cell while the other thread inserts a third tuple. -/
def requestEvents : List (MasstreeEvent 2) :=
  requests ++ (List.replicate 7 ((List.finRange 2).map .runProcess)).flatten ++
    List.replicate 6 (.runProcess ⟨0, Nat.two_pos⟩)

theorem regular_request {url : Char} (text : url ≠ Char.ofNat 0) (code count : ℤ) :
    Regular requestSchema.dimensions (request url code count) [1, 1] := by
  have dims : requestSchema.dimensions = [⟨.string, 0⟩, ⟨.int32, 1⟩] := rfl
  refine ⟨⟨?_, rfl⟩, ?_⟩
  · rw [dims]
    simp [request, Dimension.value]
  · rw [NulFree, dims]
    simp [request, Dimension.value, text.symm]

theorem getCellValue_exact_requests :
    ∃ cube, (system requestSchema).runFrom new requestEvents = some cube ∧
      cube.getCellValue requestSchema (request 'a' 200 0) [1, 1] = some (some (request 'a' 200 7)) := by
  have inputsEq : inputs requestEvents =
      [(request 'a' 200 3, [1, 1]), (request 'b' 404 5, [1, 1]), (request 'a' 200 4, [1, 1])] := rfl
  have ran : ∃ cube, (system requestSchema).runFrom new requestEvents = some cube ∧ cube.Drained := by
    refine ⟨_, rfl, ?_⟩
    intro i
    match i with
    | 0 => exact ⟨rfl, rfl⟩
    | 1 => exact ⟨rfl, rfl⟩
  obtain ⟨cube, ran, drained⟩ := ran
  refine ⟨cube, ran, (getCellValue_exact requestSchema ⟨by decide, by decide⟩ ran drained ?_ ?_).trans ?_⟩
  · intro given member
    rw [inputsEq] at member
    simp only [List.mem_cons, List.not_mem_nil, or_false] at member
    rcases member with rfl | rfl | rfl
    · exact regular_request (by decide) 200 3
    · exact regular_request (by decide) 404 5
    · exact regular_request (by decide) 200 4
  · exact regular_request (by decide) 200 0
  · rw [inputsEq]
    decide

end Answer

section Progress

/-- The tuple has an `int`, or none, in the element of each sum. -/
def HasSums (schema : MasstreeSchema) (t : Tuple ℚ) : Prop :=
  ∀ tupleIndex ∈ schema.sums, ∃ e, t.e[tupleIndex]? = some e ∧ ∀ value ∈ e.iVal, -2 ^ 31 ≤ value ∧ value < 2 ^ 31

theorem HasSums.read {t : Tuple ℚ} (has : HasSums schema t) {aggregate : MasstreeAggregate}
    (listed : aggregate ∈ schema.aggregates) :
    ∃ amount, aggregate.read t = some amount ∧ -2 ^ 31 ≤ amount ∧ amount ≤ 2 ^ 31 - 1 := by
  cases aggregate with
  | version => exact ⟨0, rfl, by omega, by omega⟩
  | sum tupleIndex =>
      have member : tupleIndex ∈ schema.sums := by simpa [MasstreeSchema.aggregates] using listed
      obtain ⟨e, read, bounds⟩ := has tupleIndex member
      refine ⟨e.iVal.getD 0, by rw [MasstreeAggregate.read, read, Option.map_some], ?_⟩
      cases held : e.iVal with
      | none => exact ⟨by decide, by decide⟩
      | some value =>
          obtain ⟨lower, upper⟩ := bounds value held
          exact ⟨lower, Int.le_sub_one_of_lt upper⟩

/-- A sum of few amounts is bounded by their number. -/
theorem total_bounds {aggregate : MasstreeAggregate} {tasks : List TupleInsertion} {key : List Char}
    (listed : aggregate ∈ schema.aggregates)
    (has : ∀ task ∈ tasks.filter (fun task => task.cell = key), HasSums schema task.t) :
    -2 ^ 31 * ((tasks.filter fun task => task.cell = key).length : ℤ) ≤ aggregate.total tasks key ∧
      aggregate.total tasks key ≤ (2 ^ 31 - 1) * ((tasks.filter fun task => task.cell = key).length : ℤ) := by
  rw [MasstreeAggregate.total, groupTotal]
  generalize tasks.filter (fun task => task.cell = key) = mine at has
  have each : ∀ gain ∈ mine.map aggregate.amount, -2 ^ 31 ≤ gain ∧ gain ≤ 2 ^ 31 - 1 := by
    intro gain member
    obtain ⟨task, inside, rfl⟩ := List.mem_map.mp member
    obtain ⟨amount, read, bounds⟩ := (has task inside).read listed
    rwa [MasstreeAggregate.amount, read, Option.getD_some]
  have lower := List.card_nsmul_le_sum _ _ fun gain member => (each gain member).1
  have upper := List.sum_le_card_nsmul _ _ fun gain member => (each gain member).2
  rw [List.length_map, nsmul_eq_mul, mul_comm] at lower upper
  exact ⟨lower, upper⟩

/-- The steps that the thread has left for its task. -/
def threadWork (schema : MasstreeSchema) : InsertionThread → ℕ
  | .idle => 0
  | .looking _ => 2 * schema.aggregates.length + 3
  | .missing _ => 2 * schema.aggregates.length + 2
  | .merging _ _ i => 2 * (schema.aggregates.length - i) + 1
  | .storing _ _ i _ => 2 * (schema.aggregates.length - i)

/-- A waiting task takes more steps than a task that was started. -/
def processorWork (schema : MasstreeSchema) (proc : InsertionProcessor) : ℕ :=
  proc.processTasks.length * (2 * schema.aggregates.length + 4) + threadWork schema proc.thread

def work (schema : MasstreeSchema) (cube : MasstreeCube n) : ℕ := ∑ i, processorWork schema (cube.processors i)

theorem not_overruns {buffer : AggregateBuffer} {i : ℕ} (sz : buffer.sz = 8 * schema.aggregates.length + 4)
    (inside : i < schema.aggregates.length) : buffer.overruns i = false := by
  rw [AggregateBuffer.overruns, decide_eq_false_iff_not, sz]
  omega

/-- Each step leaves less work. -/
theorem processorWork_lt {store after : CellStore} {proc next : InsertionProcessor}
    (knows : proc.thread.Knows schema store) (ran : schema.doProcess store proc = some (after, next)) :
    processorWork schema next < processorWork schema proc := by
  obtain ⟨tasks, thread, done⟩ := proc
  cases thread with
  | idle =>
      cases tasks with
      | nil => cases ran
      | cons task tasks =>
          obtain ⟨-, rfl⟩ := Prod.mk.inj (Option.some.inj ran)
          simp only [processorWork, threadWork, List.length_cons, Nat.succ_mul]
          omega
  | looking task =>
      rw [MasstreeSchema.doProcess] at ran
      dsimp only at ran
      split at ran <;> obtain ⟨-, rfl⟩ := Prod.mk.inj (Option.some.inj ran) <;> simp only [processorWork, threadWork] <;>
        omega
  | missing task =>
      obtain ⟨-, rfl⟩ := Prod.mk.inj (Option.some.inj ran)
      simp only [processorWork, threadWork]
      omega
  | merging task aggs i =>
      rw [MasstreeSchema.doProcess] at ran
      dsimp only at ran
      split at ran
      · obtain ⟨-, rfl⟩ := Prod.mk.inj (Option.some.inj ran)
        simp only [processorWork, threadWork]
        omega
      · simp only [Option.bind_eq_bind, Option.bind_eq_some_iff] at ran
        obtain ⟨_, -, _, -, ran⟩ := ran
        obtain ⟨-, rfl⟩ := Prod.mk.inj (Option.some.inj ran)
        simp only [processorWork, threadWork]
        omega
      · rename_i listed
        have inside := (List.getElem?_eq_some_iff.mp listed).1
        simp only [Option.bind_eq_bind, Option.bind_eq_some_iff, Option.ite_none_left_eq_some] at ran
        obtain ⟨_, -, -, ran⟩ := ran
        obtain ⟨-, rfl⟩ := Prod.mk.inj (Option.some.inj ran)
        simp only [processorWork, threadWork]
        omega
  | storing task aggs i loaded =>
      have inside := knows.2.1
      simp only [MasstreeSchema.doProcess, Option.bind_eq_bind, Option.bind_eq_some_iff,
        Option.ite_none_left_eq_some] at ran
      obtain ⟨_, -, _, -, _, -, _, -, -, ran⟩ := ran
      obtain ⟨-, rfl⟩ := Prod.mk.inj (Option.some.inj ran)
      simp only [processorWork, threadWork]
      omega

/-- A thread that has work takes its next step: its buffer does not end early, and its sum does not overflow. -/
theorem doProcess_isSome {store : CellStore} {proc : InsertionProcessor} {accepted : List TupleInsertion}
    (valid : store.Valid) (knows : proc.thread.Knows schema store)
    (exact : ∀ task ∈ proc.thread.task?, proc.Exact schema task.cell (store.cell task.cell))
    (few : accepted.length < 2 ^ 32) (has : ∀ task ∈ accepted, HasSums schema task.t)
    (current : ∀ task ∈ proc.thread.task?, task ∈ accepted)
    (counted : ∀ task ∈ proc.thread.task?, (proc.done.filter fun other => other.cell = task.cell).Sublist accepted)
    (busy : ¬ proc.Waits) : (schema.doProcess store proc).isSome := by
  obtain ⟨tasks, thread, done⟩ := proc
  cases thread with
  | idle =>
      cases tasks with
      | nil => exact absurd ⟨rfl, rfl⟩ busy
      | cons task tasks => rfl
  | looking task =>
      rw [MasstreeSchema.doProcess]
      dsimp only
      split <;> rfl
  | missing task => rfl
  | merging task aggs i =>
      obtain ⟨found, bound⟩ := knows
      obtain ⟨buffer, read, held⟩ := valid.exists_cell found
      have cell := exact task rfl
      rw [held] at cell
      obtain ⟨sz, length, -, -⟩ := cell
      rw [MasstreeSchema.doProcess]
      dsimp only
      split
      · rfl
      · rename_i listed
        have room : i < buffer.data.length := length ▸ (List.getElem?_eq_some_iff.mp listed).1
        rw [read, Option.bind_eq_bind, Option.bind_some, List.getElem?_eq_getElem room]
        rfl
      · rename_i listed
        rw [read, Option.bind_eq_bind, Option.bind_some, not_overruns sz (List.getElem?_eq_some_iff.mp listed).1]
        rfl
  | storing task aggs i loaded =>
      obtain ⟨found, inside, buffer, held, slot⟩ := knows
      have read : store.heap[aggs]? = some buffer := by rw [← CellStore.cell_eq found, held]
      have cell := exact task rfl
      rw [held] at cell
      obtain ⟨sz, -, -, sums⟩ := cell
      have listed := List.getElem?_eq_getElem inside
      have sum := (sums i _ listed).symm.trans slot
      have sublist := counted task rfl
      obtain ⟨lower, upper⟩ := total_bounds (List.getElem_mem inside) fun other member => has other (sublist.subset member)
      obtain ⟨amount, reads, least, most⟩ := (has task (current task rfl)).read (List.getElem_mem inside)
      have count := sublist.length_le
      have unchanged : (InsertionThread.storing task aggs i loaded).added schema.aggregates[i] i task.cell = 0 :=
        if_neg (lt_irrefl i)
      have same : loaded = schema.aggregates[i].total done task.cell := by
        rw [unchanged, add_zero] at sum
        exact (Option.some.inj sum).symm
      dsimp only at lower upper count
      have added : addInt64 loaded amount = some (loaded + amount) := by
        rw [addInt64, if_pos]
        omega
      simp only [MasstreeSchema.doProcess, listed, reads, added, read, Option.bind_eq_bind, Option.bind_some,
        not_overruns sz inside]
      rfl

theorem Inv.runProcess_isSome (inv : cube.Inv schema) (few : cube.accepted.length < 2 ^ 32)
    (has : ∀ task ∈ cube.accepted, HasSums schema task.t) {i : Fin n} (busy : ¬ (cube.processors i).Waits) :
    (cube.runProcess schema i).isSome := by
  have own (task : TupleInsertion) (running : task ∈ (cube.processors i).thread.task?) :
      processorOf task.cell = i ∧ task ∈ (cube.processors i).all := by
    have listed : task ∈ (cube.processors i).all := by simp [InsertionProcessor.all, Option.mem_def.mp running]
    exact ⟨inv.routed i task listed, listed⟩
  have counted (task : TupleInsertion) (running : task ∈ (cube.processors i).thread.task?) :
      ((cube.processors i).all.filter fun other => other.cell = task.cell).Sublist cube.accepted := by
    have accounted := inv.accounted task.cell
    rw [(own task running).1] at accounted
    rw [accounted]
    exact List.filter_sublist
  have some := doProcess_isSome inv.valid (inv.knows i)
    (fun task running => (own task running).1 ▸ inv.exact task.cell) few has
    (fun task running => (counted task running).subset (List.mem_filter.mpr ⟨(own task running).2, by simp⟩))
    (fun task running => by
      refine List.Sublist.trans ?_ (counted task running)
      rw [InsertionProcessor.all, List.append_assoc, List.filter_append]
      exact List.sublist_append_left _ _) busy
  obtain ⟨⟨after, next⟩, ran⟩ := Option.isSome_iff_exists.mp some
  rw [MasstreeCube.runProcess, ran]
  rfl

theorem Inv.work_lt (inv : cube.Inv schema) {i : Fin n} (stepped : cube.runProcess schema i = some next) :
    next.work schema < cube.work schema := by
  obtain ⟨⟨store, proc⟩, ran, stepped⟩ := Option.bind_eq_some_iff.mp stepped
  obtain rfl := Option.some.inj stepped
  have less := processorWork_lt (inv.knows i) ran
  have sums := sum_update_member (fun _ (proc : InsertionProcessor) => processorWork schema proc) cube.processors i proc
  rw [work, work]
  dsimp only at sums ⊢
  omega

/-- The work bounds the number of steps. -/
theorem Inv.length_schedule (inv : cube.Inv schema) {schedule : List (Fin n)}
    (ran : (system schema).runFrom cube (schedule.map .runProcess) = some next) :
    schedule.length + next.work schema ≤ cube.work schema := by
  induction schedule generalizing cube with
  | nil =>
      obtain rfl := Option.some.inj ran
      exact (Nat.zero_add _).le
  | cons i schedule ih =>
      rw [List.map_cons, EventSystem.runFrom_cons, Option.bind_eq_some_iff] at ran
      obtain ⟨middle, stepped, rest⟩ := ran
      have less := inv.work_lt stepped
      have later := ih (inv.runProcess stepped) rest
      rw [List.length_cons]
      omega

/-- From every reachable state each schedule of the process threads ends, and it can stop only when the cube is
drained. -/
theorem insertions_end (schema : MasstreeSchema) {events : List (MasstreeEvent n)} {cube : MasstreeCube n}
    (ran : (system schema).runFrom new events = some cube) (few : (inputs events).length < 2 ^ 32)
    (has : ∀ given ∈ inputs events, HasSums schema given.1) (schedule : List (Fin n)) {final : MasstreeCube n}
    (scheduled : (system schema).runFrom cube (schedule.map .runProcess) = some final) :
    schedule.length + final.work schema ≤ cube.work schema ∧
      ∀ i, (final.processors i).Waits ∨ (final.runProcess schema i).isSome := by
  obtain ⟨inv, all⟩ := (inv_new schema).run ran
  rw [show (new : MasstreeCube n).accepted = [] from rfl, List.map_nil, List.nil_append] at all
  obtain ⟨finalInv, finalAll⟩ := inv.run scheduled
  have silent : inputs (schedule.map (MasstreeEvent.runProcess (n := n))) = [] := by
    simp [inputs, List.filterMap_map]
  rw [silent, List.append_nil, all] at finalAll
  refine ⟨inv.length_schedule scheduled, fun i => ?_⟩
  by_cases busy : (final.processors i).Waits
  · exact Or.inl busy
  · refine Or.inr (finalInv.runProcess_isSome ?_ ?_ busy)
    · rwa [← List.length_map (f := fun task : TupleInsertion => (task.t, task.levels)), finalAll]
    · intro task member
      exact has (task.t, task.levels) (finalAll ▸ List.mem_map_of_mem member)

theorem insertions_end_requests :
    ∃ cube final, (system requestSchema).runFrom new requests = some cube ∧
      (system requestSchema).runFrom cube ([1, 0, 1].map .runProcess) = some final ∧
      3 + final.work requestSchema ≤ cube.work requestSchema ∧
      ∀ i, (final.processors i).Waits ∨ (final.runProcess requestSchema i).isSome := by
  have ran : ∃ cube final, (system requestSchema).runFrom new requests = some cube ∧
      (system requestSchema).runFrom cube ([1, 0, 1].map .runProcess) = some final := ⟨_, _, rfl, rfl⟩
  obtain ⟨cube, final, ran, scheduled⟩ := ran
  refine ⟨cube, final, ran, scheduled, insertions_end requestSchema ran (by decide) ?_ [1, 0, 1] scheduled⟩
  have inputsEq : inputs requests =
      [(request 'a' 200 3, [1, 1]), (request 'b' 404 5, [1, 1]), (request 'a' 200 4, [1, 1])] := rfl
  intro given member tupleIndex listed
  rw [inputsEq] at member
  obtain rfl : tupleIndex = 2 := List.mem_singleton.mp listed
  simp only [List.mem_cons, List.not_mem_nil, or_false] at member
  rcases member with rfl | rfl | rfl <;> exact ⟨_, rfl, by decide⟩

end Progress

end MasstreeCube

end JetStream
