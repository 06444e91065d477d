import JetStream.Cube.ProcessingInfo
import JetStream.Cube.SaveTupleBatch

namespace JetStream

/-- The inserted rows and the issued callbacks are kept beside the table that they leave. -/
structure SavedInfo (I T V R : Type) where
  table : CubeTable V R
  inserts : List (Cell V × List R)
  callbacks : List (SubscriberCallback I T)

namespace MysqlCube

variable {I K T V R : Type} [LinearOrder K] [DecidableEq V] (cube : MysqlCube T V R) (subscribers : I → Bool)
  (config : BatchConfig)

omit [LinearOrder K] in
/-- A tuple that is not batched is saved without its levels, so it is saved at the leaves. -/
def saveInfo (state : SavedInfo I T V R) (tpi : ProcessingInfo I K T) : Option (SavedInfo I T V R) := do
  let cell ← cube.bindCell tpi.t cube.leafLevels
  let row ← cube.bindRow tpi.t
  let saved ← cube.saveLeafTuple state.table tpi.t tpi.needNewValue tpi.needOldValue
  some ⟨saved.table, state.inserts ++ [(cell, row)],
    state.callbacks ++ tpi.saveCallback subscribers saved.newTuple saved.oldTuple⟩

omit [LinearOrder K] in
/-- One round of a flush saves its tuples at their own levels and then issues their callbacks. -/
def flushRound (state : SavedInfo I T V R) (infos : List (ProcessingInfo I K T)) : Option (SavedInfo I T V R) := do
  let saved ← cube.saveTupleBatch config state.table
    (infos.map fun tpi => ⟨tpi.t, tpi.levels, tpi.needNewValue, tpi.needOldValue⟩)
    (List.replicate infos.length none) (List.replicate infos.length none)
  some ⟨saved.table, state.inserts ++ saved.inserts.flatMap Chunk.rows,
    state.callbacks ++ (infos.zip (saved.newTupleStore.zip saved.oldTupleStore)).flatMap fun stored =>
      stored.1.saveCallback subscribers stored.2.1 stored.2.2⟩

/-- The tuples of the batch are flushed in the order of their keys, and a round has at most as many as an `int` counts. -/
def flush (state : SavedInfo I T V R) (batch : TupleBatch K (ProcessingInfo I K T)) : Option (SavedInfo I T V R) := do
  let flushed ← (⟨batch, []⟩ : BatchState K (ProcessingInfo I K T)).flush
  ((flushed.saved.flatMap TupleProcessingInfo.inputs).toChunks intMax).foldlM (cube.flushRound subscribers config) state

/-- The tuple is inserted into an empty batch with the flag, which saves it at once or keeps it for the flush. -/
def insertAndFlush (table : CubeTable V R) (tpi : ProcessingInfo I K T) (batch : Bool) :
    Option (SavedInfo I T V R) := do
  let inserted := (BatchState.new : BatchState K (ProcessingInfo I K T)).insertTuple ⟨tpi.key, [tpi]⟩ batch
  let direct ← (inserted.saved.flatMap TupleProcessingInfo.inputs).foldlM (cube.saveInfo subscribers) ⟨table, [], []⟩
  cube.flush subscribers config direct inserted.batch

/-- The tuple has a value for every dimension and every aggregate. -/
def Binds (t : T) : Prop :=
  (∀ dimension ∈ cube.dimensions, (dimension.setValueForInsertTuple t).isSome) ∧
    ∀ aggregate ∈ cube.aggregates, (aggregate.setValueForInsertTuple t).isSome

section Paths

variable {cube subscribers config} {table : CubeTable V R} {tpi : ProcessingInfo I K T}

/-- A direct save leaves nothing for the flush. -/
theorem insertAndFlush_false :
    cube.insertAndFlush subscribers config table tpi false = cube.saveInfo subscribers ⟨table, [], []⟩ tpi := by
  have empty : List.toChunks intMax ([] : List (ProcessingInfo I K T)) = [] := rfl
  rw [insertAndFlush]
  cases saved : cube.saveInfo subscribers ⟨table, [], []⟩ tpi with
  | none => simp [BatchState.insertTuple, BatchState.saveTuple, BatchState.new, saved]
  | some state =>
      simp [BatchState.insertTuple, BatchState.saveTuple, BatchState.new, saved, flush, BatchState.flush,
        TupleBatch.new, OrderedMap.empty, empty]

/-- A batched save is one round with one tuple. -/
theorem insertAndFlush_true :
    cube.insertAndFlush subscribers config table tpi true =
      cube.flushRound subscribers config ⟨table, [], []⟩ [tpi] := by
  have single : List.toChunks intMax [tpi] = [[tpi]] := rfl
  simp [insertAndFlush, BatchState.insertTuple, BatchState.new, flush, BatchState.flush, TupleBatch.batchAdd,
    TupleBatch.new, OrderedMap.empty, OrderedMap.set, OrderedMap.insertEntry, single]

end Paths

section Bind

variable {cube} {t : T} {levels : List ℕ}

/-- A list is bound exactly when each of its items is. -/
theorem mapM_isSome_iff {α β : Type} {bind : α → Option β} {items : List α} :
    (items.mapM bind).isSome ↔ ∀ item ∈ items, (bind item).isSome := by
  induction items with
  | nil => simp
  | cons item items ih =>
      rw [List.forall_mem_cons, ← ih, List.mapM_cons]
      cases bind item <;> cases items.mapM bind <;> simp

/-- What each bound item keeps is kept by a bound list. -/
theorem map_eq_of_mapM {α β γ : Type} {bind : α → Option β} (kept : β → γ) (given : α → γ)
    (keeps : ∀ item value, bind item = some value → kept value = given item) {items : List α} {values : List β}
    (bound : items.mapM bind = some values) : values.map kept = items.map given := by
  induction items generalizing values with
  | nil =>
      obtain rfl := Option.some.inj bound
      rfl
  | cons item items ih =>
      rw [List.mapM_cons] at bound
      obtain ⟨value, first, rest⟩ := Option.bind_eq_some_iff.mp bound
      obtain ⟨later, following, same⟩ := Option.bind_eq_some_iff.mp rest
      obtain rfl := Option.some.inj same
      rw [List.map_cons, List.map_cons, keeps item value first, ih following]

omit [DecidableEq V] in
/-- A bound cell has the levels that it was bound with. -/
theorem map_snd_of_bindCell {cell : Cell V} (sized : levels.length = cube.dimensions.length)
    (bound : cube.bindCell t levels = some cell) : cell.map Prod.snd = levels := by
  rw [bindCell, if_pos sized.ge] at bound
  rw [← List.map_snd_zip sized.le]
  refine map_eq_of_mapM Prod.snd Prod.snd (fun item cell found => ?_) bound
  obtain ⟨value, -, rfl⟩ := Option.map_eq_some_iff.mp found
  rfl

omit [DecidableEq V] in
/-- With a level for each dimension, a cell is bound exactly when every dimension has a value. -/
theorem bindCell_isSome_iff (sized : levels.length = cube.dimensions.length) :
    (cube.bindCell t levels).isSome ↔ ∀ dimension ∈ cube.dimensions, (dimension.setValueForInsertTuple t).isSome := by
  rw [bindCell, if_pos sized.ge, mapM_isSome_iff]
  conv_rhs => rw [← List.map_fst_zip sized.ge, List.forall_mem_map]
  simp only [Option.isSome_map]

omit [DecidableEq V] in
theorem bindRow_isSome_iff :
    (cube.bindRow t).isSome ↔ ∀ aggregate ∈ cube.aggregates, (aggregate.setValueForInsertTuple t).isSome :=
  mapM_isSome_iff

omit [DecidableEq V] in
/-- A missing value stops whatever follows the binding. -/
theorem bind_eq_none {α : Type} (sized : levels.length = cube.dimensions.length) (missing : ¬ cube.Binds t)
    (next : Cell V → List R → Option α) :
    ((cube.bindCell t levels).bind fun cell => (cube.bindRow t).bind (next cell)) = none := by
  have unbound : ¬ ((cube.bindCell t levels).isSome ∧ (cube.bindRow t).isSome) := by
    rw [bindCell_isSome_iff sized, bindRow_isSome_iff]
    exact missing
  cases cell : cube.bindCell t levels with
  | none => rfl
  | some bound =>
      cases row : cube.bindRow t with
      | none => rfl
      | some values => exact absurd ⟨by rw [cell]; rfl, by rw [row]; rfl⟩ unbound

end Bind

section Saved

variable {cube} {subscribers config} {table : CubeTable V R} {tpi : ProcessingInfo I K T}

omit [DecidableEq V] in
theorem length_leafLevels : cube.leafLevels.length = cube.dimensions.length := List.length_map _

/-- This is what the batch sees of an info. -/
def entryOf (tpi : ProcessingInfo I K T) (levels : List ℕ) : BatchEntry T :=
  ⟨tpi.t, levels, tpi.needNewValue, tpi.needOldValue⟩

omit [LinearOrder K] [DecidableEq V] in
/-- A batch accepts the tuples that have all their values and a level for each dimension. -/
theorem accepts_entryOf_iff {levels : List ℕ} :
    cube.Accepts (entryOf tpi levels) ↔ levels.length = cube.dimensions.length ∧ cube.Binds tpi.t := by
  constructor
  · intro accepts
    exact ⟨accepts.levels, (bindCell_isSome_iff accepts.levels).mp accepts.cell, bindRow_isSome_iff.mp accepts.row⟩
  · rintro ⟨sized, cell, row⟩
    exact ⟨sized, (bindCell_isSome_iff sized).mpr cell, bindRow_isSome_iff.mpr row⟩

/-- This is what a save of the entry leaves. -/
def savedEntry (cube : MysqlCube T V R) (subscribers : I → Bool) (table : CubeTable V R) (tpi : ProcessingInfo I K T)
    (entry : BatchEntry T) : SavedInfo I T V R :=
  let row := (cube.cellOf entry, cube.rowOf entry)
  let inserted := cube.insertRow table row
  ⟨inserted, [row], tpi.saveCallback subscribers
    (if entry.needNewValue then cube.selectCell inserted (cube.cellOf entry) else none)
    (if entry.needOldValue then cube.selectCell table (cube.cellOf entry) else none)⟩

omit [LinearOrder K] in
/-- A direct save leaves the save of the entry at the leaves. -/
theorem saveInfo_eq (binds : cube.Binds tpi.t) :
    cube.saveInfo subscribers ⟨table, [], []⟩ tpi =
      some (cube.savedEntry subscribers table tpi (entryOf tpi cube.leafLevels)) := by
  have accepts := accepts_entryOf_iff.mpr ⟨length_leafLevels, binds⟩
  have cell : cube.bindCell tpi.t cube.leafLevels = some (cube.cellOf (entryOf tpi cube.leafLevels)) :=
    accepts.bindCell_eq
  have row : cube.bindRow tpi.t = some (cube.rowOf (entryOf tpi cube.leafLevels)) := accepts.bindRow_eq
  rw [saveInfo, saveLeafTuple, saveTuple, cell, row]
  rfl

omit [LinearOrder K] in
/-- A direct save is fatal when a value is missing. -/
theorem saveInfo_eq_none (missing : ¬ cube.Binds tpi.t) : cube.saveInfo subscribers ⟨table, [], []⟩ tpi = none :=
  bind_eq_none length_leafLevels missing _

omit [LinearOrder K] in
theorem flushRound_singleton : cube.flushRound subscribers config ⟨table, [], []⟩ [tpi] =
    (cube.saveTupleBatch config table [entryOf tpi tpi.levels] [none] [none]).bind fun saved =>
      some ⟨saved.table, saved.inserts.flatMap Chunk.rows,
        ([tpi].zip (saved.newTupleStore.zip saved.oldTupleStore)).flatMap fun stored =>
          stored.1.saveCallback subscribers stored.2.1 stored.2.2⟩ := rfl

omit [LinearOrder K] in
/-- A batched save of one accepted tuple leaves the save of its entry at its own levels. -/
theorem flushRound_eq (accepts : cube.Accepts (entryOf tpi tpi.levels)) :
    cube.flushRound subscribers config ⟨table, [], []⟩ [tpi] =
      some (cube.savedEntry subscribers table tpi (entryOf tpi tpi.levels)) := by
  have short : [entryOf tpi tpi.levels].length ≤ intMax := (by decide : 1 ≤ intMax)
  obtain ⟨saved, done, rows, -, inserted, newTuples, oldTuples⟩ :=
    saveTupleBatch_spec cube config table (List.forall_mem_singleton.mpr accepts) short
  change cube.saveTupleBatch config table [entryOf tpi tpi.levels] [none] [none] = some saved at done
  rw [flushRound_singleton, done, Option.bind_some, rows, newTuples, oldTuples, ← inserted]
  simp [savedEntry]

omit [LinearOrder K] in
/-- A batched save of one tuple is fatal when the tuple is not accepted. -/
theorem flushRound_eq_none (refused : ¬ cube.Accepts (entryOf tpi tpi.levels)) :
    cube.flushRound subscribers config ⟨table, [], []⟩ [tpi] = none := by
  have unbound : cube.bindInsert (entryOf tpi tpi.levels, 0) = none := by
    by_cases sized : (entryOf tpi tpi.levels).levels.length = cube.dimensions.length
    · rw [bindInsert, if_pos sized]
      exact bind_eq_none sized (fun binds => refused (accepts_entryOf_iff.mpr ⟨sized, binds⟩)) _
    · exact if_neg sized
  have one : roundDownToPowerOfTwo config.cubeMysqlInsertBatchPw2 1 = some 1 := by
    obtain ⟨count, rounded, positive, atMost⟩ :=
      roundDownToPowerOfTwo_spec config.cubeMysqlInsertBatchPw2 Nat.one_pos (by decide)
    rw [rounded, Nat.le_antisymm atMost positive]
  have inserts : cube.insertStatements config [entryOf tpi tpi.levels] = none := by
    simp [insertStatements, Chunks.fillAll, Chunks.fill, one, unbound]
  have batched : cube.saveTupleBatch config table [entryOf tpi tpi.levels] [none] [none] = none := by
    simp [saveTupleBatch, inserts]
  rw [flushRound_singleton, batched, Option.bind_none]

omit [LinearOrder K] in
/-- A saved entry shows the levels of its cell. -/
theorem map_levels_savedEntry (subscribers : I → Bool) (table : CubeTable V R) {levels : List ℕ}
    (accepts : cube.Accepts (entryOf tpi levels)) :
    (cube.savedEntry subscribers table tpi (entryOf tpi levels)).inserts.map (fun row => row.1.map Prod.snd) =
      [levels] :=
  congrArg (fun bound => [bound]) (map_snd_of_bindCell accepts.levels accepts.bindCell_eq)

end Saved

/-- A tuple is saved alike directly and through the batch exactly when it is at the leaves or misses a value. -/
theorem insertAndFlush_eq_iff (cube : MysqlCube T V R) (subscribers : I → Bool) (config : BatchConfig)
    (table : CubeTable V R) (tpi : ProcessingInfo I K T) :
    cube.insertAndFlush subscribers config table tpi false = cube.insertAndFlush subscribers config table tpi true ↔
      (cube.Binds tpi.t → tpi.levels = cube.leafLevels) := by
  rw [insertAndFlush_false, insertAndFlush_true]
  by_cases binds : cube.Binds tpi.t
  · rw [saveInfo_eq binds, forall_prop_of_true binds]
    constructor
    · intro same
      by_cases accepts : cube.Accepts (entryOf tpi tpi.levels)
      · rw [flushRound_eq accepts, Option.some_inj] at same
        have leaves := map_levels_savedEntry subscribers table
          (accepts_entryOf_iff.mpr ⟨length_leafLevels, binds⟩)
        rw [same, map_levels_savedEntry subscribers table accepts] at leaves
        exact List.singleton_inj.mp leaves
      · rw [flushRound_eq_none accepts] at same
        exact absurd same (Option.some_ne_none _)
    · intro leaves
      rw [flushRound_eq, leaves]
      rw [leaves]
      exact accepts_entryOf_iff.mpr ⟨length_leafLevels, binds⟩
  · have refused : ¬ cube.Accepts (entryOf tpi tpi.levels) := fun accepts => binds (accepts_entryOf_iff.mp accepts).2
    rw [saveInfo_eq_none binds, flushRound_eq_none refused]
    exact iff_of_true rfl fun present => absurd present binds

/-- These requests are rolled up over their status, and one subscriber is called for them. -/
def rolledUpRequests : ProcessingInfo ℕ ℕ (Tuple ℚ) :=
  ⟨⟨[{ iVal := some 404 }, { iVal := some 2 }]⟩, 0, [0], [1], [], true, false⟩

/-- The direct save counts the rolled-up requests in the cell of one status. -/
theorem insertAndFlush_rolledUpRequests :
    (statusCube.insertAndFlush (fun _ => true) ⟨0, 0⟩ (fun _ => none) rolledUpRequests false).map SavedInfo.inserts =
      some [([(.int 404, 1)], [[.int 2]])] ∧
    (statusCube.insertAndFlush (fun _ => true) ⟨0, 0⟩ (fun _ => none) rolledUpRequests true).map SavedInfo.inserts =
      some [([(.int 404, 0)], [[.int 2]])] ∧
    statusCube.insertAndFlush (fun _ => true) ⟨0, 0⟩ (fun _ => none) rolledUpRequests false ≠
      statusCube.insertAndFlush (fun _ => true) ⟨0, 0⟩ (fun _ => none) rolledUpRequests true := by
  have direct : (statusCube.insertAndFlush (fun _ => true) ⟨0, 0⟩ (fun _ => none) rolledUpRequests false).map
      SavedInfo.inserts = some [([(.int 404, 1)], [[.int 2]])] := by rfl
  have batched : (statusCube.insertAndFlush (fun _ => true) ⟨0, 0⟩ (fun _ => none) rolledUpRequests true).map
      SavedInfo.inserts = some [([(.int 404, 0)], [[.int 2]])] := by rfl
  refine ⟨direct, batched, fun same => ?_⟩
  rw [same, batched] at direct
  exact absurd direct (by decide)

end MysqlCube

end JetStream
