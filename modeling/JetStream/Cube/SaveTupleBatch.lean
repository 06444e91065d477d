import JetStream.Cube.MysqlCube

namespace JetStream

/-- A number of rows that fits an `int` is rounded down to a positive number. -/
theorem roundDownToPowerOfTwo_spec (maxPower : ℕ) {number : ℕ} (positive : 0 < number) (fits : number ≤ intMax) :
    ∃ count, roundDownToPowerOfTwo maxPower number = some count ∧ 0 < count ∧ count ≤ number := by
  have nonzero : number ≠ 0 := positive.ne'
  have power : number.log2 < 31 := (Nat.log2_lt nonzero).mpr (by unfold intMax at fits; omega)
  have atMost : (if number.log2 < maxPower then number.log2 else maxPower) ≤ number.log2 := by
    split <;> omega
  refine ⟨2 ^ (if number.log2 < maxPower then number.log2 else maxPower), ?_, Nat.two_pow_pos _, ?_⟩
  · exact if_pos (by omega)
  · exact (Nat.pow_le_pow_right Nat.two_pos atMost).trans (Nat.log2_self_le nonzero)

namespace MysqlCube

variable {T V R : Type} [DecidableEq V] (cube : MysqlCube T V R)

/-- A tuple is accepted with one level for each dimension when no binding of it is fatal. -/
structure Accepts (entry : BatchEntry T) : Prop where
  levels : entry.levels.length = cube.dimensions.length
  cell : (cube.bindCell entry.t entry.levels).isSome
  row : (cube.bindRow entry.t).isSome

/-- This is the cell of an accepted tuple. -/
def cellOf (entry : BatchEntry T) : Cell V := (cube.bindCell entry.t entry.levels).getD []

/-- These are the columns of an accepted tuple. -/
def rowOf (entry : BatchEntry T) : List R := (cube.bindRow entry.t).getD []

section Accepted

variable {cube} {entry : BatchEntry T} (accepted : cube.Accepts entry)

omit [DecidableEq V]

include accepted in
theorem Accepts.bindCell_eq : cube.bindCell entry.t entry.levels = some (cube.cellOf entry) := by
  obtain ⟨bound, found⟩ := Option.isSome_iff_exists.mp accepted.cell
  rw [cellOf, found, Option.getD_some]

include accepted in
theorem Accepts.bindRow_eq : cube.bindRow entry.t = some (cube.rowOf entry) := by
  obtain ⟨bound, found⟩ := Option.isSome_iff_exists.mp accepted.row
  rw [rowOf, found, Option.getD_some]

include accepted in
theorem Accepts.bindSelect_eq (index : ℕ) : cube.bindSelect (entry, index) = some (toInt32 index, cube.cellOf entry) := by
  rw [bindSelect, accepted.bindCell_eq, Option.map_some]

include accepted in
theorem Accepts.bindInsert_eq (index : ℕ) : cube.bindInsert (entry, index) = some (cube.cellOf entry, cube.rowOf entry) := by
  rw [bindInsert, if_pos accepted.levels, accepted.bindCell_eq, accepted.bindRow_eq]
  rfl

end Accepted

section Statements

variable {cube} {batch : List (BatchEntry T)} (accepted : ∀ entry ∈ batch, cube.Accepts entry)
  (short : batch.length ≤ intMax) (config : BatchConfig)

omit [DecidableEq V]

theorem mem_of_mem_zipIdx {item : BatchEntry T × ℕ} (member : item ∈ batch.zipIdx) : item.1 ∈ batch :=
  List.mem_of_getElem? (List.mem_zipIdx_iff_getElem?.mp member)

include accepted short in
/-- The select statements bind each flagged tuple once, with its own position. -/
theorem selectStatements_eq (need : BatchEntry T → Bool) :
    ∃ statements, cube.selectStatements config need batch = some statements ∧
      statements.flatMap Chunk.rows =
        (batch.zipIdx.filter fun item => need item.1).map fun item => (toInt32 item.2, cube.cellOf item.1) := by
  have counted : batch.countP need = (batch.zipIdx.filter fun item => need item.1).length := by
    rw [← List.countP_eq_length_filter]
    conv_lhs => rw [← List.zipIdx_map_fst 0 batch, List.countP_map]
    rfl
  obtain ⟨statements, done, rows, -⟩ := Chunks.fillAll_eq
    (fun left positive fits => roundDownToPowerOfTwo_spec config.cubeMysqlQueryBatchPw2 positive fits)
    (fun item member _ => (accepted item.1 (mem_of_mem_zipIdx member)).bindSelect_eq item.2) counted
    (List.countP_le_length.trans short) le_rfl
  exact ⟨statements, done, rows⟩

include accepted short in
/-- The insert statements bind every tuple once and in order. -/
theorem insertStatements_eq : ∃ statements, cube.insertStatements config batch = some statements ∧
    statements.flatMap Chunk.rows = batch.map (fun entry => (cube.cellOf entry, cube.rowOf entry)) ∧
    ∀ chunk ∈ statements, chunk.rows.length = chunk.size := by
  have counted : batch.length = (batch.zipIdx.filter fun _ => true).length := by
    rw [List.filter_true, List.length_zipIdx]
  obtain ⟨statements, done, rows, sizes⟩ := Chunks.fillAll_eq
    (fun left positive fits => roundDownToPowerOfTwo_spec config.cubeMysqlInsertBatchPw2 positive fits)
    (fun item member _ => (accepted item.1 (mem_of_mem_zipIdx member)).bindInsert_eq item.2) counted short le_rfl
  refine ⟨statements, done, ?_, sizes⟩
  rw [rows, List.filter_true]
  conv_rhs => rw [← List.zipIdx_map_fst 0 batch, List.map_map]
  rfl

end Statements

section Populate

variable {results : List (ℤ × T)} {final : List (Option T)}
  (sound : ∀ result ∈ results, ∃ i : ℕ, result.1 = i ∧ final[i]? = some (some result.2))

omit [DecidableEq V]

include sound in
/-- Results that carry the positions of their final entries leave the entries that are final, and make theirs final. -/
theorem populate_settles {store : List (Option T)} (length : store.length = final.length) :
    ∃ next, populate store results = some next ∧ next.length = final.length ∧
      ∀ i : ℕ, (store[i]? = final[i]? ∨ ∃ result ∈ results, result.1 = i) → next[i]? = final[i]? := by
  induction results generalizing store with
  | nil => exact ⟨store, rfl, length, fun i settled => settled.resolve_right fun ⟨_, member, _⟩ => by cases member⟩
  | cons result results ih =>
      obtain ⟨here, index, entry⟩ := sound result List.mem_cons_self
      have inside : here < store.length := by
        rw [length]
        exact (List.getElem?_eq_some_iff.mp entry).1
      have position : result.1.toNat = here := by omega
      have stored : populate store (result :: results) = populate (store.set here (some result.2)) results := by
        rw [populate, List.foldlM_cons]
        simp only [position]
        rw [if_pos ⟨by omega, inside⟩]
        rfl
      obtain ⟨next, done, nextLength, settles⟩ := ih (fun other member => sound other (List.mem_cons_of_mem _ member))
        (show (store.set here (some result.2)).length = final.length by rw [List.length_set, length])
      refine ⟨next, stored.trans done, nextLength, fun i settled => settles i ?_⟩
      by_cases same : i = here
      · left
        rw [same, entry]
        exact List.getElem?_set_self inside
      · rcases settled with already | ⟨other, member, carried⟩
        · left
          rwa [List.getElem?_set_ne (Ne.symm same)]
        · right
          rcases List.mem_cons.mp member with rfl | later
          · exact absurd (by omega) same
          · exact ⟨other, later, carried⟩

include sound in
/-- Results for all the entries that are not null turn a vector of null pointers into the final one. -/
theorem populate_eq (complete : ∀ (i : ℕ) t, final[i]? = some (some t) → ((i : ℤ), t) ∈ results) :
    populate (List.replicate final.length none) results = some final := by
  obtain ⟨next, done, length, settles⟩ := populate_settles sound (List.length_replicate (a := none))
  rw [done]
  congr 1
  apply List.ext_getElem?
  intro i
  cases entry : final[i]? with
  | none => rw [List.getElem?_eq_none_iff, length, ← List.getElem?_eq_none_iff, entry]
  | some value =>
      rw [← entry]
      apply settles
      cases value with
      | none =>
          left
          rw [entry, List.getElem?_replicate, if_pos (List.getElem?_eq_some_iff.mp entry).1]
      | some t => exact .inr ⟨_, complete i t entry, rfl⟩

end Populate

variable {cube}

omit [DecidableEq V] in
/-- The queries return a row for each bound cell that the table has. -/
theorem mem_flatMap_executeQuery {table : CubeTable V R} {statements : List (Chunk (ℤ × Cell V))} {result : ℤ × T} :
    result ∈ statements.flatMap (cube.executeQuery table) ↔
      ∃ row ∈ statements.flatMap Chunk.rows, result.1 = row.1 ∧ cube.selectCell table row.2 = some result.2 := by
  have member (statement : Chunk (ℤ × Cell V)) : result ∈ cube.executeQuery table statement ↔
      ∃ row ∈ statement.rows, result.1 = row.1 ∧ cube.selectCell table row.2 = some result.2 := by
    rw [executeQuery, (cube.arrange_perm _).mem_iff, List.mem_filterMap]
    refine exists_congr fun row => and_congr_right fun _ => ?_
    rw [Option.map_eq_some_iff]
    constructor
    · rintro ⟨t, found, rfl⟩
      exact ⟨rfl, found⟩
    · rintro ⟨index, found⟩
      exact ⟨result.2, found, by rw [← index]⟩
  simp only [List.mem_flatMap, member]
  constructor
  · rintro ⟨statement, executed, row, bound, found⟩
    exact ⟨row, ⟨statement, executed, bound⟩, found⟩
  · rintro ⟨row, ⟨statement, executed, bound⟩, found⟩
    exact ⟨statement, executed, row, bound, found⟩

section Selected

variable {batch : List (BatchEntry T)} (accepted : ∀ entry ∈ batch, cube.Accepts entry) (short : batch.length ≤ intMax)
  (config : BatchConfig)

omit [DecidableEq V] in
include accepted short in
/-- The queries of the flagged tuples fill the vector with the tuples of their cells. -/
theorem populate_selected (table : CubeTable V R) (need : BatchEntry T → Bool) :
    ∃ statements, cube.selectStatements config need batch = some statements ∧
      populate (List.replicate batch.length none) (statements.flatMap (cube.executeQuery table)) =
        some (batch.map fun entry => if need entry then cube.selectCell table (cube.cellOf entry) else none) := by
  obtain ⟨statements, done, rows⟩ := selectStatements_eq accepted short config need
  have position {i : ℕ} {entry : BatchEntry T} (found : batch[i]? = some entry) : toInt32 i = i := by
    have inside := (List.getElem?_eq_some_iff.mp found).1
    exact toInt32_eq (by unfold intMax at short; omega)
  refine ⟨statements, done, ?_⟩
  rw [← List.length_map (fun entry => if need entry then cube.selectCell table (cube.cellOf entry) else none)]
  apply populate_eq
  · intro result member
    obtain ⟨row, bound, index, selected⟩ := mem_flatMap_executeQuery.mp member
    rw [rows, List.mem_map] at bound
    obtain ⟨item, listed, rfl⟩ := bound
    obtain ⟨listed, needed⟩ := List.mem_filter.mp listed
    have found := List.mem_zipIdx_iff_getElem?.mp listed
    have own : toInt32 item.2 = item.2 := position found
    dsimp only at index selected
    rw [own] at index
    refine ⟨item.2, index, ?_⟩
    rw [List.getElem?_map, found, Option.map_some, if_pos needed, selected]
  · intro i t selected
    rw [List.getElem?_map, Option.map_eq_some_iff] at selected
    obtain ⟨entry, found, selected⟩ := selected
    rw [Option.ite_none_right_eq_some] at selected
    have own : toInt32 i = i := position found
    apply mem_flatMap_executeQuery.mpr
    refine ⟨(i, cube.cellOf entry), ?_, rfl, selected.2⟩
    rw [rows, List.mem_map, ← own]
    exact ⟨(entry, i), List.mem_filter.mpr ⟨List.mk_mem_zipIdx_iff_getElem?.mpr found, selected.1⟩, rfl⟩

end Selected

section Insert

theorem insertRow_of_ne (table : CubeTable V R) {row : Cell V × List R} {cell : Cell V} (other : cell ≠ row.1) :
    cube.insertRow table row cell = table cell := Function.update_of_ne other _ _

/-- Inserted rows leave the other cells alone. -/
theorem foldl_insertRow_of_not_mem {rows : List (Cell V × List R)} (table : CubeTable V R) {cell : Cell V}
    (other : cell ∉ rows.map Prod.fst) : rows.foldl cube.insertRow table cell = table cell := by
  induction rows generalizing table with
  | nil => rfl
  | cons row rows ih =>
      rw [List.map_cons, List.mem_cons, not_or] at other
      rw [List.foldl_cons, ih _ other.2, insertRow_of_ne table other.1]

/-- Statements that are executed in turn insert all their rows in turn. -/
theorem foldl_execute (table : CubeTable V R) (statements : List (Chunk (Cell V × List R))) :
    statements.foldl cube.execute table = (statements.flatMap Chunk.rows).foldl cube.insertRow table :=
  List.foldl_flatMap.symm

end Insert

/-- Saves of distinct cells select every old value from the first table and every new one from the last. -/
theorem saveTuples_eq {batch : List (BatchEntry T)} (accepted : ∀ entry ∈ batch, cube.Accepts entry)
    (distinct : (batch.map cube.cellOf).Nodup) (table final : CubeTable V R)
    (inserted : (batch.map fun entry => (cube.cellOf entry, cube.rowOf entry)).foldl cube.insertRow table = final) :
    cube.saveTuples table batch = some (final,
      batch.map fun entry => if entry.needNewValue then cube.selectCell final (cube.cellOf entry) else none,
      batch.map fun entry => if entry.needOldValue then cube.selectCell table (cube.cellOf entry) else none) := by
  induction batch generalizing table with
  | nil =>
      obtain rfl : table = final := inserted
      rfl
  | cons entry batch ih =>
      obtain ⟨fresh, distinct⟩ := List.nodup_cons.mp distinct
      have later := ih (fun other member => accepted other (List.mem_cons_of_mem _ member)) distinct _ inserted
      have own : final (cube.cellOf entry) =
          cube.insertRow table (cube.cellOf entry, cube.rowOf entry) (cube.cellOf entry) := by
        rw [← inserted, List.map_cons, List.foldl_cons]
        apply foldl_insertRow_of_not_mem
        rw [List.map_map]
        exact fresh
      have others : ∀ other ∈ batch,
          cube.insertRow table (cube.cellOf entry, cube.rowOf entry) (cube.cellOf other) = table (cube.cellOf other) :=
        fun other member => insertRow_of_ne table fun same => fresh (List.mem_map.mpr ⟨other, member, same⟩)
      have selectOwn : cube.selectCell (cube.insertRow table (cube.cellOf entry, cube.rowOf entry)) (cube.cellOf entry) =
          cube.selectCell final (cube.cellOf entry) := by
        rw [selectCell, selectCell, own]
      have selectOthers : ∀ other ∈ batch, cube.selectCell (cube.insertRow table (cube.cellOf entry, cube.rowOf entry))
          (cube.cellOf other) = cube.selectCell table (cube.cellOf other) := fun other member => by
        rw [selectCell, selectCell, others other member]
      have accepts := accepted entry List.mem_cons_self
      rw [saveTuples, saveTuple, accepts.bindCell_eq, accepts.bindRow_eq]
      simp only [Option.bind_eq_bind, Option.bind_some, later, selectOwn, List.map_cons]
      congr 4
      apply List.map_congr_left
      intro other member
      rw [selectOthers other member]

/-- A batched save of accepted tuples binds every tuple to one insert in order, selects every old value from the first
table and every new one from the last. -/
theorem saveTupleBatch_spec (cube : MysqlCube T V R) (config : BatchConfig) (table : CubeTable V R)
    {batch : List (BatchEntry T)} (accepted : ∀ entry ∈ batch, cube.Accepts entry) (short : batch.length ≤ intMax) :
    ∃ saved, cube.saveTupleBatch config table batch (List.replicate batch.length none)
        (List.replicate batch.length none) = some saved ∧
      saved.inserts.flatMap Chunk.rows = batch.map (fun entry => (cube.cellOf entry, cube.rowOf entry)) ∧
      (∀ chunk ∈ saved.inserts, chunk.rows.length = chunk.size) ∧
      (batch.map fun entry => (cube.cellOf entry, cube.rowOf entry)).foldl cube.insertRow table = saved.table ∧
      saved.newTupleStore = (batch.map fun entry =>
        if entry.needNewValue then cube.selectCell saved.table (cube.cellOf entry) else none) ∧
      saved.oldTupleStore = batch.map fun entry =>
        if entry.needOldValue then cube.selectCell table (cube.cellOf entry) else none := by
  obtain ⟨inserts, bound, rows, sizes⟩ := insertStatements_eq accepted short config
  obtain ⟨oldStatements, selectsOld, fillsOld⟩ := populate_selected accepted short config table BatchEntry.needOldValue
  obtain ⟨newStatements, selectsNew, fillsNew⟩ :=
    populate_selected accepted short config (inserts.foldl cube.execute table) BatchEntry.needNewValue
  have inserted : (batch.map fun entry => (cube.cellOf entry, cube.rowOf entry)).foldl cube.insertRow table =
      inserts.foldl cube.execute table := by
    rw [foldl_execute, rows]
  let saved : SavedBatch T V R :=
    ⟨inserts.foldl cube.execute table, inserts,
      batch.map fun entry => if entry.needNewValue then
        cube.selectCell (inserts.foldl cube.execute table) (cube.cellOf entry) else none,
      batch.map fun entry => if entry.needOldValue then cube.selectCell table (cube.cellOf entry) else none⟩
  have done : cube.saveTupleBatch config table batch (List.replicate batch.length none)
      (List.replicate batch.length none) = some saved := by
    rw [saveTupleBatch, if_pos ⟨List.length_replicate, List.length_replicate⟩]
    simp only [Option.bind_eq_bind, Option.bind_some, selectsOld, bound, selectsNew, fillsOld, fillsNew, saved]
  exact ⟨saved, done, rows, sizes, inserted, rfl, rfl⟩

/-- A batched save of accepted tuples with distinct cells binds every tuple to one insert in order, and leaves the same
table and the same new and old tuples as saving them one after another. -/
theorem saveTupleBatch_eq_saveTuples (cube : MysqlCube T V R) (config : BatchConfig) (table : CubeTable V R)
    {batch : List (BatchEntry T)} (accepted : ∀ entry ∈ batch, cube.Accepts entry)
    (distinct : (batch.map cube.cellOf).Nodup) (short : batch.length ≤ intMax) :
    ∃ saved, cube.saveTupleBatch config table batch (List.replicate batch.length none)
        (List.replicate batch.length none) = some saved ∧
      saved.inserts.flatMap Chunk.rows = batch.map (fun entry => (cube.cellOf entry, cube.rowOf entry)) ∧
      (∀ chunk ∈ saved.inserts, chunk.rows.length = chunk.size) ∧
      cube.saveTuples table batch = some (saved.table, saved.newTupleStore, saved.oldTupleStore) := by
  obtain ⟨saved, done, rows, sizes, inserted, newTuples, oldTuples⟩ :=
    saveTupleBatch_spec cube config table accepted short
  refine ⟨saved, done, rows, sizes, ?_⟩
  rw [saveTuples_eq accepted distinct table saved.table inserted, newTuples, oldTuples]

/-- This cube counts the requests of each status. -/
def statusCube : MysqlCube (Tuple ℚ) DimensionValue (List (CellValue ℚ)) :=
  ofSchema Printing.roundHalfEven [⟨.int32, 0⟩] [.count 1]

/-- Each of these requests has a status of its own, and the second one is rolled up. -/
def statusBatch : List (BatchEntry (Tuple ℚ)) :=
  [⟨⟨[{ iVal := some 200 }, { iVal := some 2 }]⟩, [1], true, true⟩, ⟨⟨[{ iVal := some 404 }]⟩, [0], false, true⟩,
    ⟨⟨[{ iVal := some 500 }, { iVal := some 1 }]⟩, [1], true, false⟩]

/-- The law applies to three requests in statements of one row. -/
theorem saveTupleBatch_eq_saveTuples_three : ∃ saved, statusCube.saveTupleBatch ⟨0, 0⟩ (fun _ => none) statusBatch
      (List.replicate statusBatch.length none) (List.replicate statusBatch.length none) = some saved ∧
    saved.inserts.flatMap Chunk.rows =
      statusBatch.map (fun entry => (statusCube.cellOf entry, statusCube.rowOf entry)) ∧
    (∀ chunk ∈ saved.inserts, chunk.rows.length = chunk.size) ∧
    statusCube.saveTuples (fun _ => none) statusBatch = some (saved.table, saved.newTupleStore, saved.oldTupleStore) := by
  have accepted : ∀ entry ∈ statusBatch, statusCube.Accepts entry := by
    intro entry member
    simp only [statusBatch, List.mem_cons, List.not_mem_nil, or_false] at member
    rcases member with rfl | rfl | rfl <;> exact ⟨rfl, rfl, rfl⟩
  exact saveTupleBatch_eq_saveTuples statusCube ⟨0, 0⟩ (fun _ => none) accepted (by decide) (by decide)

end MysqlCube

end JetStream
