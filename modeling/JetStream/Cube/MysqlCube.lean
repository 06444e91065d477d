import JetStream.Cube.Aggregate
import JetStream.Cube.DimensionKey
import JetStream.Lib.Chunks
import JetStream.Machine
import Mathlib.Logic.Function.Basic

namespace JetStream

/-- A dimension binds one value of a tuple, or is fatal when it is missing, and reads it back from a result. -/
structure MysqlDimension (T V : Type) where
  leafLevel : ℕ
  setValueForInsertTuple : T → Option V
  populateTuple : T → V → T

/-- An aggregate binds its columns, combines them with the stored ones, and reads them back from a result. -/
structure MysqlAggregate (T R : Type) where
  setValueForInsertTuple : T → Option R
  updateOnInsert : R → R → R
  populateTuplePartial : T → R → T

/-- A cell is the key of a table row, with a value and a level for each dimension. -/
abbrev Cell (V : Type) := List (V × ℕ)

/-- The table maps a cell to the columns of its aggregates. -/
abbrev CubeTable (V R : Type) := Cell V → Option (List R)

/-- The database may return the rows of one query in any order. -/
structure MysqlCube (T V R : Type) where
  dimensions : List (MysqlDimension T V)
  aggregates : List (MysqlAggregate T R)
  emptyTuple : T
  arrange : List (ℤ × T) → List (ℤ × T)
  arrange_perm : ∀ results, (arrange results).Perm results

/-- The exponents bound the number of rows in a prepared statement. -/
structure BatchConfig where
  cubeMysqlInsertBatchPw2 : ℕ
  cubeMysqlQueryBatchPw2 : ℕ

/-- The parallel vectors of a batch have one entry for each tuple. -/
structure BatchEntry (T : Type) where
  t : T
  levels : List ℕ
  needNewValue : Bool
  needOldValue : Bool

/-- A save gives the table and the new and old tuple, which are null when they are not needed or not there. -/
structure SavedTuple (T V R : Type) where
  table : CubeTable V R
  newTuple : Option T
  oldTuple : Option T

/-- A batched save also gives the insert statements that it has executed. -/
structure SavedBatch (T V R : Type) where
  table : CubeTable V R
  inserts : List (Chunk (Cell V × List R))
  newTupleStore : List (Option T)
  oldTupleStore : List (Option T)

/-- The number is shifted down to one, and shifting an `int` beyond its bits is not defined. -/
def roundDownToPowerOfTwo (maxPower number : ℕ) : Option ℕ :=
  let power := number.log2
  let shift := if power < maxPower then power else maxPower
  if shift < 31 then some (2 ^ shift) else none

namespace MysqlCube

variable {T V R : Type} [DecidableEq V] (cube : MysqlCube T V R)

/-- Each dimension binds its value and then its level, and a missing level is read outside of the vector. -/
def bindCell (t : T) (levels : List ℕ) : Option (Cell V) :=
  if cube.dimensions.length ≤ levels.length then
    (cube.dimensions.zip levels).mapM fun (dimension, level) =>
      (dimension.setValueForInsertTuple t).map fun value => (value, level)
  else none

def bindRow (t : T) : Option (List R) := cube.aggregates.mapM fun aggregate => aggregate.setValueForInsertTuple t

/-- The update clause combines the stored columns of each aggregate with the inserted ones. -/
def updateOnInsert (old new : List R) : List R :=
  (cube.aggregates.zip (old.zip new)).map fun (aggregate, old, new) => aggregate.updateOnInsert old new

/-- A row of a new cell is inserted, and a duplicate key updates the stored row. -/
def insertRow (table : CubeTable V R) (row : Cell V × List R) : CubeTable V R :=
  Function.update table row.1 (some ((table row.1).elim row.2 (cube.updateOnInsert · row.2)))

def makeTupleFromResultSet (cell : Cell V) (row : List R) : T :=
  (cube.aggregates.zip row).foldl (fun t (aggregate, column) => aggregate.populateTuplePartial t column)
    ((cube.dimensions.zip cell).foldl (fun t (dimension, value, _) => dimension.populateTuple t value) cube.emptyTuple)

/-- A selected cell gives the tuple of its row. -/
def selectCell (table : CubeTable V R) (cell : Cell V) : Option T :=
  (table cell).map (cube.makeTupleFromResultSet cell)

/-- The old value is selected before the insert and the new one after it. -/
def saveTuple (table : CubeTable V R) (t : T) (levels : List ℕ) (needNewValue needOldValue : Bool) :
    Option (SavedTuple T V R) := do
  let cell ← cube.bindCell t levels
  let row ← cube.bindRow t
  let inserted := cube.insertRow table (cell, row)
  some ⟨inserted, if needNewValue then cube.selectCell inserted cell else none,
    if needOldValue then cube.selectCell table cell else none⟩

def leafLevels : List ℕ := cube.dimensions.map MysqlDimension.leafLevel

/-- Without levels a tuple is saved at the leaves. -/
def saveLeafTuple (table : CubeTable V R) (t : T) (needNewValue needOldValue : Bool) : Option (SavedTuple T V R) :=
  cube.saveTuple table t cube.leafLevels needNewValue needOldValue

/-- A row of a select statement starts with the position of its tuple as an `int`. -/
def bindSelect (entry : BatchEntry T × ℕ) : Option (ℤ × Cell V) :=
  (cube.bindCell entry.1.t entry.1.levels).map fun cell => (toInt32 entry.2, cell)

/-- A levels vector of the wrong size is fatal. -/
def bindInsert (entry : BatchEntry T × ℕ) : Option (Cell V × List R) :=
  if entry.1.levels.length = cube.dimensions.length then do
    let cell ← cube.bindCell entry.1.t entry.1.levels
    let row ← cube.bindRow entry.1.t
    some (cell, row)
  else none

/-- The statements select the cells of the flagged tuples. -/
def selectStatements (config : BatchConfig) (need : BatchEntry T → Bool) (batch : List (BatchEntry T)) :
    Option (List (Chunk (ℤ × Cell V))) :=
  Chunks.fillAll (fun entry => need entry.1) cube.bindSelect (roundDownToPowerOfTwo config.cubeMysqlQueryBatchPw2)
    (batch.countP need) (batch.countP need) batch.zipIdx

def insertStatements (config : BatchConfig) (batch : List (BatchEntry T)) : Option (List (Chunk (Cell V × List R))) :=
  Chunks.fillAll (fun _ => true) cube.bindInsert (roundDownToPowerOfTwo config.cubeMysqlInsertBatchPw2)
    batch.length batch.length batch.zipIdx

/-- The query joins the bound rows with the table. -/
def executeQuery (table : CubeTable V R) (statement : Chunk (ℤ × Cell V)) : List (ℤ × T) :=
  cube.arrange (statement.rows.filterMap fun (index, cell) => (cube.selectCell table cell).map fun t => (index, t))

/-- The statement inserts its bound rows in order. -/
def execute (table : CubeTable V R) (statement : Chunk (Cell V × List R)) : CubeTable V R :=
  statement.rows.foldl cube.insertRow table

omit [DecidableEq V] in
/-- Each result is stored at the position that it carries. -/
def populate (store : List (Option T)) (results : List (ℤ × T)) : Option (List (Option T)) :=
  results.foldlM (fun store (index, t) =>
    if 0 ≤ index ∧ index.toNat < store.length then some (store.set index.toNat (some t)) else none) store

/-- The old values are selected before all inserts and the new ones after them. -/
def saveTupleBatch (config : BatchConfig) (table : CubeTable V R) (batch : List (BatchEntry T))
    (newTupleStore oldTupleStore : List (Option T)) : Option (SavedBatch T V R) :=
  if newTupleStore.length = batch.length ∧ oldTupleStore.length = batch.length then do
    let oldValueStatements ← cube.selectStatements config BatchEntry.needOldValue batch
    let inserts ← cube.insertStatements config batch
    let inserted := inserts.foldl cube.execute table
    let newValueStatements ← cube.selectStatements config BatchEntry.needNewValue batch
    let oldTupleStore ← populate oldTupleStore (oldValueStatements.flatMap (cube.executeQuery table))
    let newTupleStore ← populate newTupleStore (newValueStatements.flatMap (cube.executeQuery inserted))
    some ⟨inserted, inserts, newTupleStore, oldTupleStore⟩
  else none

/-- The tuples are saved one after another. -/
def saveTuples (table : CubeTable V R) : List (BatchEntry T) → Option (CubeTable V R × List (Option T) × List (Option T))
  | [] => some (table, [], [])
  | entry :: batch => do
      let saved ← cube.saveTuple table entry.t entry.levels entry.needNewValue entry.needOldValue
      let (final, newTuples, oldTuples) ← saveTuples saved.table batch
      some (final, saved.newTuple :: newTuples, saved.oldTuple :: oldTuples)

end MysqlCube

/-- The second is the finest of ten time levels, and a flat dimension has one level below the root. -/
def DimensionType.leafLevel : DimensionType → ℕ
  | .timeContainment => 9
  | _ => 1

def DimensionValue.element (type : DimensionType) : DimensionValue → Element ℚ
  | .string value => { sVal := some value }
  | .double value => { dVal := some value }
  | .int value => match type with
    | .time | .timeContainment => { tVal := some value }
    | _ => { iVal := some value }

def Dimension.toMysql (dimension : Dimension) : MysqlDimension (Tuple ℚ) DimensionValue where
  leafLevel := dimension.type.leafLevel
  setValueForInsertTuple := dimension.value
  populateTuple t value := ⟨t.e ++ [value.element dimension.type]⟩

/-- An average reads back its sum in both encodings and its count as an element of its own. -/
def Aggregate.elements : Aggregate → List (CellValue ℚ) → List (Element ℚ)
  | .avg _ _ _, [.int total, .int items] => [{ iVal := some total, dVal := some total }, { iVal := some items }]
  | .count _, [.int value] | .minInt _, [.int value] => [{ iVal := some value }]
  | .minDouble _, [.double value] => [{ dVal := some value }]
  | .minTime _, [.time value] => [{ tVal := some value }]
  | .string _, [.string value] => [{ sVal := some value }]
  | _, _ => []

def Aggregate.toMysql (round : ℚ → ℤ) (aggregate : Aggregate) : MysqlAggregate (Tuple ℚ) (List (CellValue ℚ)) where
  setValueForInsertTuple := aggregate.setValueForInsertTuple round
  updateOnInsert := aggregate.updateOnInsert
  populateTuplePartial t row := ⟨t.e ++ aggregate.elements row⟩

/-- The cube of a schema stores the values of its dimensions and the columns of its aggregates. -/
def MysqlCube.ofSchema (round : ℚ → ℤ) (dimensions : List Dimension) (aggregates : List Aggregate) :
    MysqlCube (Tuple ℚ) DimensionValue (List (CellValue ℚ)) where
  dimensions := dimensions.map Dimension.toMysql
  aggregates := aggregates.map (Aggregate.toMysql round)
  emptyTuple := ⟨[]⟩
  arrange := id
  arrange_perm := List.Perm.refl

end JetStream
