import JetStream.Cube.DimensionKey
import JetStream.Lib.EventSystem
import JetStream.Lib.OrderedMap
import Mathlib.Data.Char
import Mathlib.Data.List.Lex
import Mathlib.Logic.Function.Basic

namespace JetStream

/-- A count and a sum both add an `int` of the tuple, and the version aggregate leaves its place as it is. -/
inductive MasstreeAggregate where
  | sum (tupleIndex : ℕ)
  | version
  deriving DecidableEq

/-- The data have a place of eight bytes for each aggregate. -/
structure AggregateBuffer where
  sz : ℕ
  data : List ℤ
  deriving DecidableEq

/-- A tuple waits with its levels and the key that they give. -/
structure TupleInsertion where
  t : Tuple ℚ
  levels : List ℕ
  key : List Char
  deriving DecidableEq

/-- The tree holds addresses, which are positions on the heap. -/
structure CellStore where
  heap : List AggregateBuffer
  tree : OrderedMap (List Char) ℕ

/-- A process thread waits for a task or stands at one point of its insertion. -/
inductive InsertionThread where
  | idle
  | looking (task : TupleInsertion)
  | missing (task : TupleInsertion)
  | merging (task : TupleInsertion) (aggs i : ℕ)
  | storing (task : TupleInsertion) (aggs i : ℕ) (loaded : ℤ)

/-- The tuples that a processor has finished are kept beside its queue. -/
structure InsertionProcessor where
  processTasks : List TupleInsertion
  thread : InsertionThread
  done : List TupleInsertion

/-- The elements of the sums stand in the order of the aggregates. -/
structure MasstreeSchema where
  dimensions : List Dimension
  sums : List ℕ

/-- The tuples that the cube has accepted are kept beside its processors. -/
structure MasstreeCube (n : ℕ) where
  store : CellStore
  processors : Fin n → InsertionProcessor
  accepted : List TupleInsertion

/-- Callers hand over tuples, and each process thread takes its own steps. -/
inductive MasstreeEvent (n : ℕ) where
  | process (t : Tuple ℚ) (levels : List ℕ)
  | runProcess (i : Fin n)
  deriving DecidableEq

/-- A C string ends before its first NUL. -/
def cStr (s : List Char) : List Char := s.takeWhile (· ≠ Char.ofNat 0)

/-- A `char` is signed, and the sum is unsigned. -/
def fastStringHash (c : List Char) : BitVec 32 :=
  c.foldl (fun seed c => seed ^^^ ((BitVec.ofNat 8 c.toNat).signExtend 32 + 0x9e3779b9#32 + seed <<< 6 + seed >>> 2)) 0#32

def TupleInsertion.cell (task : TupleInsertion) : List Char := cStr task.key

namespace MasstreeAggregate

def size : MasstreeAggregate → ℕ
  | .sum _ => 8
  | .version => 8

/-- A missing element is read outside of the tuple, and an element without an `int` gives zero. -/
def read : MasstreeAggregate → Tuple ℚ → Option ℤ
  | .sum tupleIndex, t => t.e[tupleIndex]?.map fun e => e.iVal.getD 0
  | .version, _ => some 0

/-- The stored sum is converted to an `int`. -/
def addToTuple : MasstreeAggregate → ℤ → List (Element ℚ)
  | .sum _, total => [{ iVal := some (total.bmod (2 ^ 32)) }]
  | .version, _ => []

end MasstreeAggregate

/-- The sum of two `int64_t` values is defined when it is one. -/
def addInt64 (first second : ℤ) : Option ℤ :=
  if -2 ^ 63 ≤ first + second ∧ first + second < 2 ^ 63 then some (first + second) else none

namespace AggregateBuffer

/-- The place after the aggregate must lie in the buffer. -/
def overruns (buffer : AggregateBuffer) (i : ℕ) : Bool := buffer.sz ≤ 8 * (i + 1)

def setSlot (buffer : AggregateBuffer) (i : ℕ) (value : ℤ) : AggregateBuffer :=
  { buffer with data := buffer.data.set i value }

end AggregateBuffer

namespace MasstreeSchema

/-- The version is the last aggregate of each cube. -/
def aggregates (schema : MasstreeSchema) : List MasstreeAggregate := schema.sums.map .sum ++ [.version]

/-- Four bytes of the data are a part of the structure itself, and new data are zero. -/
def allocate (schema : MasstreeSchema) : AggregateBuffer :=
  ⟨8 + (schema.aggregates.map MasstreeAggregate.size).sum - 4, List.replicate schema.aggregates.length 0⟩

end MasstreeSchema

namespace CellStore

def empty : CellStore := ⟨[], OrderedMap.empty⟩

/-- The address of a new buffer is put into the tree. -/
def insert (store : CellStore) (key : List Char) (buffer : AggregateBuffer) : CellStore :=
  ⟨store.heap ++ [buffer], store.tree.set key store.heap.length⟩

def modify (store : CellStore) (aggs : ℕ) (f : AggregateBuffer → AggregateBuffer) : CellStore :=
  { store with heap := store.heap.modify aggs f }

/-- The buffer of a key is found through its address. -/
def cell (store : CellStore) (key : List Char) : Option AggregateBuffer :=
  (store.tree.get? key).bind fun aggs => store.heap[aggs]?

end CellStore

namespace MasstreeSchema

/-- The thread looks its cell up, makes it when there is none, and adds to one aggregate after the other, where the
old sum is loaded before the new one is stored. -/
def doProcess (schema : MasstreeSchema) (store : CellStore) (proc : InsertionProcessor) :
    Option (CellStore × InsertionProcessor) :=
  match proc.thread with
  | .idle => match proc.processTasks with
    | [] => none
    | task :: tasks => some (store, { proc with processTasks := tasks, thread := .looking task })
  | .looking task => match store.tree.get? task.cell with
    | some aggs => some (store, { proc with thread := .merging task aggs 0 })
    | none => some (store, { proc with thread := .missing task })
  | .missing task =>
      some (store.insert task.cell schema.allocate, { proc with thread := .merging task store.heap.length 0 })
  | .merging task aggs i => match schema.aggregates[i]? with
    | none => some (store, { proc with thread := .idle, done := proc.done ++ [task] })
    | some (.sum _) => do
        let buffer ← store.heap[aggs]?
        let loaded ← buffer.data[i]?
        some (store, { proc with thread := .storing task aggs i loaded })
    | some .version => do
        let buffer ← store.heap[aggs]?
        if buffer.overruns i then none else some (store, { proc with thread := .merging task aggs (i + 1) })
  | .storing task aggs i loaded => do
      let aggregate ← schema.aggregates[i]?
      let amount ← aggregate.read task.t
      let total ← addInt64 loaded amount
      let buffer ← store.heap[aggs]?
      if buffer.overruns i then none
      else some (store.modify aggs (·.setSlot i total), { proc with thread := .merging task aggs (i + 1) })

/-- The dimensions of the queried tuple come first. -/
def extendWithDimsFrom (schema : MasstreeSchema) (t : Tuple ℚ) : Option (List (Element ℚ)) :=
  schema.dimensions.mapM fun dimension => t.e[dimension.tupleIndex]?

/-- The aggregates are read from the place on. -/
def extendWithAggs (buffer : AggregateBuffer) : List MasstreeAggregate → ℕ → Option (List (Element ℚ))
  | [], _ => some []
  | aggregate :: rest, i => do
      let total ← buffer.data[i]?
      if buffer.overruns i then none
      else
        let elements ← extendWithAggs buffer rest (i + 1)
        some (aggregate.addToTuple total ++ elements)

end MasstreeSchema

namespace MasstreeCube

variable {n : ℕ} [NeZero n] (schema : MasstreeSchema)

/-- The cell of a key is handled by one processor. -/
def processorOf (cell : List Char) : Fin n := Fin.ofNat n (fastStringHash cell).toNat

def new : MasstreeCube n := ⟨CellStore.empty, fun _ => ⟨[], .idle, []⟩, []⟩

/-- The tuple joins the queue of its processor. -/
def process (cube : MasstreeCube n) (t : Tuple ℚ) (levels : List ℕ) : Option (MasstreeCube n) := do
  let key ← getDimensionKey schema.dimensions t levels
  let task : TupleInsertion := ⟨t, levels, key⟩
  let proc := cube.processors (processorOf task.cell)
  some { cube with
    processors := Function.update cube.processors (processorOf task.cell)
      { proc with processTasks := proc.processTasks ++ [task] }
    accepted := cube.accepted ++ [task] }

def runProcess (cube : MasstreeCube n) (i : Fin n) : Option (MasstreeCube n) := do
  let (store, proc) ← schema.doProcess cube.store (cube.processors i)
  some { cube with store := store, processors := Function.update cube.processors i proc }

def step (cube : MasstreeCube n) : MasstreeEvent n → Option (MasstreeCube n)
  | .process t levels => cube.process schema t levels
  | .runProcess i => cube.runProcess schema i

def system : EventSystem (MasstreeCube n) (MasstreeEvent n) := ⟨new, step schema⟩

/-- The answer is null when the tree has no cell for the key. -/
def getCellValue (cube : MasstreeCube n) (t : Tuple ℚ) (levels : List ℕ) : Option (Option (Tuple ℚ)) := do
  let key ← getDimensionKey schema.dimensions t levels
  match cube.store.tree.get? (cStr key) with
  | none => some none
  | some aggs => do
      let buffer ← cube.store.heap[aggs]?
      let dims ← schema.extendWithDimsFrom t
      let aggregates ← MasstreeSchema.extendWithAggs buffer schema.aggregates 0
      some (some ⟨dims ++ aggregates⟩)

end MasstreeCube

end JetStream
