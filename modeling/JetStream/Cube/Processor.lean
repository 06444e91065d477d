import Mathlib.Algebra.GroupWithZero.Nat
import Mathlib.Logic.Function.Basic
import JetStream.Lib.EventSystem
import JetStream.Cube.TupleBatch

namespace JetStream

/-- The number of processors comes from an unsigned field of the configuration. -/
structure NodeConfig where
  cubeProcessorThreads : ℕ
  positive : 0 < cubeProcessorThreads
  unsigned : cubeProcessorThreads < 2 ^ 32

instance (config : NodeConfig) : NeZero config.cubeProcessorThreads := ⟨config.positive.ne'⟩

/-- A subscriber answers each tuple with one of these actions. -/
inductive Action where
  | noSend
  | send
  | sendNoBatch
  | sendUpdate
  deriving DecidableEq

/-- The process thread inserts a tuple or forwards the barrier of a flush. -/
inductive ProcessThreadTask (K V : Type) where
  | tupleInsertion (key : K) (input : V)
  | flushTask (flush : ℕ)
  deriving DecidableEq

/-- The flush thread checks the current batch or counts down a flush. -/
inductive FlushThreadTask where
  | doCheckFlush
  | doBarrier (flush : ℕ)
  deriving DecidableEq

/-- The flush thread waits for a task or stands at one point of the loop that empties the batches. -/
inductive FlushThread (K V : Type) [LinearOrder K] where
  | idle
  | testing
  | ready (id : ℕ)
  | flushing (id : ℕ) (batch : TupleBatch K V)
  | calling (id : ℕ) (rest : List (TupleProcessingInfo K V))

/-- A processor has two queues with one thread each, and its history is kept beside them. -/
structure ProcessCallable (K V : Type) [LinearOrder K] where
  processTasks : List (ProcessThreadTask K V)
  serviceFlush : List FlushThreadTask
  tupleBatcher : TupleBatch K V
  batchId : ℕ
  threadFlush : FlushThread K V
  assigned : List (K × V)
  processed : List (K × V)
  saved : List (TupleProcessingInfo K V)
  issued : List (TupleProcessingInfo K V)
  swapped : List ℕ
  flushed : List ℕ

variable {K V : Type} [LinearOrder K]

def canBatch (actions : List Action) : Bool := Action.sendNoBatch ∉ actions

namespace ProcessCallable

def new : ProcessCallable K V := ⟨[], [], TupleBatch.new, 0, .idle, [], [], [], [], [], []⟩

def assign (proc : ProcessCallable K V) (key : K) (input : V) : ProcessCallable K V :=
  { proc with
    processTasks := proc.processTasks ++ [.tupleInsertion key input]
    assigned := proc.assigned ++ [(key, input)] }

def barrier (proc : ProcessCallable K V) (flush : ℕ) : ProcessCallable K V :=
  { proc with processTasks := proc.processTasks ++ [.flushTask flush] }

def barrierToFlushqueue (proc : ProcessCallable K V) (flush : ℕ) : ProcessCallable K V :=
  { proc with serviceFlush := proc.serviceFlush ++ [.doBarrier flush] }

def checkFlush (proc : ProcessCallable K V) : ProcessCallable K V :=
  { proc with serviceFlush := proc.serviceFlush ++ [.doCheckFlush] }

def batcherReady (proc : ProcessCallable K V) : Bool := !proc.tupleBatcher.isEmpty

/-- The swap hands the current batch to the flush thread and starts a new one. -/
def batchFlush (proc : ProcessCallable K V) : ProcessCallable K V :=
  { proc with
    tupleBatcher := TupleBatch.new
    batchId := proc.batchId + 1
    threadFlush := .flushing proc.batchId proc.tupleBatcher
    swapped := proc.swapped ++ [proc.batchId] }

/-- A check is posted when the batch was empty and has become non-empty. -/
def doProcess (proc : ProcessCallable K V) (key : K) (input : V) (actions : List Action) :
    Option (ProcessCallable K V) :=
  ((⟨proc.tupleBatcher, []⟩ : BatchState K V).doProcess ⟨key, input, canBatch actions⟩).map fun next =>
    let inserted := { proc with
      tupleBatcher := next.batch
      processed := proc.processed ++ [(key, input)]
      saved := proc.saved ++ next.saved
      issued := proc.issued ++ next.saved }
    if !next.batch.isEmpty && proc.tupleBatcher.isEmpty then inserted.checkFlush else inserted

/-- The process thread takes the oldest task. -/
def runProcess (proc : ProcessCallable K V) (actions : List Action) : Option (ProcessCallable K V) :=
  match proc.processTasks with
  | [] => none
  | .tupleInsertion key input :: tasks => { proc with processTasks := tasks }.doProcess key input actions
  | .flushTask flush :: tasks => some ({ proc with processTasks := tasks }.barrierToFlushqueue flush)

/-- The loop tests the current batch, swaps it out, saves it, and issues its callbacks before the next test. -/
def doCheckFlush (proc : ProcessCallable K V) : Option (ProcessCallable K V) :=
  match proc.threadFlush with
  | .idle => none
  | .testing => some { proc with threadFlush := if proc.batcherReady then .ready proc.batchId else .idle }
  | .ready _ => some proc.batchFlush
  | .flushing id batch => (⟨batch, []⟩ : BatchState K V).flush.map fun state =>
      { proc with saved := proc.saved ++ state.saved, threadFlush := .calling id state.saved }
  | .calling id [] => some { proc with threadFlush := .testing, flushed := proc.flushed ++ [id] }
  | .calling id (tpi :: rest) => some { proc with threadFlush := .calling id rest, issued := proc.issued ++ [tpi] }

end ProcessCallable

/-- The flush information counts the barriers still to pass, and the call that made it is kept beside it. -/
structure FlushInfo (n : ℕ) where
  count : BitVec 32
  pushed : ℕ
  callbacks : ℕ
  marks : Fin n → ℕ

/-- The count returns its previous value. -/
def FlushInfo.decAndGet {n : ℕ} (info : FlushInfo n) : BitVec 32 × FlushInfo n :=
  (info.count, { info with count := info.count - 1 })

/-- The callback runs when the previous count was one. -/
def FlushInfo.doBarrier {n : ℕ} (info : FlushInfo n) : FlushInfo n :=
  let (v, info) := info.decAndGet
  if v = 1 then { info with callbacks := info.callbacks + 1 } else info

/-- The cube has a fixed number of processors and the flushes that have been called so far. -/
structure DataCube (K V : Type) [LinearOrder K] (n : ℕ) where
  processors : Fin n → ProcessCallable K V
  calls : ℕ
  info : ℕ → FlushInfo n

/-- The callers, the process threads and the flush threads take their steps in any order. -/
inductive CubeEvent (K V : Type) (n : ℕ) where
  | process (key : K) (input : V)
  | flush
  | barrier (flush : ℕ)
  | runProcess (i : Fin n) (actions : List Action)
  | runFlush (i : Fin n)

/-- No subscriber answers that its tuple may not be batched. -/
def CubeEvent.Batches {n : ℕ} : CubeEvent K V n → Prop
  | .runProcess _ actions => Action.sendNoBatch ∉ actions
  | .process _ _ | .flush | .barrier _ | .runFlush _ => True

instance {n : ℕ} : DecidablePred (CubeEvent.Batches : CubeEvent K V n → Prop)
  | .runProcess _ actions => inferInstanceAs (Decidable (Action.sendNoBatch ∉ actions))
  | .process _ _ | .flush | .barrier _ | .runFlush _ => inferInstanceAs (Decidable True)

namespace DataCube

variable {n : ℕ}

def new : DataCube K V n := ⟨fun _ => ProcessCallable.new, 0, fun _ => ⟨0, 0, 0, fun _ => 0⟩⟩

def setProcessor (cube : DataCube K V n) (i : Fin n) (proc : ProcessCallable K V) : DataCube K V n :=
  { cube with processors := Function.update cube.processors i proc }

def setInfo (cube : DataCube K V n) (flush : ℕ) (info : FlushInfo n) : DataCube K V n :=
  { cube with info := Function.update cube.info flush info }

/-- The hash of the key chooses the processor. -/
def process (hash : K → ℕ) (cube : DataCube K V n) (key : K) (input : V) : Option (DataCube K V n) :=
  if positive : 0 < n then
    let i : Fin n := ⟨hash key % n, Nat.mod_lt _ positive⟩
    some (cube.setProcessor i ((cube.processors i).assign key input))
  else none

/-- A call to flush sets the count of a new flush before it pushes the first barrier. -/
def flush (cube : DataCube K V n) : DataCube K V n :=
  { cube.setInfo cube.calls ⟨BitVec.ofNat 32 n, 0, 0, fun i => (cube.processors i).assigned.length⟩ with
    calls := cube.calls + 1 }

/-- The call pushes its barrier to the next processor. -/
def barrier (cube : DataCube K V n) (flush : ℕ) : Option (DataCube K V n) :=
  let info := cube.info flush
  if flush < cube.calls then
    if inside : info.pushed < n then
      let i : Fin n := ⟨info.pushed, inside⟩
      some ((cube.setProcessor i ((cube.processors i).barrier flush)).setInfo flush
        { info with pushed := info.pushed + 1 })
    else none
  else none

/-- An idle flush thread takes the oldest task. -/
def runFlush (cube : DataCube K V n) (i : Fin n) : Option (DataCube K V n) :=
  let proc := cube.processors i
  match proc.threadFlush, proc.serviceFlush with
  | .idle, [] => none
  | .idle, .doCheckFlush :: tasks =>
      some (cube.setProcessor i { proc with serviceFlush := tasks, threadFlush := .testing })
  | .idle, .doBarrier flush :: tasks => some
      ((cube.setProcessor i { proc with serviceFlush := tasks }).setInfo flush (cube.info flush).doBarrier)
  | _, _ => proc.doCheckFlush.map (cube.setProcessor i)

def step (hash : K → ℕ) (cube : DataCube K V n) : CubeEvent K V n → Option (DataCube K V n)
  | .process key input => cube.process hash key input
  | .flush => some cube.flush
  | .barrier flush => cube.barrier flush
  | .runProcess i actions => ((cube.processors i).runProcess actions).map (cube.setProcessor i)
  | .runFlush i => cube.runFlush i

/-- The cube of a configuration starts with empty processors, and every subscriber lets its tuples be batched. -/
def system (hash : K → ℕ) (config : NodeConfig) :
    EventSystem (DataCube K V config.cubeProcessorThreads) (CubeEvent K V config.cubeProcessorThreads) :=
  EventSystem.restrict ⟨new, step hash⟩ fun _ event => event.Batches

/-- All queues are empty and all flush threads wait. -/
def Drained (cube : DataCube K V n) : Prop :=
  ∀ i, (cube.processors i).processTasks = [] ∧ (cube.processors i).serviceFlush = [] ∧
    (cube.processors i).threadFlush = .idle

end DataCube

end JetStream
