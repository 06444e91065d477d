import Mathlib.Data.List.Sort
import Mathlib.Data.Rat.Floor
import JetStream.Machine
import JetStream.Lib.EventSystem
import JetStream.Lib.OrderedMap

namespace JetStream

/-- The coordinator goes through these phases in order. -/
inductive ProtoState where
  | notStarted
  | round1
  | round2
  | round3
  | done
  deriving DecidableEq

/-- The enumeration numbers the phases from zero. -/
def ProtoState.number : ProtoState → ℕ
  | .notStarted => 0
  | .round1 => 1
  | .round2 => 2
  | .round3 => 3
  | .done => 4

inductive MessageType where
  | tputStart
  | tputRound2
  | tputRound3
  deriving DecidableEq

/-- A field that the sender of a message does not set has its default. -/
structure DataplaneMessage (K : Type) where
  type : MessageType
  tputSortKey : List Char := []
  tputK : ℕ := 0
  tputR2Threshold : ℚ := 0
  tputR3Query : List K := []

/-- A reply carries the rows of one round and the number of that round. -/
structure Reply (K : Type) where
  tuples : List (K × ℕ)
  round : ℕ

/-- The cube of a sender answers a slice sorted by the negated column with distinct keys, greatest total first. -/
structure SourceCube (K : Type) where
  rows : List (K × ℕ)
  sorted : rows.Pairwise fun first second => second.2 ≤ first.2
  distinct : (rows.map Prod.fst).Nodup

section Sender

variable {K : Type} [DecidableEq K]

/-- A limit of zero is no limit. -/
def SourceCube.sliceAndRollup (cube : SourceCube K) (limit : ℕ) : List (K × ℕ) :=
  if limit > 0 then cube.rows.take limit else cube.rows

/-- The sender answers each round with rows of its cube. -/
def metaFromDownstream (cube : SourceCube K) (msg : DataplaneMessage K) : Reply K :=
  let takeGreatest := msg.tputSortKey.head? = some '-'
  match msg.type with
  | .tputStart => ⟨cube.sliceAndRollup msg.tputK, 1⟩
  | .tputRound2 =>
      let rest := (cube.sliceAndRollup 0).drop msg.tputK
      ⟨if takeGreatest then rest.takeWhile fun row => msg.tputR2Threshold ≤ row.2
        else rest.takeWhile fun row => row.2 ≤ msg.tputR2Threshold, 2⟩
  | .tputRound3 => ⟨msg.tputR3Query.filterMap fun key => cube.rows.find? fun row => row.1 = key, 3⟩

end Sender

/-- A candidate sums the totals that have been reported for its key. -/
structure CandidateItem (K : Type) where
  val : ℚ
  responses : ℕ
  exampleKey : K
  deriving DecidableEq

/-- The coordinator is configured with the number of results and the sort column. -/
structure CoordinatorConfig where
  numResults : ℕ
  sortColumn : List Char

structure MultiRoundCoordinator (K : Type) [LinearOrder K] where
  phase : ProtoState
  candidates : OrderedMap K (CandidateItem K)
  responsesThisPhase : ℕ
  t1 : ℚ

variable {K : Type} [LinearOrder K] {n : ℕ}

def addCandidate (candidates : OrderedMap K (CandidateItem K)) (row : K × ℕ) : OrderedMap K (CandidateItem K) :=
  match candidates.get? row.1 with
  | some c => candidates.set row.1 { c with val := c.val + row.2, responses := c.responses + 1 }
  | none => candidates.set row.1 ⟨row.2, 1, row.1⟩

/-- The destination cube aggregates with a sum. -/
def addToCube (cube : OrderedMap K ℕ) (row : K × ℕ) : OrderedMap K ℕ :=
  cube.set row.1 (((cube.get? row.1).getD 0) + row.2)

namespace MultiRoundCoordinator

variable (config : CoordinatorConfig)

/-- The partial sums of the candidates are sorted upwards. -/
def vals (coordinator : MultiRoundCoordinator K) : List ℚ :=
  (coordinator.candidates.entries.map fun entry => entry.2.val).insertionSort (· ≤ ·)

/-- With too few candidates the threshold is the greatest partial sum. -/
def calculateTau (coordinator : MultiRoundCoordinator K) : ℚ :=
  let vals := coordinator.vals
  if vals.length < config.numResults then vals.getD (vals.length - 1) 0
  else if config.sortColumn.head? = some '-' then vals.getD (vals.length - config.numResults) 0
  else vals.getD (config.numResults - 1) 0

def startPhase1 (coordinator : MultiRoundCoordinator K) : MultiRoundCoordinator K × List (DataplaneMessage K) :=
  ({ coordinator with phase := .round1, responsesThisPhase := 0, candidates := OrderedMap.empty },
    [{ type := .tputStart, tputK := config.numResults, tputSortKey := config.sortColumn }])

def startPhase2 (predecessors : ℕ) (coordinator : MultiRoundCoordinator K) :
    MultiRoundCoordinator K × List (DataplaneMessage K) :=
  let t1 := coordinator.calculateTau config / predecessors
  ({ coordinator with phase := .round2, t1 := t1 }, [{ type := .tputRound2, tputR2Threshold := t1 }])

/-- The responses are subtracted from the number of predecessors as unsigned values. -/
def upperBound (predecessors : ℕ) (coordinator : MultiRoundCoordinator K) (item : CandidateItem K) : ℚ :=
  toSizeT ((predecessors % 2 ^ 32 : ℕ) - item.responses) * coordinator.t1 + item.val

def startPhase3 (predecessors : ℕ) (coordinator : MultiRoundCoordinator K) :
    MultiRoundCoordinator K × List (DataplaneMessage K) :=
  let tau := coordinator.calculateTau config
  let queried := coordinator.candidates.entries.filter fun entry =>
    tau ≤ upperBound predecessors coordinator entry.2
  ({ coordinator with phase := .round3 },
    [{ type := .tputRound3, tputR3Query := queried.map fun entry => entry.2.exampleKey }])

/-- The last end of a round starts the next one, and without candidates the protocol is done. -/
def endOfRound (predecessors : ℕ) (coordinator : MultiRoundCoordinator K) :
    Option (MultiRoundCoordinator K × List (DataplaneMessage K)) :=
  let phase := if coordinator.candidates.entries.length = 0 then .round3 else coordinator.phase
  let coordinator := { coordinator with phase := phase, responsesThisPhase := 0 }
  match phase with
  | .round1 => some (startPhase2 config predecessors coordinator)
  | .round2 => some (startPhase3 config predecessors coordinator)
  | .round3 => some ({ coordinator with phase := .done, candidates := OrderedMap.empty }, [])
  | .notStarted | .done => none

/-- Rows are collected in the first two rounds and passed on otherwise. -/
def receive (coordinator : MultiRoundCoordinator K) (tuples : List (K × ℕ)) :
    MultiRoundCoordinator K × List (K × ℕ) :=
  if coordinator.phase = .round1 ∨ coordinator.phase = .round2 then
    ({ coordinator with candidates := tuples.foldl addCandidate coordinator.candidates }, [])
  else (coordinator, tuples)

/-- The end of a window counts when it is of the current round. -/
def process (predecessors : ℕ) (coordinator : MultiRoundCoordinator K) (tuples : List (K × ℕ))
    (endOfWindow : Option ℕ) :
    Option (MultiRoundCoordinator K × List (DataplaneMessage K) × List (K × ℕ)) :=
  let (received, passed) := coordinator.receive tuples
  match endOfWindow with
  | none => some (received, [], passed)
  | some senderRound =>
      if senderRound = received.phase.number then
        let counted := { received with responsesThisPhase := (received.responsesThisPhase + 1) % 2 ^ 32 }
        if counted.responsesThisPhase = predecessors then
          (endOfRound config predecessors counted).map fun (next, messages) => (next, messages, passed)
        else some (counted, [], passed)
      else some (received, [], passed)

end MultiRoundCoordinator

/-- The messages to the senders and their replies are on their way in order. -/
structure TPut (K : Type) [LinearOrder K] (n : ℕ) where
  coordinator : MultiRoundCoordinator K
  downstream : Fin n → List (DataplaneMessage K)
  upstream : Fin n → List (Reply K)
  destCube : OrderedMap K ℕ

/-- A reply arrives whole or in parts, and the end of its round comes with the last part. -/
inductive TPutEvent (n : ℕ) where
  | start
  | handle (p : Fin n)
  | part (p : Fin n) (size : ℕ)
  | whole (p : Fin n)

namespace TPut

variable (config : CoordinatorConfig) (sources : Fin n → SourceCube K)

def new : TPut K n := ⟨⟨.notStarted, OrderedMap.empty, 0, 0⟩, fun _ => [], fun _ => [], OrderedMap.empty⟩

/-- Messages of the coordinator go to every predecessor. -/
def broadcast (state : TPut K n) (messages : List (DataplaneMessage K)) : TPut K n :=
  { state with downstream := fun p => state.downstream p ++ messages }

def deliver (state : TPut K n) (tuples : List (K × ℕ)) (endOfWindow : Option ℕ) : Option (TPut K n) :=
  (state.coordinator.process config n tuples endOfWindow).map fun (next, messages, passed) =>
    { state with coordinator := next, destCube := passed.foldl addToCube state.destCube }.broadcast messages

def step (state : TPut K n) : TPutEvent n → Option (TPut K n)
  | .start =>
      if state.coordinator.phase = .notStarted then
        let (next, messages) := state.coordinator.startPhase1 config
        some ({ state with coordinator := next }.broadcast messages)
      else none
  | .handle p =>
      match state.downstream p with
      | [] => none
      | msg :: rest => some { state with
          downstream := Function.update state.downstream p rest
          upstream := Function.update state.upstream p (state.upstream p ++ [metaFromDownstream (sources p) msg]) }
  | .part p size =>
      match state.upstream p with
      | [] => none
      | reply :: rest => { state with
          upstream := Function.update state.upstream p ({ reply with tuples := reply.tuples.drop size } :: rest) }.deliver
            config (reply.tuples.take size) none
  | .whole p =>
      match state.upstream p with
      | [] => none
      | reply :: rest => { state with upstream := Function.update state.upstream p rest }.deliver
          config reply.tuples (some reply.round)

/-- The protocol runs over the cubes of its predecessors. -/
def system : EventSystem (TPut K n) (TPutEvent n) := ⟨new, step config sources⟩

end TPut

end JetStream
