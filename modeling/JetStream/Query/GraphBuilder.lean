import JetStream.Lib.Attempt
import JetStream.Lib.EventSystem
import JetStream.Lib.OrderedMap
import JetStream.Lib.Sweep
import JetStream.Query.OperatorSchemas
import JetStream.Topology
import Mathlib.Data.Finset.Sort

namespace JetStream

/-- A time subscriber is an operator with a filter. -/
inductive DestinationKind where
  | operator
  | timeSubscriber
  | cube
  deriving DecidableEq

/-- The copy of a time subscriber is an ordinary operator. -/
def DestinationKind.copy : DestinationKind → DestinationKind
  | .operator => .operator
  | .timeSubscriber => .operator
  | .cube => .cube

/-- These are the attributes of an edge. -/
structure EdgeAux where
  dummy : Bool
  maxKbPerSec : Option ℤ
  deriving DecidableEq

/-- Operators and cubes keep the set of their predecessors. -/
structure GraphDestination where
  kind : DestinationKind
  location : Option NodeID
  preds : Finset ℕ

def GraphDestination.forget (oid : ℕ) (d : GraphDestination) : GraphDestination := {d with preds := d.preds.erase oid}

/-- This is the client's view of a computation while it is being built. Operators and cubes share the ids. -/
structure GraphBuilder where
  nID : ℕ
  edges : OrderedMap (ℕ ×ₗ ℕ) EdgeAux
  destinations : OrderedMap ℕ GraphDestination
  externalEdges : List Edge
  policies : List (List ℕ)

/-- A dictionary lists its keys in some order. -/
structure KeyOrder where
  keys : List ℕ → List ℕ
  lists : ∀ found, (keys found).Perm found

/-- A client builds its graph with these calls. The picks stand for the order in which a search takes its nodes. -/
inductive BuilderCall where
  | addDestination (kind : DestinationKind)
  | connect (oper1 oper2 : ℕ) (bwLimit : ℤ)
  | connectExternal (operator : ℕ) (nodeid : NodeID)
  | addPolicy (oplist : List ℕ)
  | setInlinkDummy (id : ℕ)
  | setInlinkBwcap (id : ℕ) (val : ℤ)
  | instantiateOn (id : ℕ) (n : NodeID)
  | remove (id : ℕ)
  | cloneBackFrom (picks : List ℕ) (items : KeyOrder) (head numcopies : ℕ)

namespace GraphBuilder

def new : GraphBuilder := ⟨1, .empty, .empty, [], []⟩

def Has (g : GraphBuilder) (id : ℕ) : Prop := (g.destinations.get? id).isSome

instance (g : GraphBuilder) (id : ℕ) : Decidable (g.Has id) := inferInstanceAs (Decidable (_ = true))

/-- An operator or a cube gets the next id. -/
def addDestination (g : GraphBuilder) (kind : DestinationKind) : GraphBuilder × ℕ :=
  ({g with destinations := g.destinations.set g.nID ⟨kind, none, ∅⟩, nID := g.nID + 1}, g.nID)

/-- A bandwidth limit of zero makes a dummy edge, and a negative one none at all. -/
def edgeAux (bwLimit : ℤ) : EdgeAux :=
  if 0 < bwLimit then ⟨false, some bwLimit⟩ else if bwLimit = 0 then ⟨true, none⟩ else ⟨false, none⟩

/-- Both ends are destinations of the graph. -/
def connect (g : GraphBuilder) (oper1 oper2 : ℕ) (bwLimit : ℤ) : Option GraphBuilder := do
  let _ ← g.destinations.get? oper1
  let dest ← g.destinations.get? oper2
  some {g with
    edges := g.edges.set (toLex (oper1, oper2)) (edgeAux bwLimit)
    destinations := g.destinations.set oper2 {dest with preds := insert oper1 dest.preds}}

def connectExternal (g : GraphBuilder) (operator : ℕ) (nodeid : NodeID) : GraphBuilder :=
  {g with externalEdges := g.externalEdges ++ [⟨0, some operator, none, none, none, some nodeid⟩]}

def addPolicy (g : GraphBuilder) (oplist : List ℕ) : GraphBuilder := {g with policies := g.policies ++ [oplist]}

def instantiateOn (g : GraphBuilder) (id : ℕ) (n : NodeID) : Option GraphBuilder := do
  let dest ← g.destinations.get? id
  some {g with destinations := g.destinations.set id {dest with location := some n}}

/-- The key of an edge consists of ids, and the loop looks up an object in place of an id. -/
def setInlinkDummy (g : GraphBuilder) (id : ℕ) : Attempt PyError GraphBuilder :=
  match g.destinations.get? id with
  | none => .crashed
  | some dest => if dest.preds = ∅ then .done g else .refused .keyError g

/-- The limit replaces a dummy mark, and a missing edge is an error. -/
def capEdge (id : ℕ) (val : ℤ) (g : GraphBuilder) (pred : ℕ) : Attempt PyError GraphBuilder :=
  match g.edges.get? (toLex (pred, id)) with
  | none => .refused .keyError g
  | some _ => .done {g with edges := g.edges.set (toLex (pred, id)) ⟨false, some val⟩}

def setInlinkBwcap (g : GraphBuilder) (id : ℕ) (val : ℤ) : Attempt PyError GraphBuilder :=
  match g.destinations.get? id with
  | none => .crashed
  | some dest =>
      if dest.preds = ∅ then
        .refused (.schemaError "No predecessors; you need to have some first before setting bwcap" []) g
      else .loop (capEdge id val) g (dest.preds.sort (· ≤ ·))

/-- Deleting an edge that is missing is an error. -/
def delEdge (g : GraphBuilder) (edge : ℕ × ℕ) : Attempt PyError GraphBuilder :=
  match g.edges.get? (toLex edge) with
  | none => .refused .keyError g
  | some _ => .done {g with edges := g.edges.erase (toLex edge)}

/-- The destination of an edge is to be in the graph, and it is to know its predecessor. -/
def removePred (oid : ℕ) (g : GraphBuilder) (dest : ℕ) : Attempt PyError GraphBuilder :=
  match g.destinations.get? dest with
  | none => .refused .keyError g
  | some d =>
      if oid ∈ d.preds then .done {g with destinations := g.destinations.set dest (.forget oid d)}
      else .refused .keyError g

def outEdges (g : GraphBuilder) (oid : ℕ) : List (ℕ × ℕ) :=
  (g.edges.entries.map fun entry => ofLex entry.1).filter fun edge => edge.1 = oid

/-- The edges of a node go with it, those from its predecessors first. -/
def remove (g : GraphBuilder) (oid : ℕ) : Attempt PyError GraphBuilder :=
  match g.destinations.get? oid with
  | none => .refused .keyError g
  | some o =>
      (Attempt.loop delEdge g ((o.preds.sort (· ≤ ·)).map fun p => (p, oid))).bind fun g =>
        let toDrop := g.outEdges oid
        (Attempt.loop (removePred oid) g (toDrop.map Prod.snd)).bind fun g =>
          (Attempt.loop delEdge g toDrop).map fun g => {g with destinations := g.destinations.erase oid}

def predList (g : GraphBuilder) (id : ℕ) : List ℕ :=
  match g.destinations.get? id with
  | none => []
  | some dest => dest.preds.sort (· ≤ ·)

/-- The search keeps the nodes and the edges that are to be copied. The test whether a predecessor has been copied
already compares it with ids and is never true. -/
def inspect (g : GraphBuilder) (found : List ℕ × List (ℕ × ℕ)) (e : ℕ) : List ℕ × List (ℕ × ℕ) :=
  (found.1.insert e, found.2 ++ (g.predList e).map fun p => (p, e))

/-- Each node that is copied gets a new id. -/
def copyDest (copies : GraphBuilder × OrderedMap ℕ ℕ) (id : ℕ) : Option (GraphBuilder × OrderedMap ℕ ℕ) := do
  let dest ← copies.1.destinations.get? id
  let (g, newID) := copies.1.addDestination dest.kind.copy
  some (g, copies.2.set id newID)

/-- The edges between the copies have no attributes. -/
def copyEdge (oldToNew : OrderedMap ℕ ℕ) (g : GraphBuilder) (edge : ℕ × ℕ) : Option GraphBuilder := do
  let first ← oldToNew.get? edge.1
  let second ← oldToNew.get? edge.2
  g.connect first second (-1)

/-- One copy of the nodes and their edges is made, and the copy of the head is kept. -/
def copyAll (toCopy : List ℕ) (edgesToCopy : List (ℕ × ℕ)) (head : ℕ) (copies : GraphBuilder × List ℕ) :
    Option (GraphBuilder × List ℕ) := do
  let (g, oldToNew) ← toCopy.foldlM copyDest (copies.1, .empty)
  let g ← edgesToCopy.foldlM (copyEdge oldToNew) g
  let newHead ← oldToNew.get? head
  some (g, copies.2 ++ [newHead])

def copyTimes (toCopy : List ℕ) (edgesToCopy : List (ℕ × ℕ)) (head : ℕ) :
    ℕ → GraphBuilder × List ℕ → Option (GraphBuilder × List ℕ)
  | 0, copies => some copies
  | numcopies + 1, copies => do
      let copies ← copyAll toCopy edgesToCopy head copies
      copyTimes toCopy edgesToCopy head numcopies copies

/-- Everything from which the head can be reached is copied. Without a result the search has not ended with its
picks. -/
def cloneBackFrom (g : GraphBuilder) (picks : List ℕ) (items : KeyOrder) (head numcopies : ℕ) :
    Option (GraphBuilder × List ℕ) := do
  let (toCopy, edgesToCopy) ← sweep g.predList g.inspect picks [head] ([], [])
  copyTimes (items.keys toCopy) edgesToCopy head numcopies (g, [])

end GraphBuilder

/-- These destinations are given to a call. -/
def BuilderCall.destinations : BuilderCall → List ℕ
  | .connect oper1 oper2 _ => [oper1, oper2]
  | .setInlinkDummy id => [id]
  | .setInlinkBwcap id _ => [id]
  | .instantiateOn id _ => [id]
  | .remove id => [id]
  | .cloneBackFrom _ _ head _ => [head]
  | _ => []

namespace GraphBuilder

def call (g : GraphBuilder) : BuilderCall → Attempt PyError GraphBuilder
  | .addDestination kind => .done (g.addDestination kind).1
  | .connect oper1 oper2 bwLimit => .ofOption (g.connect oper1 oper2 bwLimit)
  | .connectExternal operator nodeid => .done (g.connectExternal operator nodeid)
  | .addPolicy oplist => .done (g.addPolicy oplist)
  | .setInlinkDummy id => g.setInlinkDummy id
  | .setInlinkBwcap id val => g.setInlinkBwcap id val
  | .instantiateOn id n => .ofOption (g.instantiateOn id n)
  | .remove id => g.remove id
  | .cloneBackFrom picks items head numcopies =>
      match g.cloneBackFrom picks items head numcopies with
      | none => .running
      | some copies => .done copies.1

/-- The client goes on after an exception. The calls are given destinations of the graph. -/
def step (g : GraphBuilder) (call : BuilderCall) : Option GraphBuilder :=
  if ∀ id ∈ call.destinations, g.Has id then
    match g.call call with
    | .done next => some next
    | .refused _ next => some next
    | .crashed => none
    | .running => none
  else none

def system : EventSystem GraphBuilder BuilderCall := ⟨new, step⟩

/-- Every id that is given out is old, the predecessors of a node are the sources of its in-edges, and edges join
destinations of the graph. -/
structure Consistent (g : GraphBuilder) : Prop where
  fresh : ∀ id dest, g.destinations.get? id = some dest → id < g.nID
  preds : ∀ id dest, g.destinations.get? id = some dest → ∀ p, p ∈ dest.preds ↔ (g.edges.get? (toLex (p, id))).isSome
  inside : ∀ p n, (g.edges.get? (toLex (p, n))).isSome → g.Has p ∧ g.Has n

variable {g next : GraphBuilder}

theorem new_consistent : new.Consistent where
  fresh := nofun
  preds := nofun
  inside := nofun

/-- The next id has no node and no edge. -/
theorem Consistent.unused (consistent : g.Consistent) {id : ℕ} (new : g.nID ≤ id) : ¬ g.Has id ∧
    ∀ other, g.edges.get? (toLex (other, id)) = none ∧ g.edges.get? (toLex (id, other)) = none := by
  have absent : ¬ g.Has id := by
    intro there
    obtain ⟨dest, found⟩ := Option.isSome_iff_exists.mp there
    exact absurd (consistent.fresh _ _ found) new.not_gt
  refine ⟨absent, fun other => ⟨?_, ?_⟩⟩
  · by_contra listed
    exact absent (consistent.inside _ _ (Option.isSome_iff_ne_none.mpr listed)).2
  · by_contra listed
    exact absent (consistent.inside _ _ (Option.isSome_iff_ne_none.mpr listed)).1

theorem Consistent.addDestination (consistent : g.Consistent) (kind : DestinationKind) :
    (g.addDestination kind).1.Consistent := by
  obtain ⟨-, unused⟩ := consistent.unused le_rfl
  refine ⟨?_, ?_, ?_⟩
  · intro id dest found
    rcases OrderedMap.get?_set_cases found with ⟨rfl, -⟩ | ⟨-, found⟩
    · exact Nat.lt_succ_self _
    · exact Nat.lt_succ_of_lt (consistent.fresh _ _ found)
  · intro id dest found p
    rcases OrderedMap.get?_set_cases found with ⟨rfl, rfl⟩ | ⟨-, found⟩
    · have noEdge : (g.edges.get? (toLex (p, g.nID))).isSome = false := by rw [(unused p).1]; rfl
      exact iff_of_false (Finset.notMem_empty p) (ne_true_of_eq_false noEdge)
    · exact consistent.preds _ _ found p
  · intro p n listed
    obtain ⟨first, second⟩ := consistent.inside p n listed
    exact ⟨OrderedMap.isSome_get?_set first _ _, OrderedMap.isSome_get?_set second _ _⟩

/-- A node that keeps its predecessors leaves the graph consistent. -/
theorem Consistent.setNode (consistent : g.Consistent) {id : ℕ} {dest changed : GraphDestination}
    (found : g.destinations.get? id = some dest) (same : changed.preds = dest.preds) :
    Consistent {g with destinations := g.destinations.set id changed} := by
  refine ⟨?_, ?_, ?_⟩
  · intro other node listed
    rcases OrderedMap.get?_set_cases listed with ⟨rfl, -⟩ | ⟨-, listed⟩
    · exact consistent.fresh _ _ found
    · exact consistent.fresh _ _ listed
  · intro other node listed p
    rcases OrderedMap.get?_set_cases listed with ⟨rfl, rfl⟩ | ⟨-, listed⟩
    · rw [same]
      exact consistent.preds _ _ found p
    · exact consistent.preds _ _ listed p
  · intro p n listed
    obtain ⟨first, second⟩ := consistent.inside p n listed
    exact ⟨OrderedMap.isSome_get?_set first _ _, OrderedMap.isSome_get?_set second _ _⟩

theorem connect_eq_some {oper1 oper2 : ℕ} {bwLimit : ℤ} (connects : g.connect oper1 oper2 bwLimit = some next) :
    ∃ source dest, g.destinations.get? oper1 = some source ∧ g.destinations.get? oper2 = some dest ∧
      next = {g with
        edges := g.edges.set (toLex (oper1, oper2)) (edgeAux bwLimit)
        destinations := g.destinations.set oper2 {dest with preds := insert oper1 dest.preds}} := by
  simp only [connect, Option.bind_eq_bind, Option.bind_eq_some_iff] at connects
  obtain ⟨source, first, dest, second, made⟩ := connects
  exact ⟨source, dest, first, second, (Option.some.inj made).symm⟩

theorem Consistent.connect (consistent : g.Consistent) {oper1 oper2 : ℕ} {bwLimit : ℤ}
    (connects : g.connect oper1 oper2 bwLimit = some next) : next.Consistent := by
  obtain ⟨source, dest, first, second, rfl⟩ := connect_eq_some connects
  refine ⟨?_, ?_, ?_⟩
  · intro id node listed
    rcases OrderedMap.get?_set_cases listed with ⟨rfl, -⟩ | ⟨-, listed⟩
    · exact consistent.fresh _ _ second
    · exact consistent.fresh _ _ listed
  · intro id node listed p
    rw [OrderedMap.get?_set]
    rcases OrderedMap.get?_set_cases listed with ⟨rfl, rfl⟩ | ⟨other, listed⟩
    · dsimp only
      rw [Finset.mem_insert, consistent.preds _ _ second]
      by_cases same : p = oper1
      · subst same
        simp
      · have different : toLex (p, id) ≠ toLex (oper1, id) := fun keys => same (Prod.mk.inj (toLex_inj.mp keys)).1
        rw [if_neg different, or_iff_right same]
    · have different : toLex (p, id) ≠ toLex (oper1, oper2) := fun keys => other (Prod.mk.inj (toLex_inj.mp keys)).2
      rw [if_neg different]
      exact consistent.preds _ _ listed p
  · intro p n listed
    have ends : g.Has p ∧ g.Has n := by
      dsimp only at listed
      rw [OrderedMap.get?_set] at listed
      split_ifs at listed with keys
      · obtain ⟨rfl, rfl⟩ := Prod.mk.inj (toLex_inj.mp keys)
        exact ⟨Option.isSome_of_mem first, Option.isSome_of_mem second⟩
      · exact consistent.inside p n listed
    exact ⟨OrderedMap.isSome_get?_set ends.1 _ _, OrderedMap.isSome_get?_set ends.2 _ _⟩

end GraphBuilder

end JetStream
