import Mathlib.Data.List.Dedup
import JetStream.Control.JSGraph
import JetStream.Control.QueryPlanner

namespace JetStream

/-- The planner places operators and cubes. -/
inductive PlanNode where
  | operator (op : TaskMeta)
  | cube (cube : CubeMeta)
  deriving DecidableEq

/-- An operator is known by its number and a cube by its name. -/
def getOid : PlanNode → TopoID
  | .operator op => .task op.id.task
  | .cube cube => .cube cube.name

def PlanNode.site : PlanNode → Option NodeID
  | .operator op => op.site
  | .cube toCreate => toCreate.site

/-- A site without an address does not pin the node. -/
def PlanNode.pinnedTo (node : PlanNode) : Option NodeID := node.site.filter fun site => (ofLex site).1 ≠ ""

/-- The operators come before the cubes. -/
def AlterTopo.planNodes (alter : AlterTopo) : List PlanNode :=
  alter.toStart.map .operator ++ alter.toCreate.map .cube

/-- The object of an id is the last one that was stored under it. -/
def AlterTopo.object? (alter : AlterTopo) (id : TopoID) : Option PlanNode :=
  alter.planNodes.reverse.find? fun node => getOid node = id

/-- The hash tables list their keys in some order, and a set gives up its elements in some order. -/
structure HashOrder where
  ids : List TopoID → List TopoID
  ids_perm : ∀ l, (ids l).Perm l
  workers : List NodeID → List NodeID
  workers_perm : ∀ l, (workers l).Perm l
  pops : ℕ → ℕ

namespace JSGraph

/-- An empty name and the number zero stand for a missing end, and an edge without a destination is ignored. -/
def readEdges (nodes : List TopoID) :
    List JetStream.Edge → Except GraphError
      { edges : List (TopoID × TopoID) // ∀ edge ∈ edges, edge.1 ∈ nodes ∧ edge.2 ∈ nodes }
  | [] => .ok ⟨[], by simp⟩
  | e :: rest =>
      if e.destCube.getD "" = "" ∧ e.dest.getD 0 = 0 then readEdges nodes rest
      else
        let src : TopoID := if e.src.getD 0 ≠ 0 then .task (e.src.getD 0) else .cube (e.srcCube.getD "")
        let dest : TopoID := if e.destCube.getD "" ≠ "" then .cube (e.destCube.getD "") else .task (e.dest.getD 0)
        if known : src ∈ nodes ∧ dest ∈ nodes then
          (readEdges nodes rest).map fun edges => ⟨(src, dest) :: edges.1, List.forall_mem_cons.mpr ⟨known, edges.2⟩⟩
        else .error .keyError

/-- The graph needs a node without incoming edges and a node without outgoing edges. -/
def init (order : HashOrder) (alter : AlterTopo) : Except GraphError (JSGraph TopoID) :=
  let nodes := (alter.planNodes.map getOid).dedup
  (readEdges nodes alter.edges).bind fun edges =>
    let sources := order.ids (nodes.filter fun n => n ∉ edges.1.map Prod.snd)
    let sinks := order.ids (nodes.filter fun n => n ∉ edges.1.map Prod.fst)
    if ends : sources ≠ [] ∧ sinks ≠ [] then
      .ok {
        nodes := nodes
        edges := edges.1
        sources := sources
        sinks := sinks
        nodes_nodup := List.nodup_dedup _
        inside := edges.2
        sources_nodup := (order.ids_perm _).nodup_iff.mpr ((List.nodup_dedup _).filter _)
        mem_sources := fun n => by rw [(order.ids_perm _).mem_iff, List.mem_filter, decide_eq_true_eq]
        sinks_nodup := (order.ids_perm _).nodup_iff.mpr ((List.nodup_dedup _).filter _)
        mem_sinks := fun n => by rw [(order.ids_perm _).mem_iff, List.mem_filter, decide_eq_true_eq]
        sources_ne := ends.1
        sinks_ne := ends.2 }
    else .error (.schemaError "Computation graph has no sources or sinks (just cycles)")

end JSGraph

namespace WorkerAssignment

/-- A new assignment holds nothing. -/
def new : WorkerAssignment := ⟨[], [], [], []⟩

def addNode (assignment : WorkerAssignment) : PlanNode → WorkerAssignment
  | .operator op => { assignment with operators := assignment.operators ++ [op] }
  | .cube cube => { assignment with cubes := assignment.cubes ++ [cube] }

def addEdge (assignment : WorkerAssignment) (edge : Edge) : WorkerAssignment :=
  { assignment with edges := assignment.edges ++ [edge] }

def addPolicy (assignment : WorkerAssignment) (policy : List TaskID) : WorkerAssignment :=
  { assignment with policies := assignment.policies ++ [policy] }

end WorkerAssignment

/-- These are the ways in which the planner fails, and the last one is a search that is cut off. -/
inductive PlanError where
  | graph (error : GraphError)
  | keyError
  | indexError
  | assertionError
  | endless
  deriving DecidableEq

/-- The passes share the assignments of the workers and the map from ids to workers. -/
structure PlacementState where
  assignments : OrderedMap NodeID WorkerAssignment
  taskToWorker : TopoID → Option NodeID

/-- A dictionary raises an exception for a missing key. -/
def orKeyError {A : Type} : Option A → Except PlanError A
  | none => .error .keyError
  | some value => .ok value

namespace PlacementState

def empty : PlacementState := ⟨.empty, fun _ => none⟩

/-- A worker without an assignment gets a new one. -/
def ensure (state : PlacementState) (workerID : NodeID) : PlacementState :=
  if (state.assignments.get? workerID).isSome then state
  else { state with assignments := state.assignments.set workerID .new }

/-- The assignment of the worker is changed in place. -/
def change (state : PlacementState) (workerID : NodeID) (f : WorkerAssignment → WorkerAssignment) :
    Except PlanError PlacementState :=
  (orKeyError (state.assignments.get? workerID)).map fun assignment =>
    { state with assignments := state.assignments.set workerID (f assignment) }

/-- The node is added to the assignment of the worker and recorded under its id. -/
def addNode (state : PlacementState) (workerID : NodeID) (node : PlanNode) : Except PlanError PlacementState :=
  (state.change workerID fun assignment => assignment.addNode node).map fun state =>
    { state with taskToWorker := Function.update state.taskToWorker (getOid node) (some workerID) }

end PlacementState

namespace QueryPlanner

/-- The identifier of the computation is written into its operators, edges and policies. -/
def overwriteCompIds (alter : AlterTopo) (compID : ℤ) : AlterTopo where
  computationID := compID
  toStart := alter.toStart.map fun op => { op with id := toLex (compID, op.id.task) }
  toCreate := alter.toCreate
  taskToStop := alter.taskToStop
  cubesToStop := alter.cubesToStop
  edges := alter.edges.map fun edge => { edge with computation := compID }
  congestPolicies := alter.congestPolicies.map fun policy => policy.map fun o => toLex (compID, o.task)

section Passes

variable (g : JSGraph TopoID) (fuel : ℕ) (workerLocs : OrderedMap NodeID NodeID) (defaultWorkerID : NodeID)
  (alter : AlterTopo) (union : TopoID)

/-- A pinned node goes to its worker, an unpinned source or sink to the default worker, and the others wait. -/
def pinWorker (node : PlanNode) : Option NodeID :=
  match node.pinnedTo with
  | some site => some (if (workerLocs.get? site).isSome then site else defaultWorkerID)
  | none => if getOid node ∈ g.sources ∨ getOid node ∈ g.sinks then some defaultWorkerID else none

def pinNodes : List PlanNode → PlacementState → Except PlanError PlacementState
  | [], state => .ok state
  | node :: rest, state =>
      match pinWorker g workerLocs defaultWorkerID node with
      | none => pinNodes rest state
      | some workerID => ((state.ensure workerID).addNode workerID node).bind fun state => pinNodes rest state

/-- A node without a worker is placed on the current one, and a node with a worker makes it the current one. -/
def placeNodes : List TopoID → NodeID → PlacementState → Except PlanError PlacementState
  | [], _, state => .ok state
  | id :: rest, workerID, state =>
      match state.taskToWorker id with
      | none => (orKeyError (alter.object? id)).bind fun node =>
          (state.addNode workerID node).bind fun state => placeNodes rest workerID state
      | some workerID => placeNodes rest workerID state

/-- The search takes its nodes from the adjacency lists, so the lists are returned as it leaves them. -/
def placeDescendants (adjList : TopoID → List TopoID) (start : TopoID) (stop : Option TopoID) (workerID : NodeID)
    (state : PlacementState) : Except PlanError (PlacementState × (TopoID → List TopoID)) :=
  match JSGraph.getDescendants fuel adjList start stop with
  | none => .error .endless
  | some (toPlace, adjList) => (placeNodes alter toPlace workerID state).map fun state => (state, adjList)

/-- The nodes from the union to the sink follow the worker of the union. -/
def placeUnion (state : PlacementState) : Except PlanError (PlacementState × (TopoID → List TopoID)) :=
  let workerID := (state.taskToWorker union).getD defaultWorkerID
  placeDescendants fuel alter g.adjList union none workerID (state.ensure workerID)

/-- The nodes from each source to the union follow the worker of the source. -/
def placeSources : List TopoID → (TopoID → List TopoID) → PlacementState → Except PlanError PlacementState
  | [], _, state => .ok state
  | source :: rest, adjList, state =>
      match state.taskToWorker source with
      | none => .error .assertionError
      | some workerID => (placeDescendants fuel alter adjList source (some union) workerID state).bind
          fun (state, adjList) => placeSources rest adjList state

/-- A remote destination is reached at the address of its worker. -/
def fillAddress (workerID destWorkerID : NodeID) (edge : Edge) : Except PlanError Edge :=
  if destWorkerID ≠ workerID then
    (orKeyError (workerLocs.get? destWorkerID)).map fun destLoc => { edge with destAddr := some destLoc }
  else .ok edge

/-- An edge goes to the worker of its source operator, and an edge from a cube to the worker of its destination. -/
def placeEdge (edge : Edge) (state : PlacementState) : Except PlanError PlacementState :=
  (orKeyError (state.taskToWorker (.task (edge.src.getD (edge.dest.getD 0))))).bind fun workerID =>
    (if edge.dest.isSome ∨ edge.destCube.isSome then
      (orKeyError (state.taskToWorker (edgeDest edge))).bind fun destWorkerID =>
        fillAddress workerLocs workerID destWorkerID edge
    else if edge.destAddr.isSome then .ok edge
    else .error .assertionError).bind fun edge => state.change workerID fun assignment => assignment.addEdge edge

def placeEdges : List Edge → PlacementState → Except PlanError PlacementState
  | [], state => .ok state
  | edge :: rest, state => (placeEdge workerLocs edge state).bind fun state => placeEdges rest state

/-- A policy goes to the worker of its first operator. -/
def placePolicies : List (List TaskID) → PlacementState → Except PlanError PlacementState
  | [], state => .ok state
  | [] :: _, _ => .error .indexError
  | (o :: others) :: rest, state => (orKeyError (state.taskToWorker (.task o.task))).bind fun worker =>
      (state.change worker fun assignment => assignment.addPolicy (o :: others)).bind fun state =>
        placePolicies rest state

end Passes

/-- The passes run one after another over the graph of the request. -/
def placeTopo (order : HashOrder) (fuel : ℕ) (workerLocs : OrderedMap NodeID NodeID) (alter : AlterTopo) :
    Except PlanError (OrderedMap NodeID WorkerAssignment) :=
  ((JSGraph.init order alter).mapError .graph).bind fun g =>
    match (order.workers (workerLocs.entries.map Prod.fst)).head? with
    | none => .error .indexError
    | some defaultWorkerID =>
        (pinNodes g workerLocs defaultWorkerID alter.planNodes .empty).bind fun state =>
          ((g.getSourcesLca order.pops).mapError .graph).bind fun union =>
            (placeUnion g fuel defaultWorkerID alter union state).bind fun (state, adjList) =>
              (placeSources fuel alter union g.sources adjList state).bind fun state =>
                (placeEdges workerLocs alter.edges state).bind fun state =>
                  (placePolicies alter.congestPolicies state).map PlacementState.assignments

/-- The text of the error is put in quotes by `repr`, and it has none of its own. -/
def schemaErrorText (value : String) : String := "'" ++ value ++ "'"

def getAssignments (order : HashOrder) (fuel : ℕ) (workerLocs : OrderedMap NodeID NodeID) (alter : AlterTopo)
    (compID : ℕ) : PlanResult :=
  match placeTopo order fuel workerLocs (overwriteCompIds alter compID) with
  | .ok plan => .assignments plan
  | .error (.graph (.schemaError message)) => .schemaError (schemaErrorText message)
  | .error _ => .raised

end QueryPlanner

end JetStream
