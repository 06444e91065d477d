import JetStream.Topology
import JetStream.Lib.OrderedMap

namespace JetStream

/-- The planner's set of known ids holds the numbers of operators and the names of cubes. -/
inductive TopoID where
  | task (id : ℤ)
  | cube (name : String)
  deriving DecidableEq

/-- An id is printed as it was written in the request. -/
def TopoID.str : TopoID → String
  | .task id => toString id
  | .cube name => name

/-- These characters may stand in the name of a cube. -/
def nameChar (c : Char) : Bool := c.isAlphanum || c = '_'

/-- The end of the pattern also matches before a final line break. -/
def matchesName (chars : List Char) : Bool :=
  let word := if chars.getLast? = some '\n' then chars.dropLast else chars
  !word.isEmpty && word.all nameChar

/-- The name may be qualified by a number and a slash. -/
def matchesCubeName (name : String) : Bool :=
  let rest := name.toList.dropWhile Char.isDigit
  if rest.head? = some '/' && !(name.toList.takeWhile Char.isDigit).isEmpty then matchesName rest.tail
  else matchesName name.toList

/-- One worker's part of a computation lists its operators, cubes, edges and congestion policies. -/
structure WorkerAssignment where
  operators : List TaskMeta
  cubes : List CubeMeta
  edges : List Edge
  policies : List (List TaskID)
  deriving DecidableEq

/-- The placement gives assignments, rejects the request, or fails in another way. -/
inductive PlanResult where
  | assignments (plan : OrderedMap NodeID WorkerAssignment)
  | schemaError (message : String)
  | raised

/-- These workers are used by the plan, and a rejected request uses none. -/
def PlanResult.entries : PlanResult → List (NodeID × WorkerAssignment)
  | .assignments plan => plan.entries
  | _ => []

namespace QueryPlanner

/-- Each operator number is defined once. -/
def checkOperators : List TaskMeta → List TopoID → Except String (List TopoID)
  | [], ids => .ok ids
  | op :: rest, ids =>
      if .task op.id.task ∈ ids then .error s!"Operator {op.id.task} was defined more than once"
      else checkOperators rest (.task op.id.task :: ids)

/-- Each cube has a proper name of its own and a schema that is not empty. -/
def checkCubes : List CubeMeta → List String → List TopoID → Except String (List TopoID)
  | [], _, ids => .ok ids
  | cube :: rest, pinned, ids =>
      if !matchesCubeName cube.name then .error s!"Invalid cube name {cube.name}"
      else if cube.schema.aggregates.isEmpty then .error "Cubes must have at least one aggregate per cell"
      else if cube.schema.dimensions.isEmpty then .error "Cubes must have at least one dimension"
      else if cube.name ∈ pinned then .error s!"Cube {cube.name} is defined more than once."
      else checkCubes rest (cube.name :: pinned) (.cube cube.name :: ids)

def edgeSource (edge : Edge) : TopoID :=
  match edge.src with
  | some task => .task task
  | none => .cube (edge.srcCube.getD "")

def edgeDest (edge : Edge) : TopoID :=
  match edge.dest with
  | some task => .task task
  | none => .cube (edge.destCube.getD "")

/-- An edge has one source and one destination, both defined in the request unless it is external. -/
def checkEdges (ids : List TopoID) : List Edge → Except String Unit
  | [] => .ok ()
  | edge :: rest =>
      if (edge.src.isSome && edge.srcCube.isSome) || (edge.dest.isSome && edge.destCube.isSome) then
        .error "Source/destination can be an operator or cube, not both"
      else if edge.destAddr.isSome then
        if edge.dest.isSome || edge.destCube.isSome then
          .error "External edge cannot have an operator/cube as destination"
        else checkEdges ids rest
      else if edgeSource edge ∉ ids then
        .error s!"Edge source operator/cube {(edgeSource edge).str} has not been defined"
      else if edgeDest edge ∉ ids then
        .error s!"Edge destination operator/cube {(edgeDest edge).str} has not been defined"
      else checkEdges ids rest

def checkRawTopo (altertopo : AlterTopo) : Except String Unit :=
  if altertopo.toStart.isEmpty then .error "Topology includes no operators"
  else do
    let ids ← checkOperators altertopo.toStart []
    let ids ← checkCubes altertopo.toCreate [] ids
    checkEdges ids altertopo.edges

/-- The empty string stands for a valid topology. -/
def validateRawTopo (altertopo : AlterTopo) : String :=
  match checkRawTopo altertopo with
  | .ok () => ""
  | .error message => message

/-- The planner keeps the topology only when it is valid. -/
def takeRawTopo (altertopo : AlterTopo) : String × Option AlterTopo :=
  if 0 < (validateRawTopo altertopo).length then (validateRawTopo altertopo, none) else ("", some altertopo)

end QueryPlanner

end JetStream
