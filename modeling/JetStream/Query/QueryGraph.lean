import Mathlib.Data.Finset.Basic
import Mathlib.Data.Finset.Card
import Mathlib.Logic.Relation
import JetStream.Query.OperatorSchemas

namespace JetStream

namespace PySchema

/-- Nothing has no length. -/
def len : PySchema → Except PyError ℕ
  | .unit => .ok 0
  | .columns fields => .ok fields.length
  | .none => .error .typeError

def get (index : ℤ) : PySchema → Except PyError Field
  | .unit => .error .indexError
  | .columns fields => pyGet fields index
  | .none => .error .typeError

end PySchema

/-- These are the types of a cube's dimensions. -/
inductive DimCode where
  | string
  | int32
  | double
  | time
  | timeContainment
  | url
  deriving DecidableEq, Repr

/-- A dimension has a name, a type and the offset of its input column. -/
structure CubeDim where
  name : String
  type : DimCode
  offset : ℤ

/-- An aggregate has a name, the name of its type and the offset of its input column. -/
structure CubeAgg where
  name : String
  type : String
  offset : ℤ

structure CubeDesc where
  name : String
  dims : List CubeDim
  aggs : List CubeAgg

namespace CubeDesc

/-- The table of dimension types has no entry for a URL. -/
def typecodeForDname : DimCode → Except PyError TypeCode
  | .string => .ok .string
  | .int32 => .ok .int
  | .double => .ok .double
  | .time => .ok .time
  | .timeContainment => .ok .time
  | .url => .error .keyError

def typecodeForAname (type : String) : TypeCode :=
  if type = "string" then .string
  else if type = "count" then .int
  else if type = "min_i" then .int
  else if type = "min_d" then .double
  else if type = "min_t" then .time
  else if type = "blob" then .other "b"
  else if type = "quantile_histogram" then .histogram
  else if type = "quantile_sketch" then .sketch
  else if type = "quantile_sample" then .sample
  else .other ("undef:" ++ type)

/-- An entry of a dictionary replaces an earlier one with its key. -/
def insertItem (key : ℤ) (field : Field) (items : List (ℤ × Field)) : List (ℤ × Field) :=
  items.filter (fun item => item.1 ≠ key) ++ [(key, field)]

def dimFields (cube : CubeDesc) : Except PyError (List (ℤ × Field)) :=
  cube.dims.mapM fun dim => (typecodeForDname dim.type).map fun code => (dim.offset, ⟨code, dim.name⟩)

def aggFields (cube : CubeDesc) : List (ℤ × Field) :=
  cube.aggs.map fun agg => (agg.offset, ⟨typecodeForAname agg.type, agg.name⟩)

/-- The map from input offsets to columns has one entry for each offset. -/
def inSchemaMap (cube : CubeDesc) : Except PyError (List (ℤ × Field)) :=
  cube.dimFields.map fun dims =>
    (dims ++ cube.aggFields).foldl (fun items item => insertItem item.1 item.2 items) []

/-- Each column of the cube inside the input must have the type of its input column. -/
def checkItems (name : String) (inSchema : PySchema) (size : ℕ) : List (ℤ × Field) → Except PyError Unit
  | [] => .ok ()
  | (fieldId, field) :: items =>
      if (size : ℤ) ≤ fieldId then checkItems name inSchema size items
      else (inSchema.get fieldId).bind fun found =>
        if found.code ≠ field.code then
          .error (.schemaError "Cube %s: Can't put value %s (type %s) into field %s of type %s"
            [.str name, .str found.name, .code found.code, .str field.name, .code field.code])
        else checkItems name inSchema size items

/-- The check goes through the map in any order, and the result has the dimensions and then the aggregates. -/
def outSchema (cube : CubeDesc) (items : List (ℤ × Field)) (inSchema : PySchema) : Except PyError PySchema :=
  cube.dimFields.bind fun dims =>
    match (cube.dims.map CubeDim.offset).max? with
    | none => .error .valueError
    | some maxDim => inSchema.len.bind fun size =>
        if (size : ℤ) ≤ maxDim ∧ 0 < size then
          .error (.schemaError "Cube %s has %d dimensions; won't match input %s."
            [.str cube.name, .int (maxDim + 1), .schema inSchema])
        else (if 0 < size then checkItems cube.name inSchema size items else .ok ()).map fun _ =>
          .columns ((dims ++ cube.aggFields).map Prod.snd)

end CubeDesc

/-- A filter subscriber may name the column of the cube and the column of the level. -/
structure FilterConfig where
  cubeField : Option ℤ
  levelInField : Option ℤ

/-- An operator brings its own type rule, and filter subscribers are a special case. -/
inductive QueryNode where
  | operator (type : String) (outSchema : PySchema → Except PyError PySchema)
  | filterSubscriber (cfg : FilterConfig)
  | cube (desc : CubeDesc)

namespace QueryNode

def isCube : QueryNode → Bool
  | cube _ => true
  | _ => false

def isFilteringSubsc : QueryNode → Bool
  | filterSubscriber _ => true
  | _ => false

def nodeType : QueryNode → String
  | operator type _ => type
  | filterSubscriber _ => "FilterSubscriber"
  | cube desc => desc.name ++ " cube"

end QueryNode

/-- Operators and cubes share one space of ids, and edges connect nodes of the graph. -/
structure QueryGraph where
  nodes : Finset ℕ
  node : ℕ → QueryNode
  edges : Finset (ℕ × ℕ)
  inside : ∀ edge ∈ edges, edge.1 ∈ nodes ∧ edge.2 ∈ nodes

namespace QueryGraph

def isCube (g : QueryGraph) (n : ℕ) : Bool := (g.node n).isCube

def isFilteringSubsc (g : QueryGraph) (n : ℕ) : Bool := (g.node n).isFilteringSubsc

/-- These are the orders in which the dictionaries and sets of a graph are iterated. -/
structure IterationOrder (g : QueryGraph) where
  operatorKeys : List ℕ
  cubeKeys : List ℕ
  edgeKeys : List (ℕ × ℕ)
  preds : ℕ → List ℕ
  cubeItems : ℕ → List (ℤ × Field)
  keys_nodup : (operatorKeys ++ cubeKeys).Nodup
  mem_operatorKeys : ∀ n, n ∈ operatorKeys ↔ n ∈ g.nodes ∧ g.isCube n = false
  mem_cubeKeys : ∀ n, n ∈ cubeKeys ↔ n ∈ g.nodes ∧ g.isCube n = true
  edgeKeys_nodup : edgeKeys.Nodup
  mem_edgeKeys : ∀ edge, edge ∈ edgeKeys ↔ edge ∈ g.edges
  preds_nodup : ∀ n, (preds n).Nodup
  mem_preds : ∀ p n, p ∈ preds n ↔ (p, n) ∈ g.edges
  cubeItems_perm : ∀ n desc items, g.node n = .cube desc → desc.inSchemaMap = .ok items → (cubeItems n).Perm items

/-- The sources have no in-edge, and operators come before cubes. -/
def getSources {g : QueryGraph} (order : g.IterationOrder) : List ℕ :=
  (order.operatorKeys ++ order.cubeKeys).filter fun n => n ∉ order.edgeKeys.map Prod.snd

/-- This is the entry of the forward edge map for a node. -/
def forwardEdges {g : QueryGraph} (order : g.IterationOrder) (n : ℕ) : List ℕ :=
  (order.edgeKeys.filter fun edge => edge.1 = n).map Prod.snd

/-- The loop admits one cube and one other input, and it keeps the input schema of the cube. -/
def filterLoop (isCube : ℕ → Bool) (inputs : ℕ → Option PySchema) :
    List ℕ → Bool → Bool → PySchema → Except PyError (Bool × Bool × PySchema)
  | [], sawCube, sawFilter, ret => .ok (sawCube, sawFilter, ret)
  | pred :: preds, sawCube, sawFilter, ret =>
      if isCube pred then
        if sawCube then .error (.schemaError "filter should have a cube input and at most one other" [])
        else match inputs pred with
          | none => .error .keyError
          | some schema => filterLoop isCube inputs preds true sawFilter schema
      else if sawFilter then .error (.schemaError "filter should have a cube input and at most one other" [])
      else filterLoop isCube inputs preds sawCube true ret

/-- A filter edge needs an `int` column of the cube and an `int` column of its own schema. -/
def checkFilterEdge (cfg : FilterConfig) (ret inS : PySchema) : Except PyError Unit :=
  match cfg.cubeField with
  | none => .error (.schemaError "must specify numeric 'cube_field' if adding a filter edge" [])
  | some cIn => ret.len.bind fun size =>
      if (size : ℤ) ≤ cIn then
        .error (.schemaError "Can't filter on %d. Schema len is only %d.  Schema was %s"
          [.int cIn, .int size, .schema ret])
      else (ret.get cIn).bind fun column =>
        if column.code ≠ .int then
          .error (.schemaError ("schema[c_in=%d] for FilterSubscriber should be int. " ++
            "Schema was %s, field %d was %s.") [.int cIn, .schema ret, .int cIn, .field column])
        else match cfg.levelInField with
          | none => .error (.schemaError "must specify numeric 'level_in_field' if adding a filter edge" [])
          | some levelIn => inS.len.bind fun inSize =>
              let wrong := PyError.schemaError "schema[level_in_field=%d] for FilterSubscriber should be int. Schema was %s."
                [.int levelIn, .schema inS]
              if (inSize : ℤ) ≤ levelIn then .error wrong
              else (inS.get levelIn).bind fun level => if level.code ≠ .int then .error wrong else .ok ()

/-- The schema of a filter subscriber is the input schema of its cube. -/
def filterSubscValidate (cfg : FilterConfig) (id : ℕ) (isCube : ℕ → Bool) (preds : List ℕ)
    (inputs : ℕ → Option PySchema) : Except PyError PySchema :=
  if preds = [] then .error (.schemaError "subscriber %s has no inputs" [.int id])
  else (filterLoop isCube inputs preds false false (.columns [])).bind fun (sawCube, sawFilter, ret) =>
    if preds.length = 1 ∧ sawCube = false then
      .error (.schemaError "FilterSubscriber %s has no cube input" [.int id])
    else
      let inS := (inputs id).getD (.columns [])
      (if sawFilter ∧ inS ≠ .columns [] then checkFilterEdge cfg ret inS else .ok ()).map fun _ => ret

/-- This is the check of one node against the input schemas that are known so far. -/
def checkNode (g : QueryGraph) (order : g.IterationOrder) (inputs : ℕ → Option PySchema) (n : ℕ) :
    Except PyError PySchema :=
  match g.node n with
  | .filterSubscriber cfg => filterSubscValidate cfg n g.isCube (order.preds n) inputs
  | .operator _ outSchema =>
      match inputs n with
      | none => .error .keyError
      | some schema => outSchema schema
  | .cube desc =>
      match inputs n with
      | none => .error .keyError
      | some schema => desc.outSchema (order.cubeItems n) schema

/-- The loop keeps the input schemas that are known, the ids it has checked, and the rest of the worklist. -/
structure CheckState where
  inputs : ℕ → Option PySchema
  visited : List ℕ
  worklist : List ℕ

/-- The output schema goes to each successor, but not from a cube to a filter subscriber. -/
def pushEdges (g : QueryGraph) (n : ℕ) (outSchema : PySchema) : List ℕ → CheckState → Except PyError CheckState
  | [], state => .ok state
  | o :: rest, state =>
      if g.isFilteringSubsc o ∧ g.isCube n then g.pushEdges n outSchema rest state
      else match state.inputs o with
        | some existing =>
            if existing ≠ outSchema then
              .error (.schemaError "Edge from %d of type %s to %d of type %s (%s) doesn't match existing schema %s"
                [.int n, .str (g.node n).nodeType, .int o, .str (g.node o).nodeType, .schema outSchema, .schema existing])
            else g.pushEdges n outSchema rest state
        | none => g.pushEdges n outSchema rest { state with
            inputs := Function.update state.inputs o (some outSchema)
            worklist := state.worklist ++ [o] }

/-- One turn checks the next node of the worklist. -/
def checkTurn (g : QueryGraph) (order : g.IterationOrder) (state : CheckState) (n : ℕ) (rest : List ℕ) :
    Except PyError CheckState :=
  (g.checkNode order state.inputs n).bind fun outSchema =>
    g.pushEdges n outSchema (forwardEdges order n) { state with visited := state.visited ++ [n], worklist := rest }

/-- The loop ends with the ids in the order of their checks, and it is missing a result when its turns run out. -/
def checkLoop (g : QueryGraph) (order : g.IterationOrder) : ℕ → CheckState → Option (Except PyError (List ℕ))
  | 0, _ => none
  | turns + 1, state =>
      match state.worklist with
      | [] => some (.ok state.visited)
      | n :: rest =>
          match g.checkTurn order state n rest with
          | .error e => some (.error e)
          | .ok next => g.checkLoop order turns next

/-- The sources have an empty input. -/
def initialState {g : QueryGraph} (order : g.IterationOrder) : CheckState where
  inputs n := if n ∈ getSources order then some .unit else none
  visited := []
  worklist := getSources order

/-- Each node takes at most one turn. -/
def validateSchemas (g : QueryGraph) (order : g.IterationOrder) : Option (Except PyError (List ℕ)) :=
  g.checkLoop order (g.nodes.card + 1) (initialState order)

end QueryGraph

end JetStream
