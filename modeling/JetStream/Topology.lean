import Mathlib.Data.Prod.Lex
import Mathlib.Data.String.Basic
import Mathlib.Data.Nat.Notation
import Mathlib.Data.Int.Notation

namespace JetStream

/-- A `NodeID` is a host and a port, and it is ordered by the host first. -/
abbrev NodeID := String ×ₗ ℕ

/-- A `TaskID` is a computation and a task, and it is ordered by the computation first. -/
abbrev TaskID := ℤ ×ₗ ℤ

instance (id : TaskID) (ids : List TaskID) : Decidable (id ∈ ids) := inferInstance

def TaskID.computationID (id : TaskID) : ℤ := (ofLex id).1

def TaskID.task (id : TaskID) : ℤ := (ofLex id).2

structure TaskMeta where
  id : TaskID
  opTypename : String
  site : Option NodeID
  config : List (String × String)
  deriving DecidableEq

structure CubeSchema where
  dimensions : List String
  aggregates : List String
  deriving DecidableEq

structure CubeMeta where
  name : String
  schema : CubeSchema
  site : Option NodeID
  overwriteOld : Bool
  deriving DecidableEq

/-- An edge starts and ends at an operator or a cube, or it ends at an external address. -/
structure Edge where
  computation : ℤ
  src : Option ℤ
  srcCube : Option String
  dest : Option ℤ
  destCube : Option String
  destAddr : Option NodeID
  deriving DecidableEq

/-- The request names what to start, to create and to stop in one computation. -/
structure AlterTopo where
  computationID : ℤ
  toStart : List TaskMeta
  toCreate : List CubeMeta
  taskToStop : List TaskID
  cubesToStop : List String
  edges : List Edge
  congestPolicies : List (List TaskID)
  deriving DecidableEq

end JetStream
