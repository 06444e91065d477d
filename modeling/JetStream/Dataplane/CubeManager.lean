import JetStream.Lib.Attempt
import JetStream.Lib.OrderedMap
import JetStream.Topology
import Mathlib.Data.List.TakeWhile

namespace JetStream

namespace CubeManager

/-- A cube keeps the subscribers by their names, each with the request that created it. -/
structure DataCube where
  name : String
  schema : CubeSchema
  subscribers : OrderedMap TaskID ℕ

namespace DataCube

def addSubscriber (cube : DataCube) (id : TaskID) (request : ℕ) : DataCube :=
  {cube with subscribers := cube.subscribers.set id request}

def removeSubscriber (cube : DataCube) (id : TaskID) : DataCube :=
  {cube with subscribers := cube.subscribers.erase id}

end DataCube

end CubeManager

structure CubeManager where
  cubeMap : OrderedMap String CubeManager.DataCube

namespace CubeManager

/-- The canonical name is what stands behind the first slash. -/
def toCanonical (rawName : String) : String :=
  match rawName.toList.dropWhile (· ≠ '/') with
  | [] => rawName
  | _ :: name => String.ofList name

/-- A valid name is a nonempty run of letters, digits and underscores. -/
def ValidName (name : String) : Prop := name.toList ≠ [] ∧ ∀ c ∈ name.toList, c.isAlphanum ∨ c = '_'

instance : DecidablePred ValidName := fun name =>
  @instDecidableAnd _ _ _ (List.decidableBAll (fun c => c.isAlphanum ∨ c = '_') name.toList)

def getCube (mgr : CubeManager) (rawName : String) : Option DataCube := mgr.cubeMap.get? (toCanonical rawName)

/-- A cube that exists is returned as it is, and a new one is constructed, which can fail with an exception. -/
def createCube (constructs : CubeSchema → String → Bool → Bool) (mgr : CubeManager) (rawName : String)
    (schema : CubeSchema) (overwriteIfPresent : Bool) : Attempt Unit CubeManager :=
  if ValidName (toCanonical rawName) then
    match mgr.cubeMap.get? (toCanonical rawName) with
    | some _ => .done mgr
    | none =>
        if constructs schema (toCanonical rawName) overwriteIfPresent then
          .done ⟨mgr.cubeMap.set (toCanonical rawName) ⟨toCanonical rawName, schema, .empty⟩⟩
        else .crashed
  else .refused () mgr

/-- The table lets go of the cube, and destroying a cube that is not there dereferences a null pointer. -/
def destroyCube (mgr : CubeManager) (rawName : String) : Option (DataCube × CubeManager) :=
  (mgr.getCube rawName).map fun cube => (cube, ⟨mgr.cubeMap.erase (toCanonical rawName)⟩)

/-- The cube changes in its place. -/
def addSubscriber (mgr : CubeManager) (rawName : String) (cube : DataCube) (id : TaskID) (request : ℕ) : CubeManager :=
  ⟨mgr.cubeMap.set (toCanonical rawName) (cube.addSubscriber id request)⟩

/-- A valid name has no slash. -/
theorem ValidName.no_slash {name : String} (valid : ValidName name) : '/' ∉ name.toList := by
  intro member
  rcases valid.2 _ member with alphanumeric | underscore
  · exact absurd alphanumeric (by decide)
  · exact absurd underscore (by decide)

/-- A name without a slash is its own canonical name. -/
theorem toCanonical_eq_self {name : String} (noSlash : '/' ∉ name.toList) : toCanonical name = name := by
  have dropped : name.toList.dropWhile (· ≠ '/') = [] := by
    rw [List.dropWhile_eq_nil_iff]
    intro c member
    simpa using ne_of_mem_of_not_mem member noSlash
  rw [toCanonical, dropped]

/-- A cube is created under its canonical name, or it is there already. -/
theorem createCube_done {constructs : CubeSchema → String → Bool → Bool} {mgr next : CubeManager} {rawName : String}
    {schema : CubeSchema} {overwrite : Bool} (ran : mgr.createCube constructs rawName schema overwrite = .done next) :
    ValidName (toCanonical rawName) ∧
      ((∃ cube, mgr.cubeMap.get? (toCanonical rawName) = some cube) ∧ next = mgr ∨
        mgr.cubeMap.get? (toCanonical rawName) = none ∧
          next = ⟨mgr.cubeMap.set (toCanonical rawName) ⟨toCanonical rawName, schema, .empty⟩⟩) := by
  unfold createCube at ran
  split at ran
  · rename_i valid
    refine ⟨valid, ?_⟩
    split at ran
    · rename_i cube listed
      exact Or.inl ⟨⟨cube, listed⟩, (Attempt.done.inj ran).symm⟩
    · rename_i missing
      split at ran
      · exact Or.inr ⟨missing, (Attempt.done.inj ran).symm⟩
      · cases ran
  · cases ran

/-- Only the name can be refused, and then nothing has changed. -/
theorem createCube_refused {constructs : CubeSchema → String → Bool → Bool} {mgr next : CubeManager} {rawName : String}
    {schema : CubeSchema} {overwrite : Bool} {err : Unit}
    (ran : mgr.createCube constructs rawName schema overwrite = .refused err next) :
    ¬ValidName (toCanonical rawName) ∧ next = mgr := by
  unfold createCube at ran
  split at ran
  · split at ran
    · cases ran
    · split at ran
      · cases ran
      · cases ran
  · rename_i invalid
    exact ⟨invalid, (Attempt.refused.inj ran).2.symm⟩

/-- Every cube has a valid name and stands under it. -/
def Named (mgr : CubeManager) : Prop := ∀ name cube, mgr.cubeMap.get? name = some cube → cube.name = name ∧ ValidName name

namespace Named

variable {mgr : CubeManager}

theorem set (named : mgr.Named) {name : String} {cube : DataCube} (valid : ValidName name) (same : cube.name = name) :
    Named ⟨mgr.cubeMap.set name cube⟩ := by
  intro other found listed
  rcases OrderedMap.get?_set_cases listed with ⟨here, rfl⟩ | ⟨-, before⟩
  · exact here ▸ ⟨same, valid⟩
  · exact named other found before

theorem erase (named : mgr.Named) (name : String) : Named ⟨mgr.cubeMap.erase name⟩ := by
  intro other found listed
  rw [OrderedMap.get?_erase] at listed
  split at listed
  · cases listed
  · exact named other found listed

end Named

end CubeManager

end JetStream
