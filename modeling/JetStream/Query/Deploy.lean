import JetStream.Control.TopoGraph
import JetStream.Lib.Printing
import JetStream.Query.BuilderRuns
import JetStream.Query.QueryGraph

namespace JetStream

/-- These are the options and descriptions that the nodes have when the graph is deployed. An option comes with what `str`
makes of its value, which is nothing if `str` raises an exception. A time subscriber's filter becomes an option. The
serialization of the tuple for it is left open, and so is which texts the library accepts for a string field. -/
structure GraphContents where
  opTypename : ℕ → String
  cfg : ℕ → List (String × Option String)
  filter : ℕ → List (String × String)
  desc : ℕ → CubeDesc
  overwrite : ℕ → Option Bool
  serialize : List (Option String) → String
  accepts : String → Bool

namespace GraphBuilder

/-- The request is filled from dictionaries, which list their keys in some order. -/
structure DeployOrder (g : GraphBuilder) where
  operators : List ℕ
  cubes : List ℕ
  edges : List (ℕ × ℕ)
  operators_nodup : operators.Nodup
  cubes_nodup : cubes.Nodup
  mem_operators : ∀ id, id ∈ operators ↔ ∃ dest, g.destinations.get? id = some dest ∧ dest.kind ≠ .cube
  mem_cubes : ∀ id, id ∈ cubes ↔ ∃ dest, g.destinations.get? id = some dest ∧ dest.kind = .cube
  mem_edges : ∀ edge : ℕ × ℕ, edge ∈ edges ↔ g.Joins edge.1 edge.2

/-- The library refuses a number that does not fit into its field. -/
def acceptsInt32 (n : ℤ) : Bool := -2 ^ 31 ≤ n ∧ n < 2 ^ 31

/-- The values of the filter come in the order of the cube's dimensions. Each of them needs one dimension, and that is a
string. -/
def sliceTuple (accepts : String → Bool) (filter : List (String × String)) :
    List CubeDim → List (String × String) → Option (List (Option String))
  | [], left => if left = [] then some [] else none
  | dim :: dims, left =>
      if dim.name ∈ filter.map Prod.fst then do
        let val ← left.lookup dim.name
        if dim.type = .string ∧ accepts val then
          (sliceTuple accepts filter dims (left.filter fun entry => entry.1 ≠ dim.name)).map (some val :: ·)
        else none
      else (sliceTuple accepts filter dims left).map (none :: ·)

def setCfg (key val : String) (cfg : List (String × Option String)) : List (String × Option String) :=
  cfg.filter (fun entry => entry.1 ≠ key) ++ [(key, some val)]

def isCube (g : GraphBuilder) (id : ℕ) : Bool :=
  match g.destinations.get? id with
  | none => false
  | some dest => dest.kind = .cube

/-- A time subscriber has one predecessor, and this is a cube. -/
def config (g : GraphBuilder) (contents : GraphContents) (id : ℕ) (dest : GraphDestination) :
    Option (List (String × Option String)) :=
  if dest.kind = .timeSubscriber then
    match dest.preds.sort (· ≤ ·) with
    | [pred] =>
        if g.isCube pred then
          (sliceTuple contents.accepts (contents.filter id) (contents.desc pred).dims (contents.filter id)).map fun slice =>
            setCfg "slice_tuple" (contents.serialize slice) (contents.cfg id)
        else none
    | _ => none
  else some (contents.cfg id)

def entryPB (contents : GraphContents) (entry : String × Option String) : Option (String × String) := do
  let val ← entry.2
  if contents.accepts entry.1 && contents.accepts val then some (entry.1, val) else none

def operatorPB (g : GraphBuilder) (contents : GraphContents) (id : ℕ) : Option TaskMeta := do
  let dest ← g.destinations.get? id
  let cfg ← g.config contents id dest
  let entries ← cfg.mapM (entryPB contents)
  if acceptsInt32 id && contents.accepts (contents.opTypename id) then
    some ⟨toLex (0, id), contents.opTypename id, dest.location, entries⟩
  else none

def qualifiedName (contents : GraphContents) (id : ℕ) : String := s!"{id}/{(contents.desc id).name}"

def cubeMeta (g : GraphBuilder) (contents : GraphContents) (id : ℕ) : CubeMeta where
  name := qualifiedName contents id
  schema := ⟨(contents.desc id).dims.map CubeDim.name, (contents.desc id).aggs.map CubeAgg.name⟩
  site := (g.destinations.get? id).bind GraphDestination.location
  overwriteOld := (contents.overwrite id).getD false

/-- These are the names and offsets that are written for a cube. -/
def acceptsCube (contents : GraphContents) (id : ℕ) : Bool :=
  contents.accepts (qualifiedName contents id) &&
    (contents.desc id).dims.all (fun dim => contents.accepts dim.name && acceptsInt32 dim.offset) &&
    (contents.desc id).aggs.all fun agg => contents.accepts agg.name && contents.accepts agg.type && acceptsInt32 agg.offset

def cubePB (g : GraphBuilder) (contents : GraphContents) (id : ℕ) : Option CubeMeta :=
  if acceptsCube contents id then some (g.cubeMeta contents id) else none

def isDummy (g : GraphBuilder) (edge : ℕ × ℕ) : Bool := ((g.edges.get? (toLex edge)).map EdgeAux.dummy).getD false

/-- Operators are named by their ids and cubes by their qualified names. -/
def pbEdge (g : GraphBuilder) (contents : GraphContents) (edge : ℕ × ℕ) : Edge where
  computation := 0
  src := if g.isCube edge.1 then none else some edge.1
  srcCube := if g.isCube edge.1 then some (qualifiedName contents edge.1) else none
  dest := if g.isCube edge.2 then none else some edge.2
  destCube := if g.isCube edge.2 then some (qualifiedName contents edge.2) else none
  destAddr := none

def acceptsEnd (g : GraphBuilder) (contents : GraphContents) (id : ℕ) : Bool :=
  if g.isCube id then contents.accepts (qualifiedName contents id) else acceptsInt32 id

/-- An edge without one of its ends ends the deployment. -/
def edgePB (g : GraphBuilder) (contents : GraphContents) (edge : ℕ × ℕ) : Option Edge :=
  if g.Has edge.1 ∧ g.Has edge.2 ∧ g.acceptsEnd contents edge.1 ∧ g.acceptsEnd contents edge.2 then
    some (g.pbEdge contents edge)
  else none

def policyID (op : ℕ) : TaskID := toLex (0, (op : ℤ))

def policyPB (op : ℕ) : Option TaskID := if acceptsInt32 op then some (policyID op) else none

/-- Dummy edges are left out of the request. Without a result an exception has been raised. -/
def addToPB (g : GraphBuilder) (contents : GraphContents) (order : DeployOrder g) : Option AlterTopo := do
  let toStart ← order.operators.mapM (g.operatorPB contents)
  let toCreate ← order.cubes.mapM (g.cubePB contents)
  let edges ← (order.edges.filter fun edge => !g.isDummy edge).mapM (g.edgePB contents)
  let policies ← g.policies.mapM fun policy => policy.mapM policyPB
  some ⟨0, toStart, toCreate, [], [], g.externalEdges ++ edges, policies⟩

/-- The controller knows an operator by its id and a cube by its qualified name. -/
def topoID (g : GraphBuilder) (contents : GraphContents) (id : ℕ) : TopoID :=
  if g.isCube id then .cube (qualifiedName contents id) else .task id

variable {g next : GraphBuilder} {contents : GraphContents} {order : DeployOrder g}

/-- An external edge leads from a destination to an address. -/
def IsExternal (edge : Edge) : Prop :=
  ∃ (operator : ℕ) (nodeid : NodeID), edge = ⟨0, some operator, none, none, none, some nodeid⟩

theorem Change.externalEdges (change : g.Change next) (external : ∀ edge ∈ g.externalEdges, IsExternal edge) :
    ∀ edge ∈ next.externalEdges, IsExternal edge := by
  cases change with
  | none same => exact same ▸ external
  | added kind made => exact made ▸ external
  | connected oper1 oper2 bwLimit connects =>
      obtain ⟨_, _, -, -, rfl⟩ := connect_eq_some connects
      exact external
  | external operator nodeid made =>
      subst made
      intro edge member
      rcases List.mem_append.mp member with old | new
      · exact external edge old
      · exact ⟨operator, nodeid, List.mem_singleton.mp new⟩
  | policy oplist made => exact made ▸ external
  | capped id val caps => exact caps.externalEdges ▸ external
  | placed id n dest found made => exact made ▸ external
  | removed id removes => exact removes.externalEdges ▸ external
  | cloned nodes head n heads clones =>
      have same : next.externalEdges = g.externalEdges := clones.externalEdges
      exact same ▸ external

theorem external_of_reachable (reachable : system.Reachable g) : ∀ edge ∈ g.externalEdges, IsExternal edge := by
  have both : g.Consistent ∧ ∀ edge ∈ g.externalEdges, IsExternal edge := by
    refine reachable.invariant (fun g => g.Consistent ∧ ∀ edge ∈ g.externalEdges, IsExternal edge)
      ⟨new_consistent, nofun⟩ fun _ _ _ kept stepped => ?_
    have change := kept.1.step_cases stepped
    exact ⟨change.consistent kept.1, change.externalEdges kept.2⟩
  exact both.2

theorem isCube_iff {id : ℕ} : g.isCube id = true ↔ ∃ dest, g.destinations.get? id = some dest ∧ dest.kind = .cube := by
  rw [isCube]
  cases g.destinations.get? id with
  | none => simp
  | some dest => simp

theorem DeployOrder.mem_cubes_iff (order : DeployOrder g) {id : ℕ} : id ∈ order.cubes ↔ g.isCube id = true :=
  (order.mem_cubes id).trans isCube_iff.symm

theorem DeployOrder.mem_operators_iff (order : DeployOrder g) {id : ℕ} :
    id ∈ order.operators ↔ g.Has id ∧ g.isCube id = false := by
  rw [order.mem_operators, ← Bool.not_eq_true, isCube_iff]
  constructor
  · rintro ⟨dest, found, kind⟩
    refine ⟨Option.isSome_of_mem found, ?_⟩
    rintro ⟨other, listed, cube⟩
    obtain rfl := Option.some.inj (found.symm.trans listed)
    exact kind cube
  · rintro ⟨there, other⟩
    obtain ⟨dest, found⟩ := there.exists_dest
    exact ⟨dest, found, fun cube => other ⟨dest, found, cube⟩⟩

theorem has_of_isCube {id : ℕ} (cube : g.isCube id = true) : g.Has id := by
  obtain ⟨dest, found, -⟩ := isCube_iff.mp cube
  exact Option.isSome_of_mem found

theorem toList_qualifiedName (contents : GraphContents) (id : ℕ) :
    (qualifiedName contents id).toList = Nat.toDigits 10 id ++ '/' :: (contents.desc id).name.toList := by
  rw [qualifiedName]
  simp [toString, Nat.repr]

theorem takeWhile_qualifiedName (contents : GraphContents) (id : ℕ) :
    (qualifiedName contents id).toList.takeWhile Char.isDigit = Nat.toDigits 10 id := by
  have digits : ∀ c ∈ Nat.toDigits 10 id, c.isDigit = true := fun c member =>
    Nat.isDigit_of_mem_toDigits (by decide) (by decide) member
  rw [toList_qualifiedName, List.takeWhile_append_of_pos digits]
  exact List.append_nil _

theorem dropWhile_qualifiedName (contents : GraphContents) (id : ℕ) :
    (qualifiedName contents id).toList.dropWhile Char.isDigit = '/' :: (contents.desc id).name.toList := by
  have digits : ∀ c ∈ Nat.toDigits 10 id, c.isDigit = true := fun c member =>
    Nat.isDigit_of_mem_toDigits (by decide) (by decide) member
  rw [toList_qualifiedName, List.dropWhile_append_of_pos digits]
  rfl

/-- The id and the slash in front always match. -/
theorem matchesCubeName_qualifiedName (contents : GraphContents) (id : ℕ) :
    matchesCubeName (qualifiedName contents id) = matchesName (contents.desc id).name.toList := by
  have written : (Nat.toDigits 10 id).isEmpty = false := by
    rw [List.isEmpty_eq_false_iff]
    exact Nat.toDigits_ne_nil
  simp only [matchesCubeName, dropWhile_qualifiedName, takeWhile_qualifiedName, written]
  rfl

theorem qualifiedName_inj {first second : ℕ} (same : qualifiedName contents first = qualifiedName contents second) :
    first = second := by
  refine Printing.toDigits_inj ?_
  rw [← takeWhile_qualifiedName contents, same, takeWhile_qualifiedName]

/-- Different destinations have different names. -/
theorem topoID_inj {first second : ℕ} (same : g.topoID contents first = g.topoID contents second) : first = second := by
  rw [topoID, topoID] at same
  split_ifs at same
  · exact qualifiedName_inj (TopoID.cube.inj same)
  · exact Int.ofNat.inj (TopoID.task.inj same)

end GraphBuilder

namespace QueryPlanner

/-- This is what the controller asks of an edge. -/
def EdgeAdmitted (ids : List TopoID) (edge : Edge) : Prop :=
  (edge.src.isSome && edge.srcCube.isSome || edge.dest.isSome && edge.destCube.isSome) = false ∧
    ((edge.destAddr.isSome = true ∧ (edge.dest.isSome || edge.destCube.isSome) = false) ∨
      (edge.destAddr.isSome = false ∧ edgeSource edge ∈ ids ∧ edgeDest edge ∈ ids))

theorem checkEdges_of_admitted {ids : List TopoID} {edges : List Edge} (fit : ∀ edge ∈ edges, EdgeAdmitted ids edge) :
    checkEdges ids edges = .ok () := by
  induction edges with
  | nil => rfl
  | cons edge rest ih =>
      obtain ⟨single, ends⟩ := fit edge List.mem_cons_self
      have later := ih fun other member => fit other (List.mem_cons_of_mem _ member)
      rw [checkEdges, if_neg (ne_true_of_eq_false single)]
      rcases ends with ⟨addressed, alone⟩ | ⟨plain, source, dest⟩
      · rw [if_pos addressed, if_neg (ne_true_of_eq_false alone)]
        exact later
      · rw [if_neg (ne_true_of_eq_false plain), if_neg (not_not.mpr source), if_neg (not_not.mpr dest)]
        exact later

theorem exists_checkOperators {ops : List TaskMeta} {ids : List TopoID}
    (distinct : (ops.map fun op => op.id.task).Nodup) (fresh : ∀ op ∈ ops, .task op.id.task ∉ ids) :
    ∃ result, checkOperators ops ids = .ok result := by
  induction ops generalizing ids with
  | nil => exact ⟨ids, rfl⟩
  | cons op rest ih =>
      obtain ⟨unlisted, distinctRest⟩ := List.nodup_cons.mp distinct
      rw [checkOperators, if_neg (fresh op List.mem_cons_self)]
      refine ih distinctRest fun other member known => ?_
      rcases List.mem_cons.mp known with same | known
      · exact unlisted (List.mem_map.mpr ⟨other, member, TopoID.task.inj same⟩)
      · exact fresh other (List.mem_cons_of_mem _ member) known

/-- Cubes of different names are accepted exactly when each of them has a proper name, a dimension and an aggregate. -/
theorem exists_checkCubes_iff {cubes : List CubeMeta} {pinned : List String} {ids : List TopoID}
    (distinct : (cubes.map CubeMeta.name).Nodup) (fresh : ∀ cube ∈ cubes, cube.name ∉ pinned) :
    (∃ result, checkCubes cubes pinned ids = .ok result) ↔ ∀ cube ∈ cubes, matchesCubeName cube.name = true ∧
      cube.schema.aggregates ≠ [] ∧ cube.schema.dimensions ≠ [] := by
  induction cubes generalizing pinned ids with
  | nil => exact iff_of_true ⟨ids, rfl⟩ nofun
  | cons cube rest ih =>
      obtain ⟨unlisted, distinctRest⟩ := List.nodup_cons.mp distinct
      have freshRest : ∀ other ∈ rest, other.name ∉ cube.name :: pinned := by
        intro other member known
        rcases List.mem_cons.mp known with same | known
        · exact unlisted (List.mem_map.mpr ⟨other, member, same⟩)
        · exact fresh other (List.mem_cons_of_mem _ member) known
      have later : (∃ result, checkCubes rest (cube.name :: pinned) (.cube cube.name :: ids) = .ok result) ↔ _ :=
        ih distinctRest freshRest
      rw [List.forall_mem_cons, ← later, checkCubes]
      by_cases named : matchesCubeName cube.name = true
      · by_cases aggregates : cube.schema.aggregates = []
        · simp [named, aggregates]
        · by_cases dimensions : cube.schema.dimensions = []
          · simp [named, aggregates, dimensions]
          · simp [named, aggregates, dimensions, fresh cube List.mem_cons_self]
      · simp [named]

theorem validateRawTopo_eq_iff {alter : AlterTopo} : validateRawTopo alter = "" ↔ checkRawTopo alter = .ok () := by
  constructor
  · exact checkRawTopo_of_valid
  · intro checked
    rw [validateRawTopo, checked]

end QueryPlanner

namespace GraphBuilder

variable {g : GraphBuilder} {contents : GraphContents} {order : DeployOrder g}

theorem isSome_mapM_iff {A B : Type} {f : A → Option B} {items : List A} :
    (items.mapM f).isSome ↔ ∀ item ∈ items, (f item).isSome := by
  induction items with
  | nil => exact iff_of_true rfl nofun
  | cons item rest ih =>
      rw [List.forall_mem_cons, ← ih, List.mapM_cons]
      cases f item <;> cases rest.mapM f <;> simp

theorem eq_map_of_mapM {A B : Type} {f : A → Option B} {items : List A} {results : List B} (value : A → B)
    (values : ∀ item result, f item = some result → result = value item) (made : items.mapM f = some results) :
    results = items.map value := by
  induction items generalizing results with
  | nil => exact (Option.some.inj made).symm
  | cons item rest ih =>
      rw [List.mapM_cons] at made
      obtain ⟨result, first, made⟩ := Option.bind_eq_some_iff.mp made
      obtain ⟨others, later, made⟩ := Option.bind_eq_some_iff.mp made
      obtain rfl := Option.some.inj made
      rw [List.map_cons, values item result first, ih later]

/-- A time subscriber reads one cube, which has a string dimension for each value of its filter, and the library accepts
these values. -/
def Readable (g : GraphBuilder) (contents : GraphContents) (id : ℕ) : Prop :=
  ∃ pred, (∀ p, g.Joins p id ↔ p = pred) ∧ g.isCube pred = true ∧
    (sliceTuple contents.accepts (contents.filter id) (contents.desc pred).dims (contents.filter id)).isSome

/-- The library accepts everything else that is written. The options of a time subscriber include the tuple of its
filter. -/
structure Fits (g : GraphBuilder) (contents : GraphContents) : Prop where
  operators : ∀ id dest cfg, g.destinations.get? id = some dest → dest.kind ≠ .cube →
    g.config contents id dest = some cfg → acceptsInt32 id = true ∧ contents.accepts (contents.opTypename id) = true ∧
      ∀ entry ∈ cfg, (entryPB contents entry).isSome
  cubes : ∀ id, g.isCube id = true → acceptsCube contents id = true
  policies : ∀ policy ∈ g.policies, ∀ op ∈ policy, acceptsInt32 (op : ℕ) = true

theorem Consistent.config_isSome_iff (consistent : g.Consistent) {id : ℕ} {dest : GraphDestination}
    (found : g.destinations.get? id = some dest) :
    (g.config contents id dest).isSome ↔ (dest.kind = .timeSubscriber → g.Readable contents id) := by
  have member (p : ℕ) : p ∈ dest.preds.sort (· ≤ ·) ↔ g.Joins p id :=
    (Finset.mem_sort _).trans (consistent.preds id dest found p)
  rw [config]
  by_cases kind : dest.kind = .timeSubscriber
  · rw [if_pos kind, forall_prop_of_true kind]
    have distinct : (dest.preds.sort (· ≤ ·)).Nodup := Finset.sort_nodup _ _
    generalize dest.preds.sort (· ≤ ·) = preds at member distinct
    match preds with
    | [] =>
        refine iff_of_false nofun ?_
        rintro ⟨pred, only, -⟩
        exact List.not_mem_nil ((member pred).mpr ((only pred).mpr rfl))
    | [pred] =>
        have only (p : ℕ) : g.Joins p id ↔ p = pred := by rw [← member, List.mem_singleton]
        by_cases cube : g.isCube pred = true
        · simp only [cube, if_true, Option.isSome_map]
          constructor
          · intro slice
            exact ⟨pred, only, cube, slice⟩
          · rintro ⟨other, same, -, slice⟩
            obtain rfl : pred = other := (same pred).mp ((only pred).mpr rfl)
            exact slice
        · simp only [cube]
          refine iff_of_false nofun ?_
          rintro ⟨other, same, otherCube, -⟩
          obtain rfl : pred = other := (same pred).mp ((only pred).mpr rfl)
          exact cube otherCube
    | first :: second :: rest =>
        refine iff_of_false nofun ?_
        rintro ⟨pred, only, -⟩
        have one : first = pred := (only first).mp ((member first).mp List.mem_cons_self)
        have two : second = pred := (only second).mp ((member second).mp (List.mem_cons_of_mem _ List.mem_cons_self))
        exact (List.nodup_cons.mp distinct).1 (one.trans two.symm ▸ List.mem_cons_self)
  · rw [if_neg kind]
    exact iff_of_true rfl fun same => absurd same kind

theorem operatorPB_eq_some {id : ℕ} {op : TaskMeta} (made : g.operatorPB contents id = some op) :
    op.id.task = (id : ℤ) := by
  simp only [operatorPB, Option.bind_eq_bind, Option.bind_eq_some_iff, Option.ite_none_right_eq_some] at made
  obtain ⟨dest, -, cfg, -, entries, -, -, made⟩ := made
  exact (Option.some.inj made) ▸ rfl

/-- The operators of the request have the ids of the graph. -/
theorem tasks_of_mapM {ids : List ℕ} {toStart : List TaskMeta}
    (made : ids.mapM (g.operatorPB contents) = some toStart) :
    toStart.map (fun op => op.id.task) = ids.map fun id : ℕ => (id : ℤ) := by
  induction ids generalizing toStart with
  | nil => exact (Option.some.inj made) ▸ rfl
  | cons id rest ih =>
      rw [List.mapM_cons] at made
      obtain ⟨op, first, made⟩ := Option.bind_eq_some_iff.mp made
      obtain ⟨ops, later, made⟩ := Option.bind_eq_some_iff.mp made
      obtain rfl := Option.some.inj made
      rw [List.map_cons, List.map_cons, operatorPB_eq_some first, ih later]

theorem Consistent.operatorPB_isSome_iff (consistent : g.Consistent) {id : ℕ} {dest : GraphDestination}
    (found : g.destinations.get? id = some dest) :
    (g.operatorPB contents id).isSome ↔ (dest.kind = .timeSubscriber → g.Readable contents id) ∧
      ∀ cfg, g.config contents id dest = some cfg → acceptsInt32 id = true ∧
        contents.accepts (contents.opTypename id) = true ∧ ∀ entry ∈ cfg, (entryPB contents entry).isSome := by
  rw [← consistent.config_isSome_iff found]
  simp only [operatorPB, found, Option.bind_eq_bind, Option.bind_some]
  cases g.config contents id dest with
  | none => simp
  | some cfg =>
      simp only [Option.bind_some, Option.isSome_some, true_and, Option.some.injEq, forall_eq', ← isSome_mapM_iff]
      cases cfg.mapM (entryPB contents) with
      | none => simp
      | some entries =>
          rw [Option.bind_some, Option.isSome_ite, Bool.and_eq_true]
          exact (and_iff_left rfl).symm.trans and_assoc

theorem edgePB_isSome_iff {edge : ℕ × ℕ} : (g.edgePB contents edge).isSome ↔
    g.Has edge.1 ∧ g.Has edge.2 ∧ g.acceptsEnd contents edge.1 ∧ g.acceptsEnd contents edge.2 := by
  rw [edgePB, Option.isSome_ite]

theorem cubePB_isSome_iff {id : ℕ} : (g.cubePB contents id).isSome ↔ acceptsCube contents id = true := by
  rw [cubePB, Option.isSome_ite]

theorem policyPB_isSome_iff {op : ℕ} : (policyPB op).isSome ↔ acceptsInt32 op = true := by
  rw [policyPB, Option.isSome_ite]

theorem addToPB_isSome : (g.addToPB contents order).isSome ↔
    (∀ id ∈ order.operators, (g.operatorPB contents id).isSome) ∧
      (∀ id ∈ order.cubes, (g.cubePB contents id).isSome) ∧
      (∀ edge ∈ order.edges.filter fun edge => !g.isDummy edge, (g.edgePB contents edge).isSome) ∧
      ∀ policy ∈ g.policies, (policy.mapM policyPB).isSome := by
  rw [addToPB, ← isSome_mapM_iff, ← isSome_mapM_iff, ← isSome_mapM_iff, ← isSome_mapM_iff]
  cases order.operators.mapM (g.operatorPB contents) with
  | none => simp
  | some toStart =>
      cases order.cubes.mapM (g.cubePB contents) with
      | none => simp
      | some toCreate =>
          cases (order.edges.filter fun edge => !g.isDummy edge).mapM (g.edgePB contents) with
          | none => simp
          | some edges => cases g.policies.mapM fun policy => policy.mapM policyPB <;> simp

/-- This is what a request consists of. -/
theorem addToPB_cases {alter : AlterTopo} (made : g.addToPB contents order = some alter) :
    ∃ toStart, order.operators.mapM (g.operatorPB contents) = some toStart ∧
      alter = ⟨0, toStart, order.cubes.map (g.cubeMeta contents), [], [],
        g.externalEdges ++ (order.edges.filter fun edge => !g.isDummy edge).map (g.pbEdge contents),
        g.policies.map fun policy => policy.map policyID⟩ := by
  simp only [addToPB, Option.bind_eq_bind, Option.bind_eq_some_iff] at made
  obtain ⟨toStart, ops, toCreate, cubes, edges, links, policies, named, made⟩ := made
  obtain rfl := Option.some.inj made
  have cubes := eq_map_of_mapM (g.cubeMeta contents) (fun id meta_ filled =>
    (Option.some.inj (Option.ite_none_right_eq_some.mp filled).2).symm) cubes
  have links := eq_map_of_mapM (g.pbEdge contents) (fun edge filled made =>
    (Option.some.inj (Option.ite_none_right_eq_some.mp made).2).symm) links
  have named := eq_map_of_mapM (fun policy : List ℕ => policy.map policyID)
    (fun policy ids made => eq_map_of_mapM policyID (fun op id filled =>
      (Option.some.inj (Option.ite_none_right_eq_some.mp filled).2).symm) made) named
  exact ⟨toStart, ops, by rw [cubes, links, named]⟩

/-- The ends of an edge have been written for their destinations already. -/
theorem Fits.acceptsEnd (fits : g.Fits contents) {id : ℕ} (there : g.Has id)
    (configured : ∀ dest, g.destinations.get? id = some dest → dest.kind ≠ .cube → (g.config contents id dest).isSome) :
    g.acceptsEnd contents id = true := by
  rw [GraphBuilder.acceptsEnd]
  split_ifs with cube
  · have written := fits.cubes id cube
    simp only [acceptsCube, Bool.and_eq_true] at written
    exact written.1.1
  · obtain ⟨dest, found⟩ := there.exists_dest
    have kind : dest.kind ≠ .cube := fun same => cube (isCube_iff.mpr ⟨dest, found, same⟩)
    obtain ⟨cfg, made⟩ := Option.isSome_iff_exists.mp (configured dest found kind)
    exact (fits.operators id dest cfg found kind made).1

/-- The request is complete unless a time subscriber cannot be read or the library refuses what is written. -/
theorem Consistent.addToPB_isSome_iff (consistent : g.Consistent) :
    (g.addToPB contents order).isSome ↔
      (∀ id dest, g.destinations.get? id = some dest → dest.kind = .timeSubscriber → g.Readable contents id) ∧
        g.Fits contents := by
  rw [addToPB_isSome]
  constructor
  · rintro ⟨operators, cubes, -, policies⟩
    have every {id : ℕ} {dest : GraphDestination} (found : g.destinations.get? id = some dest)
        (kind : dest.kind ≠ .cube) :=
      (consistent.operatorPB_isSome_iff found).mp (operators id ((order.mem_operators id).mpr ⟨dest, found, kind⟩))
    refine ⟨fun id dest found kind => (every found (by rw [kind]; nofun)).1 kind, ?_, ?_, ?_⟩
    · exact fun id dest cfg found kind made => (every found kind).2 cfg made
    · exact fun id cube => cubePB_isSome_iff.mp (cubes id (order.mem_cubes_iff.mpr cube))
    · exact fun policy member op listed => policyPB_isSome_iff.mp (isSome_mapM_iff.mp (policies policy member) op listed)
  · rintro ⟨readable, fits⟩
    have accepted {id : ℕ} (there : g.Has id) : g.acceptsEnd contents id = true :=
      fits.acceptsEnd there fun dest found kind => (consistent.config_isSome_iff found).mpr (readable id dest found)
    refine ⟨?_, ?_, ?_, ?_⟩
    · intro id listed
      obtain ⟨dest, found, kind⟩ := (order.mem_operators id).mp listed
      exact (consistent.operatorPB_isSome_iff found).mpr
        ⟨readable id dest found, fun cfg made => fits.operators id dest cfg found kind made⟩
    · exact fun id listed => cubePB_isSome_iff.mpr (fits.cubes id (order.mem_cubes_iff.mp listed))
    · intro edge member
      have ends := consistent.inside _ _ ((order.mem_edges edge).mp (List.mem_filter.mp member).1)
      exact edgePB_isSome_iff.mpr ⟨ends.1, ends.2, accepted ends.1, accepted ends.2⟩
    · exact fun policy member => isSome_mapM_iff.mpr fun op listed =>
        policyPB_isSome_iff.mpr (fits.policies policy member op listed)

theorem edgeSource_pbEdge (g : GraphBuilder) (contents : GraphContents) (edge : ℕ × ℕ) :
    QueryPlanner.edgeSource (g.pbEdge contents edge) = g.topoID contents edge.1 := by
  rw [QueryPlanner.edgeSource, pbEdge, topoID]
  cases g.isCube edge.1 <;> rfl

theorem edgeDest_pbEdge (g : GraphBuilder) (contents : GraphContents) (edge : ℕ × ℕ) :
    QueryPlanner.edgeDest (g.pbEdge contents edge) = g.topoID contents edge.2 := by
  rw [QueryPlanner.edgeDest, pbEdge, topoID]
  cases g.isCube edge.2 <;> rfl

theorem DeployOrder.mem_edges_iff (order : DeployOrder g) {a b : ℕ} :
    (a, b) ∈ order.edges.filter (fun edge => !g.isDummy edge) ↔
      ∃ aux, g.edges.get? (toLex (a, b)) = some aux ∧ aux.dummy = false := by
  rw [List.mem_filter, order.mem_edges, Joins, isDummy]
  cases g.edges.get? (toLex (a, b)) with
  | none => simp
  | some aux => simp

theorem topoID_mem_iff {alter : AlterTopo} (made : g.addToPB contents order = some alter) (n : TopoID) :
    n ∈ alter.ids ↔ ∃ id, g.Has id ∧ g.topoID contents id = n := by
  obtain ⟨toStart, ops, rfl⟩ := addToPB_cases made
  have tasks := tasks_of_mapM ops
  cases n with
  | task task =>
      rw [AlterTopo.task_mem_ids]
      have listed : (∃ op ∈ toStart, op.id.task = task) ↔ ∃ id ∈ order.operators, (id : ℤ) = task := by
        rw [← List.mem_map, ← List.mem_map, tasks]
      refine listed.trans (exists_congr fun id => ?_)
      rw [order.mem_operators_iff, topoID]
      cases g.isCube id <;> simp
  | cube name =>
      rw [AlterTopo.cube_mem_ids]
      simp only [List.mem_map, exists_exists_and_eq_and, order.mem_cubes_iff, cubeMeta]
      refine exists_congr fun id => ?_
      rw [topoID]
      cases cube : g.isCube id with
      | false => simp
      | true => simp [has_of_isCube cube]

theorem edge_iff (external : ∀ edge ∈ g.externalEdges, IsExternal edge) {alter : AlterTopo}
    (made : g.addToPB contents order = some alter) (p n : TopoID) :
    (∃ edge ∈ alter.edges, edge.destAddr = none ∧ QueryPlanner.edgeSource edge = p ∧
      QueryPlanner.edgeDest edge = n) ↔
    ∃ a b aux, g.edges.get? (toLex (a, b)) = some aux ∧ aux.dummy = false ∧ g.topoID contents a = p ∧
      g.topoID contents b = n := by
  obtain ⟨toStart, -, rfl⟩ := addToPB_cases made
  constructor
  · rintro ⟨edge, member, plain, rfl, rfl⟩
    rcases List.mem_append.mp member with outside | inside
    · obtain ⟨operator, nodeid, rfl⟩ := external edge outside
      cases plain
    · obtain ⟨⟨a, b⟩, listed, rfl⟩ := List.mem_map.mp inside
      obtain ⟨aux, found, real⟩ := order.mem_edges_iff.mp listed
      exact ⟨a, b, aux, found, real, (edgeSource_pbEdge g contents (a, b)).symm,
        (edgeDest_pbEdge g contents (a, b)).symm⟩
  · rintro ⟨a, b, aux, found, real, rfl, rfl⟩
    have listed := order.mem_edges_iff.mpr ⟨aux, found, real⟩
    exact ⟨g.pbEdge contents (a, b), List.mem_append_right _ (List.mem_map_of_mem listed), rfl,
      edgeSource_pbEdge g contents (a, b), edgeDest_pbEdge g contents (a, b)⟩

/-- Everything but the cubes and the number of operators is as the controller wants it. -/
theorem Consistent.accepted_iff (consistent : g.Consistent) (external : ∀ edge ∈ g.externalEdges, IsExternal edge)
    {alter : AlterTopo} (made : g.addToPB contents order = some alter) :
    QueryPlanner.validateRawTopo alter = "" ↔ (∃ id, g.Has id ∧ g.isCube id = false) ∧
      ∀ id, g.isCube id = true → matchesName (contents.desc id).name.toList = true ∧ (contents.desc id).aggs ≠ [] ∧
        (contents.desc id).dims ≠ [] := by
  have members := topoID_mem_iff made
  obtain ⟨toStart, ops, rfl⟩ := addToPB_cases made
  have tasks := tasks_of_mapM ops
  have distinctTasks : (toStart.map fun op => op.id.task).Nodup := by
    rw [tasks]
    exact order.operators_nodup.map fun _ _ same => Int.ofNat_inj.mp same
  have distinctNames : ((order.cubes.map (g.cubeMeta contents)).map CubeMeta.name).Nodup := by
    rw [List.map_map]
    exact order.cubes_nodup.map fun _ _ same => qualifiedName_inj same
  obtain ⟨taskIDs, operators⟩ := QueryPlanner.exists_checkOperators distinctTasks fun _ _ => List.not_mem_nil
  have cubesFit : (∃ ids, QueryPlanner.checkCubes (order.cubes.map (g.cubeMeta contents)) [] taskIDs = .ok ids) ↔
      ∀ id, g.isCube id = true → matchesName (contents.desc id).name.toList = true ∧ (contents.desc id).aggs ≠ [] ∧
        (contents.desc id).dims ≠ [] := by
    rw [QueryPlanner.exists_checkCubes_iff distinctNames fun _ _ => List.not_mem_nil, List.forall_mem_map]
    refine forall_congr' fun id => ?_
    rw [order.mem_cubes_iff]
    simp [cubeMeta, matchesCubeName_qualifiedName]
  have operatorThere : toStart.isEmpty = false ↔ ∃ id, g.Has id ∧ g.isCube id = false := by
    have lengths : toStart.length = order.operators.length := by simpa using congrArg List.length tasks
    rw [List.isEmpty_eq_false_iff, ← List.length_pos_iff, lengths, List.length_pos_iff_exists_mem]
    exact exists_congr fun id => order.mem_operators_iff
  rw [← cubesFit, ← operatorThere, QueryPlanner.validateRawTopo_eq_iff, QueryPlanner.checkRawTopo]
  dsimp only
  rw [operators]
  cases empty : toStart.isEmpty with
  | true => simp
  | false =>
      constructor
      · intro checked
        obtain ⟨ids, accepted, -⟩ := Except.exists_of_bind_eq_ok checked
        exact ⟨rfl, ids, accepted⟩
      · rintro ⟨-, ids, accepted⟩
        obtain ⟨-, -, taskMembers⟩ := QueryPlanner.checkOperators_ok operators
        obtain ⟨-, -, -, cubeMembers⟩ := QueryPlanner.checkCubes_ok accepted
        have known {id : ℕ} (there : g.Has id) : g.topoID contents id ∈ ids := by
          have listed := (members (g.topoID contents id)).mpr ⟨id, there, rfl⟩
          rw [cubeMembers, taskMembers]
          simpa [AlterTopo.ids, AlterTopo.planNodes, getOid] using listed
        have fits : QueryPlanner.checkEdges ids (g.externalEdges ++
            (order.edges.filter fun edge => !g.isDummy edge).map (g.pbEdge contents)) = .ok () := by
          refine QueryPlanner.checkEdges_of_admitted fun edge member => ?_
          rcases List.mem_append.mp member with outside | inside
          · obtain ⟨operator, nodeid, rfl⟩ := external edge outside
            exact ⟨rfl, Or.inl ⟨rfl, rfl⟩⟩
          · obtain ⟨⟨a, b⟩, listed, rfl⟩ := List.mem_map.mp inside
            have ends := consistent.inside a b ((order.mem_edges (a, b)).mp (List.mem_filter.mp listed).1)
            refine ⟨?_, Or.inr ⟨rfl, ?_, ?_⟩⟩
            · simp only [pbEdge]
              cases g.isCube a <;> cases g.isCube b <;> rfl
            · rw [edgeSource_pbEdge]
              exact known ends.1
            · rw [edgeDest_pbEdge]
              exact known ends.2
        change (QueryPlanner.checkCubes (order.cubes.map (g.cubeMeta contents)) [] taskIDs).bind _ = _
        rw [accepted]
        exact fits

/-- The request names the destinations of the graph, each in its own way, and joins them by the edges that are not
dummies. The controller accepts it exactly if there is an operator and every cube has a proper name, a dimension and an
aggregate. -/
structure Deployed (g : GraphBuilder) (contents : GraphContents) (alter : AlterTopo) : Prop where
  distinct : ∀ first second, g.topoID contents first = g.topoID contents second → first = second
  nodes : ∀ n, n ∈ alter.ids ↔ ∃ id, g.Has id ∧ g.topoID contents id = n
  edges : ∀ p n, (∃ edge ∈ alter.edges, edge.destAddr = none ∧ QueryPlanner.edgeSource edge = p ∧
      QueryPlanner.edgeDest edge = n) ↔
    ∃ a b aux, g.edges.get? (toLex (a, b)) = some aux ∧ aux.dummy = false ∧ g.topoID contents a = p ∧
      g.topoID contents b = n
  accepted : QueryPlanner.validateRawTopo alter = "" ↔ (∃ id, g.Has id ∧ g.isCube id = false) ∧
    ∀ id, g.isCube id = true → matchesName (contents.desc id).name.toList = true ∧ (contents.desc id).aggs ≠ [] ∧
      (contents.desc id).dims ≠ []

/-- Deploying a graph fails exactly at a time subscriber that cannot be read or at a value that the library refuses, and
the controller sees the same graph. -/
theorem addToPB_deploys (g : GraphBuilder) (contents : GraphContents) (order : DeployOrder g)
    (reachable : system.Reachable g) :
    ((g.addToPB contents order).isSome ↔
      (∀ id dest, g.destinations.get? id = some dest → dest.kind = .timeSubscriber → g.Readable contents id) ∧
        g.Fits contents) ∧
    ∀ alter, g.addToPB contents order = some alter → g.Deployed contents alter := by
  have consistent : g.Consistent := consistent_of_reachable reachable
  have external := external_of_reachable reachable
  refine ⟨consistent.addToPB_isSome_iff, fun alter made => ?_⟩
  constructor
  · exact fun _ _ same => topoID_inj same
  · exact topoID_mem_iff made
  · exact edge_iff external made
  · exact consistent.accepted_iff external made

theorem nodup_keys (g : GraphBuilder) (keep : ℕ × GraphDestination → Bool) :
    ((g.destinations.entries.filter keep).map Prod.fst).Nodup := by
  rw [List.Nodup, List.pairwise_map]
  exact (g.destinations.sorted.filter _).imp fun less => less.ne

theorem mem_keys (keep : ℕ × GraphDestination → Bool) (id : ℕ) :
    id ∈ (g.destinations.entries.filter keep).map Prod.fst ↔
      ∃ dest, g.destinations.get? id = some dest ∧ keep (id, dest) = true := by
  rw [List.mem_map]
  constructor
  · rintro ⟨⟨key, dest⟩, member, rfl⟩
    obtain ⟨listed, kept⟩ := List.mem_filter.mp member
    exact ⟨dest, g.destinations.mem_entries_iff.mp listed, kept⟩
  · rintro ⟨dest, found, kept⟩
    exact ⟨(id, dest), List.mem_filter.mpr ⟨g.destinations.mem_entries_iff.mpr found, kept⟩, rfl⟩

/-- One order is that of the ids. -/
def byIds (g : GraphBuilder) : DeployOrder g where
  operators := (g.destinations.entries.filter fun entry => entry.2.kind ≠ .cube).map Prod.fst
  cubes := (g.destinations.entries.filter fun entry => entry.2.kind = .cube).map Prod.fst
  edges := g.edges.entries.map fun entry => ofLex entry.1
  operators_nodup := g.nodup_keys _
  cubes_nodup := g.nodup_keys _
  mem_operators := fun id => by simp [mem_keys]
  mem_cubes := fun id => by simp [mem_keys]
  mem_edges := fun edge => by
    rw [List.mem_map, Joins]
    constructor
    · rintro ⟨⟨key, aux⟩, member, rfl⟩
      exact Option.isSome_of_mem (g.edges.mem_entries_iff.mp member)
    · intro joins
      obtain ⟨aux, found⟩ := Option.isSome_iff_exists.mp joins
      exact ⟨(toLex edge, aux), g.edges.mem_entries_iff.mpr found, rfl⟩

/-- The cube counts by a string, and the subscriber asks for one of them. -/
def lineContents : GraphContents where
  opTypename := fun _ => "FileRead"
  cfg := fun _ => []
  filter := fun _ => [("url", "a")]
  desc := fun _ => ⟨"counts", [⟨"url", .string, 0⟩], [⟨"count", "count", 1⟩]⟩
  overwrite := fun _ => none
  serialize := fun _ => "\n\u0003\n\u0001a"
  accepts := fun text => text.toList.all fun c => c.toNat < 128

theorem addToPB_deploys_line : (line.addToPB lineContents line.byIds).isSome ∧
    ∀ alter, line.addToPB lineContents line.byIds = some alter → line.Deployed lineContents alter :=
  ⟨by decide +kernel, (addToPB_deploys line lineContents line.byIds line_reachable).2⟩

end GraphBuilder

end JetStream
