import JetStream.Control.LcaPairs
import JetStream.Control.Placement
import JetStream.Lib.Attempt

namespace JetStream

namespace AlterTopo

open QueryPlanner

/-- These are the ids of the operators and the cubes. -/
def ids (alter : AlterTopo) : List TopoID := alter.planNodes.map getOid

/-- An edge of the request leads from one node to the other. -/
def Leads (alter : AlterTopo) (p n : TopoID) : Prop := ∃ edge ∈ alter.edges, edgeSource edge = p ∧ edgeDest edge = n

/-- The root has no outgoing edge, every other node has exactly one, and there is no cycle. -/
structure FormsInTree (alter : AlterTopo) (root : TopoID) : Prop where
  root_mem : root ∈ alter.ids
  top : ∀ edge ∈ alter.edges, edgeSource edge ≠ root
  out : ∀ n ∈ alter.ids, n ≠ root → ∃ edge, (alter.edges.filter fun edge => edgeSource edge = n) = [edge]
  acyclic : ∀ n, ¬ Relation.TransGen alter.Leads n n

/-- Every id is defined once, and each edge joins two defined nodes without an address of its own. -/
structure IsClosed (alter : AlterTopo) : Prop where
  ids_nodup : alter.ids.Nodup
  named : ∀ name, .cube name ∈ alter.ids → name ≠ ""
  positive : ∀ task, .task task ∈ alter.ids → 0 < task
  single : ∀ edge ∈ alter.edges, edge.dest = none ∨ edge.destCube = none
  internal : ∀ edge ∈ alter.edges, edge.destAddr = none
  ends : ∀ edge ∈ alter.edges, edgeSource edge ∈ alter.ids ∧ edgeDest edge ∈ alter.ids

/-- Every id is defined once, and an edge has an address of its own or joins two defined nodes. -/
structure IsAccepted (alter : AlterTopo) : Prop where
  ids_nodup : alter.ids.Nodup
  named : ∀ name, .cube name ∈ alter.ids → name ≠ ""
  positive : ∀ task, .task task ∈ alter.ids → 0 < task
  single : ∀ edge ∈ alter.edges, edge.dest = none ∨ edge.destCube = none
  external : ∀ edge ∈ alter.edges, edge.destAddr ≠ none → edge.dest = none ∧ edge.destCube = none
  ends : ∀ edge ∈ alter.edges, edge.destAddr = none → edgeSource edge ∈ alter.ids ∧ edgeDest edge ∈ alter.ids

theorem IsClosed.isAccepted {alter : AlterTopo} (closed : alter.IsClosed) : alter.IsAccepted where
  ids_nodup := closed.ids_nodup
  named := closed.named
  positive := closed.positive
  single := closed.single
  external edge member addressed := absurd (closed.internal edge member) addressed
  ends edge member _ := closed.ends edge member

theorem IsAccepted.isClosed {alter : AlterTopo} (accepted : alter.IsAccepted)
    (internal : ∀ edge ∈ alter.edges, edge.destAddr = none) : alter.IsClosed where
  ids_nodup := accepted.ids_nodup
  named := accepted.named
  positive := accepted.positive
  single := accepted.single
  internal := internal
  ends edge member := accepted.ends edge member (internal edge member)

theorem mem_ids {alter : AlterTopo} {id : TopoID} : id ∈ alter.ids ↔ ∃ node ∈ alter.planNodes, getOid node = id :=
  List.mem_map

theorem mem_planNodes_operator {alter : AlterTopo} {op : TaskMeta} :
    .operator op ∈ alter.planNodes ↔ op ∈ alter.toStart := by
  simp [planNodes]

theorem mem_planNodes_cube {alter : AlterTopo} {cube : CubeMeta} :
    .cube cube ∈ alter.planNodes ↔ cube ∈ alter.toCreate := by
  simp [planNodes]

theorem task_mem_ids {alter : AlterTopo} {task : ℤ} :
    .task task ∈ alter.ids ↔ ∃ op ∈ alter.toStart, op.id.task = task := by
  simp [ids, planNodes, getOid]

theorem cube_mem_ids {alter : AlterTopo} {name : String} :
    .cube name ∈ alter.ids ↔ ∃ cube ∈ alter.toCreate, cube.name = name := by
  simp [ids, planNodes, getOid]

end AlterTopo

namespace QueryPlanner

theorem nodup_map_cons {α β : Type} {name : α → β} {first : α} {rest : List α} (distinct : (rest.map name).Nodup)
    (different : ∀ other ∈ rest, name other ≠ name first) : ((first :: rest).map name).Nodup := by
  refine List.nodup_cons.mpr ⟨fun member => ?_, distinct⟩
  obtain ⟨other, inside, same⟩ := List.mem_map.mp member
  exact different other inside same

/-- The nodes that are listed behind the first one are listed with it. -/
theorem mem_or_exists_cons {α β : Type} (name : α → β) (first : α) (rest : List α) (known : List β) (id : β) :
    (id ∈ name first :: known ∨ ∃ other ∈ rest, name other = id) ↔
      id ∈ known ∨ ∃ other ∈ first :: rest, name other = id := by
  simp only [List.mem_cons, exists_eq_or_imp]
  rw [or_assoc, or_left_comm, eq_comm]

theorem checkOperators_ok {ops : List TaskMeta} {ids result : List TopoID}
    (checked : checkOperators ops ids = .ok result) :
    (ops.map fun op => op.id.task).Nodup ∧ (∀ op ∈ ops, .task op.id.task ∉ ids) ∧
      ∀ id, id ∈ result ↔ id ∈ ids ∨ ∃ op ∈ ops, .task op.id.task = id := by
  induction ops generalizing ids with
  | nil =>
      obtain rfl : ids = result := Except.ok.inj checked
      simp
  | cons op rest ih =>
      rw [checkOperators] at checked
      by_cases known : .task op.id.task ∈ ids
      · rw [if_pos known] at checked
        cases checked
      · rw [if_neg known] at checked
        obtain ⟨distinct, fresh, members⟩ := ih checked
        refine ⟨nodup_map_cons distinct fun other inside same => ?_, List.forall_mem_cons.mpr ⟨known, ?_⟩, fun id => ?_⟩
        · exact fresh other inside (by rw [same]; exact List.mem_cons_self)
        · intro other member inside
          exact fresh other member (List.mem_cons_of_mem _ inside)
        · rw [members]
          exact mem_or_exists_cons (fun op : TaskMeta => TopoID.task op.id.task) op rest ids id

theorem checkCubes_ok {cubes : List CubeMeta} {pinned : List String} {ids result : List TopoID}
    (checked : checkCubes cubes pinned ids = .ok result) :
    (cubes.map CubeMeta.name).Nodup ∧ (∀ cube ∈ cubes, cube.name ∉ pinned) ∧
      (∀ cube ∈ cubes, matchesCubeName cube.name = true) ∧
      ∀ id, id ∈ result ↔ id ∈ ids ∨ ∃ cube ∈ cubes, .cube cube.name = id := by
  induction cubes generalizing pinned ids with
  | nil =>
      obtain rfl : ids = result := Except.ok.inj checked
      simp
  | cons cube rest ih =>
      rw [checkCubes] at checked
      split_ifs at checked with invalid noAggregates noDimensions known
      obtain ⟨distinct, fresh, matching, members⟩ := ih checked
      refine ⟨nodup_map_cons distinct fun other inside same => ?_, List.forall_mem_cons.mpr ⟨known, ?_⟩,
        List.forall_mem_cons.mpr ⟨by simpa using invalid, matching⟩, fun id => ?_⟩
      · exact fresh other inside (by rw [same]; exact List.mem_cons_self)
      · intro other member inside
        exact fresh other member (List.mem_cons_of_mem _ inside)
      · rw [members]
        exact mem_or_exists_cons (fun cube : CubeMeta => TopoID.cube cube.name) cube rest ids id

theorem checkEdges_ok {ids : List TopoID} {edges : List Edge} (checked : checkEdges ids edges = .ok ()) :
    ∀ edge ∈ edges, (edge.dest = none ∨ edge.destCube = none) ∧
      (edge.destAddr ≠ none → edge.dest = none ∧ edge.destCube = none) ∧
      (edge.destAddr = none → edgeSource edge ∈ ids ∧ edgeDest edge ∈ ids) := by
  induction edges with
  | nil => simp
  | cons edge rest ih =>
      rw [checkEdges] at checked
      rw [List.forall_mem_cons]
      have single
          (both : ¬ (edge.src.isSome && edge.srcCube.isSome || edge.dest.isSome && edge.destCube.isSome) = true) :
          edge.dest = none ∨ edge.destCube = none := by
        cases first : edge.dest <;> cases second : edge.destCube <;> simp_all
      split_ifs at checked with both external joined source dest
      · refine ⟨⟨single both, fun _ => ?_, fun missing => by simp [missing] at external⟩, ih checked⟩
        simpa using joined
      · refine ⟨⟨single both, fun addressed => ?_, fun _ => ⟨source, dest⟩⟩, ih checked⟩
        exact absurd (Option.isSome_iff_ne_none.mpr addressed) external

theorem checkOperators_message {ops : List TaskMeta} {ids : List TopoID} {message : String}
    (refused : checkOperators ops ids = .error message) : message ≠ "" := by
  induction ops generalizing ids with
  | nil => cases refused
  | cons op rest ih =>
      rw [checkOperators] at refused
      split_ifs at refused
      · rintro rfl
        simp [toString, String.append_eq_empty_iff] at refused
      · exact ih refused

theorem checkCubes_message {cubes : List CubeMeta} {pinned : List String} {ids : List TopoID} {message : String}
    (refused : checkCubes cubes pinned ids = .error message) : message ≠ "" := by
  induction cubes generalizing pinned ids with
  | nil => cases refused
  | cons cube rest ih =>
      rw [checkCubes] at refused
      split_ifs at refused
      case neg => exact ih refused
      all_goals
        rintro rfl
        simp [toString, String.append_eq_empty_iff] at refused

theorem checkEdges_message {ids : List TopoID} {edges : List Edge} {message : String}
    (refused : checkEdges ids edges = .error message) : message ≠ "" := by
  induction edges with
  | nil => cases refused
  | cons edge rest ih =>
      rw [checkEdges] at refused
      split_ifs at refused
      all_goals first
        | exact ih refused
        | rintro rfl
          simp [toString, String.append_eq_empty_iff] at refused

/-- Every error has a text, so an empty answer means that all checks passed. -/
theorem checkRawTopo_of_valid {alter : AlterTopo} (valid : validateRawTopo alter = "") :
    checkRawTopo alter = .ok () := by
  rw [validateRawTopo] at valid
  cases checked : checkRawTopo alter with
  | ok => rfl
  | error message =>
      simp only [checked] at valid
      rw [checkRawTopo] at checked
      split_ifs at checked
      · obtain rfl := Except.error.inj checked
        exact absurd valid (by decide)
      · cases operators : checkOperators alter.toStart [] with
        | error first =>
            rw [operators] at checked
            obtain rfl : first = message := Except.error.inj checked
            exact absurd valid (checkOperators_message operators)
        | ok tasks =>
            rw [operators] at checked
            replace checked : (checkCubes alter.toCreate [] tasks).bind (fun ids => checkEdges ids alter.edges) =
              .error message := checked
            cases cubes : checkCubes alter.toCreate [] tasks with
            | error first =>
                rw [cubes] at checked
                obtain rfl : first = message := Except.error.inj checked
                exact absurd valid (checkCubes_message cubes)
            | ok ids =>
                rw [cubes] at checked
                exact absurd valid (checkEdges_message checked)

/-- The validation leaves only the numbers of operators and the sources of external edges unchecked. -/
theorem isAccepted_of_valid {alter : AlterTopo} (valid : validateRawTopo alter = "")
    (positive : ∀ op ∈ alter.toStart, 0 < op.id.task) : alter.IsAccepted := by
  have checked := checkRawTopo_of_valid valid
  rw [checkRawTopo] at checked
  split_ifs at checked
  obtain ⟨tasks, operators, checked⟩ := Except.exists_of_bind_eq_ok checked
  obtain ⟨ids, cubes, checked⟩ := Except.exists_of_bind_eq_ok checked
  obtain ⟨tasksDistinct, -, tasksMembers⟩ := checkOperators_ok operators
  obtain ⟨namesDistinct, -, named, members⟩ := checkCubes_ok cubes
  have edgesChecked := checkEdges_ok checked
  have same (id : TopoID) : id ∈ ids ↔ id ∈ alter.ids := by
    rw [members, tasksMembers]
    simp [AlterTopo.ids, AlterTopo.planNodes, getOid]
  refine ⟨?_, ?_, ?_, fun edge member => (edgesChecked edge member).1,
    fun edge member => (edgesChecked edge member).2.1, ?_⟩
  · rw [AlterTopo.ids, AlterTopo.planNodes, List.map_append, List.map_map, List.map_map, List.nodup_append]
    refine ⟨?_, ?_, ?_⟩
    · have distinct := tasksDistinct.map (f := TopoID.task) fun _ _ => TopoID.task.inj
      rwa [List.map_map] at distinct
    · have distinct := namesDistinct.map (f := TopoID.cube) fun _ _ => TopoID.cube.inj
      rwa [List.map_map] at distinct
    · intro first member second other
      obtain ⟨op, -, rfl⟩ := List.mem_map.mp member
      obtain ⟨cube, -, rfl⟩ := List.mem_map.mp other
      exact fun same => TopoID.noConfusion same
  · intro name known
    obtain ⟨cube, member, rfl⟩ := AlterTopo.cube_mem_ids.mp known
    intro nameless
    have matching := named cube member
    rw [nameless] at matching
    exact absurd matching (by decide)
  · intro task known
    obtain ⟨op, member, rfl⟩ := AlterTopo.task_mem_ids.mp known
    exact positive op member
  · intro edge member internal
    rw [← same, ← same]
    exact (edgesChecked edge member).2.2 internal

theorem isClosed_of_valid {alter : AlterTopo} (valid : validateRawTopo alter = "")
    (positive : ∀ op ∈ alter.toStart, 0 < op.id.task) (internal : ∀ edge ∈ alter.edges, edge.destAddr = none) :
    alter.IsClosed :=
  (isAccepted_of_valid valid positive).isClosed internal

end QueryPlanner

namespace AlterTopo

open QueryPlanner

/-- The new identifier changes neither the ids nor the ends of the edges. -/
theorem ids_overwriteCompIds (alter : AlterTopo) (compID : ℤ) : (overwriteCompIds alter compID).ids = alter.ids := by
  simp [ids, planNodes, overwriteCompIds, getOid, Function.comp_def, TaskID.task]

theorem IsAccepted.overwriteCompIds {alter : AlterTopo} (accepted : alter.IsAccepted) (compID : ℤ) :
    (overwriteCompIds alter compID).IsAccepted where
  ids_nodup := by rw [ids_overwriteCompIds]; exact accepted.ids_nodup
  named := by rw [ids_overwriteCompIds]; exact accepted.named
  positive := by rw [ids_overwriteCompIds]; exact accepted.positive
  single := List.forall_mem_map.mpr accepted.single
  external := List.forall_mem_map.mpr accepted.external
  ends := by
    rw [ids_overwriteCompIds]
    exact List.forall_mem_map.mpr accepted.ends

theorem IsClosed.overwriteCompIds {alter : AlterTopo} (closed : alter.IsClosed) (compID : ℤ) :
    (overwriteCompIds alter compID).IsClosed :=
  (closed.isAccepted.overwriteCompIds compID).isClosed (List.forall_mem_map.mpr closed.internal)

theorem leads_overwriteCompIds (alter : AlterTopo) (compID : ℤ) :
    (QueryPlanner.overwriteCompIds alter compID).Leads = alter.Leads := by
  ext p n
  simp only [Leads, QueryPlanner.overwriteCompIds, List.mem_map, exists_exists_and_eq_and]
  rfl

theorem FormsInTree.overwriteCompIds {alter : AlterTopo} {root : TopoID} (tree : alter.FormsInTree root) (compID : ℤ) :
    (overwriteCompIds alter compID).FormsInTree root where
  root_mem := by rw [ids_overwriteCompIds]; exact tree.root_mem
  top := List.forall_mem_map.mpr tree.top
  out := by
    rw [ids_overwriteCompIds]
    intro n member other
    obtain ⟨edge, only⟩ := tree.out n member other
    refine ⟨{ edge with computation := compID }, ?_⟩
    rw [QueryPlanner.overwriteCompIds, List.filter_map]
    exact congrArg (List.map _) only
  acyclic := by rw [leads_overwriteCompIds]; exact tree.acyclic

/-- The two ends of an edge. -/
def edgeEnds (edge : JetStream.Edge) : TopoID × TopoID := (edgeSource edge, edgeDest edge)

/-- These are the ends of the edges that stay inside the request. -/
def internalEnds (alter : AlterTopo) : List (TopoID × TopoID) :=
  (alter.edges.filter fun edge => edge.destAddr.isNone).map edgeEnds

/-- These nodes have no incoming edge. -/
def entrances (alter : AlterTopo) : List TopoID := alter.ids.filter fun n => n ∉ alter.internalEnds.map Prod.snd

/-- These nodes have no outgoing edge. -/
def exits (alter : AlterTopo) : List TopoID := alter.ids.filter fun n => n ∉ alter.internalEnds.map Prod.fst

/-- The fields of an edge between defined nodes hold no default values. -/
theorem IsAccepted.edge_read {alter : AlterTopo} (accepted : alter.IsAccepted) {e : JetStream.Edge}
    (member : e ∈ alter.edges) (internal : e.destAddr = none) :
    ¬ (e.destCube.getD "" = "" ∧ e.dest.getD 0 = 0) ∧
      (if e.src.getD 0 ≠ 0 then TopoID.task (e.src.getD 0) else .cube (e.srcCube.getD "")) = edgeSource e ∧
      (if e.destCube.getD "" ≠ "" then TopoID.cube (e.destCube.getD "") else .task (e.dest.getD 0)) = edgeDest e := by
  obtain ⟨source, dest⟩ := accepted.ends e member internal
  refine ⟨?_, ?_, ?_⟩
  · rintro ⟨nameless, zero⟩
    cases known : e.dest with
    | none =>
        rw [edgeDest, known] at dest
        exact accepted.named _ dest nameless
    | some task =>
        rw [edgeDest, known] at dest
        rw [known] at zero
        exact (accepted.positive _ dest).ne' zero
  · cases known : e.src with
    | none => simp [edgeSource, known]
    | some task =>
        rw [edgeSource, known] at source
        simp [edgeSource, known, (accepted.positive _ source).ne']
  · cases known : e.dest with
    | none =>
        rw [edgeDest, known] at dest
        simp only [edgeDest, known, ne_eq, accepted.named _ dest, not_false_eq_true, if_true]
    | some task =>
        have missing : e.destCube = none := (accepted.single e member).resolve_left (by simp [known])
        simp [edgeDest, known, missing]

/-- The graph has the edges that stay inside the request. -/
theorem IsAccepted.readEdges {alter : AlterTopo} (accepted : alter.IsAccepted) (edges : List JetStream.Edge)
    (listed : edges ⊆ alter.edges) :
    ∃ inside, JSGraph.readEdges alter.ids edges =
      .ok ⟨(edges.filter fun edge => edge.destAddr.isNone).map edgeEnds, inside⟩ := by
  induction edges with
  | nil => exact ⟨by simp, rfl⟩
  | cons e rest ih =>
      obtain ⟨member, others⟩ := List.cons_subset.mp listed
      obtain ⟨inside, read⟩ := ih others
      cases addressed : e.destAddr with
      | none =>
          obtain ⟨joined, source, dest⟩ := accepted.edge_read member addressed
          have known := accepted.ends e member addressed
          simp only [List.filter_cons, addressed, Option.isNone_none, if_true, List.map_cons]
          refine ⟨List.forall_mem_cons.mpr ⟨known, inside⟩, ?_⟩
          simp only [JSGraph.readEdges, if_neg joined, source, dest, dif_pos known, read]
          rfl
      | some address =>
          obtain ⟨noDest, noCube⟩ := accepted.external e member (by simp [addressed])
          simp only [List.filter_cons, addressed, Option.isNone_some, Bool.false_eq_true, if_false]
          refine ⟨inside, ?_⟩
          simp [JSGraph.readEdges, noDest, noCube, read]

/-- The graph of an accepted request has its ids as nodes, and a request without an entrance or an exit is rejected. -/
theorem IsAccepted.init {alter : AlterTopo} (accepted : alter.IsAccepted) (order : HashOrder) :
    (alter.entrances ≠ [] ∧ alter.exits ≠ [] ∧ ∃ g, JSGraph.init order alter = .ok g ∧ g.nodes = alter.ids ∧
      g.edges = alter.internalEnds ∧ g.sources = order.ids alter.entrances ∧ g.sinks = order.ids alter.exits) ∨
    (alter.entrances = [] ∨ alter.exits = []) ∧ ∃ message, JSGraph.init order alter = .error (.schemaError message) := by
  have nodes : (alter.planNodes.map getOid).dedup = alter.ids := List.dedup_eq_self.mpr accepted.ids_nodup
  obtain ⟨inside, read⟩ : ∃ inside, JSGraph.readEdges (alter.planNodes.map getOid).dedup alter.edges =
      .ok ⟨alter.internalEnds, inside⟩ := by
    rw [nodes]
    exact accepted.readEdges alter.edges (List.Subset.refl _)
  have sources : order.ids ((alter.planNodes.map getOid).dedup.filter
      fun n => n ∉ alter.internalEnds.map Prod.snd) = order.ids alter.entrances := by rw [nodes]; rfl
  have sinks : order.ids ((alter.planNodes.map getOid).dedup.filter
      fun n => n ∉ alter.internalEnds.map Prod.fst) = order.ids alter.exits := by rw [nodes]; rfl
  have listed (l : List TopoID) : order.ids l = [] ↔ l = [] :=
    ⟨fun none => List.nil_perm.mp (none ▸ order.ids_perm l), fun none => List.perm_nil.mp (none ▸ order.ids_perm l)⟩
  have same : order.ids ((alter.planNodes.map getOid).dedup.filter fun n => n ∉ alter.internalEnds.map Prod.snd) ≠ [] ∧
      order.ids ((alter.planNodes.map getOid).dedup.filter fun n => n ∉ alter.internalEnds.map Prod.fst) ≠ [] ↔
      alter.entrances ≠ [] ∧ alter.exits ≠ [] := by
    rw [sources, sinks, ne_eq, ne_eq, listed, listed]
  by_cases ends : alter.entrances ≠ [] ∧ alter.exits ≠ []
  · refine Or.inl ⟨ends.1, ends.2, ?_⟩
    have found := same.mpr ends
    cases result : JSGraph.init order alter with
    | error e =>
        simp only [JSGraph.init, read, Except.bind, dif_pos found] at result
        cases result
    | ok g =>
        simp only [JSGraph.init, read, Except.bind, dif_pos found] at result
        obtain rfl := Except.ok.inj result
        exact ⟨_, rfl, nodes, rfl, sources, sinks⟩
  · refine Or.inr ⟨(not_and_or.mp ends).imp not_not.mp not_not.mp,
      "Computation graph has no sources or sinks (just cycles)", ?_⟩
    simp only [JSGraph.init, read, Except.bind, dif_neg (mt same.mp ends)]

theorem IsClosed.internalEnds_eq {alter : AlterTopo} (closed : alter.IsClosed) :
    alter.internalEnds = alter.edges.map edgeEnds := by
  rw [internalEnds, List.filter_eq_self.mpr fun edge member => by simp [closed.internal edge member]]

theorem leads_iff {alter : AlterTopo} {p n : TopoID} : alter.Leads p n ↔ (p, n) ∈ alter.edges.map edgeEnds := by
  simp [Leads, edgeEnds]

theorem FormsInTree.forest {alter : AlterTopo} {root : TopoID} (tree : alter.FormsInTree root)
    (closed : alter.IsClosed) : IsForest alter.Leads := by
  refine ⟨?_, tree.acyclic⟩
  rintro p m n ⟨first, member, from_p, rfl⟩ ⟨second, other, same, rfl⟩
  have lower : p ≠ root := from_p ▸ tree.top first member
  obtain ⟨edge, only⟩ := tree.out p (from_p ▸ (closed.ends first member).1) lower
  have here (e : JetStream.Edge) (inside : e ∈ alter.edges) (source : edgeSource e = p) : e = edge := by
    have filtered : e ∈ alter.edges.filter fun edge => edgeSource edge = p := by simp [inside, source]
    rw [only, List.mem_singleton] at filtered
    exact filtered
  rw [here first member from_p, here second other same]

/-- Some node of the request has no incoming edge. -/
theorem FormsInTree.exists_source {alter : AlterTopo} {root : TopoID} (tree : alter.FormsInTree root)
    (closed : alter.IsClosed) : ∃ s ∈ alter.ids, s ∉ (alter.edges.map edgeEnds).map Prod.snd := by
  have inside (v u : TopoID) (leads : alter.Leads v u) : v ∈ alter.ids.toFinset := by
    obtain ⟨edge, member, rfl, -⟩ := leads
    exact List.mem_toFinset.mpr (closed.ends edge member).1
  obtain ⟨s, bottom, path⟩ := (tree.forest closed).exists_leaf inside root
  refine ⟨s, ?_, ?_⟩
  · rcases path.cases_head with rfl | ⟨next, leads, -⟩
    · exact tree.root_mem
    · exact List.mem_toFinset.mp (inside s next leads)
  · intro member
    obtain ⟨⟨v, u⟩, listed, rfl⟩ := List.mem_map.mp member
    exact bottom v (leads_iff.mpr listed)

/-- The root is the only node without an outgoing edge. -/
theorem FormsInTree.filter_sinks {alter : AlterTopo} {root : TopoID} (tree : alter.FormsInTree root)
    (closed : alter.IsClosed) :
    (alter.ids.filter fun n => n ∉ (alter.edges.map edgeEnds).map Prod.fst) = [root] := by
  apply List.perm_singleton.mp
  apply (List.perm_ext_iff_of_nodup (closed.ids_nodup.filter _) (List.nodup_singleton _)).mpr
  intro n
  rw [List.mem_filter, decide_eq_true_eq, List.mem_singleton]
  constructor
  · rintro ⟨member, unused⟩
    by_contra other
    obtain ⟨edge, only⟩ := tree.out n member other
    have filtered : edge ∈ alter.edges.filter fun edge => edgeSource edge = n := by simp [only]
    obtain ⟨listed, source⟩ := List.mem_filter.mp filtered
    apply unused
    rw [List.map_map]
    exact List.mem_map.mpr ⟨edge, listed, of_decide_eq_true source⟩
  · rintro rfl
    refine ⟨tree.root_mem, ?_⟩
    rw [List.map_map]
    intro member
    obtain ⟨edge, listed, same⟩ := List.mem_map.mp member
    exact tree.top edge listed same

/-- The graph of a closed request has the ids as nodes and the edges of the request. -/
theorem IsClosed.init {alter : AlterTopo} (closed : alter.IsClosed) {root : TopoID} (tree : alter.FormsInTree root)
    (order : HashOrder) : ∃ g, JSGraph.init order alter = .ok g ∧ g.nodes = alter.ids ∧ g.Edge = alter.Leads ∧
      g.IsInTree root := by
  have onlyExit : alter.exits = [root] := by
    rw [exits, closed.internalEnds_eq]
    exact tree.filter_sinks closed
  have hasEntrance : alter.entrances ≠ [] := by
    obtain ⟨s, node, unreached⟩ := tree.exists_source closed
    apply List.ne_nil_of_mem (a := s)
    rw [entrances, closed.internalEnds_eq, List.mem_filter]
    exact ⟨node, decide_eq_true unreached⟩
  rcases closed.isAccepted.init order with ⟨-, -, g, built, nodes, edges, -, sinks⟩ | ⟨none | none, -⟩
  · rw [closed.internalEnds_eq] at edges
    have leads (p n : TopoID) : g.Edge p n ↔ alter.Leads p n := by
      rw [JSGraph.Edge, edges]
      exact leads_iff.symm
    refine ⟨g, built, nodes, funext₂ fun p n => propext (leads p n), ?_, ?_, ?_⟩
    · rw [sinks, onlyExit]
      exact List.perm_singleton.mp (order.ids_perm _)
    · intro n node other
      obtain ⟨edge, only⟩ := tree.out n (nodes ▸ node) other
      refine ⟨edgeDest edge, ?_⟩
      rw [JSGraph.adjList, edges, List.filter_map, List.map_map]
      exact congrArg (List.map _) only
    · intro n cycle
      exact tree.acyclic n (Relation.TransGen.mono (fun p n listed => (leads p n).mp listed) n n cycle)
  · exact absurd none hasEntrance
  · rw [onlyExit] at none
    cases none

end AlterTopo

end JetStream
