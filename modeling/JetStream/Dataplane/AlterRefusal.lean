import JetStream.Dataplane.ChainConnect

namespace JetStream.Node

open Attempt
open CubeManager (toCanonical ValidName)

section Condition

variable (env : Surroundings) (node : Node) (topo : AlterTopo)

/-- The task is there with a fitting class, or it is new and can be configured. -/
def Startable (before : List TaskMeta) (task : TaskMeta) : Prop :=
  match node.operators.get? task.id with
  | some (some prevOp) => task.opTypename.toList <:+: prevOp.type.cppName.toList
  | some none => False
  | none =>
      (∀ earlier ∈ before, earlier.id ≠ task.id) ∧ env.newOp task.opTypename ≠ none ∧
        env.configure task.opTypename task.id (taskConfig task) = .ok ()

/-- The name of the cube is valid. -/
def Creatable (task : CubeMeta) : Prop := ValidName (toCanonical task.name)

/-- All operators of the request can be started, and all its cubes have valid names. -/
def Prepared : Prop :=
  AllAccepted (node.Startable env) topo.toStart ∧ ∀ task ∈ topo.toCreate, Creatable task

/-- The request names an operator that is not in the table. -/
def Brings (id : TaskID) : Prop := node.operators.get? id = none ∧ ∃ task ∈ topo.toStart, task.id = id

/-- The operator is in the table, or the request starts it. -/
def Known (id : TaskID) : Prop := node.operators.get? id ≠ none ∨ ∃ task ∈ topo.toStart, task.id = id

/-- The tables of chains have no entries under the name. -/
def Unchained (id : TaskID) : Prop := node.sourcelessChain.get? id = none ∧ node.chainSources.get? id = none

/-- The operators of the edge are alive, or its cube is there and its operator can subscribe. -/
def Connectable (types : TaskID → Option OperatorType) (cubes : CubeManager) (edge : Edge) : Prop :=
  match edge.src, edge.srcCube with
  | some task, _ =>
      types (toLex (edge.computation, task)) ≠ none ∧ ∀ dest, localDest edge = some dest → types dest ≠ none
  | none, none => False
  | none, some srcCube => cubes.getCube srcCube ≠ none ∧ ∃ type, types (subscriberOf edge) = some type ∧ type.isSubscriber

/-- The last edge that starts at the operator leads on. -/
def outedge (edges : List Edge) (id : TaskID) : Option Edge :=
  edges.reverse.find? fun edge => edge.src.any fun task => toLex (edge.computation, task) = id

/-- A chain that has come to the first operator passes the second one. -/
inductive Follows (types : TaskID → Option OperatorType) (edges : List Edge) : TaskID → Bool → TaskID → Prop where
  | here (id : TaskID) (hitEnd : Bool) : Follows types edges id hitEnd id
  | next {id dest passed : TaskID} {edge : Edge} {type : OperatorType} (leaves : outedge edges id = some edge)
      (ends : localDest edge = some dest) (alive : types dest = some type)
      (rest : Follows types edges dest type.isChainEnd passed) : Follows types edges id false passed

/-- The operator is missing, or a new chain passes it. -/
def Governable (id : TaskID) : Prop :=
  typeAfter env node topo id = none ∨
    ∃ head, NewHead env node topo head ∧ Follows (typeAfter env node topo) topo.edges head false id

/-- No edge that is accepted starts at a cube, and no edge that is reached looks up an unknown operator. -/
structure CleanEdges : Prop where
  attached : ∀ edges, edges <+: topo.edges →
    (∀ edge ∈ edges, Connectable (typeAfter env node topo) node.cubeMgr edge) → ∀ edge ∈ edges, edge.src ≠ none
  lookedUp : ∀ edges edge, edges ++ [edge] <+: topo.edges →
    (∀ other ∈ edges, Connectable (typeAfter env node topo) node.cubeMgr other) →
      ∀ id ∈ lookups (typeAfter env node topo) edge, node.Known topo id

/-- No policy that is reached looks up an unknown operator. -/
def CleanPolicies : Prop :=
  ∀ ids id, ids ++ [id] <+: topo.congestPolicies.flatten → (∀ other ∈ ids, node.Governable env topo other) →
    node.Known topo id

/-- Before it is refused, the request does nothing that the roll-back leaves behind. -/
structure CleanRefusal : Prop where
  started : ∀ tasks, tasks <+: topo.toStart → AllAccepted (node.Startable env) tasks →
    ∀ task ∈ tasks, node.operators.get? task.id = none → node.Unchained task.id
  created : AllAccepted (node.Startable env) topo.toStart →
    ∀ tasks, tasks <+: topo.toCreate → (∀ task ∈ tasks, Creatable task) →
      ∀ task ∈ tasks, node.cubeMgr.getCube task.name ≠ none ∨
        (∀ other ∈ topo.toCreate, Creatable other) ∧ toCanonical task.name ∈ topo.cubesToStop.map toCanonical
  stopped : node.Prepared env topo → ∀ id ∈ topo.taskToStop, node.Brings topo id ∨ node.chainSources.get? id = some none
  destroyed : node.Prepared env topo → ∀ name ∈ topo.cubesToStop, node.cubeMgr.getCube name = none
  edges : node.Prepared env topo → node.CleanEdges env topo
  policies : node.Prepared env topo → (∀ edge ∈ topo.edges, Connectable (typeAfter env node topo) node.cubeMgr edge) →
    node.CleanPolicies env topo

end Condition

/-- The tables and the cubes with their subscribers are as they were. -/
structure SameTables (before after : Node) : Prop where
  operators : after.operators = before.operators
  sourcelessChain : after.sourcelessChain = before.sourcelessChain
  chainSources : after.chainSources = before.chainSources
  cubeMgr : after.cubeMgr = before.cubeMgr

/-- Nothing has changed, and every request that went through before goes through now. -/
structure FailsAtomically (before after : Node) : Prop where
  same : SameTables before after
  retry : ∀ env fuel request topo, before.Unused request →
    (∃ resp next, before.handleAlter env fuel request topo = .done (resp, next)) →
      ∃ resp next, after.handleAlter env fuel request topo = .done (resp, next)

section Rolled

variable {env : Surroundings} {before : Node} {vars : Altering}

theorem forgetOperators_get? (ids : List TaskID) (node : Node) (id : TaskID) :
    (ids.foldl forgetOperator node).operators.get? id = (if id ∈ ids then none else node.operators.get? id) ∧
      (ids.foldl forgetOperator node).sourcelessChain.get? id =
        (if id ∈ ids then none else node.sourcelessChain.get? id) ∧
      (ids.foldl forgetOperator node).chainSources.get? id = (if id ∈ ids then none else node.chainSources.get? id) ∧
      (ids.foldl forgetOperator node).cubeMgr = node.cubeMgr := by
  induction ids generalizing node with
  | nil => exact ⟨rfl, rfl, rfl, rfl⟩
  | cons name rest ih =>
      obtain ⟨operators, sourceless, sources, cubes⟩ := ih (forgetOperator node name)
      have forgotten : (forgetOperator node name).operators.get? id =
          if id = name then none else node.operators.get? id := by
        rw [forgetOperator, OrderedMap.get?_erase]
        by_cases same : id = name
        · rw [if_pos same, if_pos same]
        · rw [if_neg same, if_neg same, getOperator]
          split
          · rfl
          · rw [OrderedMap.get?_set, if_neg same]
      rw [List.foldl_cons, operators, sourceless, sources, cubes, forgotten, forgetOperator]
      dsimp only
      rw [OrderedMap.get?_erase, OrderedMap.get?_erase]
      by_cases same : id = name
      · simp [same]
      · simp [same]

/-- Nothing expires when no chain stood under the names. -/
theorem releaseChains_eq {ids : List TaskID} (unchained : ∀ id ∈ ids, before.Unchained id) (operators : OperatorTable) :
    ids.foldl
        (fun operators id => replaceChain env (replaceChain env operators before.sourcelessChain id) before.chainSources id)
        operators = operators := by
  induction ids generalizing operators with
  | nil => rfl
  | cons id rest ih =>
      obtain ⟨sourceless, sources⟩ := unchained id List.mem_cons_self
      rw [List.foldl_cons, ih fun other member => unchained other (List.mem_cons_of_mem id member)]
      rw [replaceChain, replaceChain, sourceless, sources]

/-- The roll-back restores the tables exactly when the new names had no chains and nothing else has changed. -/
theorem rollBack_same_iff (new : ∀ id ∈ vars.operatorIDsToStart, before.operators.get? id = none) :
    SameTables before (rollBack env before vars).node ↔
      (∀ id ∈ vars.operatorIDsToStart, before.Unchained id) ∧ vars.node.cubeMgr = before.cubeMgr ∧
        ∀ id, id ∉ vars.operatorIDsToStart →
          vars.node.operators.get? id = before.operators.get? id ∧
            vars.node.sourcelessChain.get? id = before.sourcelessChain.get? id ∧
            vars.node.chainSources.get? id = before.chainSources.get? id := by
  have tables := forgetOperators_get? vars.operatorIDsToStart vars.node
  have sourceless (id : TaskID) : (rollBack env before vars).node.sourcelessChain.get? id =
      if id ∈ vars.operatorIDsToStart then none else vars.node.sourcelessChain.get? id := (tables id).2.1
  have sources (id : TaskID) : (rollBack env before vars).node.chainSources.get? id =
      if id ∈ vars.operatorIDsToStart then none else vars.node.chainSources.get? id := (tables id).2.2.1
  have cubes : (rollBack env before vars).node.cubeMgr = vars.node.cubeMgr := (tables (toLex (0, 0))).2.2.2
  have operators (unchained : ∀ id ∈ vars.operatorIDsToStart, before.Unchained id) (id : TaskID) :
      (rollBack env before vars).node.operators.get? id =
        if id ∈ vars.operatorIDsToStart then none else vars.node.operators.get? id := by
    rw [rollBack]
    dsimp only
    rw [releaseChains_eq unchained]
    exact (tables id).1
  constructor
  · intro same
    have unchained : ∀ id ∈ vars.operatorIDsToStart, before.Unchained id := by
      intro id member
      constructor
      · rw [← same.sourcelessChain, sourceless, if_pos member]
      · rw [← same.chainSources, sources, if_pos member]
    refine ⟨unchained, cubes.symm.trans same.cubeMgr, ?_⟩
    intro id old
    rw [← same.operators, ← same.sourcelessChain, ← same.chainSources, operators unchained, sourceless, sources,
      if_neg old, if_neg old, if_neg old]
    exact ⟨rfl, rfl, rfl⟩
  · intro kept
    obtain ⟨unchained, sameCubes, others⟩ := kept
    constructor
    · apply OrderedMap.ext_get?
      intro id
      rw [operators unchained]
      split
      · rename_i member
        exact (new id member).symm
      · rename_i old
        exact (others id old).1
    · apply OrderedMap.ext_get?
      intro id
      rw [sourceless]
      split
      · rename_i member
        exact (unchained id member).1.symm
      · rename_i old
        exact (others id old).2.1
    · apply OrderedMap.ext_get?
      intro id
      rw [sources]
      split
      · rename_i member
        exact (unchained id member).2.symm
      · rename_i old
        exact (others id old).2.2
    · exact cubes.trans sameCubes

end Rolled

section Tasks

variable {env : Surroundings} {request : ℕ} {node : Node}

/-- The tasks are started as long as they are startable. -/
theorem startOperator_decides :
    Decides (startOperator env request) ⟨node.operators, [], []⟩ (node.Startable env) where
  done before task state next ran stepped := by
    have started := started_of_loop ran
    rcases startOperator_done stepped with ⟨old, ⟨prevOp, found, fits⟩, -⟩ | ⟨missing, type, loaded, configured, -⟩
    · rw [started.old task.id old] at found
      rw [Startable, found]
      exact fits
    · have old : task.id ∉ state.ids := started.not_mem_of_missing missing
      have absent : node.operators.get? task.id = none := (started.old task.id old).symm.trans missing
      rw [Startable, absent]
      refine ⟨?_, by rw [loaded]; nofun, configured⟩
      intro earlier member same
      exact old ((started.mem_ids task.id).mpr ⟨absent, earlier, member, same⟩)
  refused before task state error next ran stepped := by
    have started := started_of_loop ran
    intro startable
    unfold startOperator at stepped
    split at stepped
    · rename_i entry found
      split_ifs at stepped with again
      · obtain ⟨absent, earlier, member, same⟩ := (started.mem_ids task.id).mp again
        rw [Startable, absent] at startable
        exact startable.1 earlier member same
      · rw [started.old task.id again] at found
        split at stepped
        · cases stepped
        · rename_i prevOp
          split_ifs at stepped with fits
          rw [Startable, found] at startable
          exact fits startable
    · rename_i missing
      have old : task.id ∉ state.ids := started.not_mem_of_missing missing
      rw [Startable, (started.old task.id old).symm.trans missing] at startable
      obtain ⟨-, loads, configured⟩ := startable
      obtain ⟨type, loaded⟩ := Option.ne_none_iff_exists'.mp loads
      rw [createOperator, missing, loaded, configured] at stepped
      cases stepped

end Tasks

section Cubes

variable {env : Surroundings} {cubes mgr : CubeManager} {tasks : List CubeMeta}

/-- The cubes with valid names are created. -/
theorem createCube_decides {listed : List CubeMeta} : Decides (createCube env) (cubes, listed) fun _ => Creatable where
  done before task state next ran stepped := by
    unfold createCube at stepped
    split at stepped
    · rename_i created
      exact (CubeManager.createCube_done created).1
    all_goals cases stepped
  refused before task state error next ran stepped := by
    unfold createCube at stepped
    split at stepped
    · cases stepped
    · rename_i refused
      exact (CubeManager.createCube_refused refused).1
    all_goals cases stepped

/-- The cubes that were there stay, and the others are new and have no subscribers. -/
structure Created (cubes : CubeManager) (tasks : List CubeMeta) (mgr : CubeManager) : Prop where
  old : ∀ name cube, cubes.cubeMap.get? name = some cube → mgr.cubeMap.get? name = some cube
  new : ∀ name, cubes.cubeMap.get? name = none → (∃ task ∈ tasks, toCanonical task.name = name) →
    ∃ schema, mgr.cubeMap.get? name = some ⟨name, schema, .empty⟩
  others : ∀ name, cubes.cubeMap.get? name = none → (∀ task ∈ tasks, toCanonical task.name ≠ name) →
    mgr.cubeMap.get? name = none

theorem created_of_loop {listed : List CubeMeta} {state : CubeManager × List CubeMeta}
    (ran : loop (createCube env) (cubes, listed) tasks = .done state) : Created cubes tasks state.1 := by
  apply loop_prefix (fun tasks state => Created cubes tasks state.1) _ _ ran
  · intro before task state next created stepped
    unfold createCube at stepped
    split at stepped
    · rename_i mgr done
      obtain rfl := Attempt.done.inj stepped
      obtain ⟨-, ⟨found, rfl⟩ | ⟨missing, rfl⟩⟩ := CubeManager.createCube_done done
      · obtain ⟨cube, found⟩ := found
        constructor
        · exact created.old
        · intro name missing requested
          obtain ⟨other, member, same⟩ := requested
          apply created.new name missing
          by_contra absent
          push Not at absent
          rcases List.mem_append.mp member with earlier | last
          · exact absent other earlier same
          · obtain rfl := List.mem_singleton.mp last
            rw [same, created.others name missing absent] at found
            cases found
        · intro name missing absent
          exact created.others name missing fun other member => absent other (List.mem_append_left _ member)
      · constructor
        · intro name cube found
          have kept := created.old name cube found
          have different : name ≠ toCanonical task.name := by
            intro same
            rw [same, missing] at kept
            cases kept
          rw [OrderedMap.get?_set, if_neg different]
          exact kept
        · intro name absent requested
          obtain ⟨other, member, same⟩ := requested
          rw [OrderedMap.get?_set]
          by_cases here : name = toCanonical task.name
          · rw [if_pos here, here]
            exact ⟨task.schema, rfl⟩
          · rw [if_neg here]
            apply created.new name absent
            rcases List.mem_append.mp member with earlier | last
            · exact ⟨other, earlier, same⟩
            · rw [List.mem_singleton.mp last] at same
              exact absurd same.symm here
        · intro name absent elsewhere
          have different : name ≠ toCanonical task.name :=
            (elsewhere task (List.mem_append_right _ List.mem_cons_self)).symm
          rw [OrderedMap.get?_set, if_neg different]
          exact created.others name absent fun other member => elsewhere other (List.mem_append_left _ member)
    all_goals cases stepped
  · exact ⟨fun _ _ found => found, nofun, fun _ missing _ => missing⟩

/-- No cube is new exactly when all requested cubes were there. -/
theorem Created.eq_iff (created : Created cubes tasks mgr) :
    mgr = cubes ↔ ∀ task ∈ tasks, cubes.getCube task.name ≠ none := by
  constructor
  · intro same task member missing
    obtain ⟨schema, found⟩ := created.new _ missing ⟨task, member, rfl⟩
    rw [same] at found
    exact absurd (missing.symm.trans found) nofun
  · intro listed
    apply congrArg CubeManager.mk
    apply OrderedMap.ext_get?
    intro name
    cases found : cubes.cubeMap.get? name with
    | some cube => exact created.old name cube found
    | none =>
        apply created.others name found
        intro task member same
        apply listed task member
        rw [CubeManager.getCube, same]
        exact found

/-- A cube that was not there has no subscribers. -/
theorem Created.subscribers_eq_nil (created : Created cubes tasks mgr) {name : String} {cube : CubeManager.DataCube}
    (missing : cubes.cubeMap.get? name = none) (found : mgr.cubeMap.get? name = some cube) :
    cube.subscribers.entries = [] := by
  by_cases requested : ∃ task ∈ tasks, toCanonical task.name = name
  · obtain ⟨schema, listed⟩ := created.new name missing requested
    obtain rfl := Option.some.inj (listed.symm.trans found)
    rfl
  · push Not at requested
    exact absurd ((created.others name missing requested).symm.trans found) nofun

end Cubes

section Stopped

variable {env : Surroundings} {node : Node} {ids : List TaskID} {id : TaskID}

/-- A stopped task leaves the entries of the others alone. -/
theorem stopTask_elsewhere (headed : node.chainSources.Headed) {other : TaskID} (different : other ≠ id) :
    (stopTask env node id).chainSources.get? other = node.chainSources.get? other := by
  unfold stopTask
  split
  · rw [OrderedMap.get?_set, if_neg different]
  · rfl
  · rename_i chain found
    obtain ⟨rest, starts⟩ := headed id chain found
    rw [unregisterChain_headed starts]
    dsimp only
    rw [OrderedMap.get?_erase, if_neg different]

variable (env) in
/-- A stopped task has a null entry, or its chain has gone. -/
theorem stopTask_stopped (headed : node.chainSources.Headed) :
    (stopTask env node id).chainSources.get? id = some none ∨
      (stopTask env node id).chainSources.get? id = none ∧ ∃ chain, node.chainSources.get? id = some (some chain) := by
  unfold stopTask
  split
  · rw [OrderedMap.get?_set, if_pos rfl]
    exact Or.inl rfl
  · rename_i null
    exact Or.inl null
  · rename_i chain found
    obtain ⟨rest, starts⟩ := headed id chain found
    rw [unregisterChain_headed starts]
    dsimp only
    rw [OrderedMap.get?_erase, if_pos rfl]
    exact Or.inr ⟨rfl, chain, found⟩

theorem stopTasks_elsewhere (headed : node.chainSources.Headed) (elsewhere : id ∉ ids) :
    (ids.foldl (stopTask env) node).chainSources.get? id = node.chainSources.get? id := by
  induction ids generalizing node with
  | nil => rfl
  | cons first rest ih =>
      rw [List.mem_cons, not_or] at elsewhere
      rw [List.foldl_cons, ih (stopTask_headed headed first) elsewhere.2, stopTask_elsewhere headed elsewhere.1]

theorem stopTasks_stopped (headed : node.chainSources.Headed) (stopped : id ∈ ids) :
    (ids.foldl (stopTask env) node).chainSources.get? id = some none ∨
      (ids.foldl (stopTask env) node).chainSources.get? id = none ∧
        ∃ chain, node.chainSources.get? id = some (some chain) := by
  induction ids generalizing node with
  | nil => cases stopped
  | cons first rest ih =>
      have nextHeaded : (stopTask env node first).chainSources.Headed := stopTask_headed headed first
      rw [List.foldl_cons]
      by_cases later : id ∈ rest
      · rcases ih nextHeaded later with null | ⟨gone, chain, found⟩
        · exact Or.inl null
        · refine Or.inr ⟨gone, ?_⟩
          by_cases same : id = first
          · subst same
            rcases stopTask_stopped env headed with null | ⟨erased, -⟩
            · exact absurd (null.symm.trans found) nofun
            · exact absurd (erased.symm.trans found) nofun
          · rw [stopTask_elsewhere headed same] at found
            exact ⟨chain, found⟩
      · rw [stopTasks_elsewhere nextHeaded later]
        rcases List.mem_cons.mp stopped with rfl | member
        · exact stopTask_stopped env headed
        · exact absurd member later

/-- No operator expires when the stopped tasks have no chains. -/
theorem stopTasks_idle (idle : ∀ id ∈ ids, ∀ chain, node.chainSources.get? id ≠ some (some chain)) :
    (ids.foldl (stopTask env) node).operators = node.operators := by
  induction ids generalizing node with
  | nil => rfl
  | cons first rest ih =>
      have stepped : (stopTask env node first).operators = node.operators ∧
          ∀ id ∈ rest, ∀ chain, (stopTask env node first).chainSources.get? id ≠ some (some chain) := by
        unfold stopTask
        split
        · refine ⟨rfl, ?_⟩
          intro id member chain
          rw [OrderedMap.get?_set]
          split
          · nofun
          · exact idle id (List.mem_cons_of_mem first member) chain
        · exact ⟨rfl, fun id member => idle id (List.mem_cons_of_mem first member)⟩
        · rename_i chain found
          exact absurd found (idle first List.mem_cons_self chain)
      rw [List.foldl_cons, ih stepped.2, stepped.1]

end Stopped

section Destroyed

variable {env : Surroundings} {node final : Node} {names : List String}

/-- The destroyed cubes are gone, and the others stay. -/
theorem loop_destroyCube_get? (ran : loop (destroyCube env) node names = .done final) (name : String) :
    final.cubeMgr.cubeMap.get? name = if name ∈ names.map toCanonical then none else node.cubeMgr.cubeMap.get? name := by
  apply loop_prefix (fun (names : List String) (state : Node) => state.cubeMgr.cubeMap.get? name =
    if name ∈ names.map toCanonical then none else node.cubeMgr.cubeMap.get? name) _ (if_neg List.not_mem_nil).symm ran
  intro before other state next kept stepped
  obtain ⟨cube, -, rfl⟩ := destroyCube_done stepped
  dsimp only
  rw [OrderedMap.get?_erase, kept]
  by_cases same : name = toCanonical other
  · simp [same]
  · simp [same]

/-- No operator expires when the destroyed cubes have no subscribers. -/
theorem loop_destroyCube_idle (idle : ∀ name ∈ names, ∀ cube, node.cubeMgr.getCube name = some cube →
    cube.subscribers.entries = []) (ran : loop (destroyCube env) node names = .done final) :
    final.operators = node.operators := by
  suffices kept : final.operators = node.operators ∧
      ∀ name cube, final.cubeMgr.getCube name = some cube → node.cubeMgr.getCube name = some cube from kept.1
  apply loop_invariant (fun state : Node => state.operators = node.operators ∧
    ∀ name cube, state.cubeMgr.getCube name = some cube → node.cubeMgr.getCube name = some cube) _
    ⟨rfl, fun _ _ found => found⟩ ran
  intro name member state next kept stepped
  obtain ⟨cube, found, rfl⟩ := destroyCube_done stepped
  refine ⟨?_, ?_⟩
  · dsimp only
    rw [if_pos (idle name member cube (kept.2 name cube found)), kept.1]
  · intro other left listed
    rw [CubeManager.getCube, OrderedMap.get?_erase] at listed
    split at listed
    · cases listed
    · exact kept.2 other left listed

end Destroyed

end JetStream.Node
