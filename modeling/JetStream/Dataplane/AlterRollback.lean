import JetStream.Dataplane.RefusedStages

namespace JetStream.Node

open Attempt
open CubeManager (toCanonical)

section Early

variable {env : Surroundings} {request : ℕ} {topo : AlterTopo} {node : Node} {state : Starting} {mgr : CubeManager}
  {destroyed vars : Altering}

/-- The operators are started, the cubes are created, and the tasks and the cubes that have to go are gone. -/
structure Reaches (env : Surroundings) (request : ℕ) (topo : AlterTopo) (node : Node) (state : Starting)
    (mgr : CubeManager) (destroyed : Altering) : Prop where
  prepared : node.Prepared env topo
  started : Started env request node.operators topo.toStart state
  created : Created node.cubeMgr topo.toCreate mgr
  ids : destroyed.operatorIDsToStart = state.ids
  sourceless : destroyed.node.sourcelessChain = node.sourcelessChain
  stopped : ∀ id ∈ topo.taskToStop, destroyed.node.chainSources.get? id = some none ∨
    destroyed.node.chainSources.get? id = none ∧ ∃ chain, node.chainSources.get? id = some (some chain)
  sources : ∀ id, id ∉ topo.taskToStop → destroyed.node.chainSources.get? id = node.chainSources.get? id
  cubes : ∀ name, destroyed.node.cubeMgr.cubeMap.get? name =
    if name ∈ topo.cubesToStop.map toCanonical then none else mgr.cubeMap.get? name
  operators : (∀ id ∈ topo.taskToStop, NoChain node.chainSources id) →
    (∀ name ∈ topo.cubesToStop, node.cubeMgr.getCube name = none) → destroyed.node.operators = state.operators

/-- The operators are started and the cubes are created when all of them are accepted. -/
theorem created_of_done {started created : Altering}
    (start : startOperators env request topo (node.startAlter topo) = .done started)
    (create : createCubes env topo started = .done created) :
    ∃ state mgr, node.Prepared env topo ∧ Started env request node.operators topo.toStart state ∧
      Created node.cubeMgr topo.toCreate mgr ∧ created.operatorIDsToStart = state.ids ∧
      created.node = {node with operators := state.operators, cubeMgr := mgr} := by
  obtain ⟨state, startLoop, rfl⟩ := map_eq_done.mp start
  obtain ⟨⟨mgr, listed⟩, createLoop, rfl⟩ := map_eq_done.mp create
  refine ⟨state, mgr, ⟨startOperator_decides.allAccepted startLoop, ?_⟩, started_of_loop startLoop,
    created_of_loop createLoop, rfl, rfl⟩
  exact allAccepted_const.mp (createCube_decides.allAccepted createLoop)

theorem reaches_of_done {started created : Altering} (headed : node.chainSources.Headed)
    (start : startOperators env request topo (node.startAlter topo) = .done started)
    (create : createCubes env topo started = .done created)
    (destroy : destroyCubes env topo (stopTasks env topo created) = .done destroyed) :
    ∃ state mgr, Reaches env request topo node state mgr destroyed := by
  obtain ⟨state, mgr, prepared, startedSpec, createdSpec, ids, nodeIs⟩ := created_of_done start create
  obtain ⟨chains, sources⟩ := destroyCubes_sameChains destroy
  have stopping : (stopTasks env topo created).node = topo.taskToStop.foldl (stopTask env)
      {node with operators := state.operators, cubeMgr := mgr} := by
    rw [← nodeIs]
    rfl
  obtain ⟨final, destroyLoop, rfl⟩ := map_eq_done.mp destroy
  dsimp only at chains sources
  rw [stopping] at destroyLoop chains sources
  have cubes := (stopTasks_frame env {node with operators := state.operators, cubeMgr := mgr} topo.taskToStop).2.1
  refine ⟨state, mgr, ⟨prepared, startedSpec, createdSpec, ids, ?_, ?_, ?_, ?_, ?_⟩⟩
  · exact chains.trans (stopTasks_sourcelessChain _ _)
  · intro id member
    rw [sources]
    exact stopTasks_stopped headed member
  · intro id elsewhere
    rw [sources]
    exact stopTasks_elsewhere headed elsewhere
  · intro name
    rw [loop_destroyCube_get? destroyLoop, cubes]
  · intro noChains noCubes
    apply (loop_destroyCube_idle _ destroyLoop).trans (stopTasks_idle noChains)
    intro name member cube found
    rw [CubeManager.getCube, cubes] at found
    exact createdSpec.subscribers_eq_nil (noCubes name member) found

/-- The stages before the edges do nothing that the roll-back leaves behind. -/
structure CleanStart (node : Node) (topo : AlterTopo) : Prop where
  started : ∀ id, node.Brings topo id → node.Unchained id
  created : ∀ task ∈ topo.toCreate,
    node.cubeMgr.getCube task.name ≠ none ∨ toCanonical task.name ∈ topo.cubesToStop.map toCanonical
  stopped : ∀ id ∈ topo.taskToStop, node.Brings topo id ∨ node.chainSources.get? id = some none
  destroyed : ∀ name ∈ topo.cubesToStop, node.cubeMgr.getCube name = none

/-- The later stages add chains only under the new names, and they neither create nor destroy cubes. -/
structure Later (destroyed vars : Altering) : Prop where
  ids : vars.operatorIDsToStart = destroyed.operatorIDsToStart
  sourceless : ∀ id, id ∉ destroyed.operatorIDsToStart →
    vars.node.sourcelessChain.get? id = destroyed.node.sourcelessChain.get? id
  sources : ∀ id, id ∉ destroyed.operatorIDsToStart →
    vars.node.chainSources.get? id = destroyed.node.chainSources.get? id
  cubes : ∀ name, vars.node.cubeMgr.getCube name = none ↔ destroyed.node.cubeMgr.getCube name = none

theorem Reaches.mem_ids (reaches : Reaches env request topo node state mgr destroyed) (id : TaskID) :
    id ∈ destroyed.operatorIDsToStart ↔ node.Brings topo id := by
  rw [reaches.ids, reaches.started.mem_ids, Brings]

/-- The roll-back after a later stage restores the tables only when the stages before the edges were clean. -/
theorem Reaches.cleanStart (reaches : Reaches env request topo node state mgr destroyed) (later : Later destroyed vars)
    (same : SameTables node (rollBack env node vars).node) : CleanStart node topo := by
  have mem_ids (id : TaskID) : id ∈ vars.operatorIDsToStart ↔ node.Brings topo id := by
    rw [later.ids, reaches.mem_ids]
  obtain ⟨unchained, cubes, others⟩ := (rollBack_same_iff fun id member => ((mem_ids id).mp member).1).mp same
  have cubesThere (name : String) : node.cubeMgr.getCube name = none ↔ destroyed.node.cubeMgr.getCube name = none := by
    rw [← cubes]
    exact later.cubes name
  constructor
  · intro id brings
    exact unchained id ((mem_ids id).mpr brings)
  · intro task member
    by_contra neither
    rw [not_or, not_not] at neither
    obtain ⟨missing, stays⟩ := neither
    obtain ⟨schema, found⟩ := reaches.created.new _ missing ⟨task, member, rfl⟩
    have gone := (cubesThere task.name).mp missing
    rw [CubeManager.getCube, reaches.cubes, if_neg stays, found] at gone
    cases gone
  · intro id member
    by_contra neither
    rw [not_or] at neither
    have old : id ∉ vars.operatorIDsToStart := fun isNew => neither.1 ((mem_ids id).mp isNew)
    have kept : destroyed.node.chainSources.get? id = node.chainSources.get? id :=
      (later.sources id (later.ids ▸ old)).symm.trans (others id old).2.2
    rcases reaches.stopped id member with null | ⟨gone, chain, found⟩
    · exact neither.2 (kept.symm.trans null)
    · cases (gone.symm.trans kept).trans found
  · intro name member
    rw [cubesThere, CubeManager.getCube, reaches.cubes, if_pos (List.mem_map_of_mem member)]

section Clean

variable (clean : CleanStart node topo) (reaches : Reaches env request topo node state mgr destroyed)

include clean reaches

theorem CleanStart.operators_eq : destroyed.node.operators = state.operators := by
  apply reaches.operators _ clean.destroyed
  intro id member chain found
  rcases clean.stopped id member with brings | null
  · exact absurd ((clean.started id brings).2.symm.trans found) nofun
  · exact absurd (null.symm.trans found) nofun

theorem CleanStart.cubeMgr_eq : destroyed.node.cubeMgr = node.cubeMgr := by
  apply congrArg CubeManager.mk
  apply OrderedMap.ext_get?
  intro name
  rw [reaches.cubes]
  split
  · rename_i stopped
    obtain ⟨rawName, member, rfl⟩ := List.mem_map.mp stopped
    exact (clean.destroyed rawName member).symm
  · rename_i stays
    cases found : node.cubeMgr.cubeMap.get? name with
    | some cube => exact reaches.created.old name cube found
    | none =>
        apply reaches.created.others name found
        rintro task member rfl
        rcases clean.created task member with listed | stopped
        · exact listed found
        · exact stays stopped

theorem CleanStart.chainSources_eq {id : TaskID} (old : ¬node.Brings topo id) :
    destroyed.node.chainSources.get? id = node.chainSources.get? id := by
  by_cases member : id ∈ topo.taskToStop
  · have null : node.chainSources.get? id = some none := (clean.stopped id member).resolve_left old
    rcases reaches.stopped id member with kept | ⟨-, chain, found⟩
    · exact kept.trans null.symm
    · exact absurd (null.symm.trans found) nofun
  · exact reaches.sources id member

theorem CleanStart.noChain {id : TaskID} (brings : node.Brings topo id) :
    NoChain destroyed.node.sourcelessChain id ∧ NoChain destroyed.node.chainSources id := by
  obtain ⟨sourceless, sources⟩ := clean.started id brings
  constructor
  · intro chain found
    rw [reaches.sourceless, sourceless] at found
    cases found
  · intro chain found
    by_cases member : id ∈ topo.taskToStop
    · rcases reaches.stopped id member with null | ⟨gone, -⟩
      · exact absurd (null.symm.trans found) nofun
      · exact absurd (gone.symm.trans found) nofun
    · rw [reaches.sources id member, sources] at found
      cases found

/-- After a clean start the roll-back restores the tables exactly when the later stages keep the cubes and operators. -/
theorem CleanStart.same_iff (later : Later destroyed vars) :
    SameTables node (rollBack env node vars).node ↔
      vars.node.cubeMgr = node.cubeMgr ∧
        ∀ id, ¬node.Brings topo id → vars.node.operators.get? id = node.operators.get? id := by
  have mem_ids (id : TaskID) : id ∈ vars.operatorIDsToStart ↔ node.Brings topo id := by
    rw [later.ids, reaches.mem_ids]
  rw [rollBack_same_iff fun id member => ((mem_ids id).mp member).1]
  constructor
  · intro kept
    refine ⟨kept.2.1, ?_⟩
    intro id old
    exact (kept.2.2 id fun isNew => old ((mem_ids id).mp isNew)).1
  · intro kept
    refine ⟨fun id isNew => clean.started id ((mem_ids id).mp isNew), kept.1, ?_⟩
    intro id notNew
    have old : ¬node.Brings topo id := fun brings => notNew ((mem_ids id).mpr brings)
    rw [later.ids] at notNew
    refine ⟨kept.2 id old, ?_, ?_⟩
    · rw [later.sourceless id notNew, reaches.sourceless]
    · rw [later.sources id notNew, clean.chainSources_eq reaches old]

end Clean

end Early

section Types

variable {env : Surroundings} {request : ℕ} {topo : AlterTopo} {node : Node} {state : Starting}

theorem known_of_typeAfter {id : TaskID} (alive : typeAfter env node topo id ≠ none) : node.Known topo id := by
  by_contra unknown
  rw [Known, not_or, not_not] at unknown
  obtain ⟨missing, nowhere⟩ := unknown
  apply alive
  rw [typeAfter, missing]
  dsimp only
  rw [List.find?_eq_none.mpr]
  · rfl
  · intro task member same
    exact nowhere ⟨task, member, by simpa using same⟩

theorem Started.liveType_eq (started : Started env request node.operators topo.toStart state) :
    liveType state.operators = typeAfter env node topo := by
  funext id
  by_cases isNew : id ∈ state.ids
  · obtain ⟨type, typeIs, listed, -⟩ := started.typeAfter_eq isNew
    rw [typeIs, liveType_eq_some listed]
  · rw [liveType, started.old id isNew]
    cases found : node.operators.get? id with
    | some entry =>
        rw [typeAfter, found]
        rfl
    | none =>
        symm
        by_contra alive
        rcases known_of_typeAfter alive with listed | requested
        · exact listed found
        · exact isNew ((started.mem_ids id).mpr ⟨found, requested⟩)

theorem Started.get?_eq_none_iff (started : Started env request node.operators topo.toStart state) (id : TaskID) :
    state.operators.get? id = none ↔ ¬node.Known topo id := by
  rw [Known, not_or, not_not]
  by_cases isNew : id ∈ state.ids
  · obtain ⟨type, -, listed, -⟩ := started.typeAfter_eq isNew
    obtain ⟨-, requested⟩ := (started.mem_ids id).mp isNew
    rw [listed]
    exact iff_of_false nofun fun unknown => unknown.2 requested
  · rw [started.old id isNew]
    refine ⟨?_, fun unknown => unknown.1⟩
    intro missing
    exact ⟨missing, fun requested => isNew ((started.mem_ids id).mpr ⟨missing, requested⟩)⟩

/-- The operators that an accepted edge looks up are alive. -/
theorem Connectable.known {cubes : CubeManager} {edge : Edge}
    (connectable : Connectable (typeAfter env node topo) cubes edge) :
    ∀ id ∈ lookups (typeAfter env node topo) edge, node.Known topo id := by
  intro id member
  unfold Connectable at connectable
  unfold lookups at member
  split at connectable
  · rename_i task starts
    rw [starts] at member
    obtain ⟨srcAlive, ends⟩ := connectable
    dsimp only at member
    rw [if_neg srcAlive, List.mem_cons, Option.mem_toList] at member
    rcases member with rfl | isDest
    · exact known_of_typeAfter srcAlive
    · exact known_of_typeAfter (ends id isDest)
  · exact connectable.elim
  · rename_i srcCube noSource starts
    rw [noSource, starts] at member
    obtain ⟨-, type, alive, -⟩ := connectable
    rw [List.mem_singleton.mp member]
    apply known_of_typeAfter
    rw [alive]
    nofun

/-- When all operators can be started and all cubes be created, the condition is about the other stages. -/
theorem cleanRefusal_iff (prepared : node.Prepared env topo) :
    node.CleanRefusal env topo ↔ CleanStart node topo ∧ node.CleanEdges env topo ∧
      ((∀ edge ∈ topo.edges, Connectable (typeAfter env node topo) node.cubeMgr edge) → node.CleanPolicies env topo) := by
  constructor
  · intro clean
    refine ⟨⟨?_, ?_, clean.stopped prepared, clean.destroyed prepared⟩, clean.edges prepared, clean.policies prepared⟩
    · rintro id ⟨missing, task, member, rfl⟩
      exact clean.started _ (List.prefix_refl _) prepared.1 task member missing
    · intro task member
      rcases clean.created prepared.1 _ (List.prefix_refl _) prepared.2 task member with listed | ⟨-, stopped⟩
      · exact Or.inl listed
      · exact Or.inr stopped
  · rintro ⟨clean, edges, policies⟩
    refine ⟨?_, ?_, fun _ => clean.stopped, fun _ => clean.destroyed, fun _ => edges, fun _ => policies⟩
    · intro tasks within _ task member missing
      exact clean.started task.id ⟨missing, task, within.mem member, rfl⟩
    · intro _ tasks within _ task member
      rcases clean.created task (within.mem member) with listed | stopped
      · exact Or.inl listed
      · exact Or.inr ⟨prepared.2, stopped⟩

end Types

section Refused

variable {env : Surroundings} {fuel request : ℕ} {topo : AlterTopo} {node : Node} {err : String} {state : Starting}

/-- Refused edges leave the operators and the cubes alone exactly when they are clean. -/
theorem connectEdge_refused_iff {final : Wiring} (started : Started env request node.operators topo.toStart state)
    (attached : node.cubeMgr.Attached state.operators)
    (ran : loop (connectEdge env) ⟨state.operators, node.cubeMgr, .empty, .empty⟩ topo.edges = .refused err final) :
    ¬(∀ edge ∈ topo.edges, Connectable (typeAfter env node topo) node.cubeMgr edge) ∧
      (final.cubeMgr = node.cubeMgr ∧
          (∀ id, ¬node.Brings topo id → final.operators.get? id = node.operators.get? id) ↔
        node.CleanEdges env topo) := by
  have decides := connectEdge_decides env ⟨state.operators, node.cubeMgr, .empty, .empty⟩
  dsimp only at decides
  rw [started.liveType_eq] at decides
  obtain ⟨before, edge, reached, within, done, refused, accepted, rejected, longest⟩ := decides.refusedAt ran
  rw [allAccepted_const] at accepted
  have names := loop_connectEdge_sameNames done
  have types : liveType reached.operators = typeAfter env node topo := names.types.trans started.liveType_eq
  obtain ⟨sameCubes, table⟩ := connectEdge_refused refused
  rw [types] at table
  obtain ⟨cubes_iff, sameOperators⟩ := loop_connectEdge_cubes_iff attached done
  dsimp only at cubes_iff sameOperators
  have reachedKnown (id : TaskID) : reached.operators.get? id = none ↔ ¬node.Known topo id :=
    (names.keys id).trans (started.get?_eq_none_iff id)
  have prefixes : before <+: topo.edges := List.IsPrefix.trans ⟨[edge], rfl⟩ within
  have old {id : TaskID} (notNew : ¬node.Brings topo id) : state.operators.get? id = node.operators.get? id :=
    started.old id fun isNew => notNew ((started.mem_ids id).mp isNew)
  have stops (other : Edge) (longer : before ++ [other] <+: topo.edges) :
      ¬Connectable (typeAfter env node topo) node.cubeMgr other := by
    rw [eq_of_append_singletons longer within]
    exact rejected
  refine ⟨?_, ?_⟩
  · intro all
    exact rejected (all edge (within.mem (List.mem_append_right before List.mem_cons_self)))
  rw [sameCubes, cubes_iff]
  constructor
  · rintro ⟨noCubes, kept⟩
    constructor
    · intro edges shorter connectable other member
      exact noCubes other ((longest edges shorter (allAccepted_const.mpr connectable)).mem member)
    · apply (forall_reached_iff (fun edge => ∀ id ∈ lookups (typeAfter env node topo) edge, node.Known topo id) prefixes
        accepted stops).mpr
      refine ⟨fun other member => (accepted other member).known, ?_⟩
      intro other longer
      rw [eq_of_append_singletons longer within]
      rcases table with ⟨listed, -⟩ | ⟨id, -, missing, added⟩
      · intro id member
        by_contra unknown
        exact listed id member ((reachedKnown id).mpr unknown)
      · have unknown := (reachedKnown id).mp missing
        have null := kept id fun brings => unknown (Or.inr brings.2)
        rw [added, OrderedMap.get?_set, if_pos rfl] at null
        exact absurd (Or.inl (by rw [← null]; nofun)) unknown
  · intro clean
    have noCubes := clean.attached before prefixes accepted
    refine ⟨noCubes, ?_⟩
    intro id notNew
    rcases table with ⟨-, same⟩ | ⟨other, member, missing, -⟩
    · rw [same, sameOperators noCubes]
      exact old notNew
    · exact absurd (clean.lookedUp before edge within accepted other member) ((reachedKnown other).mp missing)

/-- The policies of the request fit exactly the operators that are missing or on a new chain. -/
theorem buildChains_governable {wired built : Altering} (reached : Reached env request topo node state wired)
    (outedges : ∀ id, wired.opToOutedge.get? id = outedge topo.edges id)
    (types : liveType wired.node.operators = typeAfter env node topo)
    (idle : ∀ id ∈ wired.operatorIDsToStart, NoChain wired.node.sourcelessChain id ∧ NoChain wired.node.chainSources id)
    (build : buildChains env fuel wired = .done built) :
    built.node.operators = wired.node.operators ∧
      ∀ id, (liveType built.node.operators id = none ∨ built.opToChain.get? id ≠ none) ↔ node.Governable env topo id := by
  have distinct : wired.operatorIDsToStart.Nodup := reached.ids ▸ reached.started.nodup
  obtain ⟨final, looped, rfl⟩ := map_eq_done.mp build
  obtain ⟨same, covers⟩ := loop_buildChain_passes outedges reached.typed.sourcesAs distinct idle looped
  refine ⟨same, ?_⟩
  intro id
  dsimp only
  rw [same, types, Governable]
  apply or_congr_right
  rw [Ne, covers, types]
  constructor
  · intro covered
    by_contra absent
    apply covered
    refine ⟨rfl, ?_⟩
    intro head isNew starts follows
    exact absent ⟨head, (reached.newHead_iff head).mp ⟨isNew, starts⟩, follows⟩
  · rintro ⟨head, isHead, follows⟩ uncovered
    obtain ⟨isNew, starts⟩ := (reached.newHead_iff head).mpr isHead
    exact uncovered.2 head isNew starts follows

/-- The names that the policies look up leave nothing behind exactly when all of them are known. -/
theorem lookedUp_same_iff {operators : OperatorTable} {ids : List TaskID}
    (started : Started env request node.operators topo.toStart state)
    (lookedUp : LookedUp state.operators ids operators) :
    (∀ id, ¬node.Brings topo id → operators.get? id = node.operators.get? id) ↔ ∀ id ∈ ids, node.Known topo id := by
  constructor
  · intro kept id member
    by_contra unknown
    have null := kept id fun brings => unknown (Or.inr brings.2)
    rw [lookedUp id, if_pos ⟨(started.get?_eq_none_iff id).mpr unknown, member⟩] at null
    exact unknown (Or.inl (by rw [← null]; nofun))
  · intro known id notNew
    rw [lookedUp id]
    split
    · rename_i missing
      exact absurd (known id missing.2) ((started.get?_eq_none_iff id).mp missing.1)
    · exact started.old id fun isNew => notNew ((started.mem_ids id).mp isNew)

/-- Refused policies leave the operators alone exactly when they are clean. -/
theorem policies_refused_iff {built final : Altering} (started : Started env request node.operators topo.toStart state)
    (ids : ∀ id ∈ built.operatorIDsToStart, id ∈ state.ids) (operators : built.node.operators = state.operators)
    (governable : ∀ id, (liveType built.node.operators id = none ∨ built.opToChain.get? id ≠ none) ↔
      node.Governable env topo id)
    (refused : establishCongestPolicies topo built = .refused err final) :
    (∀ id, ¬node.Brings topo id → final.node.operators.get? id = node.operators.get? id) ↔ node.CleanPolicies env topo := by
  have listed : ∀ id ∈ built.operatorIDsToStart, built.node.operators.get? id ≠ none := by
    intro id member
    obtain ⟨type, -, found, -⟩ := started.typeAfter_eq (ids id member)
    rw [operators, found]
    nofun
  obtain ⟨before, within, covered, stops, after, lookedUp, rfl⟩ := establishCongestPolicies_refused listed refused
  simp only [governable] at covered stops
  rw [operators] at lookedUp
  dsimp only
  rw [lookedUp_same_iff started lookedUp, CleanPolicies, forall_reached_iff _ within covered stops]
  refine ⟨fun known => ⟨known, ?_⟩, fun known => known.1⟩
  intro id longer
  apply known_of_typeAfter
  intro missing
  exact stops id longer (Or.inl missing)

end Refused

section Cases

variable {env : Surroundings} {fuel request : ℕ} {topo : AlterTopo} {node : Node} {err : String}
  {started created destroyed final : Altering}

/-- A refused task keeps the tables exactly when the tasks before it have no entries in the tables of chains. -/
theorem same_iff_of_tasks (refused : startOperators env request topo (node.startAlter topo) = .refused err final) :
    SameTables node (rollBack env node final).node ↔ node.CleanRefusal env topo := by
  obtain ⟨state, looped, rfl⟩ := map_eq_refused.mp refused
  obtain ⟨before, task, reached, within, done, stepped, accepted, rejected, longest⟩ :=
    startOperator_decides.refusedAt looped
  obtain rfl := startOperator_refused stepped
  have spec : Started env request node.operators before state := started_of_loop done
  have unprepared : ¬AllAccepted (node.Startable env) topo.toStart := fun all => rejected (all before task within)
  rw [rollBack_same_iff fun id member => ((spec.mem_ids id).mp member).1]
  constructor
  · rintro ⟨unchained, -, -⟩
    refine ⟨?_, fun all => absurd all unprepared, fun all => absurd all.1 unprepared, fun all => absurd all.1 unprepared,
      fun all => absurd all.1 unprepared, fun all => absurd all.1 unprepared⟩
    intro tasks shorter allAccepted other member missing
    exact unchained other.id
      ((spec.mem_ids other.id).mpr ⟨missing, other, (longest tasks shorter allAccepted).mem member, rfl⟩)
  · intro clean
    refine ⟨?_, rfl, fun id old => ⟨spec.old id old, rfl, rfl⟩⟩
    intro id member
    obtain ⟨missing, other, place, rfl⟩ := (spec.mem_ids id).mp member
    exact clean.started before (List.IsPrefix.trans ⟨[task], rfl⟩ within) accepted other place missing

/-- A refused cube keeps the tables exactly when the tasks have no chains and the cubes before it were there. -/
theorem same_iff_of_cubes (start : startOperators env request topo (node.startAlter topo) = .done started)
    (refused : createCubes env topo started = .refused err final) :
    SameTables node (rollBack env node final).node ↔ node.CleanRefusal env topo := by
  obtain ⟨state, startLoop, rfl⟩ := map_eq_done.mp start
  obtain ⟨⟨mgr, listed⟩, looped, rfl⟩ := map_eq_refused.mp refused
  have spec : Started env request node.operators topo.toStart state := started_of_loop startLoop
  have all : AllAccepted (node.Startable env) topo.toStart := startOperator_decides.allAccepted startLoop
  obtain ⟨before, task, reached, within, done, stepped, accepted, rejected, longest⟩ := createCube_decides.refusedAt looped
  rw [allAccepted_const] at accepted
  have sameCubes : mgr = reached.1 := by
    unfold createCube at stepped
    split at stepped
    · cases stepped
    · rename_i refusedCube
      obtain ⟨-, sameState⟩ := Attempt.refused.inj stepped
      obtain ⟨-, rfl⟩ := CubeManager.createCube_refused refusedCube
      exact (Prod.mk.inj sameState).1.symm
    all_goals cases stepped
  have createdSpec : Created node.cubeMgr before reached.1 := created_of_loop done
  have invalid : ¬∀ other ∈ topo.toCreate, Creatable other := fun valid =>
    rejected (valid task (within.mem (List.mem_append_right before List.mem_cons_self)))
  rw [rollBack_same_iff fun id member => ((spec.mem_ids id).mp member).1]
  dsimp only
  rw [sameCubes, createdSpec.eq_iff]
  constructor
  · rintro ⟨unchained, there, -⟩
    refine ⟨?_, ?_, fun prepared => absurd prepared.2 invalid, fun prepared => absurd prepared.2 invalid,
      fun prepared => absurd prepared.2 invalid, fun prepared => absurd prepared.2 invalid⟩
    · intro tasks shorter _ other member missing
      exact unchained other.id ((spec.mem_ids other.id).mpr ⟨missing, other, shorter.mem member, rfl⟩)
    · intro _ tasks shorter valid other member
      exact Or.inl (there other ((longest tasks shorter (allAccepted_const.mpr valid)).mem member))
  · intro clean
    refine ⟨?_, ?_, fun id old => ⟨spec.old id old, rfl, rfl⟩⟩
    · intro id member
      obtain ⟨missing, other, place, rfl⟩ := (spec.mem_ids id).mp member
      exact clean.started _ (List.prefix_refl _) all other place missing
    · intro other member
      rcases clean.created all before (List.IsPrefix.trans ⟨[task], rfl⟩ within) accepted other member with there | ⟨valid, -⟩
      · exact there
      · exact absurd valid invalid

/-- A refused edge keeps the tables exactly when the stages before the edges and the edges are clean. -/
theorem same_iff_of_edges (wellFormed : node.WellFormed) (unused : node.Unused request)
    (start : startOperators env request topo (node.startAlter topo) = .done started)
    (create : createCubes env topo started = .done created)
    (destroy : destroyCubes env topo (stopTasks env topo created) = .done destroyed)
    (refused : connectEdges env topo destroyed = .refused err final) :
    SameTables node (rollBack env node final).node ↔ node.CleanRefusal env topo := by
  obtain ⟨state, mgr, reaches⟩ := reaches_of_done wellFormed.sources start create destroy
  obtain ⟨wiring, looped, finalIs⟩ := map_eq_refused.mp refused
  have attached : node.cubeMgr.Attached state.operators :=
    reaches.started.attached wellFormed.attached fun _ _ _ listed => unused.get? listed
  have later : Later destroyed final := by
    rw [← finalIs]
    exact ⟨rfl, fun _ _ => rfl, fun _ _ => rfl, loop_connectEdge_refused_cubes looped⟩
  have edges (clean : CleanStart node topo) :
      ¬(∀ edge ∈ topo.edges, Connectable (typeAfter env node topo) node.cubeMgr edge) ∧
        (SameTables node (rollBack env node final).node ↔ node.CleanEdges env topo) := by
    rw [clean.same_iff reaches later, ← finalIs]
    rw [clean.operators_eq reaches, clean.cubeMgr_eq reaches] at looped
    exact connectEdge_refused_iff reaches.started attached looped
  rw [cleanRefusal_iff reaches.prepared]
  constructor
  · intro same
    have clean := reaches.cleanStart later same
    exact ⟨clean, (edges clean).2.mp same, fun all => absurd all (edges clean).1⟩
  · rintro ⟨clean, cleanEdges, -⟩
    exact (edges clean).2.mpr cleanEdges

theorem cleanEdges_iff (connectable : ∀ edge ∈ topo.edges, Connectable (typeAfter env node topo) node.cubeMgr edge) :
    node.CleanEdges env topo ↔ ∀ edge ∈ topo.edges, edge.src ≠ none := by
  constructor
  · intro clean
    exact clean.attached _ (List.prefix_refl _) connectable
  · intro noCubes
    constructor
    · intro edges shorter _ edge member
      exact noCubes edge (shorter.mem member)
    · intro edges edge shorter _
      exact (connectable edge (shorter.mem (List.mem_append_right edges List.mem_cons_self))).known

/-- A refused policy keeps the tables exactly when all stages up to the policies are clean. -/
theorem same_iff_of_policies {wired built : Altering} (wellFormed : node.WellFormed) (unused : node.Unused request)
    (start : startOperators env request topo (node.startAlter topo) = .done started)
    (create : createCubes env topo started = .done created)
    (destroy : destroyCubes env topo (stopTasks env topo created) = .done destroyed)
    (wire : connectEdges env topo destroyed = .done wired) (build : buildChains env fuel wired = .done built)
    (refused : establishCongestPolicies topo built = .refused err final) :
    SameTables node (rollBack env node final).node ↔ node.CleanRefusal env topo := by
  obtain ⟨state, mgr, reaches⟩ := reaches_of_done wellFormed.sources start create destroy
  obtain ⟨again, reached⟩ := reached_of_done start create destroy wire
  obtain ⟨-, -, -, -, sameChains, -⟩ :=
    buildChains_announces (reached.ids ▸ reached.started.nodup) reached.typed.sourcesAs build
  obtain ⟨wiring, wireLoop, wiredIs⟩ := map_eq_done.mp wire
  have wiredFrame : wired.operatorIDsToStart = destroyed.operatorIDsToStart ∧
      wired.node.sourcelessChain = destroyed.node.sourcelessChain ∧ wired.node.chainSources = destroyed.node.chainSources ∧
      wired.node.operators = wiring.operators ∧ wired.opToOutedge = wiring.opToOutedge := by
    rw [← wiredIs]
    exact ⟨rfl, rfl, rfl, rfl, rfl⟩
  obtain ⟨wiredIDs, wiredSourceless, wiredSources, wiredOperators, wiredOutedge⟩ := wiredFrame
  have finalFrame : final.operatorIDsToStart = built.operatorIDsToStart ∧
      final.node.sourcelessChain = built.node.sourcelessChain ∧ final.node.chainSources = built.node.chainSources ∧
      final.node.cubeMgr = built.node.cubeMgr := by
    obtain ⟨policies, -, rfl⟩ := map_eq_refused.mp refused
    exact ⟨rfl, rfl, rfl, rfl⟩
  have builtFrame : built.operatorIDsToStart = destroyed.operatorIDsToStart ∧ built.node.cubeMgr = wiring.cubeMgr := by
    obtain ⟨_, -, rfl⟩ := map_eq_done.mp build
    rw [← wiredIs]
    exact ⟨rfl, rfl⟩
  have later : Later destroyed final := by
    refine ⟨finalFrame.1.trans builtFrame.1, ?_, ?_, ?_⟩
    · intro id notNew
      rw [finalFrame.2.1, (sameChains id fun new => notNew (wiredIDs ▸ new.1)).1, wiredSourceless]
    · intro id notNew
      rw [finalFrame.2.2.1, (sameChains id fun new => notNew (wiredIDs ▸ new.1)).2, wiredSources]
    · intro name
      rw [finalFrame.2.2.2, builtFrame.2]
      exact (loop_connectEdge_sameNames wireLoop).cubes name
  have same_iff (clean : CleanStart node topo) : SameTables node (rollBack env node final).node ↔
      node.CleanEdges env topo ∧
        ((∀ edge ∈ topo.edges, Connectable (typeAfter env node topo) node.cubeMgr edge) → node.CleanPolicies env topo) := by
    have attached : node.cubeMgr.Attached state.operators :=
      reaches.started.attached wellFormed.attached fun _ _ _ listed => unused.get? listed
    have decides := connectEdge_decides env ⟨destroyed.node.operators, destroyed.node.cubeMgr, .empty, .empty⟩
    have outedges := loop_connectEdge_outedge wireLoop
    rw [clean.operators_eq reaches, clean.cubeMgr_eq reaches] at wireLoop decides
    dsimp only at decides
    rw [reaches.started.liveType_eq] at decides
    have connectable := allAccepted_const.mp (decides.allAccepted wireLoop)
    obtain ⟨cubes_iff, sameOperators⟩ := loop_connectEdge_cubes_iff attached wireLoop
    rw [clean.same_iff reaches later, finalFrame.2.2.2, builtFrame.2, cubes_iff, ← cleanEdges_iff connectable]
    apply and_congr_right
    intro cleanEdges
    have operators : wired.node.operators = state.operators :=
      wiredOperators.trans (sameOperators ((cleanEdges_iff connectable).mp cleanEdges))
    have types : liveType wired.node.operators = typeAfter env node topo := by rw [operators, reaches.started.liveType_eq]
    have idle : ∀ id ∈ wired.operatorIDsToStart,
        NoChain wired.node.sourcelessChain id ∧ NoChain wired.node.chainSources id := by
      intro id member
      rw [wiredIDs, reaches.mem_ids] at member
      rw [wiredSourceless, wiredSources]
      exact clean.noChain reaches member
    obtain ⟨builtOperators, governable⟩ :=
      buildChains_governable reached (fun id => wiredOutedge ▸ outedges id) types idle build
    have ids : ∀ id ∈ built.operatorIDsToStart, id ∈ state.ids := fun id member => reaches.ids ▸ builtFrame.1 ▸ member
    rw [policies_refused_iff reaches.started ids (builtOperators.trans operators) governable refused]
    exact ⟨fun policies _ => policies, fun policies => policies connectable⟩
  rw [cleanRefusal_iff reaches.prepared]
  constructor
  · intro same
    have clean := reaches.cleanStart later same
    exact ⟨clean, (same_iff clean).mp same⟩
  · rintro ⟨clean, rest⟩
    exact (same_iff clean).mpr rest

end Cases

section Atomic

variable {env : Surroundings} {fuel request : ℕ} {topo : AlterTopo} {node next : Node} {err : String} {resp : AlterTopo}

/-- A node with the same tables takes every request that went through before. -/
theorem SameTables.retry (same : SameTables node next) (tidy : node.Tidy) (distinct : next.dataConnMgr.Distinct)
    (unused : node.Unused request) (done : ∃ resp last, node.handleAlter env fuel request topo = .done (resp, last)) :
    ∃ resp last, next.handleAlter env fuel request topo = .done (resp, last) := by
  obtain ⟨resp, last, done⟩ := done
  obtain ⟨chains, told⟩ := handleAlter_announcement tidy unused done
  obtain ⟨conns, announced, -⟩ := DataplaneConnManager.announce_distinct distinct told.whole
  have sameNode : next = node.withConns next.dataConnMgr := by
    rw [withConns, ← same.operators, ← same.sourcelessChain, ← same.chainSources, ← same.cubeMgr]
  rw [sameNode]
  exact ⟨resp, last.withConns conns, told.replay _ conns announced⟩

/-- A refused request keeps the tables exactly when its refusal is clean. -/
theorem sameTables_iff (wellFormed : node.WellFormed) (unused : node.Unused request)
    (refused : node.handleAlter env fuel request topo = .refused err (resp, next)) :
    SameTables node next ↔ node.CleanRefusal env topo := by
  obtain ⟨final, altered, rfl⟩ := handleAlter_refused refused
  rcases alterTables_refused altered with tasks | ⟨started, start, cubes | ⟨created, destroyed, create, destroy, rest⟩⟩
  · exact same_iff_of_tasks tasks
  · exact same_iff_of_cubes start cubes
  · rcases rest with edges | ⟨wired, built, wire, build, policies⟩
    · exact same_iff_of_edges wellFormed unused start create destroy edges
    · exact same_iff_of_policies wellFormed unused start create destroy wire build policies

/-- A request fails atomically exactly when it does nothing before its refusal that the roll-back leaves behind. -/
theorem failsAtomically_iff_cleanRefusal (wellFormed : node.WellFormed) (unused : node.Unused request)
    (refused : node.handleAlter env fuel request topo = .refused err (resp, next)) :
    FailsAtomically node next ↔ node.CleanRefusal env topo := by
  rw [← sameTables_iff wellFormed unused refused]
  constructor
  · intro atomic
    exact atomic.same
  · intro same
    refine ⟨same, ?_⟩
    intro _ _ _ _ laterUnused done
    have tidy : next.Tidy := afterAlter_tidy wellFormed.toTidy unused (by rw [afterAlter, refused])
    exact same.retry wellFormed.toTidy tidy.conns laterUnused done

end Atomic

/-- This edge starts neither at an operator nor at a cube. -/
def edgeFromNowhere : Edge := ⟨1, none, none, some 1, none, none⟩

/-- This request starts a source and has an edge from nowhere. -/
def startWithoutSource : AlterTopo :=
  ⟨1, [⟨toLex (1, 1), "SendK", none, []⟩], [], [], [], [edgeFromNowhere], []⟩

/-- This request creates a cube and has an edge from an operator that does not exist. -/
def danglingEdge : AlterTopo :=
  ⟨1, [], [⟨"mycube", ⟨[], []⟩, none, false⟩], [], [], [⟨1, some 1, none, none, some "mycube", none⟩], []⟩

/-- The corrected request starts the operator. -/
def correctedEdge : AlterTopo :=
  ⟨1, [⟨toLex (1, 1), "SendK", none, []⟩], [⟨"mycube", ⟨[], []⟩, none, false⟩], [], [],
    [⟨1, some 1, none, none, some "mycube", none⟩], []⟩

/-- A request that is refused because of an edge from nowhere leaves nothing behind. -/
theorem failsAtomically_iff_cleanRefusal_nowhere :
    ∃ err resp next, new.handleAlter experimentOperators 5 0 startWithoutSource = .refused err (resp, next) ∧
      FailsAtomically new next := by
  have wellFormed : new.WellFormed := reachable_wellFormed ⟨[], rfl⟩
  have refused : ∃ err resp next,
      new.handleAlter experimentOperators 5 0 startWithoutSource = .refused err (resp, next) := ⟨_, _, _, rfl⟩
  obtain ⟨err, resp, next, refused⟩ := refused
  refine ⟨err, resp, next, refused, (failsAtomically_iff_cleanRefusal wellFormed (by decide) refused).mpr ?_⟩
  constructor
  · exact fun _ _ _ _ _ _ => ⟨rfl, rfl⟩
  · intro _ tasks within _ task member
    exact absurd (within.mem member) List.not_mem_nil
  · exact fun _ => nofun
  · exact fun _ => nofun
  · intro _
    constructor
    · intro edges within connectable edge member
      obtain rfl : edge = edgeFromNowhere := List.mem_singleton.mp (within.mem member)
      exact (connectable _ member).elim
    · intro edges edge within _
      obtain rfl : edge = edgeFromNowhere :=
        List.mem_singleton.mp (within.mem (List.mem_append_right edges List.mem_cons_self))
      exact nofun
  · intro _ connectable
    exact (connectable edgeFromNowhere List.mem_cons_self).elim

/-- The cube and a null entry stay behind, and the corrected request crashes where it went through before. -/
theorem failsAtomically_dangling_edge_fails :
    ∃ err resp next, new.handleAlter experimentOperators 5 0 danglingEdge = .refused err (resp, next) ∧
      new.WellFormed ∧ new.Unused 0 ∧ ¬SameTables new next ∧
      (∃ resp last, new.handleAlter experimentOperators 5 1 correctedEdge = .done (resp, last)) ∧
      next.handleAlter experimentOperators 5 1 correctedEdge = .crashed ∧ ¬FailsAtomically new next := by
  refine ⟨_, _, _, rfl, reachable_wellFormed ⟨[], rfl⟩, by decide, ?_, ⟨_, _, rfl⟩, rfl, ?_⟩
  · intro same
    exact absurd (congrArg (OrderedMap.get? · (toLex (1, 1))) same.operators) (by decide)
  · intro atomic
    exact absurd (congrArg (OrderedMap.get? · (toLex (1, 1))) atomic.same.operators) (by decide)

end JetStream.Node
