import JetStream.Dataplane.AlterStages

namespace JetStream

namespace OperatorChain

/-- The chain starts at the operator and has no null members. -/
def StartsAt (chain : OperatorChain) (id : TaskID) : Prop :=
  none ∉ chain.members ∧ ∃ rest, chain.members = some (.operator id) :: rest

variable {chain : OperatorChain} {id : TaskID}

theorem StartsAt.startName (starts : chain.StartsAt id) : chain.startName = some id.asString := by
  obtain ⟨rest, members⟩ := starts.2
  rw [OperatorChain.startName, members]

theorem StartsAt.whole (starts : chain.StartsAt id) : chain.Whole := ⟨starts.1, id.asString, starts.startName⟩

end OperatorChain

/-- The same node has other connections. -/
def Node.withConns (node : Node) (conns : DataplaneConnManager) : Node := {node with dataConnMgr := conns}

def Altering.withConns (vars : Altering) (conns : DataplaneConnManager) : Altering :=
  {vars with node := vars.node.withConns conns}

namespace Node

open Attempt

section Untouched

variable (env : Surroundings) (request : ℕ) (topo : AlterTopo) (vars : Altering) (conns : DataplaneConnManager)

theorem startOperators_withConns :
    startOperators env request topo (vars.withConns conns) =
      (startOperators env request topo vars).map fun vars => vars.withConns conns := by
  rw [startOperators, startOperators, map_map]
  rfl

theorem createCubes_withConns :
    createCubes env topo (vars.withConns conns) = (createCubes env topo vars).map fun vars => vars.withConns conns := by
  rw [createCubes, createCubes, map_map]
  rfl

theorem unregisterChain_withConns (node : Node) (chain : OperatorChain) :
    (node.withConns conns).unregisterChain chain = (node.unregisterChain chain).withConns conns := by
  unfold unregisterChain
  split <;> rfl

theorem stopTask_withConns (node : Node) (id : TaskID) :
    stopTask env (node.withConns conns) id = (stopTask env node id).withConns conns := by
  have sources : (node.withConns conns).chainSources = node.chainSources := rfl
  unfold stopTask
  rw [sources]
  cases node.chainSources.get? id with
  | none => rfl
  | some entry =>
      cases entry with
      | none => rfl
      | some chain =>
          dsimp only
          rw [unregisterChain_withConns]
          rfl

theorem stopTasks_withConns : stopTasks env topo (vars.withConns conns) = (stopTasks env topo vars).withConns conns := by
  have nodes (ids : List TaskID) (node : Node) :
      ids.foldl (stopTask env) (node.withConns conns) = (ids.foldl (stopTask env) node).withConns conns := by
    induction ids generalizing node with
    | nil => rfl
    | cons id rest ih => rw [List.foldl_cons, List.foldl_cons, stopTask_withConns, ih]
  unfold stopTasks
  rw [show (vars.withConns conns).node = vars.node.withConns conns from rfl, nodes]
  rfl

theorem destroyCube_withConns (node : Node) (name : String) :
    destroyCube env (node.withConns conns) name = (destroyCube env node name).map fun node => node.withConns conns := by
  have cubes : (node.withConns conns).cubeMgr = node.cubeMgr := rfl
  unfold destroyCube
  rw [cubes]
  cases node.cubeMgr.destroyCube name with
  | none => rfl
  | some found => rfl

theorem destroyCubes_withConns :
    destroyCubes env topo (vars.withConns conns) =
      (destroyCubes env topo vars).map fun vars => vars.withConns conns := by
  have looped : loop (destroyCube env) (vars.withConns conns).node topo.cubesToStop =
      (loop (destroyCube env) vars.node topo.cubesToStop).map fun node => node.withConns conns :=
    loop_map (fun node => node.withConns conns) (destroyCube_withConns env conns) vars.node topo.cubesToStop
  rw [destroyCubes, destroyCubes, looped, map_map, map_map]
  rfl

theorem connectEdges_withConns :
    connectEdges env topo (vars.withConns conns) =
      (connectEdges env topo vars).map fun vars => vars.withConns conns := by
  rw [connectEdges, connectEdges, map_map]
  rfl

theorem establishCongestPolicies_withConns :
    establishCongestPolicies topo (vars.withConns conns) =
      (establishCongestPolicies topo vars).map fun vars => vars.withConns conns := by
  rw [establishCongestPolicies, establishCongestPolicies, map_map]
  rfl

end Untouched

section Built

variable {env : Surroundings} {fuel : ℕ} {cubeMgr : CubeManager} {opToOutedge : OrderedMap TaskID Edge}
  {opToPred : OrderedMap TaskID TaskID} {isSource : TaskID → Bool}

/-- The operators that are alive are sources as given. -/
def SourcesAs (isSource : TaskID → Bool) (operators : OperatorTable) : Prop :=
  ∀ id op, operators.get? id = some (some op) → op.type.isSource = isSource id

theorem SourcesAs.shrinks {before after : OperatorTable} (typed : SourcesAs isSource before)
    (shrinks : Shrinks before after) : SourcesAs isSource after :=
  fun id op found => typed id op (shrinks id op found)

/-- A new operator starts a chain when it has no predecessor or is a source. -/
def StartsChain (isSource : TaskID → Bool) (opToPred : OrderedMap TaskID TaskID) (id : TaskID) : Prop :=
  opToPred.get? id = none ∨ isSource id

/-- The chain stands in the table for its kind of start. -/
def RegisteredIn (isSource : TaskID → Bool) (before after : Building) (id : TaskID) (chain : OperatorChain) : Prop :=
  if isSource id then
    after.chainSources.get? id = some (some chain) ∧ after.sourcelessChain.get? id = before.sourcelessChain.get? id
  else after.sourcelessChain.get? id = some (some chain)

/-- The tables have the same entries under the name. -/
def SameAt (before after : Building) (id : TaskID) : Prop :=
  after.sourcelessChain.get? id = before.sourcelessChain.get? id ∧
    after.chainSources.get? id = before.chainSources.get? id

/-- One new operator adds at most one chain, in the same way for all connections that this chain can be announced to. -/
theorem buildChain_announces {state next : Building} {id : TaskID} (typed : SourcesAs isSource state.operators)
    (ran : buildChain env fuel cubeMgr opToOutedge opToPred state id = .done next) :
    ∃ chains, state.dataConnMgr.announce chains = some next.dataConnMgr ∧ Shrinks state.operators next.operators ∧
      (∀ chain ∈ chains, StartsChain isSource opToPred id ∧ chain.StartsAt id) ∧
      (StartsChain isSource opToPred id → ∃ chain ∈ chains, chain.StartsAt id ∧ RegisteredIn isSource state next id chain) ∧
      (∀ other, ¬(other = id ∧ StartsChain isSource opToPred id) → SameAt state next other) ∧
      ∀ conns last, conns.announce chains = some last →
        buildChain env fuel cubeMgr opToOutedge opToPred {state with dataConnMgr := conns} id =
          .done {next with dataConnMgr := last} := by
  obtain ⟨chainOp, alive, ⟨notHead, rfl⟩ | ⟨head, members, passed, followed, registered⟩⟩ := buildChain_done ran
  · rw [typed id chainOp alive] at notHead
    refine ⟨[], rfl, fun _ _ found => found, nofun, fun head => absurd head notHead, fun _ _ => ⟨rfl, rfl⟩, ?_⟩
    intro conns last announced
    obtain rfl := Option.some.inj announced
    unfold buildChain
    dsimp only
    rw [alive]
    dsimp only
    rw [typed id chainOp alive, if_neg notHead]
  · obtain ⟨conns, told, rfl⟩ := registerChain_done registered
    have startsAt : OperatorChain.StartsAt ⟨members.map some⟩ id := by
      obtain ⟨rest, rfl⟩ := (followChain_done followed).1
      exact ⟨by simp, rest.map some, rfl⟩
    have sourceAs := typed id chainOp alive
    have starts : StartsChain isSource opToPred id := by
      rw [StartsChain, ← sourceAs]
      exact head
    refine ⟨[⟨members.map some⟩], ?_, shrinks_replaceChain env _ _ id, ?_, ?_, ?_, ?_⟩
    · rw [DataplaneConnManager.announce, List.foldlM_cons, told]
      rfl
    · intro chain member
      obtain rfl := List.mem_singleton.mp member
      exact ⟨starts, startsAt⟩
    · intro _
      refine ⟨_, List.mem_singleton_self _, startsAt, ?_⟩
      rw [sourceAs, RegisteredIn]
      cases isSource id with
      | false => exact (OrderedMap.get?_set _ _ _ _).trans (if_pos rfl)
      | true => exact ⟨(OrderedMap.get?_set _ _ _ _).trans (if_pos rfl), rfl⟩
    · intro other elsewhere
      have different : other ≠ id := fun same => elsewhere ⟨same, starts⟩
      rw [SameAt]
      cases chainOp.type.isSource with
      | false => exact ⟨(OrderedMap.get?_set _ _ _ _).trans (if_neg different), rfl⟩
      | true => exact ⟨rfl, (OrderedMap.get?_set _ _ _ _).trans (if_neg different)⟩
    · intro others last announced
      obtain ⟨middle, created, rest⟩ := DataplaneConnManager.announce_cons announced
      obtain rfl := Option.some.inj rest
      unfold buildChain
      dsimp only
      rw [alive]
      dsimp only
      rw [if_pos head, followed]
      dsimp only
      rw [registerChain]
      dsimp only
      rw [created]
      cases chainOp.type.isSource with
      | false => rfl
      | true => rfl

/-- The new operators announce their chains one after the other, whatever the connections are. -/
theorem loop_buildChain_announces {ids : List TaskID} {state final : Building} (distinct : ids.Nodup)
    (typed : SourcesAs isSource state.operators)
    (ran : loop (buildChain env fuel cubeMgr opToOutedge opToPred) state ids = .done final) :
    ∃ chains, state.dataConnMgr.announce chains = some final.dataConnMgr ∧
      (∀ chain ∈ chains, ∃ id ∈ ids, StartsChain isSource opToPred id ∧ chain.StartsAt id) ∧
      (∀ id ∈ ids, StartsChain isSource opToPred id →
        ∃ chain ∈ chains, chain.StartsAt id ∧ RegisteredIn isSource state final id chain) ∧
      (∀ other, ¬(other ∈ ids ∧ StartsChain isSource opToPred other) → SameAt state final other) ∧
      ∀ conns last, conns.announce chains = some last →
        loop (buildChain env fuel cubeMgr opToOutedge opToPred) {state with dataConnMgr := conns} ids =
          .done {final with dataConnMgr := last} := by
  induction ids generalizing state with
  | nil =>
      obtain rfl := Attempt.done.inj ran
      refine ⟨[], rfl, nofun, nofun, fun _ _ => ⟨rfl, rfl⟩, ?_⟩
      intro conns last announced
      obtain rfl := Option.some.inj announced
      rfl
  | cons id rest ih =>
      obtain ⟨fresh, restDistinct⟩ := List.nodup_cons.mp distinct
      obtain ⟨next, stepped, following⟩ := bind_eq_done.mp ran
      obtain ⟨firstChains, told, shrinks, startsFirst, registered, same, replay⟩ := buildChain_announces typed stepped
      obtain ⟨restChains, restTold, startsRest, restRegistered, restSame, restReplay⟩ :=
        ih restDistinct (typed.shrinks shrinks) following
      have unchanged : SameAt next final id := restSame id fun member => fresh member.1
      refine ⟨firstChains ++ restChains, ?_, ?_, ?_, ?_, ?_⟩
      · exact DataplaneConnManager.announce_append.mpr ⟨next.dataConnMgr, told, restTold⟩
      · intro chain member
        rcases List.mem_append.mp member with first | later
        · exact ⟨id, List.mem_cons_self, startsFirst chain first⟩
        · obtain ⟨other, place, starts⟩ := startsRest chain later
          exact ⟨other, List.mem_cons_of_mem id place, starts⟩
      · intro other member starts
        rcases List.mem_cons.mp member with rfl | later
        · obtain ⟨chain, place, startsAt, listed⟩ := registered starts
          refine ⟨chain, List.mem_append_left _ place, startsAt, ?_⟩
          rw [RegisteredIn] at listed ⊢
          rw [unchanged.1, unchanged.2]
          exact listed
        · obtain ⟨chain, place, startsAt, listed⟩ := restRegistered other later starts
          refine ⟨chain, List.mem_append_right _ place, startsAt, ?_⟩
          have before : SameAt state next other := same other fun here => ne_of_mem_of_not_mem later fresh here.1
          rw [RegisteredIn] at listed ⊢
          rw [← before.1]
          exact listed
      · intro other elsewhere
        have before : SameAt state next other := by
          apply same
          rintro ⟨rfl, starts⟩
          exact elsewhere ⟨List.mem_cons_self, starts⟩
        have after : SameAt next final other :=
          restSame other fun here => elsewhere ⟨List.mem_cons_of_mem id here.1, here.2⟩
        exact ⟨after.1.trans before.1, after.2.trans before.2⟩
      · intro conns last announced
        obtain ⟨middle, first, later⟩ := DataplaneConnManager.announce_append.mp announced
        exact bind_eq_done.mpr ⟨_, replay conns middle first, restReplay middle last later⟩

/-- Each requested cube announces a chain that starts at it, whatever the connections are. -/
theorem loop_announceCube_announces {tasks : List CubeMeta} {conns final : DataplaneConnManager}
    (ran : loop (announceCube cubeMgr) conns tasks = .done final) :
    ∃ chains, conns.announce chains = some final ∧
      (∀ chain, chain ∈ chains ↔
        ∃ task ∈ tasks, ∃ cube, cubeMgr.getCube task.name = some cube ∧ chain = ⟨[some (.cube cube.name)]⟩) ∧
      (∀ task ∈ tasks, ∃ cube, cubeMgr.getCube task.name = some cube) ∧
      ∀ others last, others.announce chains = some last → loop (announceCube cubeMgr) others tasks = .done last := by
  induction tasks generalizing conns with
  | nil =>
      obtain rfl := Attempt.done.inj ran
      refine ⟨[], rfl, by simp, nofun, ?_⟩
      intro others last announced
      obtain rfl := Option.some.inj announced
      rfl
  | cons task rest ih =>
      obtain ⟨next, stepped, following⟩ := bind_eq_done.mp ran
      obtain ⟨cube, found, told⟩ := Option.bind_eq_some_iff.mp (ofOption_eq_done.mp stepped)
      obtain ⟨chains, restTold, mem_iff, listed, replay⟩ := ih following
      refine ⟨⟨[some (.cube cube.name)]⟩ :: chains, ?_, ?_, ?_, ?_⟩
      · rw [DataplaneConnManager.announce, List.foldlM_cons, told]
        exact restTold
      · intro chain
        rw [List.mem_cons, mem_iff]
        simp [found]
      · intro other member
        rcases List.mem_cons.mp member with rfl | later
        · exact ⟨cube, found⟩
        · exact listed other later
      · intro others last announced
        obtain ⟨middle, created, announcedRest⟩ := DataplaneConnManager.announce_cons announced
        refine bind_eq_done.mpr ⟨middle, ?_, replay middle last announcedRest⟩
        rw [announceCube, found]
        exact ofOption_eq_done.mpr created

end Built

section Types

variable {env : Surroundings} {request : ℕ} {topo : AlterTopo}

/-- This is the class of an operator that is alive once the tasks of the request are started. -/
def typeAfter (env : Surroundings) (node : Node) (topo : AlterTopo) (id : TaskID) : Option OperatorType :=
  match node.operators.get? id with
  | some entry => entry.map COperator.type
  | none => (topo.toStart.find? fun task => task.id = id).bind fun task => env.newOp task.opTypename

/-- The operators that are alive have the given classes. -/
def TypedAs (types : TaskID → Option OperatorType) (operators : OperatorTable) : Prop :=
  ∀ id op, operators.get? id = some (some op) → types id = some op.type

theorem TypedAs.shrinks {types : TaskID → Option OperatorType} {before after : OperatorTable}
    (typed : TypedAs types before) (shrinks : Shrinks before after) : TypedAs types after :=
  fun id op found => typed id op (shrinks id op found)

/-- This operator is a source once the tasks of the request are started. -/
def isSourceAfter (env : Surroundings) (node : Node) (topo : AlterTopo) (id : TaskID) : Bool :=
  ((typeAfter env node topo id).map OperatorType.isSource).getD false

theorem TypedAs.sourcesAs {node : Node} {operators : OperatorTable} (typed : TypedAs (typeAfter env node topo) operators) :
    SourcesAs (isSourceAfter env node topo) operators := by
  intro id op found
  rw [isSourceAfter, typed id op found]
  rfl

/-- A started task has the class that the loader gives for its name. -/
theorem Started.typeAfter_eq {node : Node} {state : Starting}
    (started : Started env request node.operators topo.toStart state) {id : TaskID} (isNew : id ∈ state.ids) :
    ∃ type, typeAfter env node topo id = some type ∧ state.operators.get? id = some (some ⟨type, request, none⟩) ∧
      ∃ task ∈ topo.toStart, task.id = id ∧ env.newOp task.opTypename = some type := by
  obtain ⟨missing, task, member, same⟩ := (started.mem_ids id).mp isNew
  cases found : topo.toStart.find? fun task => task.id = id with
  | none => exact absurd same (by simpa using List.find?_eq_none.mp found task member)
  | some first =>
      have place : first ∈ topo.toStart := List.mem_of_find?_eq_some found
      have firstSame : first.id = id := by simpa using List.find?_some found
      obtain ⟨type, loaded, listed⟩ := started.new first place (firstSame ▸ isNew)
      refine ⟨type, ?_, firstSame ▸ listed, first, place, firstSame, loaded⟩
      rw [typeAfter, missing]
      dsimp only
      rw [found]
      exact loaded

theorem Started.typed {node : Node} {state : Starting}
    (started : Started env request node.operators topo.toStart state) :
    TypedAs (typeAfter env node topo) state.operators := by
  intro id op found
  by_cases isNew : id ∈ state.ids
  · obtain ⟨type, typeIs, listed, -⟩ := started.typeAfter_eq isNew
    obtain rfl := Option.some.inj (Option.some.inj (listed.symm.trans found))
    exact typeIs
  · rw [started.old id isNew] at found
    rw [typeAfter, found]
    rfl

theorem connectEdges_typed {types : TaskID → Option OperatorType} {vars wired : Altering}
    (typed : TypedAs types vars.node.operators) (ran : connectEdges env topo vars = .done wired) :
    TypedAs types wired.node.operators := by
  obtain ⟨state, looped, rfl⟩ := map_eq_done.mp ran
  apply loop_invariant (fun state : Wiring => TypedAs types state.operators) _ typed looped
  intro edge member state next typed stepped
  rcases connectEdge_done stepped with ⟨task, -, operator⟩ | ⟨-, srcCube, -, attached⟩
  · obtain ⟨-, -, rfl⟩ := connectOperator_done operator
    exact typed
  · obtain ⟨cube, sub, -, alive, -, -, rfl⟩ := connectCube_done attached
    intro id op found
    dsimp only at found
    rcases OrderedMap.get?_set_cases found with ⟨same, here⟩ | ⟨-, before⟩
    · obtain rfl := Option.some.inj here
      exact same ▸ typed _ sub alive
    · exact typed id op before

/-- The announcements of the new chains are all that the stage does to the connections. -/
theorem buildChains_announces {fuel : ℕ} {isSource : TaskID → Bool} {vars built : Altering}
    (distinct : vars.operatorIDsToStart.Nodup) (typed : SourcesAs isSource vars.node.operators)
    (ran : buildChains env fuel vars = .done built) :
    ∃ chains, vars.node.dataConnMgr.announce chains = some built.node.dataConnMgr ∧
      (∀ chain ∈ chains, ∃ id ∈ vars.operatorIDsToStart, StartsChain isSource vars.opToPred id ∧ chain.StartsAt id) ∧
      (∀ id ∈ vars.operatorIDsToStart, StartsChain isSource vars.opToPred id →
        ∃ chain ∈ chains, chain.StartsAt id ∧
          if isSource id then
            built.node.chainSources.get? id = some (some chain) ∧
              built.node.sourcelessChain.get? id = vars.node.sourcelessChain.get? id
          else built.node.sourcelessChain.get? id = some (some chain)) ∧
      (∀ id, ¬(id ∈ vars.operatorIDsToStart ∧ StartsChain isSource vars.opToPred id) →
        built.node.sourcelessChain.get? id = vars.node.sourcelessChain.get? id ∧
          built.node.chainSources.get? id = vars.node.chainSources.get? id) ∧
      ∀ conns last, conns.announce chains = some last →
        buildChains env fuel (vars.withConns conns) = .done (built.withConns last) := by
  obtain ⟨state, looped, rfl⟩ := map_eq_done.mp ran
  obtain ⟨chains, told, starts, registered, same, replay⟩ := loop_buildChain_announces distinct typed looped
  refine ⟨chains, told, starts, registered, same, ?_⟩
  intro conns last announced
  exact map_eq_done.mpr ⟨_, replay conns last announced, rfl⟩

end Types

end Node

end JetStream
