import JetStream.Dataplane.Announced
import JetStream.Dataplane.ChainTables

namespace JetStream

namespace CubeManager

/-- Every subscriber of a cube that is still in the table of operators knows that it has a cube. -/
def Attached (mgr : CubeManager) (operators : OperatorTable) : Prop :=
  ∀ name cube id request op, mgr.cubeMap.get? name = some cube → cube.subscribers.get? id = some request →
    operators.get? id = some (some op) → op.request = request → op.cube ≠ none

/-- A cube is as it was, or it has no subscribers. -/
def NoNewSubscribers (before after : CubeManager) : Prop :=
  ∀ name cube, after.cubeMap.get? name = some cube →
    before.cubeMap.get? name = some cube ∨ ∀ id, cube.subscribers.get? id = none

theorem Attached.mono {before after : CubeManager} {operators later : OperatorTable} (attached : before.Attached operators)
    (cubes : NoNewSubscribers before after) (shrinks : Node.Shrinks operators later) : after.Attached later := by
  intro name cube id request op listed subscribed alive same
  rcases cubes name cube listed with old | none
  · exact attached name cube id request op old subscribed (shrinks id op alive) same
  · rw [none id] at subscribed
    cases subscribed

theorem noNewSubscribers_erase (mgr : CubeManager) (name : String) : NoNewSubscribers mgr ⟨mgr.cubeMap.erase name⟩ := by
  intro other found listed
  rw [OrderedMap.get?_erase] at listed
  split at listed
  · cases listed
  · exact Or.inl listed

theorem noNewSubscribers_set (mgr : CubeManager) (name : String) (schema : CubeSchema) :
    NoNewSubscribers mgr ⟨mgr.cubeMap.set name ⟨name, schema, .empty⟩⟩ := by
  intro other found listed
  rcases OrderedMap.get?_set_cases listed with ⟨-, rfl⟩ | ⟨-, before⟩
  · exact Or.inr fun id => OrderedMap.get?_empty id
  · exact Or.inl before

end CubeManager

namespace Node

open Attempt

/-- Cubes, subscribers and connections are in order. -/
structure Tidy (node : Node) : Prop where
  cubes : node.cubeMgr.Named
  attached : node.cubeMgr.Attached node.operators
  conns : node.dataConnMgr.Distinct

/-- A node whose table of operators shrinks stays in order. -/
theorem Tidy.shrinks {before after : Node} (tidy : before.Tidy) (operators : Shrinks before.operators after.operators)
    (cubes : after.cubeMgr = before.cubeMgr) (conns : after.dataConnMgr = before.dataConnMgr) : after.Tidy where
  cubes := cubes ▸ tidy.cubes
  attached := by
    rw [cubes]
    exact tidy.attached.mono (fun _ _ => Or.inl) operators
  conns := conns ▸ tidy.conns

section Stages

variable {env : Surroundings} {fuel request : ℕ} {topo : AlterTopo}

/-- New operators are not subscribers yet. -/
theorem Started.attached {cubeMgr : CubeManager} {operators : OperatorTable} {tasks : List TaskMeta} {state : Starting}
    (started : Started env request operators tasks state) (attached : cubeMgr.Attached operators)
    (unused : ∀ name cube id, cubeMgr.cubeMap.get? name = some cube → cube.subscribers.get? id ≠ some request) :
    cubeMgr.Attached state.operators := by
  intro name cube id number op listed subscribed alive same
  by_cases isNew : id ∈ state.ids
  · obtain ⟨task, member, rfl⟩ := ((started.mem_ids id).mp isNew).2
    obtain ⟨type, -, found⟩ := started.new task member isNew
    obtain rfl := Option.some.inj (Option.some.inj (alive.symm.trans found))
    obtain rfl : request = number := same
    exact absurd subscribed (unused name cube task.id listed)
  · rw [started.old id isNew] at alive
    exact attached name cube id number op listed subscribed alive same

theorem Unused.get? {node : Node} (unused : node.Unused request) {name : String} {cube : CubeManager.DataCube}
    {id : TaskID} (listed : node.cubeMgr.cubeMap.get? name = some cube) : cube.subscribers.get? id ≠ some request := by
  intro subscribed
  exact unused (name, cube) (node.cubeMgr.cubeMap.mem_entries_iff.mpr listed) (id, request)
    (cube.subscribers.mem_entries_iff.mpr subscribed) rfl

theorem startOperators_tidy {node : Node} (tidy : node.Tidy) (unused : node.Unused request) {started : Altering}
    (ends : (startOperators env request topo (node.startAlter topo)).EndsIn started) : started.node.Tidy := by
  obtain ⟨state, looped, rfl⟩ := endsIn_map ends
  have attached : node.cubeMgr.Attached state.operators := by
    rcases looped with done | ⟨err, refused⟩
    · exact (started_of_loop done).attached tidy.attached fun _ _ _ listed => unused.get? listed
    · obtain ⟨before, task, after, -, started, -⟩ := started_of_refused refused
      exact started.attached tidy.attached fun _ _ _ listed => unused.get? listed
  exact ⟨tidy.cubes, attached, tidy.conns⟩

theorem createCubes_tidy {vars next : Altering} (tidy : vars.node.Tidy) (ends : (createCubes env topo vars).EndsIn next) :
    next.node.Tidy := by
  obtain ⟨state, looped, rfl⟩ := endsIn_map ends
  have kept : state.1.Named ∧ state.1.Attached vars.node.operators := by
    apply loop_keeps (fun state : CubeManager × List CubeMeta => state.1.Named ∧ state.1.Attached vars.node.operators) _
      ⟨tidy.cubes, tidy.attached⟩ looped
    intro task member state kept next stepped
    unfold createCube at stepped
    split at stepped
    · rename_i cubeMgr created
      obtain rfl : (cubeMgr, state.2 ++ [task]) = next := by simpa [EndsIn] using stepped
      obtain ⟨valid, ⟨-, rfl⟩ | ⟨-, rfl⟩⟩ := CubeManager.createCube_done created
      · exact kept
      · exact ⟨kept.1.set valid rfl,
          kept.2.mono (CubeManager.noNewSubscribers_set _ _ _) fun _ _ found => found⟩
    · rename_i err cubeMgr refused
      obtain rfl : (cubeMgr, state.2) = next := by simpa [EndsIn] using stepped
      obtain ⟨-, rfl⟩ := CubeManager.createCube_refused refused
      exact kept
    · simp [EndsIn] at stepped
    · simp [EndsIn] at stepped
  exact ⟨kept.1, kept.2, tidy.conns⟩

/-- Stopping a task only takes operators away. -/
theorem stopTask_frame (env : Surroundings) (node : Node) (id : TaskID) :
    Shrinks node.operators (stopTask env node id).operators ∧ (stopTask env node id).cubeMgr = node.cubeMgr ∧
      (stopTask env node id).dataConnMgr = node.dataConnMgr := by
  unfold stopTask
  split
  · exact ⟨fun _ _ found => found, rfl, rfl⟩
  · exact ⟨fun _ _ found => found, rfl, rfl⟩
  · unfold unregisterChain
    split
    · exact ⟨(shrinks_erase _ _).trans (shrinks_expire _ _), rfl, rfl⟩
    · exact ⟨shrinks_expire _ _, rfl, rfl⟩

theorem stopTasks_frame (env : Surroundings) (node : Node) (ids : List TaskID) :
    Shrinks node.operators (ids.foldl (stopTask env) node).operators ∧
      (ids.foldl (stopTask env) node).cubeMgr = node.cubeMgr ∧
      (ids.foldl (stopTask env) node).dataConnMgr = node.dataConnMgr := by
  induction ids generalizing node with
  | nil => exact ⟨fun _ _ found => found, rfl, rfl⟩
  | cons id rest ih =>
      obtain ⟨operators, cubes, conns⟩ := stopTask_frame env node id
      obtain ⟨restOperators, restCubes, restConns⟩ := ih (stopTask env node id)
      exact ⟨operators.trans restOperators, restCubes.trans cubes, restConns.trans conns⟩

theorem stopTasks_tidy {vars : Altering} (tidy : vars.node.Tidy) : (stopTasks env topo vars).node.Tidy := by
  obtain ⟨operators, cubes, conns⟩ := stopTasks_frame env vars.node topo.taskToStop
  exact tidy.shrinks operators cubes conns

theorem destroyCube_shrinks {node next : Node} {name : String} (ran : destroyCube env node name = .done next) :
    Shrinks node.operators next.operators := by
  obtain ⟨cube, -, rfl⟩ := destroyCube_done ran
  dsimp only
  split
  · exact fun _ _ found => found
  · exact shrinks_expire _ _

theorem destroyCubes_shrinks {vars next : Altering} (ran : destroyCubes env topo vars = .done next) :
    Shrinks vars.node.operators next.node.operators := by
  obtain ⟨node, looped, rfl⟩ := map_eq_done.mp ran
  apply loop_invariant (fun node : Node => Shrinks vars.node.operators node.operators) _ (fun _ _ found => found) looped
  intro name member node next kept stepped
  exact kept.trans (destroyCube_shrinks stepped)

theorem destroyCubes_tidy {vars next : Altering} (tidy : vars.node.Tidy) (ends : (destroyCubes env topo vars).EndsIn next) :
    next.node.Tidy := by
  obtain ⟨node, looped, rfl⟩ := endsIn_map ends
  rcases looped with done | ⟨err, refused⟩
  · apply loop_invariant Tidy _ tidy done
    intro name member node next tidy stepped
    have shrinks := destroyCube_shrinks stepped
    obtain ⟨cube, -, rfl⟩ := destroyCube_done stepped
    exact ⟨tidy.cubes.erase _, tidy.attached.mono (CubeManager.noNewSubscribers_erase _ _) shrinks, tidy.conns⟩
  · exact absurd refused (loop_ne_refused fun node name err next => destroyCube_ne_refused)

/-- A look-up that adds a null entry adds no operator. -/
theorem shrinks_setNull (operators : OperatorTable) (id : TaskID) : Shrinks operators (operators.set id none) := by
  intro other op found
  rcases OrderedMap.get?_set_cases found with ⟨-, here⟩ | ⟨-, before⟩
  · cases here
  · exact before

/-- The new subscriber knows its cube. -/
theorem connectCube_attached {state next : Wiring} {edge : Edge} {srcCube : String} (named : state.cubeMgr.Named)
    (attached : state.cubeMgr.Attached state.operators) (ran : connectCube state edge srcCube = .done next) :
    next.cubeMgr.Named ∧ next.cubeMgr.Attached next.operators := by
  obtain ⟨cube, sub, listed, alive, -, -, rfl⟩ := connectCube_done ran
  obtain ⟨same, valid⟩ := named _ _ listed
  refine ⟨named.set valid same, ?_⟩
  intro name found id request op foundHere subscribed there number
  dsimp only at there
  rw [OrderedMap.get?_set] at there
  split at there
  · obtain rfl := Option.some.inj (Option.some.inj there)
    nofun
  · rename_i different
    rw [CubeManager.addSubscriber, OrderedMap.get?_set] at foundHere
    split at foundHere
    · obtain rfl := Option.some.inj foundHere
      rw [CubeManager.DataCube.addSubscriber, OrderedMap.get?_set, if_neg different] at subscribed
      exact attached _ cube id request op listed subscribed there number
    · exact attached name found id request op foundHere subscribed there number

theorem connectEdges_tidy {vars next : Altering} (tidy : vars.node.Tidy) (ends : (connectEdges env topo vars).EndsIn next) :
    next.node.Tidy := by
  obtain ⟨state, looped, rfl⟩ := endsIn_map ends
  have kept : state.cubeMgr.Named ∧ state.cubeMgr.Attached state.operators := by
    apply loop_keeps (fun state : Wiring => state.cubeMgr.Named ∧ state.cubeMgr.Attached state.operators) _
      ⟨tidy.cubes, tidy.attached⟩ looped
    intro edge member state kept next stepped
    rcases stepped with done | ⟨err, refused⟩
    · rcases connectEdge_done done with ⟨task, -, operator⟩ | ⟨-, srcCube, -, cube⟩
      · obtain ⟨-, -, rfl⟩ := connectOperator_done operator
        exact kept
      · exact connectCube_attached kept.1 kept.2 cube
    · obtain ⟨cubes, ⟨-, same⟩ | ⟨id, -, -, added⟩⟩ := connectEdge_refused refused
      · rw [cubes, same]
        exact kept
      · rw [cubes, added]
        exact ⟨kept.1, kept.2.mono (fun _ _ => Or.inl) (shrinks_setNull _ _)⟩
  exact ⟨kept.1, kept.2, tidy.conns⟩

/-- A chain that is created keeps the connections distinct. -/
theorem createdChain_distinct {mgr next : DataplaneConnManager} {chain : OperatorChain} (distinct : mgr.Distinct)
    (whole : chain.Whole) (created : mgr.createdChain chain = some next) : next.Distinct := by
  obtain ⟨name, starts⟩ := whole.2
  obtain ⟨released, same, spec⟩ := DataplaneConnManager.createdChain_released distinct starts whole.1
  obtain rfl := Option.some.inj (same.symm.trans created)
  exact spec.distinct distinct

theorem followChain_startsAt {operators : OperatorTable} {cubeMgr : CubeManager} {opToOutedge : OrderedMap TaskID Edge}
    {id : TaskID} {hitEnd : Bool} {members : List ChainMember} {passed : List TaskID}
    (followed : followChain operators cubeMgr opToOutedge fuel id (.operator id) hitEnd = .done (members, passed)) :
    OperatorChain.StartsAt ⟨members.map some⟩ id := by
  obtain ⟨rest, rfl⟩ := (followChain_done followed).1
  exact ⟨by simp, rest.map some, rfl⟩

theorem buildChains_tidy {vars next : Altering} (tidy : vars.node.Tidy) (ends : (buildChains env fuel vars).EndsIn next) :
    next.node.Tidy := by
  rcases ends with done | ⟨err, refused⟩
  · obtain ⟨state, looped, rfl⟩ := map_eq_done.mp done
    have kept : Shrinks vars.node.operators state.operators ∧ state.dataConnMgr.Distinct := by
      apply loop_invariant (fun state : Building => Shrinks vars.node.operators state.operators ∧ state.dataConnMgr.Distinct)
        _ ⟨fun _ _ found => found, tidy.conns⟩ looped
      intro id member state next kept stepped
      obtain ⟨chainOp, -, ⟨-, rfl⟩ | ⟨-, members, passed, followed, registered⟩⟩ := buildChain_done stepped
      · exact kept
      · obtain ⟨conns, told, rfl⟩ := registerChain_done registered
        exact ⟨kept.1.trans (shrinks_replaceChain env _ _ _),
          createdChain_distinct kept.2 (followChain_startsAt followed).whole told⟩
    exact ⟨tidy.cubes, tidy.attached.mono (fun _ _ => Or.inl) kept.1, kept.2⟩
  · exact absurd refused buildChains_ne_refused

/-- The policies only look operators up. -/
theorem addPolicy_shrinks {opToChain : OrderedMap TaskID OperatorChain} {state next : Policies} {id : TaskID}
    (ends : (addPolicy opToChain state id).EndsIn next) : Shrinks state.operators next.operators := by
  unfold addPolicy at ends
  split at ends
  · rename_i after looked
    obtain rfl : {state with operators := after} = next := by simpa [EndsIn] using ends
    have looks := shrinks_getOperator state.operators id
    rw [looked] at looks
    exact looks
  · split at ends
    · obtain rfl : state = next := by simpa [EndsIn] using ends
      exact fun _ _ found => found
    · rename_i chain found
      obtain rfl : {state with operatorsWithPolicies := state.operatorsWithPolicies ++ [id], chain := some chain} = next := by
        simpa [EndsIn] using ends
      exact fun _ _ found => found

theorem addPolicySpec_shrinks {opToChain : OrderedMap TaskID OperatorChain} {state next : Policies} {spec : List TaskID}
    (ends : (addPolicySpec opToChain state spec).EndsIn next) : Shrinks state.operators next.operators := by
  apply bind_keeps (fun reached : Policies => Shrinks state.operators reached.operators) _ _ ends
  · intro reached looped
    apply loop_keeps (fun reached : Policies => Shrinks state.operators reached.operators) _ _ looped
    · intro id member reached kept next stepped
      exact kept.trans (addPolicy_shrinks stepped)
    · exact fun _ _ found => found
  · intro reached kept last checked
    split at checked
    · simp [EndsIn] at checked
    · obtain rfl : reached = last := by simpa [EndsIn] using checked
      exact kept

theorem addDefaultPolicy_shrinks {opToChain : OrderedMap TaskID OperatorChain} {state next : Policies} {id : TaskID}
    (ends : (addDefaultPolicy opToChain state id).EndsIn next) : Shrinks state.operators next.operators := by
  unfold addDefaultPolicy at ends
  split at ends
  · obtain rfl : state = next := by simpa [EndsIn] using ends
    exact fun _ _ found => found
  · split at ends
    · obtain rfl : state = next := by simpa [EndsIn] using ends
      exact fun _ _ found => found
    · obtain rfl : {state with operators := (getOperator state.operators id).2} = next := by simpa [EndsIn] using ends
      exact shrinks_getOperator _ _

theorem establishCongestPolicies_tidy {vars next : Altering} (tidy : vars.node.Tidy)
    (ends : (establishCongestPolicies topo vars).EndsIn next) : next.node.Tidy := by
  obtain ⟨state, looped, rfl⟩ := endsIn_map ends
  have kept : Shrinks vars.node.operators state.operators := by
    apply bind_keeps (fun state : Policies => Shrinks vars.node.operators state.operators) _ _ looped
    · intro reached looped
      apply loop_keeps (fun state : Policies => Shrinks vars.node.operators state.operators) _ _ looped
      · intro spec member state kept next stepped
        exact kept.trans (addPolicySpec_shrinks stepped)
      · exact fun _ _ found => found
    · intro reached kept last looped
      apply loop_keeps (fun state : Policies => Shrinks vars.node.operators state.operators) _ kept looped
      intro id member state kept next stepped
      exact kept.trans (addDefaultPolicy_shrinks stepped)
  exact tidy.shrinks kept rfl rfl

theorem announceCubes_tidy {vars next : Altering} (tidy : vars.node.Tidy) (ends : (announceCubes topo vars).EndsIn next) :
    next.node.Tidy := by
  rcases ends with done | ⟨err, refused⟩
  · obtain ⟨conns, looped, rfl⟩ := map_eq_done.mp done
    refine ⟨tidy.cubes, tidy.attached, ?_⟩
    apply loop_invariant DataplaneConnManager.Distinct _ tidy.conns looped
    intro task member conns next distinct stepped
    obtain ⟨cube, -, created⟩ := Option.bind_eq_some_iff.mp (ofOption_eq_done.mp stepped)
    exact createdChain_distinct distinct ⟨by simp, cube.name, rfl⟩ created
  · exact absurd refused announceCubes_ne_refused

/-- The roll-back only takes operators away. -/
theorem rollBack_tidy {before : Node} {vars : Altering} (tidy : vars.node.Tidy) : (rollBack env before vars).node.Tidy := by
  have forgotten (ids : List TaskID) (node : Node) (tidy : node.Tidy) : (ids.foldl forgetOperator node).Tidy := by
    induction ids generalizing node with
    | nil => exact tidy
    | cons id rest ih =>
        exact ih _ (tidy.shrinks ((shrinks_getOperator _ id).trans (shrinks_erase _ _)) rfl rfl)
  have released (ids : List TaskID) (operators : OperatorTable) :
      Shrinks operators
        (ids.foldl
          (fun operators id =>
            replaceChain env (replaceChain env operators before.sourcelessChain id) before.chainSources id)
          operators) := by
    induction ids generalizing operators with
    | nil => exact fun _ _ found => found
    | cons id rest ih =>
        exact ((shrinks_replaceChain env _ _ _).trans (shrinks_replaceChain env _ _ _)).trans (ih _)
  exact (forgotten vars.operatorIDsToStart vars.node tidy).shrinks (released _ _) rfl rfl

theorem afterAlter_tidy {node next : Node} (tidy : node.Tidy) (unused : node.Unused request)
    (ran : afterAlter env fuel request node topo = some next) : next.Tidy := by
  have altered {vars : Altering} (ends : (alterTables env fuel request topo (node.startAlter topo)).EndsIn vars) :
      vars.node.Tidy :=
    alterTables_keeps (fun vars => vars.node.Tidy) (fun _ => startOperators_tidy tidy unused)
      (fun _ tidy _ => createCubes_tidy tidy) (fun _ => stopTasks_tidy) (fun _ tidy _ => destroyCubes_tidy tidy)
      (fun _ tidy _ => connectEdges_tidy tidy) (fun _ tidy _ => buildChains_tidy tidy)
      (fun _ tidy _ => establishCongestPolicies_tidy tidy) (fun _ tidy _ => announceCubes_tidy tidy) ends
  unfold afterAlter at ran
  split at ran
  · rename_i resp reached done
    obtain rfl := Option.some.inj ran
    obtain ⟨vars, finished, -, rfl⟩ := handleAlter_done done
    exact altered (Or.inl finished)
  · rename_i err resp reached refused
    obtain rfl := Option.some.inj ran
    obtain ⟨vars, stopped, rfl⟩ := handleAlter_refused refused
    exact rollBack_tidy (altered (Or.inr ⟨err, stopped⟩))
  · cases ran

end Stages

section Runs

variable {node next : Node}

theorem stopComputation_tidy {env : Surroundings} {compID : ℤ} {stopped : List ℤ} (tidy : node.Tidy)
    (ran : node.stopComputation env compID = some (stopped, next)) : next.Tidy := by
  apply stopComputation_invariant Tidy tidy _ ran
  intro node id tidy
  unfold purgeOperator
  split
  · exact tidy
  · split_ifs
    · exact tidy.shrinks
        (((shrinks_erase _ _).trans (shrinks_replaceChain env _ _ _)).trans (shrinks_replaceChain env _ _ _)) rfl rfl
    · exact tidy

/-- A connection from a new address can wait. -/
theorem pendingConnection_distinct {mgr : DataplaneConnManager} {c : ClientConnection} (distinct : mgr.Distinct)
    (fresh : mgr.Fresh c.remoteEndpoint) (name : String) (src : TaskID) :
    (mgr.pendingConnection c name src).Distinct := by
  have waits (other : String) : (mgr.pendingConnection c name src).waiting other =
      if other = name then mgr.waiting other ++ [⟨c, src⟩] else mgr.waiting other := by
    rw [DataplaneConnManager.waiting, DataplaneConnManager.pendingConnection, OrderedMap.get?_set]
    split
    · rename_i same
      subst same
      rfl
    · rfl
  have mem_waits {other : String} {pending : PendingConn}
      (member : pending ∈ (mgr.pendingConnection c name src).waiting other) :
      pending ∈ mgr.waiting other ∨ other = name ∧ pending.conn.remoteEndpoint = c.remoteEndpoint := by
    rw [waits] at member
    split at member
    · rename_i same
      rcases List.mem_append.mp member with old | last
      · exact Or.inl old
      · rw [List.mem_singleton.mp last]
        exact Or.inr ⟨same, rfl⟩
    · exact Or.inl member
  constructor
  · intro other
    rw [waits]
    split
    · rw [List.map_append, List.nodup_append]
      refine ⟨distinct.within other, List.nodup_singleton _, ?_⟩
      intro endpoint member new last
      obtain ⟨pending, place, rfl⟩ := List.mem_map.mp member
      rw [List.mem_singleton.mp last]
      exact fresh.unwaited other pending place
    · exact distinct.within other
  · intro first second different pending member late lateMember
    rcases mem_waits member with old | ⟨here, same⟩
    · rcases mem_waits lateMember with lateOld | ⟨there, lateSame⟩
      · exact distinct.across first second different pending old late lateOld
      · rw [lateSame]
        exact fresh.unwaited first pending old
    · rcases mem_waits lateMember with lateOld | ⟨there, lateSame⟩
      · rw [same]
        exact (fresh.unwaited second late lateOld).symm
      · exact absurd (here.trans there.symm) different
  · intro other pending member
    rcases mem_waits member with old | ⟨-, same⟩
    · exact distinct.notLive other pending old
    · rw [same]
      exact fresh.1

theorem sendMsg_distinct {mgr : DataplaneConnManager} (distinct : mgr.Distinct) (c : ClientConnection)
    (type : DataplaneType) : (mgr.sendMsg c type).Distinct := by
  unfold DataplaneConnManager.sendMsg
  split
  · exact ⟨distinct.within, distinct.across, distinct.notLive⟩
  · exact distinct

/-- A connection from a new address can be enabled. -/
theorem enableConnection_distinct {mgr enabled : DataplaneConnManager} {c : ClientConnection} {chain : OperatorChain}
    {src : TaskID} (distinct : mgr.Distinct) (fresh : mgr.Fresh c.remoteEndpoint)
    (ran : mgr.enableConnection c chain src = some enabled) : enabled.Distinct := by
  rw [DataplaneConnManager.enableConnection, fresh.1] at ran
  obtain ⟨started, -, rfl⟩ := Option.map_eq_some_iff.mp ran
  apply sendMsg_distinct
  refine ⟨distinct.within, distinct.across, ?_⟩
  intro name pending member
  rw [OrderedMap.get?_set, if_neg (fresh.unwaited name pending member)]
  exact distinct.notLive name pending member

theorem receivedDataMsg_distinct {c : ClientConnection} {msg : DataplaneMessage} (distinct : node.dataConnMgr.Distinct)
    (fresh : node.dataConnMgr.Fresh c.remoteEndpoint) (ran : node.receivedDataMsg c msg = some next) :
    next.dataConnMgr.Distinct := by
  cases msg with
  | unexpected =>
      obtain rfl := Option.some.inj ran
      exact distinct
  | chainConnect edge =>
      obtain ⟨⟨conns, destAsStr, newChain⟩, found, rest⟩ := Option.bind_eq_some_iff.mp ran
      have kept : conns.Distinct ∧ conns.Fresh c.remoteEndpoint := by
        unfold destinationFor at found
        split at found
        · obtain ⟨chain, -, same⟩ := Option.bind_eq_some_iff.mp found
          obtain ⟨rfl, -⟩ := Prod.mk.inj (Option.some.inj same)
          exact ⟨distinct, fresh⟩
        · obtain ⟨rfl, -⟩ := Prod.mk.inj (Option.some.inj found)
          exact ⟨distinct, fresh⟩
        · obtain ⟨rfl, -⟩ := Prod.mk.inj (Option.some.inj found)
          refine ⟨sendMsg_distinct distinct _ _, ?_⟩
          rw [DataplaneConnManager.Fresh, DataplaneConnManager.sendMsg_liveConns,
            DataplaneConnManager.sendMsg_pendingConns]
          exact fresh
      cases newChain with
      | none =>
          obtain rfl := Option.some.inj rest
          exact pendingConnection_distinct kept.1 kept.2 _ _
      | some chain =>
          obtain ⟨enabled, done, rfl⟩ := Option.map_eq_some_iff.mp rest
          exact enableConnection_distinct kept.1 kept.2 done

theorem removeSubscriber_tidy (tidy : node.Tidy) (cubeName : String) (id : TaskID) :
    (node.removeSubscriber cubeName id).Tidy := by
  unfold removeSubscriber
  split
  · exact tidy
  · rename_i cube listed
    obtain ⟨same, valid⟩ := tidy.cubes cubeName cube listed
    refine ⟨tidy.cubes.set valid same, ?_, tidy.conns⟩
    intro name found other request op foundHere subscribed alive number
    rw [OrderedMap.get?_set] at foundHere
    split at foundHere
    · obtain rfl := Option.some.inj foundHere
      rw [CubeManager.DataCube.removeSubscriber, OrderedMap.get?_erase] at subscribed
      split at subscribed
      · cases subscribed
      · exact tidy.attached cubeName cube other request op listed subscribed alive number
    · exact tidy.attached name found other request op foundHere subscribed alive number

theorem cleanupIncoming_distinct {mgr : DataplaneConnManager} (distinct : mgr.Distinct) (endpoint : NodeID) :
    (mgr.cleanupIncoming endpoint).Distinct := by
  refine ⟨distinct.within, distinct.across, ?_⟩
  intro name pending member
  rw [DataplaneConnManager.cleanupIncoming, OrderedMap.get?_erase]
  split
  · rfl
  · exact distinct.notLive name pending member

theorem step_tidy {event : NodeEvent} (tidy : node.Tidy) (stepped : node.step event = some next) : next.Tidy := by
  cases event with
  | alter env fuel request topo =>
      obtain ⟨unused, ran⟩ := Option.ite_none_right_eq_some.mp stepped
      exact afterAlter_tidy tidy unused ran
  | stopComputation env compID =>
      obtain ⟨⟨stopped, reached⟩, ran, rfl⟩ := Option.map_eq_some_iff.mp stepped
      exact stopComputation_tidy tidy ran
  | dataMsg c msg =>
      obtain ⟨fresh, ran⟩ := Option.ite_none_right_eq_some.mp stepped
      have conns := receivedDataMsg_distinct tidy.conns fresh ran
      rw [receivedDataMsg_conns ran]
      exact ⟨tidy.cubes, tidy.attached, conns⟩
  | unregisterChain chain =>
      obtain rfl := Option.some.inj stepped
      unfold unregisterChain
      split
      · exact tidy.shrinks (shrinks_erase _ _) rfl rfl
      · exact tidy
  | expire dies =>
      obtain rfl := Option.some.inj stepped
      exact tidy.shrinks (shrinks_expire _ _) rfl rfl
  | removeSubscriber cubeName id =>
      obtain rfl := Option.some.inj stepped
      exact removeSubscriber_tidy tidy cubeName id
  | cleanupIncoming endpoint =>
      obtain rfl := Option.some.inj stepped
      exact ⟨tidy.cubes, tidy.attached, cleanupIncoming_distinct tidy.conns endpoint⟩

/-- The chains stand under their heads, and cubes, subscribers and connections are in order. -/
structure WellFormed (node : Node) : Prop extends node.Tidy where
  sourceless : node.sourcelessChain.Headed
  sources : node.chainSources.Headed

/-- Every state that the node can reach is well formed. -/
theorem reachable_wellFormed (reachable : system.Reachable node) : node.WellFormed := by
  apply reachable.invariant WellFormed
  · refine ⟨⟨nofun, nofun, ⟨?_, nofun, nofun⟩⟩, nofun, nofun⟩
    intro name
    exact List.nodup_nil
  · intro node event next wellFormed stepped
    obtain ⟨sourceless, sources⟩ := step_headed wellFormed.sourceless wellFormed.sources stepped
    exact ⟨step_tidy wellFormed.toTidy stepped, sourceless, sources⟩

end Runs

end Node

end JetStream
