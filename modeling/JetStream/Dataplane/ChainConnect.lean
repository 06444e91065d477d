import JetStream.Dataplane.NodeInvariant

namespace JetStream

open CubeManager (toCanonical ValidName)

/-- A connection asks for an operator or for a cube, whose name can be qualified. -/
inductive Destination where
  | operator (id : TaskID)
  | cube (rawName : String)
  deriving DecidableEq

/-- This is the place in a chain that stands for the destination. -/
def Destination.member : Destination → ChainMember
  | .operator id => .operator id
  | .cube rawName => .cube (toCanonical rawName)

/-- The operator is tried before the cube. -/
def destinationOf (e : Edge) : Option Destination :=
  match e.dest, e.destCube with
  | some task, _ => some (.operator (toLex (e.computation, task)))
  | none, some destCube => some (.cube destCube)
  | none, none => none

namespace Node

open Attempt

/-- The destination is not on the node, and the request starts or creates it. -/
def Creates (node : Node) (topo : AlterTopo) : Destination → Prop
  | .operator id =>
      node.operators.get? id = none ∧ node.sourcelessChain.get? id = none ∧ node.chainSources.get? id = none ∧
        ∃ task ∈ topo.toStart, task.id = id
  | .cube rawName => node.cubeMgr.getCube rawName = none ∧ ∃ task ∈ topo.toCreate, toCanonical task.name = toCanonical rawName

/-- The operator heads a chain of the request, or the name of the cube is not qualified. -/
def HeadsChain (env : Surroundings) (topo : AlterTopo) : Destination → Prop
  | .operator id =>
      (∀ edge ∈ topo.edges, ¬Precedes edge id) ∨
        ∃ task ∈ topo.toStart, task.id = id ∧ ∃ type, env.newOp task.opTypename = some type ∧ type.isSource
  | .cube rawName => '/' ∉ rawName.toList

/-- The connection is live into the destination, it waits nowhere, and it was told once that the chain is ready. -/
def Served (before after : DataplaneConnManager) (c : ClientConnection) (src : TaskID) (dest : Destination) : Prop :=
  (∃ rest, after.liveConns.get? c.remoteEndpoint =
      some ⟨c, ⟨some (.incoming c src) :: some dest.member :: rest⟩, src⟩) ∧
    after.Unwaited c.remoteEndpoint ∧
    after.sent.count (c, .chainReady) = before.sent.count (c, .chainReady) + 1

section Orders

variable (env : Surroundings) (fuel request : ℕ)

/-- The connection asks before the request comes. -/
def connectThenAlter (node : Node) (topo : AlterTopo) (c : ClientConnection) (e : Edge) : Option Node := do
  let waiting ← node.receivedDataMsg c (.chainConnect e)
  match waiting.handleAlter env fuel request topo with
  | .done (_, final) => return final
  | _ => none

/-- The connection asks after the request has come. -/
def alterThenConnect (node : Node) (topo : AlterTopo) (c : ClientConnection) (e : Edge) : Option Node :=
  match node.handleAlter env fuel request topo with
  | .done (_, altered) => altered.receivedDataMsg c (.chainConnect e)
  | _ => none

/-- In both orders the connection is served once. -/
def Commute (node : Node) (topo : AlterTopo) (c : ClientConnection) (e : Edge) (dest : Destination) : Prop :=
  (∃ final, connectThenAlter env fuel request node topo c e = some final ∧
      Served node.dataConnMgr final.dataConnMgr c (toLex (e.computation, e.src.getD 0)) dest) ∧
    ∃ final, alterThenConnect env fuel request node topo c e = some final ∧
      Served node.dataConnMgr final.dataConnMgr c (toLex (e.computation, e.src.getD 0)) dest

end Orders

section Announcement

variable {env : Surroundings} {fuel request : ℕ} {topo : AlterTopo} {node next : Node} {resp : AlterTopo}

/-- A new operator of the request heads a chain. -/
def NewHead (env : Surroundings) (node : Node) (topo : AlterTopo) (id : TaskID) : Prop :=
  node.operators.get? id = none ∧ (∃ task ∈ topo.toStart, task.id = id) ∧
    ((∀ edge ∈ topo.edges, ¬Precedes edge id) ∨ isSourceAfter env node topo id)

/-- The chain of a requested cube has this one member. -/
def cubeChain (task : CubeMeta) : OperatorChain := ⟨[some (.cube (toCanonical task.name))]⟩

/-- The request announces these chains, it does nothing else to the connections, and it registers the new heads. -/
structure Announcement (env : Surroundings) (fuel request : ℕ) (topo : AlterTopo) (node : Node) (resp : AlterTopo)
    (next : Node) (chains : List OperatorChain) : Prop where
  announced : node.dataConnMgr.announce chains = some next.dataConnMgr
  replay : ∀ conns last, conns.announce chains = some last →
    (node.withConns conns).handleAlter env fuel request topo = .done (resp, next.withConns last)
  starts : ∀ chain ∈ chains, (∃ id, NewHead env node topo id ∧ chain.StartsAt id) ∨
    ∃ task ∈ topo.toCreate, chain = cubeChain task ∧ ValidName (toCanonical task.name)
  heads : ∀ id, NewHead env node topo id → ∃ chain ∈ chains, chain.StartsAt id ∧
    if isSourceAfter env node topo id then
      next.chainSources.get? id = some (some chain) ∧ next.sourcelessChain.get? id = node.sourcelessChain.get? id
    else next.sourcelessChain.get? id = some (some chain)
  cubes : ∀ task ∈ topo.toCreate, (cubeChain task ∈ chains ∧ ValidName (toCanonical task.name)) ∧
    ∃ cube, next.cubeMgr.getCube task.name = some cube ∧ cube.name = toCanonical task.name
  loaded : ∀ task ∈ topo.toStart, node.operators.get? task.id = none →
    typeAfter env node topo task.id = env.newOp task.opTypename

/-- The stages carry other connections along up to the new chains. -/
theorem alterTables_replay {vars started created destroyed wired built governed final : Altering}
    {conns middle last : DataplaneConnManager}
    (start : startOperators env request topo vars = .done started) (create : createCubes env topo started = .done created)
    (destroy : destroyCubes env topo (stopTasks env topo created) = .done destroyed)
    (wire : connectEdges env topo destroyed = .done wired)
    (build : buildChains env fuel (wired.withConns conns) = .done (built.withConns middle))
    (govern : establishCongestPolicies topo built = .done governed)
    (tell : announceCubes topo (governed.withConns middle) = .done (final.withConns last)) :
    alterTables env fuel request topo (vars.withConns conns) = .done (final.withConns last) := by
  unfold alterTables
  rw [startOperators_withConns, start]
  show (createCubes env topo (started.withConns conns)).bind _ = _
  rw [createCubes_withConns, create]
  show (destroyCubes env topo (stopTasks env topo (created.withConns conns))).bind _ = _
  rw [stopTasks_withConns, destroyCubes_withConns, destroy]
  show (createChains env fuel topo (destroyed.withConns conns)).bind _ = _
  rw [createChains, connectEdges_withConns, wire]
  show (buildChains env fuel (wired.withConns conns)).bind _ = _
  rw [build]
  show (establishCongestPolicies topo (built.withConns middle)).bind _ = _
  rw [establishCongestPolicies_withConns, govern]
  exact tell

/-- The stages before the new chains start the operators, keep the connections and bring no chains that wait for a source. -/
structure Reached (env : Surroundings) (request : ℕ) (topo : AlterTopo) (node : Node) (state : Starting)
    (wired : Altering) : Prop where
  started : Started env request node.operators topo.toStart state
  ids : wired.operatorIDsToStart = state.ids
  typed : TypedAs (typeAfter env node topo) wired.node.operators
  opToPred : ∀ id, wired.opToPred.get? id = none ↔ ∀ edge ∈ topo.edges, ¬Precedes edge id
  sourceless : wired.node.sourcelessChain = node.sourcelessChain
  conns : wired.node.dataConnMgr = node.dataConnMgr

theorem destroyCubes_conns {vars final : Altering} (ran : destroyCubes env topo vars = .done final) :
    final.operatorIDsToStart = vars.operatorIDsToStart ∧ final.node.dataConnMgr = vars.node.dataConnMgr := by
  obtain ⟨node, looped, rfl⟩ := map_eq_done.mp ran
  refine ⟨rfl, ?_⟩
  apply loop_invariant (fun node : Node => node.dataConnMgr = vars.node.dataConnMgr) _ rfl looped
  intro name member state next same stepped
  obtain ⟨cube, -, rfl⟩ := destroyCube_done stepped
  exact same

theorem reached_of_done {started created destroyed wired : Altering}
    (start : startOperators env request topo (node.startAlter topo) = .done started)
    (create : createCubes env topo started = .done created)
    (destroy : destroyCubes env topo (stopTasks env topo created) = .done destroyed)
    (wire : connectEdges env topo destroyed = .done wired) :
    ∃ state, Reached env request topo node state wired := by
  obtain ⟨state, startLoop, rfl⟩ := map_eq_done.mp start
  obtain ⟨_, -, rfl⟩ := map_eq_done.mp create
  have spec : Started env request node.operators topo.toStart state := started_of_loop startLoop
  have shrinks := (stopTasks_frame env _ topo.taskToStop).1.trans (destroyCubes_shrinks destroy)
  have typed := connectEdges_typed (spec.typed.shrinks shrinks) wire
  obtain ⟨sourceless, -⟩ := destroyCubes_sameChains destroy
  obtain ⟨ids, conns⟩ := destroyCubes_conns destroy
  obtain ⟨wiring, wireLoop, rfl⟩ := map_eq_done.mp wire
  refine ⟨state, spec, ids, typed, ?_, ?_, ?_⟩
  · intro id
    rw [loop_connectEdge_opToPred id wireLoop]
    simp
  · exact sourceless.trans (stopTasks_sourcelessChain _ _)
  · exact conns.trans (stopTasks_frame env _ _).2.2

/-- A new operator starts a chain exactly when it is a new head. -/
theorem Reached.newHead_iff {state : Starting} {wired : Altering} (reached : Reached env request topo node state wired)
    (id : TaskID) :
    id ∈ wired.operatorIDsToStart ∧ StartsChain (isSourceAfter env node topo) wired.opToPred id ↔
      NewHead env node topo id := by
  rw [StartsChain, reached.opToPred, reached.ids, reached.started.mem_ids, NewHead, and_assoc]

/-- A request that goes through announces its chains. -/
theorem handleAlter_announcement (tidy : node.Tidy) (unused : node.Unused request)
    (done : node.handleAlter env fuel request topo = .done (resp, next)) :
    ∃ chains, Announcement env fuel request topo node resp next chains := by
  have named : next.cubeMgr.Named := (afterAlter_tidy tidy unused (by rw [afterAlter, done])).cubes
  obtain ⟨final, altered, rfl, rfl⟩ := handleAlter_done done
  obtain ⟨started, created, destroyed, wired, built, governed, start, create, destroy, wire, build, govern, tell⟩ :=
    alterTables_done altered
  obtain ⟨state, reached⟩ := reached_of_done start create destroy wire
  obtain ⟨newChains, told, starts, registered, -, replay⟩ :=
    buildChains_announces (reached.ids ▸ reached.started.nodup) reached.typed.sourcesAs build
  have governedFrame : governed.node.sourcelessChain = built.node.sourcelessChain ∧
      governed.node.chainSources = built.node.chainSources ∧ governed.node.dataConnMgr = built.node.dataConnMgr := by
    obtain ⟨_, -, rfl⟩ := map_eq_done.mp govern
    exact ⟨rfl, rfl, rfl⟩
  obtain ⟨conns, tellLoop, finalIs⟩ := map_eq_done.mp tell
  have finalFrame : final.node.sourcelessChain = built.node.sourcelessChain ∧
      final.node.chainSources = built.node.chainSources ∧ final.node.cubeMgr = governed.node.cubeMgr := by
    subst finalIs
    exact ⟨governedFrame.1, governedFrame.2.1, rfl⟩
  obtain ⟨cubeChains, toldCubes, mem_iff, listed, replayCubes⟩ := loop_announceCube_announces tellLoop
  have cubeNamed {task : CubeMeta} {cube : CubeManager.DataCube}
      (found : governed.node.cubeMgr.getCube task.name = some cube) :
      cube.name = toCanonical task.name ∧ ValidName (toCanonical task.name) := by
    rw [finalFrame.2.2] at named
    exact named _ cube found
  refine ⟨newChains ++ cubeChains, ?_, ?_, ?_, ?_, ?_, ?_⟩
  · apply DataplaneConnManager.announce_append.mpr
    refine ⟨built.node.dataConnMgr, reached.conns ▸ told, ?_⟩
    rw [← governedFrame.2.2, toldCubes, ← finalIs]
  · intro conns last announced
    obtain ⟨middle, first, later⟩ := DataplaneConnManager.announce_append.mp announced
    have tells : announceCubes topo (governed.withConns middle) = .done (final.withConns last) := by
      refine map_eq_done.mpr ⟨last, replayCubes middle last later, ?_⟩
      rw [← finalIs]
      rfl
    have ran := alterTables_replay start create destroy wire (replay conns middle first) govern tells
    have startsWith : (node.withConns conns).startAlter topo = (node.startAlter topo).withConns conns := rfl
    rw [handleAlter, startsWith, ran]
    rfl
  · intro chain member
    rcases List.mem_append.mp member with new | cube
    · obtain ⟨id, place, head, startsAt⟩ := starts chain new
      exact Or.inl ⟨id, (reached.newHead_iff id).mp ⟨place, head⟩, startsAt⟩
    · obtain ⟨task, place, found, isListed, rfl⟩ := (mem_iff chain).mp cube
      obtain ⟨nameIs, valid⟩ := cubeNamed isListed
      exact Or.inr ⟨task, place, by rw [cubeChain, nameIs], valid⟩
  · intro id head
    obtain ⟨place, startsChain⟩ := (reached.newHead_iff id).mpr head
    obtain ⟨chain, member, startsAt, table⟩ := registered id place startsChain
    refine ⟨chain, List.mem_append_left _ member, startsAt, ?_⟩
    rw [finalFrame.1, finalFrame.2.1]
    rw [reached.sourceless] at table
    exact table
  · intro task member
    obtain ⟨cube, found⟩ := listed task member
    obtain ⟨nameIs, valid⟩ := cubeNamed found
    refine ⟨⟨List.mem_append_right _ ((mem_iff _).mpr ⟨task, member, cube, found, ?_⟩), valid⟩, cube, ?_, nameIs⟩
    · rw [cubeChain, nameIs]
    · rw [finalFrame.2.2]
      exact found
  · intro task member missing
    have isNew : task.id ∈ state.ids := (reached.started.mem_ids task.id).mpr ⟨missing, task, member, rfl⟩
    obtain ⟨type, typeIs, listed, -⟩ := reached.started.typeAfter_eq isNew
    obtain ⟨other, loads, found⟩ := reached.started.new task member isNew
    obtain ⟨rfl, -⟩ := COperator.mk.inj (Option.some.inj (Option.some.inj (listed.symm.trans found)))
    rw [typeIs, loads]

end Announcement

/-- The connection waits under this name. -/
def waitingName : Destination → String
  | .operator id => id.asString
  | .cube rawName => rawName

theorem asString_not_valid (id : TaskID) : ¬ValidName id.asString := by
  intro valid
  have opening : '(' ∈ id.asString.toList := by
    rw [TaskID.asString, String.toList_ofList]
    exact List.mem_cons_self
  rcases valid.2 _ opening with alphanumeric | underscore
  · exact absurd alphanumeric (by decide)
  · exact absurd underscore (by decide)

theorem slash_not_mem_asString (id : TaskID) : '/' ∉ id.asString.toList := by
  have digits (value : ℤ) : '/' ∉ Printing.decimal value := by
    rw [← List.count_eq_zero]
    exact Printing.count_decimal rfl (by decide) value
  rw [TaskID.asString, String.toList_ofList]
  simp [digits]

section Commuting

variable {env : Surroundings} {fuel request : ℕ} {topo : AlterTopo} {node next : Node} {resp : AlterTopo}
  {chains : List OperatorChain} {dest : Destination}

theorem Announcement.whole (told : Announcement env fuel request topo node resp next chains) :
    ∀ chain ∈ chains, chain.Whole := by
  intro chain member
  rcases told.starts chain member with ⟨id, -, startsAt⟩ | ⟨task, -, rfl, -⟩
  · exact startsAt.whole
  · exact ⟨by simp [cubeChain], toCanonical task.name, rfl⟩

/-- A new operator is a new head exactly when it heads a chain of the request. -/
theorem Announcement.newHead_iff (told : Announcement env fuel request topo node resp next chains) {id : TaskID}
    (creates : node.Creates topo (.operator id)) : NewHead env node topo id ↔ HeadsChain env topo (.operator id) := by
  obtain ⟨missing, -, -, task, member, rfl⟩ := creates
  rw [NewHead, HeadsChain, and_iff_right missing, and_iff_right ⟨task, member, rfl⟩]
  apply or_congr_right
  rw [isSourceAfter]
  constructor
  · intro source
    rw [told.loaded task member missing] at source
    cases loads : env.newOp task.opTypename with
    | none =>
        rw [loads] at source
        cases source
    | some type =>
        rw [loads] at source
        exact ⟨task, member, rfl, type, loads, source⟩
  · rintro ⟨other, place, same, type, loads, source⟩
    rw [← same, told.loaded other place (same ▸ missing), loads]
    exact source

/-- A chain with the name of the destination is announced exactly when the destination heads it. -/
theorem Announcement.startName_iff (told : Announcement env fuel request topo node resp next chains)
    (creates : node.Creates topo dest) :
    (∃ chain ∈ chains, chain.startName = some (waitingName dest)) ↔ HeadsChain env topo dest := by
  cases dest with
  | operator id =>
      rw [← told.newHead_iff creates]
      constructor
      · rintro ⟨chain, member, named⟩
        rcases told.starts chain member with ⟨other, head, startsAt⟩ | ⟨task, -, rfl, valid⟩
        · rw [startsAt.startName] at named
          exact TaskID.asString_inj (Option.some.inj named) ▸ head
        · have same : toCanonical task.name = id.asString := Option.some.inj named
          exact absurd (same ▸ valid) (asString_not_valid id)
      · intro head
        obtain ⟨chain, member, startsAt, -⟩ := told.heads id head
        exact ⟨chain, member, startsAt.startName⟩
  | cube rawName =>
      obtain ⟨-, task, member, same⟩ := creates
      constructor
      · rintro ⟨chain, place, named⟩
        rcases told.starts chain place with ⟨id, -, startsAt⟩ | ⟨other, -, rfl, valid⟩
        · rw [startsAt.startName] at named
          obtain rfl : id.asString = rawName := Option.some.inj named
          exact slash_not_mem_asString id
        · obtain rfl : toCanonical other.name = rawName := Option.some.inj named
          exact valid.no_slash
      · intro noSlash
        refine ⟨cubeChain task, (told.cubes task member).1.1, ?_⟩
        show some (toCanonical task.name) = some rawName
        rw [same, CubeManager.toCanonical_eq_self noSlash]

/-- A chain with the name of the destination starts at the destination. -/
theorem Announcement.member_of_startName (told : Announcement env fuel request topo node resp next chains)
    (creates : node.Creates topo dest) {chain : OperatorChain} (member : chain ∈ chains)
    (named : chain.startName = some (waitingName dest)) : ∃ rest, chain.members = some dest.member :: rest := by
  cases dest with
  | operator id =>
      rcases told.starts chain member with ⟨other, -, startsAt⟩ | ⟨task, -, rfl, valid⟩
      · rw [startsAt.startName] at named
        obtain rfl := TaskID.asString_inj (Option.some.inj named)
        exact startsAt.2
      · have same : toCanonical task.name = id.asString := Option.some.inj named
        exact absurd (same ▸ valid) (asString_not_valid id)
  | cube rawName =>
      rcases told.starts chain member with ⟨id, -, startsAt⟩ | ⟨task, -, rfl, valid⟩
      · rw [startsAt.startName] at named
        obtain rfl : id.asString = rawName := Option.some.inj named
        obtain ⟨-, task, place, same⟩ := creates
        have valid := (told.cubes task place).1.2
        rw [same, CubeManager.toCanonical_eq_self (slash_not_mem_asString id)] at valid
        exact absurd valid (asString_not_valid id)
      · obtain rfl : toCanonical task.name = rawName := Option.some.inj named
        refine ⟨[], ?_⟩
        rw [cubeChain, Destination.member, CubeManager.toCanonical_eq_self valid.no_slash]

/-- A connection waits under the requested name while its destination is not on the node. -/
theorem receivedDataMsg_parks {c : ClientConnection} {e : Edge} (asks : destinationOf e = some dest)
    (creates : node.Creates topo dest) :
    node.receivedDataMsg c (.chainConnect e) = some (node.withConns
      (node.dataConnMgr.pendingConnection c (waitingName dest) (toLex (e.computation, e.src.getD 0)))) := by
  unfold destinationOf at asks
  split at asks
  · rename_i task isTask
    obtain rfl := Option.some.inj asks
    obtain ⟨-, sourceless, sources, -⟩ := creates
    rw [receivedDataMsg, destinationFor, isTask]
    simp only [operatorChainFor, cloneChainFrom, sourceless, sources]
    rfl
  · rename_i destCube noTask isCube
    obtain rfl := Option.some.inj asks
    obtain ⟨absent, -⟩ := creates
    rw [receivedDataMsg, destinationFor, noTask, isCube]
    simp only [absent]
    rfl
  · cases asks

theorem cloneChainFrom_startsAt {chainMap : ChainTable} {id : TaskID} {chain : OperatorChain} (startsAt : chain.StartsAt id)
    (listed : chainMap.get? id = some (some chain)) :
    cloneChainFrom chainMap id = some (some chain.cloneBehindStart) := by
  rw [cloneChainFrom, listed]
  exact if_neg startsAt.1

/-- A head of the request has its chain after the request. -/
theorem Announcement.operatorChainFor (told : Announcement env fuel request topo node resp next chains) {id : TaskID}
    (creates : node.Creates topo (.operator id)) (heads : HeadsChain env topo (.operator id)) :
    ∃ rest, next.operatorChainFor id = some (some ⟨none :: some (.operator id) :: rest⟩) := by
  obtain ⟨chain, -, startsAt, table⟩ := told.heads id ((told.newHead_iff creates).mpr heads)
  obtain ⟨rest, members⟩ := startsAt.2
  have copied : chain.cloneBehindStart = ⟨none :: some (.operator id) :: rest⟩ := by
    rw [OperatorChain.cloneBehindStart, members]
  refine ⟨rest, ?_⟩
  rw [Node.operatorChainFor, ← copied]
  split at table
  · obtain ⟨sources, sourceless⟩ := table
    have unlisted : cloneChainFrom next.sourcelessChain id = some none := by
      rw [cloneChainFrom, sourceless, creates.2.1]
    rw [unlisted, cloneChainFrom_startsAt startsAt sources]
    rfl
  · rw [cloneChainFrom_startsAt startsAt table]
    rfl

/-- A connection is enabled into its destination when the request has brought its chain. -/
theorem Announcement.receivedDataMsg_enables (told : Announcement env fuel request topo node resp next chains)
    {c : ClientConnection} {e : Edge} (asks : destinationOf e = some dest) (creates : node.Creates topo dest)
    (heads : HeadsChain env topo dest) :
    ∃ rest, next.receivedDataMsg c (.chainConnect e) =
      (next.dataConnMgr.enableConnection c ⟨none :: some dest.member :: rest⟩
        (toLex (e.computation, e.src.getD 0))).map next.withConns := by
  unfold destinationOf at asks
  split at asks
  · rename_i task isTask
    obtain rfl := Option.some.inj asks
    obtain ⟨rest, ready⟩ := told.operatorChainFor creates heads
    refine ⟨rest, ?_⟩
    rw [receivedDataMsg, destinationFor, isTask]
    simp only [ready]
    rfl
  · rename_i destCube noTask isCube
    obtain rfl := Option.some.inj asks
    obtain ⟨-, task, member, same⟩ := creates
    obtain ⟨-, cube, found, nameIs⟩ := told.cubes task member
    have ready : next.cubeMgr.getCube destCube = some cube := by
      rw [CubeManager.getCube, ← same]
      exact found
    refine ⟨[], ?_⟩
    rw [receivedDataMsg, destinationFor, noTask, isCube]
    simp only [ready, Option.map_some, nameIs, same]
    rfl
  · cases asks

/-- A new connection that is enabled is served. -/
theorem served_of_enableConnection {before mgr : DataplaneConnManager} {c : ClientConnection} {src : TaskID}
    {rest : List (Option ChainMember)} (connected : c.connected) (idle : mgr.liveConns.get? c.remoteEndpoint = none)
    (unwaited : mgr.Unwaited c.remoteEndpoint)
    (sent : mgr.sent.count (c, .chainReady) = before.sent.count (c, .chainReady)) :
    ∃ enabled, mgr.enableConnection c ⟨none :: some dest.member :: rest⟩ src = some enabled ∧
      Served before enabled c src dest := by
  refine ⟨_, by rw [DataplaneConnManager.enableConnection, idle]; rfl, ⟨rest, ?_⟩, ?_, ?_⟩
  · rw [DataplaneConnManager.sendMsg_liveConns, OrderedMap.get?_set, if_pos rfl]
  · intro name pending member
    rw [DataplaneConnManager.waiting, DataplaneConnManager.sendMsg_pendingConns] at member
    exact unwaited name pending member
  · rw [DataplaneConnManager.sendMsg_sent, if_pos connected, List.count_append, List.count_singleton_self]
    exact congrArg (· + 1) sent

end Commuting

section Orders

variable {env : Surroundings} {fuel request : ℕ} {topo : AlterTopo} {node : Node} {c : ClientConnection} {e : Edge}
  {dest : Destination}

/-- The two orders serve the connection exactly when its destination heads a chain of the request. -/
theorem commute_iff_headsChain (wellFormed : node.WellFormed) (unused : node.Unused request)
    (fresh : node.dataConnMgr.Fresh c.remoteEndpoint) (connected : c.connected) (asks : destinationOf e = some dest)
    (creates : node.Creates topo dest)
    (goesThrough : ∃ resp next, node.handleAlter env fuel request topo = .done (resp, next)) :
    Commute env fuel request node topo c e dest ↔ HeadsChain env topo dest := by
  obtain ⟨resp, next, done⟩ := goesThrough
  obtain ⟨chains, told⟩ := handleAlter_announcement wellFormed.toTidy unused done
  set src : TaskID := toLex (e.computation, e.src.getD 0)
  set parked := node.dataConnMgr.pendingConnection c (waitingName dest) src with parkedIs
  have waits : (⟨c, src⟩ : PendingConn) ∈ parked.waiting (waitingName dest) := by
    rw [parkedIs, DataplaneConnManager.waiting, DataplaneConnManager.pendingConnection, OrderedMap.get?_set, if_pos rfl]
    exact List.mem_append_right _ List.mem_cons_self
  have distinct : parked.Distinct := pendingConnection_distinct wellFormed.conns fresh _ _
  obtain ⟨last, ran, -⟩ := DataplaneConnManager.announce_distinct distinct told.whole
  have early : connectThenAlter env fuel request node topo c e = some (next.withConns last) := by
    have parks : node.receivedDataMsg c (.chainConnect e) = some (node.withConns parked) :=
      receivedDataMsg_parks asks creates
    rw [connectThenAlter, parks]
    simp only [Option.bind_eq_bind, Option.bind_some, told.replay parked last ran]
    rfl
  constructor
  · intro commute
    obtain ⟨⟨final, same, -, unwaited, -⟩, -⟩ := commute
    obtain rfl := Option.some.inj (early.symm.trans same)
    rw [← told.startName_iff creates]
    by_contra absent
    push Not at absent
    exact unwaited _ _ (DataplaneConnManager.announce_waiting distinct told.whole absent waits ran) rfl
  · intro heads
    constructor
    · obtain ⟨chain, member, named, live, unwaited, sent⟩ := DataplaneConnManager.announce_enables distinct told.whole
        ((told.startName_iff creates).mpr heads) waits connected ran
      obtain ⟨rest, members⟩ := told.member_of_startName creates member named
      refine ⟨_, early, ⟨rest, ?_⟩, unwaited, sent⟩
      show last.liveConns.get? c.remoteEndpoint = _
      rw [live, DataplaneConnManager.enabledInto, members]
    · obtain ⟨unwaited, live, sent⟩ := DataplaneConnManager.announce_unwaited wellFormed.conns told.whole fresh.unwaited
        told.announced
      obtain ⟨rest, enables⟩ := told.receivedDataMsg_enables asks creates heads
      obtain ⟨enabled, ready, served⟩ := served_of_enableConnection connected (live.trans fresh.1) unwaited
        (sent .chainReady)
      refine ⟨next.withConns enabled, ?_, served⟩
      rw [alterThenConnect, done]
      show next.receivedDataMsg c (.chainConnect e) = _
      rw [enables, ready]
      rfl

end Orders

/-- This request creates one cube. -/
def createMyCube : AlterTopo := ⟨1, [], [⟨"mycube", ⟨[], []⟩, none, false⟩], [], [], [], []⟩

/-- This request starts one operator that waits for a source. -/
def startReceiver : AlterTopo := ⟨1, [⟨toLex (1, 1), "DummyReceiver", none, []⟩], [], [], [], [], []⟩

/-- The connection comes from another node. -/
def upstream : ClientConnection := ⟨toLex ("127.0.0.1", 4000), true⟩

/-- The connection asks for the operator of `startReceiver`. -/
def toReceiver : Edge := ⟨1, some 2, none, some 1, none, none⟩

/-- The connection asks for the cube of `createMyCube` by its qualified name. -/
def toQualifiedCube : Edge := ⟨1, some 2, none, none, some "1/mycube", none⟩

/-- A connection to a receiver that heads its own chain is served in both orders. -/
theorem commute_iff_headsChain_receiver :
    Commute experimentOperators 5 0 new startReceiver upstream toReceiver (.operator (toLex (1, 1))) := by
  have creates : new.Creates startReceiver (.operator (toLex (1, 1))) := ⟨rfl, rfl, rfl, _, List.mem_cons_self, rfl⟩
  have wellFormed : new.WellFormed := reachable_wellFormed ⟨[], rfl⟩
  apply (commute_iff_headsChain wellFormed (by decide) (by decide) rfl rfl creates ⟨_, _, rfl⟩).mpr
  exact Or.inl fun edge member => absurd member List.not_mem_nil

/-- A connection that asks early for a cube by its qualified name waits forever. -/
theorem commute_qualified_cube_fails :
    (new.WellFormed ∧ new.Unused 0 ∧ new.dataConnMgr.Fresh upstream.remoteEndpoint ∧ upstream.connected ∧
        destinationOf toQualifiedCube = some (.cube "1/mycube") ∧ new.Creates createMyCube (.cube "1/mycube") ∧
        ∃ resp next, new.handleAlter experimentOperators 5 0 createMyCube = .done (resp, next)) ∧
      ¬Commute experimentOperators 5 0 new createMyCube upstream toQualifiedCube (.cube "1/mycube") := by
  refine ⟨⟨reachable_wellFormed ⟨[], rfl⟩, by decide, by decide, rfl, rfl, ⟨rfl, _, List.mem_cons_self, by decide⟩,
    ⟨_, _, rfl⟩⟩, ?_⟩
  intro commute
  obtain ⟨⟨final, early, -, unwaited, -⟩, -⟩ := commute
  have parked : ⟨upstream, toLex (1, 2)⟩ ∈ final.dataConnMgr.waiting "1/mycube" := by
    obtain rfl := Option.some.inj early
    decide
  exact unwaited "1/mycube" _ parked rfl

end Node

end JetStream
