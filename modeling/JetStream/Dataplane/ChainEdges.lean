import JetStream.Dataplane.ChainBuilding

namespace JetStream.Node

open Attempt

section Wiring

/-- The operators and cubes that the edge joins exist. -/
def Joins (operators : OperatorTable) (cubeMgr : CubeManager) (edge : Edge) : Prop :=
  match edge.src with
  | some task =>
      Alive operators (toLex (edge.computation, task)) ∧ (destMember cubeMgr edge).isSome ∧
        ∀ dest, localDest edge = some dest → Alive operators dest
  | none =>
      (∃ srcCube, edge.srcCube = some srcCube ∧ (cubeMgr.getCube srcCube).isSome) ∧ Alive operators (subscriberOf edge)

/-- These edges stand in front of the first one from a cube to an operator that cannot subscribe. -/
def attachable (types : TaskID → Option OperatorType) (edges : List Edge) : List Edge :=
  edges.takeWhile fun edge => edge.src.isSome || (types (subscriberOf edge)).any OperatorType.isSubscriber

/-- The edges from cubes lead to different operators, and none of these has a cube already. -/
structure Free (operators : OperatorTable) (edges : List Edge) : Prop where
  idle : ∀ edge ∈ edges, edge.src = none → ∀ op, operators.get? (subscriberOf edge) = some (some op) → op.cube = none
  apart : edges.Pairwise fun edge later => edge.src = none → later.src = none → subscriberOf later ≠ subscriberOf edge

variable {env : Surroundings} {state next : Wiring} {edge : Edge} {edges : List Edge}

theorem alive_set {operators : OperatorTable} {id other : TaskID} {op : COperator} (alive : Alive operators other) :
    Alive (operators.set id (some op)) other := by
  rw [Alive, OrderedMap.get?_set]
  split
  · exact ⟨op, rfl⟩
  · exact alive

/-- A cube keeps its name when it gets a subscriber. -/
theorem getCube_addSubscriber {mgr : CubeManager} {srcCube : String} {cube : CubeManager.DataCube}
    (listed : mgr.getCube srcCube = some cube) (id : TaskID) (request : ℕ) (name : String) :
    ((mgr.addSubscriber srcCube cube id request).getCube name).map CubeManager.DataCube.name =
      (mgr.getCube name).map CubeManager.DataCube.name := by
  unfold CubeManager.getCube CubeManager.addSubscriber at *
  rw [OrderedMap.get?_set]
  split
  · rename_i same
    rw [same, listed]
    rfl
  · rfl

theorem destMember_congr {first second : CubeManager} (same : ∀ name, (first.getCube name).map CubeManager.DataCube.name =
      (second.getCube name).map CubeManager.DataCube.name) : destMember first = destMember second := by
  funext edge
  unfold destMember
  split
  · rfl
  · rfl
  · rename_i destCube _ _ _
    have named := congrArg (Option.map ChainMember.cube) (same destCube)
    rwa [Option.map_map, Option.map_map] at named
  · rfl

theorem destMember_of_localDest {cubeMgr : CubeManager} {dest : TaskID} (ends : localDest edge = some dest) :
    destMember cubeMgr edge = some (.operator dest) := by
  obtain ⟨computation, src, srcCube, task, destCube, destAddr⟩ := edge
  cases task <;> cases destAddr <;> simp only [localDest, reduceCtorEq, Option.some.injEq] at ends
  rw [← ends]
  rfl

theorem localDest_of_destMember {cubeMgr : CubeManager} {dest : TaskID}
    (behind : destMember cubeMgr edge = some (.operator dest)) : localDest edge = some dest := by
  obtain ⟨computation, src, srcCube, task, destCube, destAddr⟩ := edge
  cases task <;> cases destAddr <;> cases destCube <;> simp [destMember] at behind <;> simp [localDest, behind]

/-- An edge that is connected leaves the ends of the other edges where they are. -/
theorem connectEdge_keeps (ran : connectEdge env state edge = .done next) :
    liveType next.operators = liveType state.operators ∧ destMember next.cubeMgr = destMember state.cubeMgr ∧
      ∀ other, Joins state.operators state.cubeMgr other → Joins next.operators next.cubeMgr other := by
  refine ⟨(connectEdge_sameNames ran).types, ?_⟩
  rcases connectEdge_done ran with ⟨task, -, operator⟩ | ⟨-, srcCube, -, attached⟩
  · obtain ⟨-, -, rfl⟩ := connectOperator_done operator
    exact ⟨rfl, fun _ joins => joins⟩
  · obtain ⟨cube, sub, listed, -, -, -, rfl⟩ := connectCube_done attached
    have named := getCube_addSubscriber listed (subscriberOf edge) sub.request
    have members := destMember_congr named
    refine ⟨members, fun other joins => ?_⟩
    unfold Joins at joins ⊢
    dsimp only
    split at joins
    · rw [members]
      exact ⟨alive_set joins.1, joins.2.1, fun dest ends => alive_set (joins.2.2 dest ends)⟩
    · obtain ⟨⟨name, starts, there⟩, alive⟩ := joins
      refine ⟨⟨name, starts, ?_⟩, alive_set alive⟩
      rw [← Option.isSome_map (f := CubeManager.DataCube.name), named, Option.isSome_map]
      exact there

/-- An edge from an operator that joins what exists is kept. -/
theorem connectEdge_operator {task : ℤ} (starts : edge.src = some task)
    (joins : Joins state.operators state.cubeMgr edge) :
    ∃ next, connectEdge env state edge = .done next ∧ next.operators = state.operators := by
  rw [Joins, starts] at joins
  obtain ⟨⟨op, alive⟩, -, live⟩ := joins
  rw [connectEdge, starts]
  dsimp only
  unfold connectOperator getOperator
  rw [alive]
  dsimp only
  cases ends : localDest edge with
  | none => exact ⟨_, rfl, rfl⟩
  | some dest =>
      obtain ⟨last, found⟩ := live dest ends
      simp only [found]
      exact ⟨_, rfl, rfl⟩

/-- An edge from a cube attaches a subscriber, is refused at another operator and is fatal when there is a cube already. -/
theorem connectEdge_cube {op : COperator} (noSource : edge.src = none) (joins : Joins state.operators state.cubeMgr edge)
    (alive : state.operators.get? (subscriberOf edge) = some (some op)) :
    if op.type.isSubscriber then
      if op.cube = none then
        ∃ next name, connectEdge env state edge = .done next ∧
          next.operators = state.operators.set (subscriberOf edge) (some {op with cube := some name})
      else connectEdge env state edge = .crashed
    else ∃ err next, connectEdge env state edge = .refused err next := by
  rw [Joins, noSource] at joins
  obtain ⟨⟨srcCube, starts, there⟩, -⟩ := joins
  obtain ⟨cube, listed⟩ := Option.isSome_iff_exists.mp there
  simp only [connectEdge, noSource, starts, connectCube, getOperator, alive, listed, Option.filter_some]
  split
  · split
    · rename_i subscribes free
      simp only [free]
      exact ⟨_, cube.name, rfl, rfl⟩
    · rename_i subscribes taken
      obtain ⟨name, attached⟩ := Option.ne_none_iff_exists'.mp taken
      simp only [attached]
  · exact ⟨_, _, rfl⟩

theorem free_nil (operators : OperatorTable) : Free operators [] :=
  ⟨fun _ member => absurd member List.not_mem_nil, .nil⟩

theorem free_cons {operators : OperatorTable} : Free operators (edge :: edges) ↔
    (edge.src = none → ∀ op, operators.get? (subscriberOf edge) = some (some op) → op.cube = none) ∧
      (∀ later ∈ edges, edge.src = none → later.src = none → subscriberOf later ≠ subscriberOf edge) ∧
      Free operators edges := by
  constructor
  · rintro ⟨idle, apart⟩
    rw [List.forall_mem_cons] at idle
    rw [List.pairwise_cons] at apart
    exact ⟨idle.1, apart.1, idle.2, apart.2⟩
  · rintro ⟨here, others, idle, apart⟩
    exact ⟨List.forall_mem_cons.mpr ⟨here, idle⟩, List.pairwise_cons.mpr ⟨others, apart⟩⟩

/-- Once an operator is attached, the other edges must lead elsewhere. -/
theorem free_set {operators : OperatorTable} {id : TaskID} {op : COperator} {name : String} :
    Free (operators.set id (some {op with cube := some name})) edges ↔
      Free operators edges ∧ ∀ edge ∈ edges, edge.src = none → subscriberOf edge ≠ id := by
  constructor
  · rintro ⟨idle, apart⟩
    have elsewhere (edge : Edge) (member : edge ∈ edges) (noSource : edge.src = none) : subscriberOf edge ≠ id := by
      rintro rfl
      exact nomatch idle edge member noSource _ ((OrderedMap.get?_set _ _ _ _).trans (if_pos rfl))
    refine ⟨⟨fun edge member noSource last found => ?_, apart⟩, elsewhere⟩
    apply idle edge member noSource last
    rw [OrderedMap.get?_set, if_neg (elsewhere edge member noSource), found]
  · rintro ⟨⟨idle, apart⟩, elsewhere⟩
    refine ⟨fun edge member noSource last found => ?_, apart⟩
    rw [OrderedMap.get?_set, if_neg (elsewhere edge member noSource)] at found
    exact idle edge member noSource last found

theorem free_cons_operator {task : ℤ} {operators : OperatorTable} (starts : edge.src = some task) :
    Free operators (edge :: edges) ↔ Free operators edges := by
  rw [free_cons]
  simp [starts]

/-- An edge from a cube needs its operator unattached, and takes it from the other edges. -/
theorem free_cons_cube {operators : OperatorTable} {op : COperator} (noSource : edge.src = none)
    (alive : operators.get? (subscriberOf edge) = some (some op)) (name : String) :
    Free operators (edge :: edges) ↔
      op.cube = none ∧ Free (operators.set (subscriberOf edge) (some {op with cube := some name})) edges := by
  rw [free_cons, free_set]
  simp only [noSource, alive, Option.some.injEq, forall_const, forall_eq', and_comm]

/-- The edges are connected or refused when those from cubes can be attached up to the first refused one, and they are
connected when there is no such edge. -/
structure ConnectsWhenFree (env : Surroundings) (state : Wiring) (edges : List Edge) : Prop where
  ends : (∃ final, (loop (connectEdge env) state edges).EndsIn final) ↔
    Free state.operators (attachable (liveType state.operators) edges)
  connects : (∃ final, loop (connectEdge env) state edges = .done final) ↔
    Free state.operators (attachable (liveType state.operators) edges) ∧
      attachable (liveType state.operators) edges = edges

/-- When the first edge is connected, the others decide. -/
theorem ConnectsWhenFree.cons (others : ConnectsWhenFree env next edges)
    (stepped : connectEdge env state edge = .done next)
    (kept : edge.src.isSome || (liveType state.operators (subscriberOf edge)).any OperatorType.isSubscriber)
    (free : Free state.operators (edge :: attachable (liveType state.operators) edges) ↔
      Free next.operators (attachable (liveType state.operators) edges)) :
    ConnectsWhenFree env state (edge :: edges) := by
  have types := (connectEdge_keeps stepped).1
  obtain ⟨ends, connects⟩ := others
  rw [types] at ends connects
  constructor
  · rw [loop, stepped, attachable, List.takeWhile_cons, if_pos kept, ← attachable, free]
    exact ends
  · rw [loop, stepped, attachable, List.takeWhile_cons, if_pos kept, ← attachable, free, List.cons_inj_right]
    exact connects

/-- When the first edge is fatal, it is not free. -/
theorem ConnectsWhenFree.crashed (stepped : connectEdge env state edge = .crashed)
    (kept : edge.src.isSome || (liveType state.operators (subscriberOf edge)).any OperatorType.isSubscriber)
    (taken : ¬Free state.operators (edge :: attachable (liveType state.operators) edges)) :
    ConnectsWhenFree env state (edge :: edges) := by
  have stuck : ¬Free state.operators (attachable (liveType state.operators) (edge :: edges)) := by
    rwa [attachable, List.takeWhile_cons, if_pos kept, ← attachable]
  constructor
  · refine iff_of_false ?_ stuck
    rw [loop, stepped]
    simp [Attempt.bind, EndsIn]
  · refine iff_of_false ?_ fun both => stuck both.1
    rw [loop, stepped]
    simp [Attempt.bind]

/-- When the first edge is refused, the others do not matter. -/
theorem ConnectsWhenFree.refused {err : String} (stepped : connectEdge env state edge = .refused err next)
    (stops : ¬(edge.src.isSome || (liveType state.operators (subscriberOf edge)).any OperatorType.isSubscriber)) :
    ConnectsWhenFree env state (edge :: edges) := by
  have empty : attachable (liveType state.operators) (edge :: edges) = [] := by
    rw [attachable, List.takeWhile_cons, if_neg stops]
  constructor
  · rw [empty, loop, stepped]
    exact iff_of_true ⟨next, Or.inr ⟨err, rfl⟩⟩ (free_nil _)
  · rw [empty, loop, stepped]
    refine iff_of_false ?_ ?_
    · rintro ⟨final, ran⟩
      cases ran
    · rintro ⟨-, same⟩
      cases same

theorem connectsWhenFree (joins : ∀ edge ∈ edges, Joins state.operators state.cubeMgr edge) :
    ConnectsWhenFree env state edges := by
  induction edges generalizing state with
  | nil => exact ⟨iff_of_true ⟨state, Or.inl rfl⟩ (free_nil _), iff_of_true ⟨state, rfl⟩ ⟨free_nil _, rfl⟩⟩
  | cons edge rest ih =>
      obtain ⟨here, others⟩ := List.forall_mem_cons.mp joins
      have later {next : Wiring} (stepped : connectEdge env state edge = .done next) :
          ConnectsWhenFree env next rest :=
        ih fun other member => (connectEdge_keeps stepped).2.2 other (others other member)
      cases starts : edge.src with
      | some task =>
          obtain ⟨next, stepped, same⟩ := @connectEdge_operator env state edge task starts here
          refine (later stepped).cons stepped (by rw [starts]; rfl) ?_
          rw [free_cons_operator starts, same]
      | none =>
          have alive : Alive state.operators (subscriberOf edge) := by
            rw [Joins, starts] at here
            exact here.2
          obtain ⟨op, alive⟩ := alive
          have attaches : (edge.src.isSome ||
              (liveType state.operators (subscriberOf edge)).any OperatorType.isSubscriber) = op.type.isSubscriber := by
            rw [starts, liveType_eq_some alive, Option.any_some, Option.isSome_none, Bool.false_or]
          have stepped := @connectEdge_cube env state edge op starts here alive
          split at stepped
          · rename_i subscribes
            have kept := attaches.trans subscribes
            split at stepped
            · rename_i unattached
              obtain ⟨next, name, stepped, same⟩ := stepped
              refine (later stepped).cons stepped kept ?_
              rw [free_cons_cube starts alive name, same, and_iff_right unattached]
            · rename_i attached
              refine .crashed stepped kept ?_
              rw [free_cons_cube starts alive ""]
              exact fun both => attached both.1
          · rename_i other
            obtain ⟨err, next, stepped⟩ := stepped
            refine .refused stepped ?_
            rwa [attaches]

/-- The edges that are connected leave their tables and what they join behind. -/
theorem loop_connectEdge_wired {operators : OperatorTable} {cubes : CubeManager} {final : Wiring}
    (joins : ∀ edge ∈ edges, Joins operators cubes edge)
    (ran : loop (connectEdge env) ⟨operators, cubes, .empty, .empty⟩ edges = .done final) :
    Wired final.operators final.cubeMgr final.opToOutedge final.opToPred edges ∧
      liveType final.operators = liveType operators ∧ destMember final.cubeMgr = destMember cubes := by
  have kept : liveType final.operators = liveType operators ∧ destMember final.cubeMgr = destMember cubes ∧
      ∀ edge, Joins operators cubes edge → Joins final.operators final.cubeMgr edge := by
    apply loop_invariant (fun state : Wiring => liveType state.operators = liveType operators ∧
      destMember state.cubeMgr = destMember cubes ∧
      ∀ edge, Joins operators cubes edge → Joins state.operators state.cubeMgr edge) _
      ⟨rfl, rfl, fun _ joins => joins⟩ ran
    intro edge member state next kept stepped
    obtain ⟨types, members, joined⟩ := connectEdge_keeps stepped
    exact ⟨types.trans kept.1, members.trans kept.2.1, fun other joins => joined other (kept.2.2 other joins)⟩
  refine ⟨⟨loop_connectEdge_outedge ran, fun id => ?_, fun edge member starts => ?_⟩, kept.1, kept.2.1⟩
  · rw [loop_connectEdge_opToPred id ran]
    exact and_iff_right (OrderedMap.get?_empty id)
  · have joined := kept.2.2 edge (joins edge member)
    obtain ⟨task, source⟩ := Option.ne_none_iff_exists'.mp starts
    rw [Joins, source] at joined
    exact joined.2

end Wiring

section Chains

variable (env : Surroundings) (topo : AlterTopo) (vars : Altering)

/-- The operator at the start of the edge. -/
def srcOf (edge : Edge) : Option TaskID := edge.src.map fun task => toLex (edge.computation, task)

/-- An edge of the request leads from the first operator to the second one. -/
def Leads (edges : List Edge) (id dest : TaskID) : Prop :=
  ∃ edge ∈ edges, srcOf edge = some id ∧ localDest edge = some dest

/-- Edges lead to the operator from a new one that has no predecessor. -/
def ReachedFromStart (id : TaskID) : Prop :=
  ∃ start ∈ vars.operatorIDsToStart, (∀ edge ∈ topo.edges, ¬Precedes edge start) ∧
    Relation.ReflTransGen (Leads topo.edges) start id

/-- The new operator starts this chain. -/
def StartedChain (final : Altering) (id : TaskID) (chain : OperatorChain) : Prop :=
  id ∈ vars.operatorIDsToStart ∧ Heads (liveType vars.node.operators) topo.edges id ∧
    (if (liveType vars.node.operators id).any OperatorType.isSource then final.node.chainSources
      else final.node.sourcelessChain).get? id = some (some chain)

/-- The chains are built or the request is refused, and each edge that is reached has its end right behind its source in
one of the chains. -/
structure KeepsEdges : Prop where
  ends : ∃ fuel final, (createChains env fuel topo vars).EndsIn final
  kept : ∀ edge ∈ topo.edges, ∀ src, srcOf edge = some src → ReachedFromStart topo vars src →
    ∃ fuel final id chain next, createChains env fuel topo vars = .done final ∧ StartedChain topo vars final id chain ∧
      destMember vars.node.cubeMgr edge = some next ∧ [some (.operator src), some next] <:+: chain.members

/-- No operator that has two ends is reached, no chain ends at an operator that leads on, and no chain runs in a circle
or passes operators that die meanwhile. -/
structure SingleFile : Prop where
  free : Free vars.node.operators (attachable (liveType vars.node.operators) topo.edges)
  acyclic : attachable (liveType vars.node.operators) topo.edges = topo.edges → ∀ id ∈ vars.operatorIDsToStart,
    Heads (liveType vars.node.operators) topo.edges id → ∀ passed,
      Relation.ReflTransGen (Worklist.Step (passesTo (liveType vars.node.operators) topo.edges)) id passed →
        ¬Relation.TransGen (Worklist.Step (passesTo (liveType vars.node.operators) topo.edges)) passed passed
  held : attachable (liveType vars.node.operators) topo.edges = topo.edges →
    vars.operatorIDsToStart.Pairwise fun id later => ∀ other, Uses (liveType vars.node.operators) topo.edges later other →
      ¬LetsGo env (liveType vars.node.operators) topo.edges vars.node.sourcelessChain vars.node.chainSources id other
  single : ∀ edge ∈ topo.edges, ∀ src, srcOf edge = some src → ReachedFromStart topo vars src →
    attachable (liveType vars.node.operators) topo.edges = topo.edges ∧
      (outedge topo.edges src).bind (destMember vars.node.cubeMgr) = destMember vars.node.cubeMgr edge ∧
      (src ∈ vars.operatorIDsToStart ∧ Heads (liveType vars.node.operators) topo.edges src ∨
        ∀ type, liveType vars.node.operators src = some type → type.isChainEnd = false)

/-- The new operators are alive and have different names, and so do the connections have different addresses. -/
structure Ready : Prop where
  alive : ∀ id ∈ vars.operatorIDsToStart, Alive vars.node.operators id
  distinct : vars.operatorIDsToStart.Nodup
  conns : vars.node.dataConnMgr.Distinct

variable {env topo vars} {fuel : ℕ} {final : Altering}

theorem alive_of_liveType {operators : OperatorTable} {id : TaskID} {type : OperatorType}
    (typed : liveType operators id = some type) : Alive operators id := by
  obtain ⟨op, found, -⟩ := Option.map_eq_some_iff.mp typed
  exact ⟨op, Option.join_eq_some_iff.mp found⟩

theorem Follows.alive {operators : OperatorTable} {edges : List Edge} {id other : TaskID} {hitEnd : Bool}
    (follows : Follows (liveType operators) edges id hitEnd other) (start : Alive operators id) :
    Alive operators other := by
  induction follows with
  | here => exact start
  | next _ _ typed _ ih => exact ih (alive_of_liveType typed)

/-- A chain ends exactly when its start does not lead into a cycle. -/
theorem ends_passesTo_iff {types : TaskID → Option OperatorType} {edges : List Edge} {id : TaskID} :
    Worklist.Ends (passesTo types edges) id ↔ ∀ passed,
      Relation.ReflTransGen (Worklist.Step (passesTo types edges)) id passed →
        ¬Relation.TransGen (Worklist.Step (passesTo types edges)) passed passed := by
  constructor
  · intro ends passed path
    exact (ends.reaches path).not_cycle
  · apply Worklist.ends_of_not_cycle (edges.filterMap localDest)
    intro first second step
    obtain ⟨edge, -, leaves, ends, -⟩ := step_passesTo.mp step
    exact List.mem_filterMap.mpr ⟨edge, (outedge_some leaves).1, ends⟩

variable (ready : Ready vars) (joins : ∀ edge ∈ topo.edges, Joins vars.node.operators vars.node.cubeMgr edge)

include ready joins

/-- The connected edges are followed to the end when no chain runs in a circle and no operator on the way dies. -/
theorem Ready.buildChains_iff {wired : Altering} (connected : connectEdges env topo vars = .done wired) :
    (∃ fuel final, buildChains env fuel wired = .done final) ↔
      (∀ id ∈ vars.operatorIDsToStart, Heads (liveType vars.node.operators) topo.edges id →
        Worklist.Ends (passesTo (liveType vars.node.operators) topo.edges) id) ∧
      vars.operatorIDsToStart.Pairwise fun id later => ∀ other,
        Uses (liveType vars.node.operators) topo.edges later other →
          ¬LetsGo env (liveType vars.node.operators) topo.edges vars.node.sourcelessChain vars.node.chainSources id other := by
  obtain ⟨state, looped, rfl⟩ := map_eq_done.mp connected
  obtain ⟨tables, types, -⟩ := loop_connectEdge_wired joins looped
  have built := @Wired.loop_buildChain_iff env _ _ _ _ _ tables vars.operatorIDsToStart
    ⟨state.operators, vars.node.sourcelessChain, vars.node.chainSources, vars.node.dataConnMgr, .empty⟩
    (fun _ _ found => found) ready.conns ready.distinct
  have alive (id : TaskID) (member : id ∈ vars.operatorIDsToStart) : Alive state.operators id := by
    obtain ⟨op, found⟩ := ready.alive id member
    exact alive_of_liveType ((congrFun types id).trans (liveType_eq_some found))
  have uses (id : TaskID) (member : id ∈ vars.operatorIDsToStart) (other : TaskID)
      (used : Uses (liveType vars.node.operators) topo.edges id other) : Alive state.operators other := by
    rw [← types] at used
    rcases used with rfl | ⟨-, follows⟩
    · exact alive _ member
    · exact follows.alive (alive id member)
  rw [types] at built
  constructor
  · rintro ⟨fuel, final, ran⟩
    obtain ⟨last, looped, -⟩ := map_eq_done.mp ran
    obtain ⟨each, pairs⟩ := built.mp ⟨fuel, last, looped⟩
    exact ⟨fun id member => (each id member).1, pairs⟩
  · rintro ⟨each, pairs⟩
    obtain ⟨fuel, last, looped⟩ := built.mpr ⟨fun id member => ⟨each id member, uses id member⟩, pairs⟩
    exact ⟨fuel, _, map_eq_done.mpr ⟨last, looped, rfl⟩⟩

omit ready in
/-- The chains are built or refused when every stage that is reached can end. -/
theorem createChains_ends_iff :
    (∃ fuel final, (createChains env fuel topo vars).EndsIn final) ↔
      Free vars.node.operators (attachable (liveType vars.node.operators) topo.edges) ∧
        (attachable (liveType vars.node.operators) topo.edges = topo.edges →
          ∃ fuel final, createChains env fuel topo vars = .done final) := by
  obtain ⟨ends_iff, done_iff⟩ := @connectsWhenFree env
    ⟨vars.node.operators, vars.node.cubeMgr, .empty, .empty⟩ topo.edges joins
  constructor
  · rintro ⟨fuel, final, ends⟩
    have free : Free vars.node.operators (attachable (liveType vars.node.operators) topo.edges) := by
      apply ends_iff.mp
      rcases endsIn_bind ends with here | ⟨wired, connected, -⟩
      · obtain ⟨state, looped, -⟩ := endsIn_map here
        exact ⟨state, looped⟩
      · obtain ⟨state, looped, -⟩ := map_eq_done.mp connected
        exact ⟨state, Or.inl looped⟩
    refine ⟨free, fun all => ⟨fuel, final, ?_⟩⟩
    obtain ⟨state, looped⟩ := done_iff.mpr ⟨free, all⟩
    rcases ends with ran | ⟨err, refused⟩
    · exact ran
    · rw [createChains, connectEdges, looped] at refused
      exact absurd refused buildChains_ne_refused
  · rintro ⟨free, built⟩
    by_cases all : attachable (liveType vars.node.operators) topo.edges = topo.edges
    · obtain ⟨fuel, final, ran⟩ := built all
      exact ⟨fuel, final, Or.inl ran⟩
    · obtain ⟨state, looped⟩ := ends_iff.mpr free
      rcases looped with looped | ⟨err, refused⟩
      · exact absurd (done_iff.mp ⟨state, looped⟩).2 all
      · exact ⟨0, _, Or.inr ⟨err, by rw [createChains, connectEdges, refused]; rfl⟩⟩

/-- The chains can be built when all edges can be connected and followed. -/
theorem Ready.createChains_done_iff :
    (∃ fuel final, createChains env fuel topo vars = .done final) ↔
      Free vars.node.operators (attachable (liveType vars.node.operators) topo.edges) ∧
      attachable (liveType vars.node.operators) topo.edges = topo.edges ∧
      (∀ id ∈ vars.operatorIDsToStart, Heads (liveType vars.node.operators) topo.edges id →
        Worklist.Ends (passesTo (liveType vars.node.operators) topo.edges) id) ∧
      vars.operatorIDsToStart.Pairwise fun id later => ∀ other,
        Uses (liveType vars.node.operators) topo.edges later other →
          ¬LetsGo env (liveType vars.node.operators) topo.edges vars.node.sourcelessChain vars.node.chainSources id other := by
  have done_iff := (@connectsWhenFree env ⟨vars.node.operators, vars.node.cubeMgr, .empty, .empty⟩ topo.edges joins).connects
  constructor
  · rintro ⟨fuel, final, ran⟩
    obtain ⟨wired, connected, built⟩ := bind_eq_done.mp ran
    obtain ⟨state, looped, -⟩ := map_eq_done.mp connected
    obtain ⟨free, all⟩ := done_iff.mp ⟨state, looped⟩
    exact ⟨free, all, (ready.buildChains_iff joins connected).mp ⟨fuel, final, built⟩⟩
  · rintro ⟨free, all, chains⟩
    obtain ⟨state, looped⟩ := done_iff.mpr ⟨free, all⟩
    have connected : connectEdges env topo vars = .done _ := map_eq_done.mpr ⟨state, looped, rfl⟩
    obtain ⟨fuel, final, built⟩ := (ready.buildChains_iff joins connected).mpr chains
    exact ⟨fuel, final, bind_eq_done.mpr ⟨_, connected, built⟩⟩

/-- Every new operator that starts a chain has one, in which the ends of the last edges stand behind their sources. -/
theorem Ready.startedChain (ran : createChains env fuel topo vars = .done final) {id : TaskID}
    (member : id ∈ vars.operatorIDsToStart) (head : Heads (liveType vars.node.operators) topo.edges id) :
    ∃ chain, StartedChain topo vars final id chain ∧ ∀ src next, [some (.operator src), some next] <:+: chain.members ↔
      Relation.ReflTransGen (Worklist.Step (passesTo (liveType vars.node.operators) topo.edges)) id src ∧
        (outedge topo.edges src).bind (destMember vars.node.cubeMgr) = some next := by
  obtain ⟨wired, connected, built⟩ := bind_eq_done.mp ran
  obtain ⟨state, looped, rfl⟩ := map_eq_done.mp connected
  obtain ⟨last, chained, rfl⟩ := map_eq_done.mp built
  obtain ⟨tables, types, members⟩ := loop_connectEdge_wired joins looped
  obtain ⟨registered, -⟩ := tables.loop_buildChain_registered (fun _ _ found => found) ready.conns ready.distinct chained
  rw [types] at registered
  obtain ⟨found, followed, listed⟩ := registered id member head
  refine ⟨⟨found.1.map some⟩, ⟨member, head, listed⟩, fun src next => ?_⟩
  have adjacent := followChain_adjacent tables.outedges followed src next
  rw [types, members, and_iff_right rfl] at adjacent
  rw [← adjacent]
  constructor
  · intro infixed
    obtain ⟨pair, shorter, same⟩ := List.infix_map_iff.mp infixed
    obtain rfl : [.operator src, next] = pair :=
      (Option.some_injective _).list_map (show [.operator src, next].map some = pair.map some from same)
    exact shorter
  · intro infixed
    exact infixed.map some

omit ready in
/-- Where no operator is reached that leads on behind the end of a chain or to two ends, a chain passes every operator
that is reached and is no end. -/
theorem SingleFile.passed (single : SingleFile env topo vars) {id : TaskID} (reached : ReachedFromStart topo vars id)
    (goesOn : ∀ type, liveType vars.node.operators id = some type → type.isChainEnd = false) :
    ∃ head ∈ vars.operatorIDsToStart, Heads (liveType vars.node.operators) topo.edges head ∧
      Relation.ReflTransGen (Worklist.Step (passesTo (liveType vars.node.operators) topo.edges)) head id := by
  obtain ⟨start, member, first, path⟩ := reached
  induction path with
  | refl => exact ⟨start, member, Or.inl first, .refl⟩
  | @tail src dest path leads ih =>
      obtain ⟨edge, listed, starts, ends⟩ := leads
      obtain ⟨-, same, head⟩ := single.single edge listed src starts ⟨start, member, first, path⟩
      obtain ⟨head, headMember, heads, passes⟩ : ∃ head ∈ vars.operatorIDsToStart,
          Heads (liveType vars.node.operators) topo.edges head ∧
            Relation.ReflTransGen (Worklist.Step (passesTo (liveType vars.node.operators) topo.edges)) head src := by
        rcases head with ⟨headMember, heads⟩ | notEnd
        · exact ⟨src, headMember, heads, .refl⟩
        · exact ih notEnd
      refine ⟨head, headMember, heads, passes.tail (step_passesTo.mpr ?_)⟩
      rw [destMember_of_localDest ends] at same
      obtain ⟨last, leaves, behind⟩ := Option.bind_eq_some_iff.mp same
      obtain ⟨op, alive⟩ : Alive vars.node.operators dest := by
        have joined := joins edge listed
        obtain ⟨task, source, -⟩ := Option.map_eq_some_iff.mp starts
        rw [Joins, source] at joined
        exact joined.2.2 dest ends
      exact ⟨last, op.type, leaves, localDest_of_destMember behind, liveType_eq_some alive,
        goesOn op.type (liveType_eq_some alive)⟩

/-- Building the chains ends and keeps the edges that are reached exactly when these stand in single file. -/
theorem keepsEdges_iff : KeepsEdges env topo vars ↔ SingleFile env topo vars := by
  have ends_iff := @createChains_ends_iff env topo vars joins
  have done_iff := @Ready.createChains_done_iff env topo vars ready joins
  constructor
  · rintro ⟨ends, kept⟩
    obtain ⟨free, built⟩ := ends_iff.mp ends
    refine ⟨free, fun all id member head => ?_, fun all => ?_, fun edge listed src starts reached => ?_⟩
    · obtain ⟨-, -, chains, -⟩ := done_iff.mp (built all)
      exact ends_passesTo_iff.mp (chains id member head)
    · obtain ⟨-, -, -, pairs⟩ := done_iff.mp (built all)
      exact pairs
    · obtain ⟨fuel, final, id, chain, next, ran, ⟨member, head, registered⟩, behind, adjacent⟩ :=
        kept edge listed src starts reached
      obtain ⟨-, all, -⟩ := done_iff.mp ⟨fuel, final, ran⟩
      obtain ⟨found, ⟨-, -, same⟩, spec⟩ := ready.startedChain joins ran member head
      obtain rfl : found = chain := Option.some.inj (Option.some.inj (same.symm.trans registered))
      obtain ⟨path, last⟩ := (spec src next).mp adjacent
      refine ⟨all, last.trans behind.symm, ?_⟩
      rcases Relation.ReflTransGen.cases_tail path with rfl | ⟨before, -, step⟩
      · exact Or.inl ⟨member, head⟩
      · obtain ⟨-, type, -, -, typed, goesOn⟩ := step_passesTo.mp step
        refine Or.inr fun other otherTyped => ?_
        obtain rfl := Option.some.inj (typed.symm.trans otherTyped)
        exact goesOn
  · intro single
    have built (all : attachable (liveType vars.node.operators) topo.edges = topo.edges) :
        ∃ fuel final, createChains env fuel topo vars = .done final :=
      done_iff.mpr ⟨single.free, all, fun id member head => ends_passesTo_iff.mpr (single.acyclic all id member head),
        single.held all⟩
    refine ⟨ends_iff.mpr ⟨single.free, built⟩, fun edge listed src starts reached => ?_⟩
    obtain ⟨all, same, head⟩ := single.single edge listed src starts reached
    obtain ⟨head, member, heads, passes⟩ : ∃ head ∈ vars.operatorIDsToStart,
        Heads (liveType vars.node.operators) topo.edges head ∧
          Relation.ReflTransGen (Worklist.Step (passesTo (liveType vars.node.operators) topo.edges)) head src := by
      rcases head with ⟨member, heads⟩ | notEnd
      · exact ⟨src, member, heads, .refl⟩
      · exact single.passed joins reached notEnd
    obtain ⟨next, behind⟩ : ∃ next, destMember vars.node.cubeMgr edge = some next := by
      have joined := joins edge listed
      obtain ⟨task, source, -⟩ := Option.map_eq_some_iff.mp starts
      rw [Joins, source] at joined
      exact Option.isSome_iff_exists.mp joined.2.1
    obtain ⟨fuel, final, ran⟩ := built all
    obtain ⟨chain, started, spec⟩ := ready.startedChain joins ran member heads
    exact ⟨fuel, final, head, chain, next, ran, started, behind, (spec src next).mpr ⟨passes, same.trans behind⟩⟩

end Chains

section Handled

variable {env : Surroundings} {request : ℕ} {topo : AlterTopo} {node : Node}

/-- The stages before this one leave different names and distinct connections, and `handle_alter` holds on to the new
operators meanwhile. -/
theorem ready_of_stages (tidy : node.Tidy) (unused : node.Unused request) {started created destroyed : Altering}
    (start : startOperators env request topo (node.startAlter topo) = .done started)
    (create : createCubes env topo started = .done created)
    (destroy : destroyCubes env topo (stopTasks env topo created) = .done destroyed)
    (held : ∀ id ∈ destroyed.operatorIDsToStart, Alive destroyed.node.operators id) : Ready destroyed := by
  have startTidy := startOperators_tidy tidy unused (Or.inl start)
  have createTidy := createCubes_tidy startTidy (Or.inl create)
  have destroyTidy := destroyCubes_tidy (stopTasks_tidy createTidy) (Or.inl destroy)
  obtain ⟨state, looped, rfl⟩ := map_eq_done.mp start
  obtain ⟨cubes, -, rfl⟩ := map_eq_done.mp create
  obtain ⟨last, -, rfl⟩ := map_eq_done.mp destroy
  exact ⟨held, (started_of_loop looped).nodup, destroyTidy.conns⟩

end Handled

section Instances

/-- A source and two receivers are started with these edges between them. -/
def threeTasks (edges : List Edge) : AlterTopo :=
  ⟨1, [⟨toLex (1, 1), "SendK", none, []⟩, ⟨toLex (1, 2), "DummyReceiver", none, []⟩,
    ⟨toLex (1, 3), "DummyReceiver", none, []⟩], [], [], [], edges, []⟩

def between (src dest : ℤ) : Edge := ⟨1, some src, none, some dest, none, none⟩

/-- The table has a source and two receivers. -/
def threeTable : OperatorTable :=
  ((OrderedMap.empty.set (toLex (1, 1)) (some ⟨⟨"N9jetstream5SendKE", true, false, false⟩, 0, none⟩)).set
    (toLex (1, 2)) (some ⟨⟨"N9jetstream13DummyReceiverE", false, false, false⟩, 0, none⟩)).set
    (toLex (1, 3)) (some ⟨⟨"N9jetstream13DummyReceiverE", false, false, false⟩, 0, none⟩)

def threeOperators (edges : List Edge) : Altering :=
  ⟨{new with operators := threeTable}, [toLex (1, 1), toLex (1, 2), toLex (1, 3)],
    ⟨1, (threeTasks edges).toStart, [], [], [], [], []⟩, .empty, .empty, .empty⟩

theorem startOperators_threeTasks (edges : List Edge) :
    startOperators experimentOperators 0 (threeTasks edges) (new.startAlter (threeTasks edges)) =
      .done (threeOperators edges) := rfl

theorem ready_threeOperators (edges : List Edge) : Ready (threeOperators edges) := by
  have wellFormed : new.WellFormed := reachable_wellFormed ⟨[], rfl⟩
  refine ready_of_stages wellFormed.toTidy ?_ (startOperators_threeTasks edges) rfl rfl ?_
  · exact fun _ member => absurd member List.not_mem_nil
  · intro id member
    have known : id ∈ [(toLex (1, 1) : TaskID), toLex (1, 2), toLex (1, 3)] := member
    simp only [List.mem_cons, List.not_mem_nil, or_false] at known
    rcases known with rfl | rfl | rfl
    · exact ⟨_, rfl⟩
    · exact ⟨_, rfl⟩
    · exact ⟨_, rfl⟩

/-- The edges between the three operators join what exists. -/
theorem joins_between {src dest : ℤ} (srcKnown : src ∈ [1, 2, 3]) (destKnown : dest ∈ [1, 2, 3]) :
    Joins threeTable new.cubeMgr (between src dest) := by
  have alive : ∀ task ∈ [(1 : ℤ), 2, 3], Alive threeTable (toLex (1, task)) := by
    intro task known
    apply (ready_threeOperators []).alive
    exact List.mem_map_of_mem (f := fun task : ℤ => (toLex (1, task) : TaskID)) known
  refine ⟨alive src srcKnown, rfl, fun other ends => ?_⟩
  obtain rfl : toLex (1, dest) = other := Option.some.inj ends
  exact alive dest destKnown

theorem keepsEdges_iff_line :
    Ready (threeOperators [between 1 2, between 2 3]) ∧
      (KeepsEdges experimentOperators (threeTasks [between 1 2, between 2 3]) (threeOperators [between 1 2, between 2 3]) ↔
        SingleFile experimentOperators (threeTasks [between 1 2, between 2 3])
          (threeOperators [between 1 2, between 2 3])) := by
  refine ⟨ready_threeOperators _, keepsEdges_iff (ready_threeOperators _) fun edge listed => ?_⟩
  have listed : edge ∈ [between 1 2, between 2 3] := listed
  rw [List.mem_cons, List.mem_singleton] at listed
  rcases listed with rfl | rfl
  · exact joins_between (by decide) (by decide)
  · exact joins_between (by decide) (by decide)

/-- The walk behind a source does not leave a circle, and of two edges from one source the first one is lost. -/
theorem not_keepsEdges_circle_fork :
    (Ready (threeOperators [between 1 2, between 2 3, between 3 2]) ∧
        (∀ edge ∈ [between 1 2, between 2 3, between 3 2],
          Joins threeTable new.cubeMgr edge) ∧
        ¬KeepsEdges experimentOperators (threeTasks [between 1 2, between 2 3, between 3 2])
          (threeOperators [between 1 2, between 2 3, between 3 2])) ∧
      Ready (threeOperators [between 1 2, between 1 3]) ∧
        (∀ edge ∈ [between 1 2, between 1 3], Joins threeTable new.cubeMgr edge) ∧
        ¬KeepsEdges experimentOperators (threeTasks [between 1 2, between 1 3])
          (threeOperators [between 1 2, between 1 3]) := by
  have circle : ∀ edge ∈ [between 1 2, between 2 3, between 3 2],
      Joins threeTable new.cubeMgr edge := by
    intro edge listed
    simp only [List.mem_cons, List.not_mem_nil, or_false] at listed
    rcases listed with rfl | rfl | rfl
    · exact joins_between (by decide) (by decide)
    · exact joins_between (by decide) (by decide)
    · exact joins_between (by decide) (by decide)
  have fork : ∀ edge ∈ [between 1 2, between 1 3],
      Joins threeTable new.cubeMgr edge := by
    intro edge listed
    simp only [List.mem_cons, List.not_mem_nil, or_false] at listed
    rcases listed with rfl | rfl
    · exact joins_between (by decide) (by decide)
    · exact joins_between (by decide) (by decide)
  refine ⟨⟨ready_threeOperators _, circle, fun keeps => ?_⟩, ready_threeOperators _, fork, fun keeps => ?_⟩
  · obtain ⟨-, built⟩ := (createChains_ends_iff circle).mp keeps.ends
    obtain ⟨-, -, chains, -⟩ := ((ready_threeOperators _).createChains_done_iff circle).mp (built rfl)
    have ends := chains (toLex (1, 1)) List.mem_cons_self (Or.inr ⟨_, rfl, rfl⟩)
    exact ends_passesTo_iff.mp ends (toLex (1, 2)) (.single (step_passesTo.mpr ⟨between 1 2, _, rfl, rfl, rfl, rfl⟩))
      (.head (step_passesTo.mpr ⟨between 2 3, _, rfl, rfl, rfl, rfl⟩)
        (.single (step_passesTo.mpr ⟨between 3 2, _, rfl, rfl, rfl, rfl⟩)))
  · have first : ∀ edge ∈ [between 1 2, between 1 3], ¬Precedes edge (toLex (1, 1)) := by
      rintro edge listed ⟨-, ends⟩
      simp only [List.mem_cons, List.not_mem_nil, or_false] at listed
      rcases listed with rfl | rfl
      · exact absurd ends (by decide)
      · exact absurd ends (by decide)
    obtain ⟨fuel, final, id, chain, next, ran, ⟨member, head, registered⟩, behind, adjacent⟩ :=
      keeps.kept (between 1 2) List.mem_cons_self (toLex (1, 1)) rfl ⟨toLex (1, 1), List.mem_cons_self, first, .refl⟩
    obtain ⟨found, ⟨-, -, same⟩, spec⟩ := (ready_threeOperators _).startedChain fork ran member head
    obtain rfl : found = chain := Option.some.inj (Option.some.inj (same.symm.trans registered))
    obtain ⟨-, last⟩ := (spec _ next).mp adjacent
    exact absurd (last.trans behind.symm) (by decide)

end Instances

end JetStream.Node
