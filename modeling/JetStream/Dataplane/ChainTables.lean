import JetStream.Dataplane.AlterStages
import JetStream.Lib.EventSystem

namespace JetStream

/-- Every entry of the table has a chain. -/
def ChainTable.NoNull (chains : ChainTable) : Prop := ∀ id, chains.get? id ≠ some none

/-- A chain stands under the name of the operator at its head. -/
def ChainTable.Headed (chains : ChainTable) : Prop :=
  ∀ id chain, chains.get? id = some (some chain) → ∃ rest, chain.members = some (.operator id) :: rest

namespace ChainTable

variable {chains : ChainTable} {id : TaskID} {chain : OperatorChain}

theorem NoNull.erase (noNull : chains.NoNull) (id : TaskID) : NoNull (OrderedMap.erase chains id) := by
  intro other
  rw [OrderedMap.get?_erase]
  split
  · nofun
  · exact noNull other

theorem NoNull.set (noNull : chains.NoNull) (id : TaskID) (chain : OperatorChain) :
    NoNull (OrderedMap.set chains id (some chain)) := by
  intro other
  rw [OrderedMap.get?_set]
  split
  · nofun
  · exact noNull other

theorem Headed.erase (headed : chains.Headed) (id : TaskID) : Headed (OrderedMap.erase chains id) := by
  intro other chain found
  rw [OrderedMap.get?_erase] at found
  split at found
  · cases found
  · exact headed other chain found

theorem Headed.setNull (headed : chains.Headed) (id : TaskID) : Headed (OrderedMap.set chains id none) := by
  intro other chain found
  rcases OrderedMap.get?_set_cases found with ⟨-, here⟩ | ⟨-, before⟩
  · cases here
  · exact headed other chain before

theorem Headed.set (headed : chains.Headed) {rest : List (Option ChainMember)}
    (starts : chain.members = some (.operator id) :: rest) : Headed (OrderedMap.set chains id (some chain)) := by
  intro other found listed
  rcases OrderedMap.get?_set_cases listed with ⟨same, here⟩ | ⟨-, before⟩
  · obtain rfl := Option.some.inj here
    exact ⟨rest, same ▸ starts⟩
  · exact headed other found before

end ChainTable

namespace Node

open Attempt

section Stages

variable {env : Surroundings} {fuel request : ℕ} {topo : AlterTopo}

/-- The node keeps its tables of chains. -/
def SameChains (before after : Node) : Prop :=
  after.sourcelessChain = before.sourcelessChain ∧ after.chainSources = before.chainSources

/-- A chain that unregisters itself goes away under the name of its head. -/
theorem unregisterChain_headed {node : Node} {id : TaskID} {chain : OperatorChain} {rest : List (Option ChainMember)}
    (starts : chain.members = some (.operator id) :: rest) :
    node.unregisterChain chain =
      {node with operators := node.operators.erase id, chainSources := node.chainSources.erase id} := by
  rw [unregisterChain, starts]

@[simp] theorem unregisterChain_sourcelessChain (node : Node) (chain : OperatorChain) :
    (node.unregisterChain chain).sourcelessChain = node.sourcelessChain := by
  unfold unregisterChain
  split <;> rfl

theorem unregisterChain_sources {node : Node} {chain : OperatorChain} {Kept : ChainTable → Prop}
    (erases : ∀ chains id, Kept chains → Kept (OrderedMap.erase chains id)) (sources : Kept node.chainSources) :
    Kept (node.unregisterChain chain).chainSources := by
  unfold unregisterChain
  split
  · exact erases _ _ sources
  · exact sources

theorem destroyCubes_sameChains {vars final : Altering} (ran : destroyCubes env topo vars = .done final) :
    SameChains vars.node final.node := by
  obtain ⟨node, looped, rfl⟩ := map_eq_done.mp ran
  apply loop_invariant (SameChains vars.node) _ ⟨rfl, rfl⟩ looped
  intro name member state next same stepped
  obtain ⟨cube, -, rfl⟩ := destroyCube_done stepped
  exact same

/-- A property of both tables that new chains keep is kept by the whole stage. -/
theorem buildChains_tables {vars final : Altering} (Kept : ChainTable → Prop)
    (keeps : ∀ chains id chain rest, Kept chains → chain.members = some (.operator id) :: rest →
      Kept (OrderedMap.set chains id (some chain)))
    (sourceless : Kept vars.node.sourcelessChain) (sources : Kept vars.node.chainSources)
    (ran : buildChains env fuel vars = .done final) :
    Kept final.node.sourcelessChain ∧ Kept final.node.chainSources := by
  obtain ⟨state, looped, rfl⟩ := map_eq_done.mp ran
  apply loop_invariant (fun state => Kept state.sourcelessChain ∧ Kept state.chainSources) _ ⟨sourceless, sources⟩ looped
  intro id member state next kept stepped
  obtain ⟨chainOp, alive, ⟨-, rfl⟩ | ⟨-, members, passed, followed, registered⟩⟩ := buildChain_done stepped
  · exact kept
  · obtain ⟨conns, -, rfl⟩ := registerChain_done registered
    obtain ⟨rest, rfl⟩ := (followChain_done followed).1
    have starts : (⟨(ChainMember.operator id :: rest).map some⟩ : OperatorChain).members =
        some (.operator id) :: rest.map some := rfl
    cases chainOp.type.isSource with
    | false => exact ⟨keeps _ _ _ _ kept.1 starts, kept.2⟩
    | true => exact ⟨kept.1, keeps _ _ _ _ kept.2 starts⟩

/-- A property of both tables that erasing keeps survives the roll-back. -/
theorem rollBack_tables {before : Node} {vars : Altering} (Kept : ChainTable → Prop)
    (keeps : ∀ chains id, Kept chains → Kept (OrderedMap.erase chains id))
    (sourceless : Kept vars.node.sourcelessChain) (sources : Kept vars.node.chainSources) :
    Kept (rollBack env before vars).node.sourcelessChain ∧ Kept (rollBack env before vars).node.chainSources := by
  show Kept (vars.operatorIDsToStart.foldl forgetOperator vars.node).sourcelessChain ∧
    Kept (vars.operatorIDsToStart.foldl forgetOperator vars.node).chainSources
  generalize vars.node = node at sourceless sources
  induction vars.operatorIDsToStart generalizing node with
  | nil => exact ⟨sourceless, sources⟩
  | cons id rest ih => exact ih _ (keeps _ _ sourceless) (keeps _ _ sources)

theorem stopTask_sourcelessChain (node : Node) (id : TaskID) :
    (stopTask env node id).sourcelessChain = node.sourcelessChain := by
  unfold stopTask
  split
  · rfl
  · rfl
  · exact unregisterChain_sourcelessChain node _

theorem stopTask_headed {node : Node} (headed : node.chainSources.Headed) (id : TaskID) :
    (stopTask env node id).chainSources.Headed := by
  unfold stopTask
  split
  · exact headed.setNull id
  · exact headed
  · exact unregisterChain_sources (fun _ id kept => kept.erase id) headed

theorem stopTasks_sourcelessChain (node : Node) (ids : List TaskID) :
    (ids.foldl (stopTask env) node).sourcelessChain = node.sourcelessChain := by
  induction ids generalizing node with
  | nil => rfl
  | cons id rest ih => exact (ih _).trans (stopTask_sourcelessChain node id)

/-- A property of the tables that erasing and new chains keep is kept by a request that stops its tasks in keeping with it. -/
theorem alterTables_tables {node : Node} {Kept : ChainTable → Prop}
    (sets : ∀ chains id chain rest, Kept chains → chain.members = some (.operator id) :: rest →
      Kept (OrderedMap.set chains id (some chain)))
    (sourceless : Kept node.sourcelessChain) (sources : Kept node.chainSources)
    (stops : ∀ other : Node, other.chainSources = node.chainSources →
      Kept (topo.taskToStop.foldl (stopTask env) other).chainSources)
    {vars : Altering}
    (ran : alterTables env fuel request topo (node.startAlter topo) = .done vars ∨
      ∃ err, alterTables env fuel request topo (node.startAlter topo) = .refused err vars) :
    Kept vars.node.sourcelessChain ∧ Kept vars.node.chainSources := by
  have stopped {started created destroyed : Altering}
      (start : startOperators env request topo (node.startAlter topo) = .done started)
      (create : createCubes env topo started = .done created)
      (destroy : destroyCubes env topo (stopTasks env topo created) = .done destroyed) :
      Kept destroyed.node.sourcelessChain ∧ Kept destroyed.node.chainSources := by
    obtain ⟨_, -, rfl⟩ := map_eq_done.mp start
    obtain ⟨_, -, rfl⟩ := map_eq_done.mp create
    obtain ⟨keptSourceless, keptSources⟩ := destroyCubes_sameChains destroy
    rw [keptSourceless, keptSources]
    exact ⟨(stopTasks_sourcelessChain _ _).symm ▸ sourceless, stops _ rfl⟩
  have wiredAs {destroyed wired : Altering} (wire : connectEdges env topo destroyed = .done wired) :
      SameChains destroyed.node wired.node := by
    obtain ⟨_, -, rfl⟩ := map_eq_done.mp wire
    exact ⟨rfl, rfl⟩
  rcases ran with done | ⟨err, refused⟩
  · obtain ⟨started, created, destroyed, wired, built, governed, start, create, destroy, wire, build, govern, announce⟩ :=
      alterTables_done done
    obtain ⟨keptSourceless, keptSources⟩ := wiredAs wire
    have kept := stopped start create destroy
    rw [← keptSourceless, ← keptSources] at kept
    have tables := buildChains_tables Kept sets kept.1 kept.2 build
    obtain ⟨_, -, rfl⟩ := map_eq_done.mp govern
    obtain ⟨_, -, rfl⟩ := map_eq_done.mp announce
    exact tables
  · rcases alterTables_refused refused with start | ⟨started, start, create | ⟨created, destroyed, create, destroy,
      wire | ⟨wired, built, wire, build, govern⟩⟩⟩
    · obtain ⟨_, -, rfl⟩ := map_eq_refused.mp start
      exact ⟨sourceless, sources⟩
    · obtain ⟨_, -, rfl⟩ := map_eq_done.mp start
      obtain ⟨_, -, rfl⟩ := map_eq_refused.mp create
      exact ⟨sourceless, sources⟩
    · have kept := stopped start create destroy
      obtain ⟨_, -, rfl⟩ := map_eq_refused.mp wire
      exact kept
    · obtain ⟨keptSourceless, keptSources⟩ := wiredAs wire
      have kept := stopped start create destroy
      rw [← keptSourceless, ← keptSources] at kept
      have tables := buildChains_tables Kept sets kept.1 kept.2 build
      obtain ⟨_, -, rfl⟩ := map_eq_refused.mp govern
      exact tables

/-- The state after the answer of the node, when there is one. -/
def afterAlter (env : Surroundings) (fuel request : ℕ) (node : Node) (topo : AlterTopo) : Option Node :=
  match node.handleAlter env fuel request topo with
  | .done (_, next) => some next
  | .refused _ (_, next) => some next
  | _ => none

theorem afterAlter_tables {node next : Node} {Kept : ChainTable → Prop}
    (erases : ∀ chains id, Kept chains → Kept (OrderedMap.erase chains id))
    (sets : ∀ chains id chain rest, Kept chains → chain.members = some (.operator id) :: rest →
      Kept (OrderedMap.set chains id (some chain)))
    (sourceless : Kept node.sourcelessChain) (sources : Kept node.chainSources)
    (stops : ∀ other : Node, other.chainSources = node.chainSources →
      Kept (topo.taskToStop.foldl (stopTask env) other).chainSources)
    (ran : afterAlter env fuel request node topo = some next) :
    Kept next.sourcelessChain ∧ Kept next.chainSources := by
  unfold afterAlter at ran
  split at ran
  · rename_i resp reached done
    obtain rfl := Option.some.inj ran
    obtain ⟨vars, altered, -, rfl⟩ := handleAlter_done done
    exact alterTables_tables sets sourceless sources stops (Or.inl altered)
  · rename_i err resp reached refused
    obtain rfl := Option.some.inj ran
    obtain ⟨vars, altered, rfl⟩ := handleAlter_refused refused
    obtain ⟨keptSourceless, keptSources⟩ := alterTables_tables sets sourceless sources stops (Or.inr ⟨err, altered⟩)
    exact rollBack_tables Kept erases keptSourceless keptSources
  · cases ran

end Stages

/-- Requests come from the controller and from other nodes, and chains, operators and connections end on their own. -/
inductive NodeEvent where
  | alter (env : Surroundings) (fuel request : ℕ) (topo : AlterTopo)
  | stopComputation (env : Surroundings) (compID : ℤ)
  | dataMsg (c : ClientConnection) (msg : DataplaneMessage)
  | unregisterChain (chain : OperatorChain)
  | expire (dies : TaskID → Bool)
  | removeSubscriber (cubeName : String) (id : TaskID)
  | cleanupIncoming (endpoint : NodeID)

/-- The subscriber leaves its cube, when the cube is still there. -/
def removeSubscriber (node : Node) (cubeName : String) (id : TaskID) : Node :=
  match node.cubeMgr.cubeMap.get? cubeName with
  | none => node
  | some cube => {node with cubeMgr := ⟨node.cubeMgr.cubeMap.set cubeName (cube.removeSubscriber id)⟩}

/-- No subscriber comes from the request of this number. -/
def Unused (node : Node) (request : ℕ) : Prop :=
  ∀ cube ∈ node.cubeMgr.cubeMap.entries, ∀ sub ∈ cube.2.subscribers.entries, sub.2 ≠ request

instance (node : Node) (request : ℕ) : Decidable (node.Unused request) :=
  inferInstanceAs (Decidable (∀ cube ∈ _, ∀ sub ∈ _, _))

/-- Every request has its own number, and a new connection does not come from the address of another one. -/
def step (node : Node) : NodeEvent → Option Node
  | .alter env fuel request topo => if node.Unused request then afterAlter env fuel request node topo else none
  | .stopComputation env compID => (node.stopComputation env compID).map Prod.snd
  | .dataMsg c msg => if node.dataConnMgr.Fresh c.remoteEndpoint then node.receivedDataMsg c msg else none
  | .unregisterChain chain => some (node.unregisterChain chain)
  | .expire dies => some {node with operators := Node.expire node.operators dies}
  | .removeSubscriber cubeName id => some (node.removeSubscriber cubeName id)
  | .cleanupIncoming endpoint => some {node with dataConnMgr := node.dataConnMgr.cleanupIncoming endpoint}

def system : EventSystem Node NodeEvent := ⟨new, step⟩

section Runs

variable {env : Surroundings}

/-- Stopping a computation keeps what each purged operator keeps. -/
theorem stopComputation_invariant {node next : Node} {compID : ℤ} {stopped : List ℤ} (Kept : Node → Prop) (kept : Kept node)
    (purges : ∀ node id, Kept node → Kept (purgeOperator env compID node id))
    (ran : node.stopComputation env compID = some (stopped, next)) : Kept next := by
  obtain ⟨_, -, rest⟩ := Option.bind_eq_some_iff.mp ran
  obtain ⟨_, -, purged⟩ := Option.bind_eq_some_iff.mp rest
  obtain rfl := (Prod.mk.inj (Option.some.inj purged)).2
  exact List.foldlRecOn _ _ kept fun node kept id _ => purges node id kept

/-- Stopping a computation only takes entries away from the tables. -/
theorem stopComputation_tables {node next : Node} {compID : ℤ} {stopped : List ℤ} {Kept : ChainTable → Prop}
    (erases : ∀ chains id, Kept chains → Kept (OrderedMap.erase chains id))
    (sourceless : Kept node.sourcelessChain) (sources : Kept node.chainSources)
    (ran : node.stopComputation env compID = some (stopped, next)) :
    Kept next.sourcelessChain ∧ Kept next.chainSources := by
  apply stopComputation_invariant (fun node : Node => Kept node.sourcelessChain ∧ Kept node.chainSources)
    ⟨sourceless, sources⟩ _ ran
  intro node id kept
  unfold purgeOperator
  split
  · exact kept
  · split_ifs
    · exact ⟨erases _ _ kept.1, erases _ _ kept.2⟩
    · exact kept

/-- A message on a connection leaves the tables of the node as they are. -/
theorem receivedDataMsg_conns {node next : Node} {c : ClientConnection} {msg : DataplaneMessage}
    (ran : node.receivedDataMsg c msg = some next) : next = {node with dataConnMgr := next.dataConnMgr} := by
  cases msg with
  | unexpected =>
      obtain rfl := Option.some.inj ran
      rfl
  | chainConnect edge =>
      obtain ⟨⟨conns, destAsStr, newChain⟩, -, rest⟩ := Option.bind_eq_some_iff.mp ran
      cases newChain with
      | none =>
          obtain rfl := Option.some.inj rest
          rfl
      | some chain =>
          obtain ⟨enabled, -, rfl⟩ := Option.map_eq_some_iff.mp rest
          rfl

/-- A property of the tables is kept along a step when erasing, new chains and the stopped tasks keep it. -/
theorem step_tables {node next : Node} {event : NodeEvent} (Kept : ChainTable → Prop)
    (erases : ∀ chains id, Kept chains → Kept (OrderedMap.erase chains id))
    (sets : ∀ chains id chain rest, Kept chains → chain.members = some (.operator id) :: rest →
      Kept (OrderedMap.set chains id (some chain)))
    (sourceless : Kept node.sourcelessChain) (sources : Kept node.chainSources)
    (stops : ∀ env fuel request topo, event = .alter env fuel request topo → ∀ other : Node,
      other.chainSources = node.chainSources → Kept (topo.taskToStop.foldl (stopTask env) other).chainSources)
    (stepped : node.step event = some next) : Kept next.sourcelessChain ∧ Kept next.chainSources := by
  cases event with
  | alter env fuel request topo =>
      obtain ⟨-, ran⟩ := Option.ite_none_right_eq_some.mp stepped
      exact afterAlter_tables erases sets sourceless sources (stops env fuel request topo rfl) ran
  | stopComputation env compID =>
      obtain ⟨⟨stopped, reached⟩, ran, rfl⟩ := Option.map_eq_some_iff.mp stepped
      exact stopComputation_tables erases sourceless sources ran
  | dataMsg c msg =>
      obtain ⟨-, ran⟩ := Option.ite_none_right_eq_some.mp stepped
      rw [receivedDataMsg_conns ran]
      exact ⟨sourceless, sources⟩
  | unregisterChain chain =>
      obtain rfl := Option.some.inj stepped
      rw [unregisterChain_sourcelessChain]
      exact ⟨sourceless, unregisterChain_sources erases sources⟩
  | expire dies =>
      obtain rfl := Option.some.inj stepped
      exact ⟨sourceless, sources⟩
  | removeSubscriber cubeName id =>
      obtain rfl := Option.some.inj stepped
      unfold removeSubscriber
      split
      · exact ⟨sourceless, sources⟩
      · exact ⟨sourceless, sources⟩
  | cleanupIncoming endpoint =>
      obtain rfl := Option.some.inj stepped
      exact ⟨sourceless, sources⟩

/-- Every reachable table lists its chains under the names of their heads. -/
theorem step_headed {node next : Node} {event : NodeEvent} (sourceless : node.sourcelessChain.Headed)
    (sources : node.chainSources.Headed) (stepped : node.step event = some next) :
    next.sourcelessChain.Headed ∧ next.chainSources.Headed := by
  apply step_tables ChainTable.Headed (fun _ id kept => kept.erase id) (fun _ _ _ _ kept starts => kept.set starts)
    sourceless sources _ stepped
  intro env fuel request topo _ other same
  rw [← same] at sources
  clear same
  induction topo.taskToStop generalizing other with
  | nil => exact sources
  | cons id rest ih => exact ih _ (stopTask_headed sources id)

/-- The request stops only tasks that head a chain with a source, and each of them once. -/
def StopsSources (node : Node) : NodeEvent → Prop
  | .alter _ _ _ topo => topo.taskToStop.Nodup ∧ ∀ id ∈ topo.taskToStop, node.chainSources.get? id ≠ none
  | _ => True

instance (node : Node) : DecidablePred node.StopsSources
  | .alter _ _ _ topo =>
      inferInstanceAs (Decidable (topo.taskToStop.Nodup ∧ ∀ id ∈ topo.taskToStop, node.chainSources.get? id ≠ none))
  | .stopComputation _ _ => isTrue trivial
  | .dataMsg _ _ => isTrue trivial
  | .unregisterChain _ => isTrue trivial
  | .expire _ => isTrue trivial
  | .removeSubscriber _ _ => isTrue trivial
  | .cleanupIncoming _ => isTrue trivial

/-- The tables hold no null entries, and no chain that is stopped is null. -/
def ChainsSafe (node : Node) : Prop :=
  node.sourcelessChain.NoNull ∧ node.chainSources.NoNull ∧
    (∀ env compID, (node.stopComputation env compID).isSome) ∧ node.stop.isSome

/-- The stopped tasks leave the table one by one. -/
theorem stopTasks_noNull {node : Node} {ids : List TaskID} (headed : node.chainSources.Headed)
    (noNull : node.chainSources.NoNull) (distinct : ids.Nodup)
    (listed : ∀ id ∈ ids, node.chainSources.get? id ≠ none) :
    (ids.foldl (stopTask env) node).chainSources.Headed ∧ (ids.foldl (stopTask env) node).chainSources.NoNull := by
  induction ids generalizing node with
  | nil => exact ⟨headed, noNull⟩
  | cons id rest ih =>
      obtain ⟨fresh, restDistinct⟩ := List.nodup_cons.mp distinct
      obtain ⟨entry, found⟩ := Option.ne_none_iff_exists'.mp (listed id List.mem_cons_self)
      obtain ⟨chain, rfl⟩ : ∃ chain, entry = some chain := by
        apply Option.ne_none_iff_exists'.mp
        rintro rfl
        exact noNull id found
      obtain ⟨members, starts⟩ := headed id chain found
      have stopped : (stopTask env node id).chainSources = node.chainSources.erase id := by
        rw [stopTask, found]
        dsimp only
        rw [unregisterChain_headed starts]
      apply ih
      · rw [stopped]
        exact headed.erase id
      · rw [stopped]
        exact noNull.erase id
      · exact restDistinct
      · intro other member
        rw [stopped, OrderedMap.get?_erase, if_neg (ne_of_mem_of_not_mem member fresh)]
        exact listed other (List.mem_cons_of_mem id member)

theorem foldlM_isSome {A B : Type} {f : B → A → Option B} {items : List A}
    (succeeds : ∀ item ∈ items, ∀ state, (f state item).isSome) (state : B) : (items.foldlM f state).isSome := by
  induction items generalizing state with
  | nil => rfl
  | cons item rest ih =>
      obtain ⟨next, stepped⟩ := Option.isSome_iff_exists.mp (succeeds item List.mem_cons_self state)
      rw [List.foldlM_cons, stepped]
      exact ih (fun other member => succeeds other (List.mem_cons_of_mem item member)) next

theorem NoNull_entry {chains : ChainTable} (noNull : chains.NoNull) {entry : TaskID × Option OperatorChain}
    (member : entry ∈ chains.entries) : ∃ chain, entry.2 = some chain := by
  apply Option.ne_none_iff_exists'.mp
  intro null
  exact noNull entry.1 (null ▸ chains.mem_entries_iff.mp member)

theorem purgeChains_isSome {chains : ChainTable} (noNull : chains.NoNull) (compID : ℤ) (stopped : List ℤ) :
    (purgeChains compID chains stopped).isSome := by
  apply foldlM_isSome
  intro entry member state
  obtain ⟨chain, here⟩ := NoNull_entry noNull member
  rw [here]
  split <;> rfl

/-- Tables without null entries can be stopped. -/
theorem chainsSafe_of_noNull {node : Node} (sourceless : node.sourcelessChain.NoNull)
    (sources : node.chainSources.NoNull) : node.ChainsSafe := by
  refine ⟨sourceless, sources, ?_, ?_⟩
  · intro env compID
    obtain ⟨waiting, purgedWaiting⟩ := Option.isSome_iff_exists.mp (purgeChains_isSome sourceless compID [])
    obtain ⟨stopped, purged⟩ := Option.isSome_iff_exists.mp (purgeChains_isSome sources compID waiting)
    rw [stopComputation, purgedWaiting]
    simp only [Option.bind_eq_bind, Option.bind_some, purged]
    rfl
  · apply foldlM_isSome
    intro entry member state
    obtain ⟨chain, here⟩ := NoNull_entry sources member
    rw [here]
    rfl

/-- Along every run that stops only sources, no table of chains holds a null entry. -/
theorem everyState_chainsSafe (events : List NodeEvent) (stops : system.EveryStep StopsSources new events) :
    system.EveryState ChainsSafe new events := by
  apply EventSystem.EveryStep.everyState
    (fun node => (node.sourcelessChain.Headed ∧ node.sourcelessChain.NoNull) ∧
      node.chainSources.Headed ∧ node.chainSources.NoNull) _ _ _ stops
  · intro node event next kept met stepped
    apply step_tables (fun chains => chains.Headed ∧ chains.NoNull) _ _ kept.1 kept.2 _ stepped
    · intro chains id kept
      exact ⟨kept.1.erase id, kept.2.erase id⟩
    · intro chains id chain rest kept starts
      exact ⟨kept.1.set starts, kept.2.set id chain⟩
    · intro env fuel request topo same other sameSources
      subst same
      apply stopTasks_noNull
      · exact sameSources ▸ kept.2.1
      · exact sameSources ▸ kept.2.2
      · exact met.1
      · exact sameSources ▸ met.2
  · intro node kept
    exact chainsSafe_of_noNull kept.1.2 kept.2.2
  · have noChains : ChainTable.Headed .empty ∧ ChainTable.NoNull .empty := ⟨nofun, nofun⟩
    exact ⟨noChains, noChains⟩

end Runs

/-- The loader knows a source and an operator that takes its data. -/
def experimentOperators : Surroundings where
  newOp name :=
    if name = "SendK" then some ⟨"N9jetstream5SendKE", true, false, false⟩
    else if name = "DummyReceiver" then some ⟨"N9jetstream13DummyReceiverE", false, false, false⟩
    else none
  configure _ _ _ := .ok ()
  longDescription _ op := if op.type.isSource then "" else "0 stored tuples."
  constructs _ _ _ := true
  debugString _ := ""
  diesWithChain chain id := some (ChainMember.operator id) ∈ chain.members
  diesWithCube _ _ := false

/-- This request starts one source. -/
def startSource : AlterTopo := ⟨1, [⟨toLex (1, 1), "SendK", none, []⟩], [], [], [], [], []⟩

/-- This request stops one task. -/
def stopOneTask (id : TaskID) : AlterTopo := ⟨1, [], [], [id], [], [], []⟩

/-- A source is started and stopped by its own task before the computation is stopped. -/
theorem everyState_chainsSafe_source :
    system.EveryStep StopsSources new
        [.alter experimentOperators 5 0 startSource, .alter experimentOperators 5 1 (stopOneTask (toLex (1, 1))),
          .stopComputation experimentOperators 1] ∧
      system.EveryState ChainsSafe new
        [.alter experimentOperators 5 0 startSource, .alter experimentOperators 5 1 (stopOneTask (toLex (1, 1))),
          .stopComputation experimentOperators 1] :=
  ⟨by decide, everyState_chainsSafe _ (by decide)⟩

/-- The stop of a task that heads no chain leaves a null entry. -/
theorem chainsSafe_unknown_task_fails : ¬∀ events, system.EveryState ChainsSafe new events := by
  intro every
  have run := every [.alter experimentOperators 5 0 (stopOneTask (toLex (1, 1)))]
  have stopped : ChainsSafe _ := run.2 _ rfl
  exact stopped.2.1 (toLex (1, 1)) rfl

end Node

end JetStream
