import JetStream.Control.PlacementComplete

namespace JetStream

open IsForest

namespace QueryPlanner

/-- The operator has an edge from this cube and from no other cube. -/
def SubscribesTo (alter : AlterTopo) (op : TaskMeta) (name : String) : Prop :=
  alter.Leads (.cube name) (.task op.id.task) ∧ ∀ other, alter.Leads (.cube other) (.task op.id.task) → other = name

/-- Every subscriber that is not pinned is in the same assignment as its cube. -/
def Colocated (alter : AlterTopo) (plan : OrderedMap NodeID WorkerAssignment) : Prop :=
  ∀ op ∈ alter.toStart, (PlanNode.operator op).pinnedTo = none → ∀ name, SubscribesTo alter op name →
    ∃ w a, plan.get? w = some a ∧ op ∈ a.operators ∧ ∃ cube ∈ a.cubes, cube.name = name

/-- A subscriber at the sink or the union needs its cube on the default worker. Any other subscriber follows the node
through which its leader reaches it, and that node has to be the cube or to settle with the cube. -/
def FollowsCubes (g : JSGraph TopoID) (alter : AlterTopo) (workerLocs : OrderedMap NodeID NodeID)
    (defaultWorkerID : NodeID) (union : TopoID) : Prop :=
  ∀ op ∈ alter.toStart, (PlanNode.operator op).pinnedTo = none → ∀ name, SubscribesTo alter op name →
    if .task op.id.task ∈ g.sinks ∨ .task op.id.task = union then
      Settles g alter workerLocs defaultWorkerID union (.cube name) defaultWorkerID
    else ∀ s p, g.leader (.task op.id.task) = some s → Reaches g.Edge s p → g.Edge p (.task op.id.task) →
      p = .cube name ∨ ∃ w, Settles g alter workerLocs defaultWorkerID union p w ∧
        Settles g alter workerLocs defaultWorkerID union (.cube name) w

section Colocation

variable {g : JSGraph TopoID} {alter : AlterTopo} {workerLocs : OrderedMap NodeID NodeID} {defaultWorkerID : NodeID}
  {union root : TopoID} {home : TopoID → NodeID}

/-- A complete placement puts two nodes into one assignment exactly when they have the same home. -/
theorem CompletePlacement.together_iff {plan : OrderedMap NodeID WorkerAssignment}
    (complete : CompletePlacement workerLocs alter plan home) {op : TaskMeta} (member : op ∈ alter.toStart)
    {name : String} (known : .cube name ∈ alter.ids) :
    (∃ w a, plan.get? w = some a ∧ op ∈ a.operators ∧ ∃ cube ∈ a.cubes, cube.name = name) ↔
      home (.task op.id.task) = home (.cube name) := by
  constructor
  · rintro ⟨w, a, found, operator, cube, inside, rfl⟩
    have first := (complete.operators w a found).mem_iff.mp operator
    have second := (complete.cubes w a found).mem_iff.mp inside
    simp only [List.mem_filter, decide_eq_true_eq] at first second
    rw [first.2, second.2]
  · intro same
    obtain ⟨cube, inside, rfl⟩ := AlterTopo.cube_mem_ids.mp known
    obtain ⟨a, found⟩ := Option.isSome_iff_exists.mp (complete.located _ known).2
    refine ⟨_, a, found, ?_, cube, ?_, rfl⟩
    · rw [(complete.operators _ a found).mem_iff, List.mem_filter]
      exact ⟨member, decide_eq_true same⟩
    · rw [(complete.cubes _ a found).mem_iff, List.mem_filter]
      exact ⟨inside, decide_eq_true rfl⟩

theorem siteWorker_of_unpinned (closed : alter.IsClosed) {node : PlanNode} (member : node ∈ alter.planNodes)
    (unpinned : node.pinnedTo = none) :
    siteWorker alter workerLocs defaultWorkerID (getOid node) = defaultWorkerID := by
  simp only [siteWorker, closed.object?_getOid member, Option.bind_some, unpinned]

variable (closed : alter.IsClosed) (tree : g.IsInTree root) (nodes : g.nodes = alter.ids) (leads : g.Edge = alter.Leads)
  (settles : ∀ id ∈ alter.ids, Settles g alter workerLocs defaultWorkerID union id (home id))

include closed tree nodes leads settles in
/-- The home of a subscriber is the home of its cube exactly under the condition on the request. -/
theorem home_eq_iff {op : TaskMeta} (member : op ∈ alter.toStart) (unpinned : (PlanNode.operator op).pinnedTo = none)
    {name : String} (subscribes : SubscribesTo alter op name) :
    home (.task op.id.task) = home (.cube name) ↔
      if .task op.id.task ∈ g.sinks ∨ .task op.id.task = union then
        Settles g alter workerLocs defaultWorkerID union (.cube name) defaultWorkerID
      else ∀ s p, g.leader (.task op.id.task) = some s → Reaches g.Edge s p → g.Edge p (.task op.id.task) →
        p = .cube name ∨ ∃ w, Settles g alter workerLocs defaultWorkerID union p w ∧
          Settles g alter workerLocs defaultWorkerID union (.cube name) w := by
  have node : PlanNode.operator op ∈ alter.planNodes := AlterTopo.mem_planNodes_operator.mpr member
  have edge : g.Edge (.cube name) (.task op.id.task) := leads ▸ subscribes.1
  have cubeNode : .cube name ∈ g.nodes := (g.inside _ edge).1
  have opNode : .task op.id.task ∈ g.nodes := (g.inside _ edge).2
  have settlesOp := settles _ (nodes ▸ opNode)
  have settlesCube := settles _ (nodes ▸ cubeNode)
  split_ifs with outer
  · have fixed : IsFixed g alter union (.task op.id.task) := Or.inr (Or.inr outer)
    have site : siteWorker alter workerLocs defaultWorkerID (.task op.id.task) = defaultWorkerID :=
      siteWorker_of_unpinned closed node unpinned
    have self : Settles g alter workerLocs defaultWorkerID union (.task op.id.task)
        (siteWorker alter workerLocs defaultWorkerID (.task op.id.task)) := settles_self tree opNode fixed
    rw [site] at self
    have default : home (.task op.id.task) = defaultWorkerID := settlesOp.eq tree self
    rw [default]
    constructor
    · intro same
      rwa [← same] at settlesCube
    · exact fun onDefault => onDefault.eq tree settlesCube
  · have free : ¬ IsFixed g alter union (.task op.id.task) := by
      rintro (⟨other, inside, same, pinned⟩ | source | inner)
      · rw [closed.getOid_inj inside node same, unpinned] at pinned
        cases pinned
      · exact JSGraph.not_transGen_source source (.single edge)
      · exact outer inner
    have follows {s p : TopoID} (leader : g.leader (.task op.id.task) = some s) (path : Reaches g.Edge s p)
        (last : g.Edge p (.task op.id.task)) : home (.task op.id.task) = home p := by
      have same := JSGraph.leader_eq_of_edge leader last path
      have settlesBefore := settles p (nodes ▸ (g.inside _ last).1)
      exact settlesOp.eq tree (settlesBefore.step tree last free (same.trans leader.symm))
    constructor
    · intro same s p leader path last
      right
      refine ⟨home p, settles p (nodes ▸ (g.inside _ last).1), ?_⟩
      rw [← follows leader path last, same]
      exact settlesCube
    · intro condition
      obtain ⟨s, leader⟩ := tree.exists_leader opNode
      rcases (JSGraph.reaches_of_leader leader).cases_tail with same | ⟨p, path, last⟩
      · have source : .task op.id.task ∈ g.sources := same ▸ List.mem_of_find?_eq_some leader
        exact absurd (.single edge) (JSGraph.not_transGen_source source)
      · rw [follows leader path last]
        rcases condition s p leader path last with rfl | ⟨w, before, cube⟩
        · rfl
        · rw [(settles p (nodes ▸ (g.inside _ last).1)).eq tree before, settlesCube.eq tree cube]

end Colocation

/-- In every accepted in-tree, the planner returns a plan with all subscribers beside their cubes if and only if it can
look up every edge and every policy, and the subscribers follow their cubes. -/
theorem getAssignments_colocated_iff (order : HashOrder) (fuel : ℕ) (workerLocs : OrderedMap NodeID NodeID)
    (alter : AlterTopo) (compID : ℕ) (root : TopoID) (accepted : validateRawTopo alter = "")
    (tree : alter.FormsInTree root) (positive : ∀ op ∈ alter.toStart, 0 < op.id.task)
    (internal : ∀ edge ∈ alter.edges, edge.destAddr = none) (workers : workerLocs.entries ≠ [])
    (enough : alter.ids.length < fuel) :
    ∃ g union defaultWorkerID, JSGraph.init order (overwriteCompIds alter compID) = .ok g ∧ g.IsUnionPoint union ∧
      (order.workers (workerLocs.entries.map Prod.fst)).head? = some defaultWorkerID ∧
      ((∃ plan, getAssignments order fuel workerLocs alter compID = .assignments plan ∧
          Colocated (overwriteCompIds alter compID) plan) ↔
        (∀ edge ∈ alter.edges, edge.src = none → edge.dest.isSome) ∧
          (∀ policy ∈ alter.congestPolicies, LeadsPolicy alter policy) ∧
          FollowsCubes g (overwriteCompIds alter compID) workerLocs defaultWorkerID union) := by
  have closed := (isClosed_of_valid accepted positive internal).overwriteCompIds compID
  have subscribed_iff : (∀ edge ∈ (overwriteCompIds alter compID).edges, edge.src = none → edge.dest.isSome) ↔
      ∀ edge ∈ alter.edges, edge.src = none → edge.dest.isSome := List.forall_mem_map
  obtain ⟨g, union, defaultWorkerID, home, built, nodes, leads, inTree, point, first, settles, completes, planned⟩ :=
    exists_home closed (tree.overwriteCompIds compID) workers order (by rwa [AlterTopo.ids_overwriteCompIds])
  refine ⟨g, union, defaultWorkerID, built, point, first, ?_⟩
  rw [← leadsPolicy_overwriteCompIds alter compID, ← subscribed_iff]
  have together {plan : OrderedMap NodeID WorkerAssignment}
      (complete : CompletePlacement workerLocs (overwriteCompIds alter compID) plan home) :
      Colocated (overwriteCompIds alter compID) plan ↔
        FollowsCubes g (overwriteCompIds alter compID) workerLocs defaultWorkerID union := by
    refine forall₅_congr fun op member unpinned name subscribes => ?_
    have known : .cube name ∈ (overwriteCompIds alter compID).ids := by
      obtain ⟨edge, listed, source, -⟩ := subscribes.1
      exact source ▸ (closed.ends edge listed).1
    rw [complete.together_iff member known]
    exact home_eq_iff closed inTree nodes leads settles member unpinned subscribes
  constructor
  · rintro ⟨plan, result, colocated⟩
    have found := getAssignments_eq_iff.mp result
    obtain ⟨subscribed, led⟩ := planned plan found
    obtain ⟨other, same, complete⟩ := completes subscribed led
    obtain rfl : plan = other := Except.ok.inj (found.symm.trans same)
    exact ⟨subscribed, led, (together complete).mp colocated⟩
  · rintro ⟨subscribed, led, follow⟩
    obtain ⟨plan, found, complete⟩ := completes subscribed led
    exact ⟨plan, getAssignments_eq_iff.mpr found, (together complete).mpr follow⟩

/-- The condition decides about this request, which meets all assumptions. -/
theorem getAssignments_colocated_subscriberLine :
    ∃ g union defaultWorkerID, JSGraph.init insertionOrder (overwriteCompIds subscriberLine 7) = .ok g ∧
      g.IsUnionPoint union ∧
      (insertionOrder.workers (twoWorkers.entries.map Prod.fst)).head? = some defaultWorkerID ∧
      ((∃ plan, getAssignments insertionOrder 4 twoWorkers subscriberLine 7 = .assignments plan ∧
          Colocated (overwriteCompIds subscriberLine 7) plan) ↔
        (∀ edge ∈ subscriberLine.edges, edge.src = none → edge.dest.isSome) ∧
          (∀ policy ∈ subscriberLine.congestPolicies, LeadsPolicy subscriberLine policy) ∧
          FollowsCubes g (overwriteCompIds subscriberLine 7) twoWorkers defaultWorkerID union) :=
  getAssignments_colocated_iff insertionOrder 4 twoWorkers subscriberLine 7 (.task 2) (by decide)
    subscriberLine_formsInTree (by decide) (by decide) (by decide) (by decide)

/-- The subscriber at the sink is placed on the default worker, and its cube is pinned to the other worker. -/
theorem getAssignments_separates_subscriber : validateRawTopo subscriberLine = "" ∧
    subscriberLine.FormsInTree (.task 2) ∧ (∀ op ∈ subscriberLine.toStart, 0 < op.id.task) ∧
    (∀ edge ∈ subscriberLine.edges, edge.destAddr = none) ∧ twoWorkers.entries ≠ [] ∧ subscriberLine.ids.length < 4 ∧
    ∃ plan, getAssignments insertionOrder 4 twoWorkers subscriberLine 7 = .assignments plan ∧
      ¬ Colocated (overwriteCompIds subscriberLine 7) plan := by
  refine ⟨by decide, subscriberLine_formsInTree, by decide, by decide, by decide, by decide, _, rfl, ?_⟩
  intro colocated
  have only : ∀ other, (overwriteCompIds subscriberLine 7).Leads (.cube other) (.task 2) → other = "results" := by
    rintro other ⟨edge, member, source, dest⟩
    have checked : ∀ edge ∈ (overwriteCompIds subscriberLine 7).edges,
        edgeDest edge = .task 2 → edgeSource edge = .cube "results" := by decide
    exact TopoID.cube.inj (source.symm.trans (checked edge member dest))
  obtain ⟨w, a, found, operator, cube, inside, -⟩ := colocated ⟨toLex (7, 2), "TimeSubscriber", none, []⟩ (by decide)
    rfl "results" ⟨⟨⟨7, none, some "results", some 2, none, none⟩, by decide, rfl, rfl⟩, only⟩
  have entry := (OrderedMap.mem_entries_iff _).mpr found
  rcases List.mem_cons.mp entry with first | later
  · obtain ⟨-, rfl⟩ := Prod.mk.inj first
    exact absurd inside List.not_mem_nil
  · obtain ⟨-, rfl⟩ := Prod.mk.inj (List.mem_singleton.mp later)
    exact absurd operator List.not_mem_nil

end QueryPlanner

end JetStream
