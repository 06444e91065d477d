import JetStream.Control.PlanPasses

namespace JetStream

namespace AlterTopo

open IsForest QueryPlanner

/-- An edge inside the request leads from one node to the other. -/
def Flows (alter : AlterTopo) (p n : TopoID) : Prop := (p, n) ∈ alter.internalEnds

/-- No cycle leads to the node. -/
def ClearTo (alter : AlterTopo) (n : TopoID) : Prop :=
  ∀ x, Reaches alter.Flows x n → ¬ Relation.TransGen alter.Flows x x

/-- No cycle can be reached from the node. -/
def ClearFrom (alter : AlterTopo) (n : TopoID) : Prop :=
  ∀ x, Reaches alter.Flows n x → ¬ Relation.TransGen alter.Flows x x

/-- Every entrance leads to the node, or there is only one entrance. -/
def Meets (alter : AlterTopo) (root : TopoID) : Prop :=
  (∃ s, alter.entrances = [s]) ∨ ∀ s ∈ alter.entrances, Reaches alter.Flows s root

/-- The node is pinned, it is an exit, or an entrance leads to it. -/
def Placed (alter : AlterTopo) (id : TopoID) : Prop :=
  (∃ node ∈ alter.planNodes, getOid node = id ∧ node.pinnedTo.isSome) ∨ id ∈ alter.exits ∨
    ∃ s ∈ alter.entrances, Reaches alter.Flows s id

/-- No entrance leads to a cycle, the operator that holds an edge and the destination of an edge inside the request are
placed, and every policy starts with an operator that is placed. -/
structure Placeable (alter : AlterTopo) : Prop where
  acyclic : ∀ s ∈ alter.entrances, alter.ClearFrom s
  held : ∀ edge ∈ alter.edges, alter.Placed (.task (edge.src.getD (edge.dest.getD 0)))
  joined : ∀ edge ∈ alter.edges, edge.destAddr = none → alter.Placed (edgeDest edge)
  policies : ∀ policy ∈ alter.congestPolicies, PolicyFits alter.Placed policy

/-- No cycle leads to an exit up to the first one where all entrances meet, and the request is placeable when they meet
at some exit. -/
structure Plannable (alter : AlterTopo) (order : HashOrder) : Prop where
  clear : ∀ before root after, order.ids alter.exits = before ++ root :: after → (∀ r ∈ before, ¬ alter.Meets r) →
    alter.ClearTo root
  placeable : (∃ root ∈ alter.exits, alter.Meets root) → alter.Placeable

end AlterTopo

/-- The failure comes from the graph. -/
def PlanError.IsGraph (error : PlanError) : Prop := ∃ reason, error = .graph reason

namespace QueryPlanner

open IsForest

/-- The graph has the nodes and the inner edges of the request. -/
structure IsGraphOf (order : HashOrder) (alter : AlterTopo) (g : JSGraph TopoID) : Prop where
  nodes : g.nodes = alter.ids
  edges : g.edges = alter.internalEnds
  sources : g.sources = order.ids alter.entrances
  sinks : g.sinks = order.ids alter.exits

namespace IsGraphOf

variable {order : HashOrder} {alter : AlterTopo} {g : JSGraph TopoID} (graph : IsGraphOf order alter g)

include graph

theorem edge_eq : g.Edge = alter.Flows := by
  funext p n
  rw [JSGraph.Edge, graph.edges]
  rfl

theorem mem_sources {n : TopoID} : n ∈ g.sources ↔ n ∈ alter.entrances := by
  rw [graph.sources, (order.ids_perm _).mem_iff]

theorem mem_sinks {n : TopoID} : n ∈ g.sinks ↔ n ∈ alter.exits := by
  rw [graph.sinks, (order.ids_perm _).mem_iff]

theorem clear_iff {n : TopoID} : g.Clear n ↔ alter.ClearTo n := by
  rw [JSGraph.Clear, graph.edge_eq, AlterTopo.ClearTo]

/-- Every way on from a node ends exactly when no cycle can be reached from it. -/
theorem ends_iff {n : TopoID} : Worklist.Ends g.adjList n ↔ alter.ClearFrom n := by
  rw [AlterTopo.ClearFrom, ← graph.edge_eq, ← step_adjList]
  constructor
  · intro ends x path
    exact (ends.reaches path).not_cycle
  · exact Worklist.ends_of_not_cycle g.nodes fun p m step => (g.inside _ (JSGraph.mem_adjList.mp step)).2

theorem joins_iff {n : TopoID} : g.Joins n ↔ alter.Meets n := by
  have single (s : TopoID) : g.sources = [s] ↔ alter.entrances = [s] := by
    have listed := order.ids_perm alter.entrances
    rw [graph.sources]
    constructor
    · intro only
      rw [only] at listed
      exact (List.singleton_perm.mp listed).symm
    · intro only
      rw [only] at listed ⊢
      exact List.perm_singleton.mp listed
  simp only [JSGraph.Joins, AlterTopo.Meets, single, graph.mem_sources, graph.edge_eq]

/-- The passes record exactly the nodes that are pinned, are exits or are reached from an entrance. -/
theorem placed_iff {workerLocs : OrderedMap NodeID NodeID} {defaultWorkerID : NodeID} {union : TopoID}
    (fed : ∃ s ∈ g.sources, Reaches g.Edge s union) (id : TopoID) :
    (((False ∨ ∃ node ∈ alter.planNodes, getOid node = id ∧ (pinWorker g workerLocs defaultWorkerID node).isSome) ∨
      Reaches g.Edge union id) ∨ ∃ s ∈ g.sources, Reaches g.Edge s id) ↔ alter.Placed id := by
  have pins (node : PlanNode) : (pinWorker g workerLocs defaultWorkerID node).isSome ↔
      node.pinnedTo.isSome ∨ getOid node ∈ alter.entrances ∨ getOid node ∈ alter.exits := by
    rw [pinWorker, ← graph.mem_sources, ← graph.mem_sinks]
    cases node.pinnedTo with
    | some site => simp
    | none => by_cases outer : getOid node ∈ g.sources ∨ getOid node ∈ g.sinks <;> simp [outer]
  simp only [false_or, pins, AlterTopo.Placed, graph.mem_sources, graph.edge_eq] at fed ⊢
  constructor
  · rintro ((⟨node, member, rfl, pinned | source | sink⟩ | path) | path)
    · exact Or.inl ⟨node, member, rfl, pinned⟩
    · exact Or.inr (Or.inr ⟨_, source, .refl⟩)
    · exact Or.inr (Or.inl sink)
    · obtain ⟨s, source, up⟩ := fed
      exact Or.inr (Or.inr ⟨s, source, up.trans path⟩)
    · exact Or.inr (Or.inr path)
  · rintro (⟨node, member, same, pinned⟩ | sink | path)
    · exact Or.inl (Or.inl ⟨node, member, same, Or.inl pinned⟩)
    · obtain ⟨node, member, rfl⟩ := AlterTopo.mem_ids.mp (List.mem_filter.mp sink).1
      exact Or.inl (Or.inl ⟨node, member, rfl, Or.inr (Or.inr sink)⟩)
    · exact Or.inr path

end IsGraphOf

section Failures

open Except

theorem avoids_orKeyError {A : Type} (value : Option A) : Avoids PlanError.IsGraph (orKeyError value) := by
  cases value with
  | none => exact avoids_error nofun
  | some value => exact avoids_ok value

theorem avoids_change (state : PlacementState) (w : NodeID) (f : WorkerAssignment → WorkerAssignment) :
    Avoids PlanError.IsGraph (state.change w f) :=
  (avoids_orKeyError _).map _

theorem avoids_placeNodes (alter : AlterTopo) (path : List TopoID) (w : NodeID) (state : PlacementState) :
    Avoids PlanError.IsGraph (placeNodes alter path w state) := by
  induction path generalizing w state with
  | nil => exact avoids_ok _
  | cons id rest ih =>
      unfold placeNodes
      split
      · exact (avoids_orKeyError _).bind fun node => ((avoids_change state w _).map _).bind fun next => ih w next
      · exact ih _ state

theorem avoids_placeDescendants (fuel : ℕ) (alter : AlterTopo) (adjList : TopoID → List TopoID) (start : TopoID)
    (stop : Option TopoID) (w : NodeID) (state : PlacementState) :
    Avoids PlanError.IsGraph (placeDescendants fuel alter adjList start stop w state) := by
  unfold placeDescendants
  split
  · exact avoids_error nofun
  · exact (avoids_placeNodes alter _ w state).map _

theorem avoids_placeSources (fuel : ℕ) (alter : AlterTopo) (union : TopoID) (rest : List TopoID)
    (adjList : TopoID → List TopoID) (state : PlacementState) :
    Avoids PlanError.IsGraph (placeSources fuel alter union rest adjList state) := by
  induction rest generalizing adjList state with
  | nil => exact avoids_ok _
  | cons source rest ih =>
      unfold placeSources
      split
      · exact avoids_error nofun
      · exact (avoids_placeDescendants fuel alter adjList source _ _ state).bind fun next => ih next.2 next.1

theorem avoids_placeEdges (workerLocs : OrderedMap NodeID NodeID) (edges : List Edge) (state : PlacementState) :
    Avoids PlanError.IsGraph (placeEdges workerLocs edges state) := by
  induction edges generalizing state with
  | nil => exact avoids_ok _
  | cons edge rest ih =>
      refine Avoids.bind ((avoids_orKeyError _).bind fun w => Avoids.bind ?_ fun whole => avoids_change state w _) ih
      split_ifs
      · refine (avoids_orKeyError _).bind fun v => ?_
        unfold fillAddress
        split_ifs
        · exact (avoids_orKeyError _).map _
        · exact avoids_ok _
      · exact avoids_ok _
      · exact avoids_error nofun

theorem avoids_placePolicies (policies : List (List TaskID)) (state : PlacementState) :
    Avoids PlanError.IsGraph (placePolicies policies state) := by
  induction policies generalizing state with
  | nil => exact avoids_ok _
  | cons policy rest ih =>
      cases policy with
      | nil => exact avoids_error nofun
      | cons o others =>
          exact (avoids_orKeyError _).bind fun w => (avoids_change state w _).bind fun next => ih next

end Failures

section Passes

variable {order : HashOrder} {workerLocs : OrderedMap NodeID NodeID} {alter : AlterTopo} {g : JSGraph TopoID}
  {defaultWorkerID : NodeID} {union : TopoID} {state : PlacementState}

/-- These are the passes from the union on. -/
def placeFrom (g : JSGraph TopoID) (fuel : ℕ) (workerLocs : OrderedMap NodeID NodeID) (defaultWorkerID : NodeID)
    (alter : AlterTopo) (state : PlacementState) (union : TopoID) :
    Except PlanError (OrderedMap NodeID WorkerAssignment) :=
  (placeUnion g fuel defaultWorkerID alter union state).bind fun (state, adjList) =>
    (placeSources fuel alter union g.sources adjList state).bind fun state =>
      (placeEdges workerLocs alter.edges state).bind fun state =>
        (placePolicies alter.congestPolicies state).map PlacementState.assignments

theorem avoids_placeFrom (fuel : ℕ) : Except.Avoids PlanError.IsGraph
    (placeFrom g fuel workerLocs defaultWorkerID alter state union) :=
  (avoids_placeDescendants fuel alter _ union none _ _).bind fun mid =>
    (avoids_placeSources fuel alter union g.sources mid.2 mid.1).bind fun last =>
      (avoids_placeEdges workerLocs alter.edges last).bind fun final =>
        (avoids_placePolicies alter.congestPolicies final).map _

theorem placeFrom_mono {fuel more : ℕ} {plan : OrderedMap NodeID WorkerAssignment}
    (ran : placeFrom g fuel workerLocs defaultWorkerID alter state union = .ok plan) (enough : fuel ≤ more) :
    placeFrom g more workerLocs defaultWorkerID alter state union = .ok plan := by
  obtain ⟨⟨mid, adjList⟩, second, ran⟩ := Except.exists_of_bind_eq_ok ran
  obtain ⟨last, third, ran⟩ := Except.exists_of_bind_eq_ok ran
  have laterSecond : placeUnion g more defaultWorkerID alter union state = .ok (mid, adjList) :=
    placeDescendants_mono second enough
  simp only [placeFrom, laterSecond, Except.bind, placeSources_mono third enough]
  exact ran

theorem emptied_update (g : JSGraph TopoID) (union : TopoID) :
    Emptied g union [] (Function.update g.adjList union []) :=
  ⟨Function.update_self _ _ _, fun _ other _ => Function.update_of_ne other _ _⟩

theorem within_adjList_update (g : JSGraph TopoID) (union : TopoID) :
    ∀ n m, m ∈ Function.update g.adjList union [] n → g.Edge n m :=
  within_update (fun _ _ listed => JSGraph.mem_adjList.mp listed) union

variable (graph : IsGraphOf order alter g) (clear : g.Clear union) (node : union ∈ g.nodes)
  (located : (workerLocs.get? defaultWorkerID).isSome)
  (pinned : Recorded workerLocs (fun id => False ∨ ∃ node ∈ alter.planNodes, getOid node = id ∧
    (pinWorker g workerLocs defaultWorkerID node).isSome) state)

include graph clear node located pinned in
/-- When every way on from a source ends, the passes up to the sources record the nodes that are placed. -/
theorem exists_recorded (ends : ∀ s ∈ g.sources, Worklist.Ends g.adjList s) :
    ∃ bound mid adjList last, (∀ fuel ≥ bound, placeUnion g fuel defaultWorkerID alter union state = .ok (mid, adjList) ∧
      placeSources fuel alter union g.sources adjList mid = .ok last) ∧ Recorded workerLocs alter.Placed last := by
  obtain ⟨s, source, path⟩ := clear.exists_source node
  have unionEnds : Worklist.Ends g.adjList union := by
    rw [← step_adjList] at path
    exact (ends s source).reaches path
  obtain ⟨bound, mid, second, recordedMid⟩ := pinned.placeUnion graph.nodes node (clear union .refl) unionEnds located
  obtain ⟨later, last, third, recordedLast⟩ := Recorded.placeSources graph.nodes unionEnds ends
    (List.nil_append g.sources).symm (emptied_update g union) (within_adjList_update g union) recordedMid (by
      intro s source
      obtain ⟨node, member, rfl⟩ := AlterTopo.mem_ids.mp (graph.nodes ▸ ((g.mem_sources s).mp source).1)
      refine Or.inl (Or.inr ⟨node, member, rfl, ?_⟩)
      rw [pinWorker]
      split
      · rfl
      · rw [if_pos (Or.inl source)]
        rfl) fun x up => Or.inr up
  refine ⟨max bound later, mid, Function.update g.adjList union [], last, fun fuel enough => ?_, recordedLast.congr ?_⟩
  · exact ⟨second fuel (le_of_max_le_left enough), third fuel (le_of_max_le_right enough)⟩
  · exact fun id => graph.placed_iff (clear.exists_source node) id

/-- In an accepted request an edge has an address or a destination. -/
theorem edgeFits_iff (accepted : alter.IsAccepted) {edge : Edge} (member : edge ∈ alter.edges) :
    EdgeFits alter.Placed edge ↔ alter.Placed (.task (edge.src.getD (edge.dest.getD 0))) ∧
      (edge.destAddr = none → alter.Placed (edgeDest edge)) := by
  have inside : edge.dest.isSome ∨ edge.destCube.isSome ↔ edge.destAddr = none := by
    constructor
    · intro joined
      by_contra addressed
      obtain ⟨noDest, noCube⟩ := accepted.external edge member addressed
      simp [noDest, noCube] at joined
    · intro internal
      have read := (accepted.edge_read member internal).1
      cases dest : edge.dest with
      | some task => exact Or.inl rfl
      | none =>
          cases cube : edge.destCube with
          | some name => exact Or.inr rfl
          | none => simp [dest, cube] at read
  rw [EdgeFits, inside, ← or_assoc, inside]
  refine and_congr_right fun _ => and_iff_left ?_
  cases edge.destAddr with
  | none => exact Or.inl rfl
  | some address => exact Or.inr rfl

include graph clear node located pinned in
/-- The passes from the union on give a plan exactly when the request is placeable. -/
theorem exists_placeFrom_iff (accepted : alter.IsAccepted) :
    (∃ fuel plan, placeFrom g fuel workerLocs defaultWorkerID alter state union = .ok plan) ↔ alter.Placeable := by
  constructor
  · rintro ⟨fuel, plan, ran⟩
    have ends : ∀ s ∈ g.sources, Worklist.Ends g.adjList s := by
      obtain ⟨⟨mid, adjList⟩, second, ran⟩ := Except.exists_of_bind_eq_ok ran
      obtain ⟨last, third, -⟩ := Except.exists_of_bind_eq_ok ran
      obtain ⟨unionEnds, rfl⟩ := ends_of_placeUnion (clear union .refl) second
      exact ends_of_placeSources unionEnds (List.nil_append g.sources).symm (emptied_update g union)
        (within_adjList_update g union) third
    obtain ⟨bound, mid, adjList, last, passes, recorded⟩ := exists_recorded graph clear node located pinned ends
    obtain ⟨second, third⟩ := passes (max fuel bound) (le_max_right _ _)
    have later := placeFrom_mono ran (le_max_left fuel bound)
    simp only [placeFrom, second, Except.bind, third] at later
    obtain ⟨final, fourth, fifth⟩ := Except.exists_of_bind_eq_ok later
    have fits := recorded.fits_of_placeEdges fourth
    obtain ⟨same, ranSame, recordedFinal⟩ := recorded.placeEdges fits
    obtain rfl := Except.ok.inj (fourth.symm.trans ranSame)
    refine ⟨fun s source => ?_, fun edge member => ?_, fun edge member => ?_, ?_⟩
    · exact graph.ends_iff.mp (ends s (graph.mem_sources.mpr source))
    · exact ((edgeFits_iff accepted member).mp (fits edge member)).1
    · exact ((edgeFits_iff accepted member).mp (fits edge member)).2
    · cases policies : placePolicies alter.congestPolicies final with
      | error error =>
          rw [policies] at fifth
          cases fifth
      | ok done => exact (recordedFinal.placePolicies_iff _).mp ⟨done, policies⟩
  · intro placeable
    obtain ⟨bound, mid, adjList, last, passes, recorded⟩ := exists_recorded graph clear node located pinned
      fun s source => graph.ends_iff.mpr (placeable.acyclic s (graph.mem_sources.mp source))
    obtain ⟨second, third⟩ := passes bound le_rfl
    obtain ⟨final, fourth, recordedFinal⟩ := recorded.placeEdges fun edge member =>
      (edgeFits_iff accepted member).mpr ⟨placeable.held edge member, placeable.joined edge member⟩
    obtain ⟨done, fifth⟩ := (recordedFinal.placePolicies_iff _).mpr placeable.policies
    refine ⟨bound, done.assignments, ?_⟩
    simp only [placeFrom, second, Except.bind, third, fourth, fifth, Except.map]

end Passes

section Outcomes

variable {order : HashOrder} {workerLocs : OrderedMap NodeID NodeID} {alter : AlterTopo} {g : JSGraph TopoID}

/-- The graph is searched for the union after the first pass, and the other passes follow. -/
theorem exists_placeTopo_eq_bind (built : JSGraph.init order alter = .ok g) (workers : workerLocs.entries ≠ []) :
    ∃ defaultWorkerID state, (workerLocs.get? defaultWorkerID).isSome ∧
      Recorded workerLocs (fun id => False ∨ ∃ node ∈ alter.planNodes, getOid node = id ∧
        (pinWorker g workerLocs defaultWorkerID node).isSome) state ∧
      ∀ fuel, placeTopo order fuel workerLocs alter = ((g.getSourcesLca order.pops).mapError .graph).bind
        (placeFrom g fuel workerLocs defaultWorkerID alter state) := by
  obtain ⟨defaultWorkerID, first⟩ := exists_default workers order
  have located := default_located first
  obtain ⟨state, run, recorded⟩ := (recorded_empty workerLocs).pinNodes located alter.planNodes
  refine ⟨defaultWorkerID, state, located, recorded, fun fuel => ?_⟩
  rw [placeTopo, built]
  simp only [Except.mapError, Except.bind, first, run]
  rfl

/-- The root of another split of the list is not behind the first root that fits. -/
theorem mem_or_eq_of_split {A : Type} {P : A → Prop} {before before' after after' : List A} {root root' : A}
    (split : before ++ root :: after = before' ++ root' :: after') (fits : P root) (none : ∀ r ∈ before', ¬ P r) :
    root' ∈ before ∨ root' = root := by
  rcases List.append_eq_append_iff.mp split with ⟨middle, rfl, same⟩ | ⟨middle, rfl, same⟩
  · cases middle with
    | nil => exact Or.inr (List.cons.inj same).1.symm
    | cons r middle =>
        obtain rfl := (List.cons.inj same).1
        exact absurd fits (none root (by simp))
  · cases middle with
    | nil => exact Or.inr (List.cons.inj same).1
    | cons r middle => exact Or.inl (by simp [(List.cons.inj same).1])

/-- The passes give a plan or the graph rejects the request. -/
def PlansOrRejects (order : HashOrder) (workerLocs : OrderedMap NodeID NodeID) (alter : AlterTopo) : Prop :=
  ∃ fuel, (∃ plan, placeTopo order fuel workerLocs alter = .ok plan) ∨
    ∃ message, placeTopo order fuel workerLocs alter = .error (.graph (.schemaError message))

section Found

variable (graph : IsGraphOf order alter g) {defaultWorkerID : NodeID} {state : PlacementState}
  (equation : ∀ fuel, placeTopo order fuel workerLocs alter = ((g.getSourcesLca order.pops).mapError .graph).bind
    (placeFrom g fuel workerLocs defaultWorkerID alter state))

include graph equation in
/-- When the union is found, the passes after it decide. -/
theorem plansOrRejects_of_found {union : TopoID} (found : g.getSourcesLca order.pops = .ok union)
    (clear : g.Clear union) (node : union ∈ g.nodes) (located : (workerLocs.get? defaultWorkerID).isSome)
    (pinned : Recorded workerLocs (fun id => False ∨ ∃ node ∈ alter.planNodes, getOid node = id ∧
      (pinWorker g workerLocs defaultWorkerID node).isSome) state) (accepted : alter.IsAccepted) :
    PlansOrRejects order workerLocs alter ↔ alter.Placeable := by
  rw [← exists_placeFrom_iff graph clear node located pinned accepted]
  have rest (fuel : ℕ) : placeTopo order fuel workerLocs alter =
      placeFrom g fuel workerLocs defaultWorkerID alter state union := by
    rw [equation, found]
    rfl
  constructor
  · rintro ⟨fuel, ⟨plan, planned⟩ | ⟨message, rejected⟩⟩
    · exact ⟨fuel, plan, (rest fuel).symm.trans planned⟩
    · rw [rest] at rejected
      exact absurd rejected (avoids_placeFrom fuel _ ⟨_, rfl⟩)
  · rintro ⟨fuel, plan, planned⟩
    exact ⟨fuel, Or.inl ⟨plan, (rest fuel).trans planned⟩⟩

include graph in
/-- Up to the first root where all entrances meet, the roots of the search and the exits are the same. -/
theorem plannable_iff_placeable {before after : List TopoID} {root : TopoID} (split : g.sinks = before ++ root :: after)
    (clears : ∀ r ∈ before, g.Clear r ∧ ¬ g.Joins r) (clear : g.Clear root) (joins : g.Joins root) :
    alter.Plannable order ↔ alter.Placeable := by
  have exit : root ∈ alter.exits := graph.mem_sinks.mp (by simp [split])
  constructor
  · intro plannable
    exact plannable.placeable ⟨root, exit, graph.joins_iff.mp joins⟩
  · intro placeable
    refine ⟨fun before' root' after' split' none => ?_, fun _ => placeable⟩
    rw [← graph.sinks, split] at split'
    rw [← graph.clear_iff]
    rcases mem_or_eq_of_split split' (graph.joins_iff.mp joins) none with earlier | rfl
    · exact (clears root' earlier).1
    · exact clear

end Found

/-- The planner gives a plan or rejects an accepted request exactly when the request is plannable. -/
theorem plansOrRejects_iff (accepted : alter.IsAccepted) (workers : workerLocs.entries ≠ []) :
    PlansOrRejects order workerLocs alter ↔ (alter.entrances ≠ [] → alter.Plannable order) := by
  rcases accepted.init order with ⟨hasEntrance, -, g, built, nodes, edges, sources, sinks⟩ | ⟨none, message, rejected⟩
  · have graph : IsGraphOf order alter g := ⟨nodes, edges, sources, sinks⟩
    obtain ⟨defaultWorkerID, state, located, pinned, equation⟩ := exists_placeTopo_eq_bind built workers
    rw [forall_prop_of_true hasEntrance]
    rcases JSGraph.tryRoots_cases order.pops g.sinks (fun r sink => ((g.mem_sinks r).mp sink).1) 0 with
      ⟨before, root, after, split, clears, clear, joins, union, found, upstream⟩ |
      ⟨clears, message, rejected⟩ | ⟨before, root, after, split, clears, cyclic, error, failed, other⟩
    · have rootNode : root ∈ g.nodes := ((g.mem_sinks root).mp (by simp [split])).1
      have unionClear : g.Clear union := upstream.elim JSGraph.clear_source clear.upstream
      have unionNode : union ∈ g.nodes := upstream.elim (fun source => ((g.mem_sources union).mp source).1)
        (JSGraph.mem_nodes_of_reaches rootNode)
      rw [plansOrRejects_of_found graph equation found unionClear unionNode located pinned accepted,
        plannable_iff_placeable graph split clears clear joins]
    · refine iff_of_true ⟨0, Or.inr ⟨message, ?_⟩⟩ ⟨fun before root after split _ => ?_, ?_⟩
      · rw [equation, JSGraph.getSourcesLca, rejected]
        rfl
      · rw [← graph.sinks] at split
        exact graph.clear_iff.mp (clears root (by simp [split])).1
      · rintro ⟨root, exit, meets⟩
        exact absurd (graph.joins_iff.mpr meets) (clears root (graph.mem_sinks.mpr exit)).2
    · refine iff_of_false ?_ fun plannable => cyclic (graph.clear_iff.mpr ?_)
      · have raised (fuel : ℕ) : placeTopo order fuel workerLocs alter = .error (.graph error) := by
          rw [equation, JSGraph.getSourcesLca, failed]
          rfl
        rintro ⟨fuel, ⟨plan, planned⟩ | ⟨message, rejected⟩⟩
        · rw [raised] at planned
          cases planned
        · rw [raised] at rejected
          exact other message (PlanError.graph.inj (Except.error.inj rejected))
      · refine plannable.clear before root after (by rw [← graph.sinks, split]) fun r earlier meets => ?_
        exact (clears r earlier).2 (graph.joins_iff.mpr meets)
  · refine iff_of_true ⟨0, Or.inr ⟨message, ?_⟩⟩ fun hasEntrance => ⟨fun before root after split _ => ?_, ?_⟩
    · rw [placeTopo, rejected]
      rfl
    · have listed := order.ids_perm alter.exits
      rw [none.resolve_left hasEntrance, List.perm_nil] at listed
      rw [none.resolve_left hasEntrance, listed] at split
      simp at split
    · rintro ⟨root, exit, -⟩
      rw [none.resolve_left hasEntrance] at exit
      exact absurd exit List.not_mem_nil

end Outcomes

end QueryPlanner

namespace AlterTopo

open QueryPlanner

variable (alter : AlterTopo) (compID : ℤ)

theorem internalEnds_overwriteCompIds : (overwriteCompIds alter compID).internalEnds = alter.internalEnds := by
  simp only [internalEnds, overwriteCompIds, List.filter_map, List.map_map]
  rfl

theorem flows_overwriteCompIds : (overwriteCompIds alter compID).Flows = alter.Flows := by
  funext p n
  rw [Flows, Flows, internalEnds_overwriteCompIds]

theorem entrances_overwriteCompIds : (overwriteCompIds alter compID).entrances = alter.entrances := by
  rw [entrances, entrances, internalEnds_overwriteCompIds, ids_overwriteCompIds]

theorem exits_overwriteCompIds : (overwriteCompIds alter compID).exits = alter.exits := by
  rw [exits, exits, internalEnds_overwriteCompIds, ids_overwriteCompIds]

theorem placed_overwriteCompIds : (overwriteCompIds alter compID).Placed = alter.Placed := by
  funext id
  rw [Placed, Placed, exits_overwriteCompIds, entrances_overwriteCompIds, flows_overwriteCompIds]
  simp [planNodes, overwriteCompIds, or_and_right, exists_or, getOid, PlanNode.pinnedTo, PlanNode.site, TaskID.task]

theorem policyFits_overwriteCompIds (placed : TopoID → Prop) :
    (∀ policy ∈ (overwriteCompIds alter compID).congestPolicies, PolicyFits placed policy) ↔
      ∀ policy ∈ alter.congestPolicies, PolicyFits placed policy := by
  refine List.forall_mem_map.trans (forall₂_congr fun policy _ => ?_)
  cases policy with
  | nil => simp [PolicyFits]
  | cons o others => simp [PolicyFits, TaskID.task]

/-- The new identifier does not change what the planner needs. -/
theorem plannable_overwriteCompIds (order : HashOrder) :
    (overwriteCompIds alter compID).Plannable order ↔ alter.Plannable order := by
  have placeable : (overwriteCompIds alter compID).Placeable ↔ alter.Placeable := by
    constructor
    · rintro ⟨acyclic, held, joined, policies⟩
      rw [placed_overwriteCompIds] at held joined policies
      simp only [ClearFrom, flows_overwriteCompIds, entrances_overwriteCompIds] at acyclic
      exact ⟨acyclic, fun edge member => held { edge with computation := compID } (List.mem_map_of_mem member),
        fun edge member => joined { edge with computation := compID } (List.mem_map_of_mem member),
        (policyFits_overwriteCompIds alter compID _).mp policies⟩
    · rintro ⟨acyclic, held, joined, policies⟩
      rw [← placed_overwriteCompIds alter compID] at held joined policies
      refine ⟨?_, List.forall_mem_map.mpr held, List.forall_mem_map.mpr joined,
        (policyFits_overwriteCompIds alter compID _).mpr policies⟩
      simp only [ClearFrom, flows_overwriteCompIds, entrances_overwriteCompIds]
      exact acyclic
  have meets : (overwriteCompIds alter compID).Meets = alter.Meets := by
    funext root
    rw [Meets, Meets, entrances_overwriteCompIds, flows_overwriteCompIds]
  have clear : (overwriteCompIds alter compID).ClearTo = alter.ClearTo := by
    funext n
    rw [ClearTo, ClearTo, flows_overwriteCompIds]
  constructor
  · rintro ⟨clears, places⟩
    rw [meets, exits_overwriteCompIds, clear] at clears
    rw [meets, exits_overwriteCompIds, placeable] at places
    exact ⟨clears, places⟩
  · rintro ⟨clears, places⟩
    refine ⟨?_, ?_⟩
    · rw [meets, exits_overwriteCompIds, clear]
      exact clears
    · rw [meets, exits_overwriteCompIds, placeable]
      exact places

end AlterTopo

namespace QueryPlanner

/-- With enough fuel the planner gives assignments or rejects the request. -/
def Terminates (order : HashOrder) (workerLocs : OrderedMap NodeID NodeID) (alter : AlterTopo) (compID : ℕ) : Prop :=
  ∃ fuel, (∃ plan, getAssignments order fuel workerLocs alter compID = .assignments plan) ∨
    ∃ message, getAssignments order fuel workerLocs alter compID = .schemaError message

section Terminates

variable {order : HashOrder} {workerLocs : OrderedMap NodeID NodeID} {alter : AlterTopo} {compID : ℕ}

theorem exists_schemaError_iff {fuel : ℕ} :
    (∃ message, getAssignments order fuel workerLocs alter compID = .schemaError message) ↔
      ∃ message, placeTopo order fuel workerLocs (overwriteCompIds alter compID) =
        .error (.graph (.schemaError message)) := by
  rw [getAssignments]
  cases placeTopo order fuel workerLocs (overwriteCompIds alter compID) with
  | ok plan => simp
  | error e =>
      cases e with
      | graph reason => cases reason <;> simp
      | _ => simp

theorem terminates_iff_plansOrRejects :
    Terminates order workerLocs alter compID ↔ PlansOrRejects order workerLocs (overwriteCompIds alter compID) := by
  simp only [Terminates, PlansOrRejects, getAssignments_eq_iff, exists_schemaError_iff]

/-- The planner fails or does not end when the request is not plannable. -/
theorem Terminates.plannable (terminates : Terminates order workerLocs alter compID)
    (accepted : validateRawTopo alter = "") (positive : ∀ op ∈ alter.toStart, 0 < op.id.task)
    (workers : workerLocs.entries ≠ []) (hasEntrance : alter.entrances ≠ []) : alter.Plannable order := by
  have closed := (isAccepted_of_valid accepted positive).overwriteCompIds compID
  rw [terminates_iff_plansOrRejects, plansOrRejects_iff closed workers, AlterTopo.entrances_overwriteCompIds,
    AlterTopo.plannable_overwriteCompIds] at terminates
  exact terminates hasEntrance

theorem terminates_of_plannable (accepted : validateRawTopo alter = "")
    (positive : ∀ op ∈ alter.toStart, 0 < op.id.task) (workers : workerLocs.entries ≠ [])
    (plannable : alter.entrances ≠ [] → alter.Plannable order) : Terminates order workerLocs alter compID := by
  have closed := (isAccepted_of_valid accepted positive).overwriteCompIds compID
  rw [terminates_iff_plansOrRejects, plansOrRejects_iff closed workers, AlterTopo.entrances_overwriteCompIds,
    AlterTopo.plannable_overwriteCompIds]
  exact plannable

end Terminates

/-- The planner ends with assignments or a rejected request if and only if an accepted request has no entrance or is
plannable. -/
theorem terminates_iff_plannable (order : HashOrder) (workerLocs : OrderedMap NodeID NodeID) (alter : AlterTopo)
    (compID : ℕ) (accepted : validateRawTopo alter = "") (positive : ∀ op ∈ alter.toStart, 0 < op.id.task)
    (workers : workerLocs.entries ≠ []) :
    Terminates order workerLocs alter compID ↔ (alter.entrances ≠ [] → alter.Plannable order) :=
  ⟨fun terminates => terminates.plannable accepted positive workers,
    fun plannable => terminates_of_plannable accepted positive workers plannable⟩

/-- Both edges of the line go on, so no entrance leads to a cycle and all nodes are placed. -/
theorem subscriberLine_plannable (order : HashOrder) : subscriberLine.Plannable order := by
  have acyclic (n : TopoID) : ¬ Relation.TransGen subscriberLine.Flows n n := by
    intro cycle
    refine subscriberLine_formsInTree.acyclic n (Relation.TransGen.mono (fun p m flows => ?_) n n cycle)
    exact AlterTopo.leads_iff.mpr flows
  have entrance : TopoID.task 1 ∈ subscriberLine.entrances := by decide
  have exit : TopoID.task 2 ∈ subscriberLine.exits := by decide
  have source : subscriberLine.Placed (.task 1) := Or.inr (Or.inr ⟨_, entrance, .refl⟩)
  have sink : subscriberLine.Placed (.task 2) := Or.inr (Or.inl exit)
  have cube : subscriberLine.Placed (.cube "results") :=
    Or.inr (Or.inr ⟨_, entrance, .single (by unfold AlterTopo.Flows; decide)⟩)
  refine ⟨fun _ root _ _ _ x _ => acyclic x, fun _ => ⟨fun s _ x _ => acyclic x, ?_, ?_, ?_⟩⟩
  · exact List.forall_mem_cons.mpr ⟨source, List.forall_mem_cons.mpr ⟨sink, fun edge none => absurd none List.not_mem_nil⟩⟩
  · refine List.forall_mem_cons.mpr ⟨fun _ => cube, List.forall_mem_cons.mpr ⟨fun _ => sink, ?_⟩⟩
    exact fun edge none => absurd none List.not_mem_nil
  · intro policy member
    obtain rfl := List.mem_singleton.mp member
    exact ⟨_, _, rfl, sink⟩

/-- The planner ends on the line of an operator, a cube and its subscriber. -/
theorem terminates_iff_plannable_subscriberLine : Terminates insertionOrder twoWorkers subscriberLine 7 :=
  (terminates_iff_plannable insertionOrder twoWorkers subscriberLine 7 (by decide) (by decide) (by decide)).mpr
    fun _ => subscriberLine_plannable insertionOrder

/-- The only source feeds the sink and, beside it, two operators that feed each other. -/
def sideCycle : AlterTopo where
  computationID := 0
  toStart := [⟨toLex (0, 1), "Source", none, []⟩, ⟨toLex (0, 2), "Sink", none, []⟩, ⟨toLex (0, 3), "Filter", none, []⟩,
    ⟨toLex (0, 4), "Filter", none, []⟩]
  toCreate := []
  taskToStop := []
  cubesToStop := []
  edges := [⟨0, some 1, none, some 2, none, none⟩, ⟨0, some 1, none, some 3, none, none⟩,
    ⟨0, some 3, none, some 4, none, none⟩, ⟨0, some 4, none, some 3, none, none⟩]
  congestPolicies := []

/-- The validation accepts the request, and no fuel is enough for the search from the source. -/
theorem not_terminates_sideCycle : validateRawTopo sideCycle = "" ∧ (∀ op ∈ sideCycle.toStart, 0 < op.id.task) ∧
    twoWorkers.entries ≠ [] ∧ ¬ Terminates insertionOrder twoWorkers sideCycle 7 := by
  have accepted : validateRawTopo sideCycle = "" := by decide
  have positive : ∀ op ∈ sideCycle.toStart, 0 < op.id.task := by decide
  refine ⟨accepted, positive, by decide, fun terminates => ?_⟩
  have only : sideCycle.entrances = [.task 1] := by decide
  have exit : TopoID.task 2 ∈ sideCycle.exits := by decide
  have edge (edge : TopoID × TopoID) (member : edge ∈ sideCycle.internalEnds) : sideCycle.Flows edge.1 edge.2 := member
  have plannable := terminates.plannable accepted positive (by decide) (by simp [only])
  have placeable := plannable.placeable ⟨.task 2, exit, Or.inl ⟨.task 1, only⟩⟩
  refine placeable.acyclic (.task 1) (by simp [only]) (.task 3) (.single (edge (.task 1, .task 3) (by decide))) ?_
  exact .tail (.single (edge (.task 3, .task 4) (by decide))) (edge (.task 4, .task 3) (by decide))

end QueryPlanner

end JetStream
