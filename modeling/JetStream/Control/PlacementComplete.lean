import JetStream.Control.PlacementSpec

namespace JetStream

namespace QueryPlanner

open IsForest

section Placed

variable {g : JSGraph TopoID} {alter : AlterTopo} {workerLocs : OrderedMap NodeID NodeID} {defaultWorkerID : NodeID}
  {union root : TopoID}

variable (workerLocs defaultWorkerID) in
/-- The three passes give a worker to every node. -/
theorem exists_placed (closed : alter.IsClosed) (tree : g.IsInTree root) (nodes : g.nodes = alter.ids)
    (point : g.IsUnionPoint union) {fuel : ℕ} (enough : alter.ids.length < fuel) :
    ∃ first second adjList last, pinNodes g workerLocs defaultWorkerID alter.planNodes .empty = .ok first ∧
      placeUnion g fuel defaultWorkerID alter union first = .ok (second, adjList) ∧
      placeSources fuel alter union g.sources adjList second = .ok last ∧
      Sound alter (Settles g alter workerLocs defaultWorkerID union) last ∧
      ∀ id ∈ alter.ids, (last.taskToWorker id).isSome := by
  obtain ⟨first, runFirst, soundFirst, pinned⟩ := exists_pinned workerLocs defaultWorkerID union closed tree nodes
  obtain ⟨second, runSecond, soundSecond, grows, above⟩ :=
    exists_placedUnion closed tree nodes point pinned soundFirst enough
  have fixed (id : TopoID) (known : id ∈ alter.ids) (isFixed : IsFixed g alter union id) :
      (second.taskToWorker id).isSome := by
    by_cases here : id = union
    · rw [here]
      exact above union .refl
    · exact grows.isSome (isSome_of_isFixed closed pinned known isFixed here)
  have emptied : Emptied g union [] (Function.update g.adjList union []) :=
    ⟨Function.update_self _ _ _, fun x other _ => Function.update_of_ne other _ _⟩
  obtain ⟨last, runLast, soundLast, growsLast, below⟩ := exists_placedSources closed tree nodes point
    (List.nil_append g.sources).symm emptied soundSecond fixed (by simp) enough
  refine ⟨first, second, _, last, runFirst, runSecond, runLast, soundLast, ?_⟩
  intro id known
  have node : id ∈ g.nodes := nodes ▸ known
  rcases tree.reaches_or point node with down | up
  · obtain ⟨s, source, path⟩ := tree.exists_source node
    exact below s source id path down
  · exact growsLast.isSome (above id up)

/-- A set of workers that is not empty has a default worker. -/
theorem exists_default (workers : workerLocs.entries ≠ []) (order : HashOrder) :
    ∃ w, (order.workers (workerLocs.entries.map Prod.fst)).head? = some w := by
  obtain ⟨w, rest, listed⟩ : ∃ w rest, order.workers (workerLocs.entries.map Prod.fst) = w :: rest := by
    apply List.exists_cons_of_ne_nil
    intro none
    have listing := order.workers_perm (workerLocs.entries.map Prod.fst)
    rw [none, List.nil_perm, List.map_eq_nil_iff] at listing
    exact workers listing
  exact ⟨w, by rw [listed, List.head?_cons]⟩

/-- The way to the edges and the policies is the same for every request that forms an in-tree. -/
theorem exists_placeTopo_eq (closed : alter.IsClosed) (tree : alter.FormsInTree root)
    (workers : workerLocs.entries ≠ []) (order : HashOrder) {fuel : ℕ} (enough : alter.ids.length < fuel) :
    ∃ g union defaultWorkerID state, JSGraph.init order alter = .ok g ∧ g.nodes = alter.ids ∧ g.Edge = alter.Leads ∧
      g.IsInTree root ∧ g.IsUnionPoint union ∧
      (order.workers (workerLocs.entries.map Prod.fst)).head? = some defaultWorkerID ∧
      Sound alter (Settles g alter workerLocs defaultWorkerID union) state ∧
      (∀ id ∈ alter.ids, (state.taskToWorker id).isSome) ∧
      placeTopo order fuel workerLocs alter = (placeEdges workerLocs alter.edges state).bind fun state =>
        (placePolicies alter.congestPolicies state).map PlacementState.assignments := by
  obtain ⟨g, built, nodes, edge, inTree⟩ := closed.init tree order
  obtain ⟨union, found, point⟩ := inTree.getSourcesLca_ok order.pops
  obtain ⟨defaultWorkerID, listed⟩ := exists_default workers order
  obtain ⟨first, second, adjList, last, runFirst, runSecond, runLast, sound, all⟩ :=
    exists_placed workerLocs defaultWorkerID closed inTree nodes point enough
  refine ⟨g, union, defaultWorkerID, last, built, nodes, edge, inTree, point, listed, sound, all, ?_⟩
  simp only [placeTopo, built, Except.mapError, Except.bind, listed, runFirst, found, runSecond,
    runLast]

end Placed

/-- An edge from an operator is held with its source, and an edge from a cube with its destination. -/
def holder (edge : Edge) : TopoID :=
  match edge.src with
  | some task => .task task
  | none => edgeDest edge

theorem holder_mem_ids {alter : AlterTopo} (closed : alter.IsClosed) {edge : Edge} (member : edge ∈ alter.edges) :
    holder edge ∈ alter.ids := by
  obtain ⟨source, dest⟩ := closed.ends edge member
  cases src : edge.src with
  | some task =>
      rw [edgeSource, src] at source
      simpa only [holder, src] using source
  | none => simpa only [holder, src] using dest

/-- An edge to another worker carries the address of that worker. -/
def filled (workerLocs : OrderedMap NodeID NodeID) (home : TopoID → NodeID) (edge : Edge) : Edge :=
  if home (edgeDest edge) = home (holder edge) then edge
  else { edge with destAddr := workerLocs.get? (home (edgeDest edge)) }

/-- Every node is recorded on a known worker, and the worker has an assignment. -/
structure Homed (alter : AlterTopo) (workerLocs : OrderedMap NodeID NodeID) (home : TopoID → NodeID)
    (state : PlacementState) : Prop where
  recorded : ∀ id ∈ alter.ids, state.taskToWorker id = some (home id)
  unknown : ∀ id, id ∉ alter.ids → state.taskToWorker id = none
  present : ∀ id ∈ alter.ids, (state.assignments.get? (home id)).isSome
  located : ∀ id ∈ alter.ids, (workerLocs.get? (home id)).isSome

theorem change_ok {state : PlacementState} {w : NodeID} (present : (state.assignments.get? w).isSome)
    (f : WorkerAssignment → WorkerAssignment) :
    ∃ next, state.change w f = .ok next ∧ next.taskToWorker = state.taskToWorker ∧
      ∀ v, next.assignments.get? v = (state.assignments.get? v).map fun a => if v = w then f a else a := by
  obtain ⟨a, here⟩ := Option.isSome_iff_exists.mp present
  refine ⟨{ state with assignments := state.assignments.set w (f a) }, ?_, rfl, fun v => ?_⟩
  · simp only [PlacementState.change, here, orKeyError]
    rfl
  · rw [OrderedMap.get?_set]
    by_cases same : v = w
    · rw [if_pos same, same, here]
      simp
    · simp [same]

theorem change_taskToWorker {state next : PlacementState} {w : NodeID} {f : WorkerAssignment → WorkerAssignment}
    (changed : state.change w f = .ok next) : next.taskToWorker = state.taskToWorker := by
  rw [PlacementState.change] at changed
  cases found : state.assignments.get? w with
  | none =>
      rw [found] at changed
      cases changed
  | some a =>
      rw [found] at changed
      obtain rfl := Except.ok.inj changed
      rfl

section Edges

variable {alter : AlterTopo} {workerLocs : OrderedMap NodeID NodeID} {home : TopoID → NodeID} {state : PlacementState}

theorem Homed.change (homed : Homed alter workerLocs home state) {next : PlacementState} {w : NodeID}
    {f : WorkerAssignment → WorkerAssignment} (records : next.taskToWorker = state.taskToWorker)
    (changed : ∀ v, next.assignments.get? v = (state.assignments.get? v).map fun a => if v = w then f a else a) :
    Homed alter workerLocs home next where
  recorded := records ▸ homed.recorded
  unknown := records ▸ homed.unknown
  present id known := by
    rw [changed, Option.isSome_map]
    exact homed.present id known
  located := homed.located

/-- The edge is filled in and added to the assignment of its holder. -/
theorem Homed.placeEdge (homed : Homed alter workerLocs home state) (closed : alter.IsClosed) {edge : Edge}
    (member : edge ∈ alter.edges) (subscribed : edge.src = none → edge.dest.isSome) :
    placeEdge workerLocs edge state =
      state.change (home (holder edge)) fun assignment => assignment.addEdge (filled workerLocs home edge) := by
  obtain ⟨source, dest⟩ := closed.ends edge member
  have holds : state.taskToWorker (.task (edge.src.getD (edge.dest.getD 0))) = some (home (holder edge)) := by
    cases src : edge.src with
    | some task =>
        rw [edgeSource, src] at source
        simpa [holder, src] using homed.recorded _ source
    | none =>
        obtain ⟨task, here⟩ := Option.isSome_iff_exists.mp (subscribed src)
        rw [edgeDest, here] at dest
        simpa [holder, src, edgeDest, here] using homed.recorded _ dest
  have joined : edge.dest.isSome ∨ edge.destCube.isSome := by
    cases known : edge.dest with
    | some task => exact Or.inl rfl
    | none =>
        right
        rw [edgeDest, known] at dest
        have named := closed.named _ dest
        cases cube : edge.destCube with
        | some name => rfl
        | none =>
            rw [cube] at named
            exact absurd rfl named
  obtain ⟨destLoc, located⟩ := Option.isSome_iff_exists.mp (homed.located _ dest)
  simp only [QueryPlanner.placeEdge, holds, orKeyError, Except.bind, if_pos joined, homed.recorded _ dest, fillAddress,
    filled]
  by_cases local_edge : home (edgeDest edge) = home (holder edge)
  · simp only [local_edge, ne_eq, not_true_eq_false, if_false, if_true]
  · simp only [ne_eq, local_edge, not_false_eq_true, if_true, located, if_false, Except.map]

/-- Each assignment receives the filled edges that its worker holds, in their order. -/
theorem Homed.placeEdges (homed : Homed alter workerLocs home state) (closed : alter.IsClosed) {edges : List Edge}
    (listed : edges ⊆ alter.edges) (subscribed : ∀ edge ∈ edges, edge.src = none → edge.dest.isSome) :
    ∃ next, placeEdges workerLocs edges state = .ok next ∧ Homed alter workerLocs home next ∧
      ∀ w, next.assignments.get? w = (state.assignments.get? w).map fun a => { a with
        edges := a.edges ++ (edges.filter fun edge => home (holder edge) = w).map (filled workerLocs home) } := by
  induction edges generalizing state with
  | nil => exact ⟨state, rfl, homed, fun w => by simp⟩
  | cons edge rest ih =>
      obtain ⟨member, others⟩ := List.cons_subset.mp listed
      obtain ⟨subscribedHead, subscribedRest⟩ := List.forall_mem_cons.mp subscribed
      obtain ⟨mid, added, records, changed⟩ := change_ok (homed.present _ (holder_mem_ids closed member))
        fun assignment => assignment.addEdge (filled workerLocs home edge)
      obtain ⟨next, run, homedNext, assigned⟩ := ih (homed.change records changed) others subscribedRest
      refine ⟨next, ?_, homedNext, fun w => ?_⟩
      · rw [QueryPlanner.placeEdges, homed.placeEdge closed member subscribedHead, added]
        exact run
      · rw [assigned, changed, Option.map_map]
        congr 1
        funext a
        by_cases here : home (holder edge) = w
        · simp [here, WorkerAssignment.addEdge]
        · simp [here, Ne.symm here]

/-- The worker of an edge from a cube is looked up under the number of an operator. -/
theorem subscribed_of_placeEdges (closed : alter.IsClosed)
    (unknown : ∀ id, id ∉ alter.ids → state.taskToWorker id = none) {edges : List Edge} {next : PlacementState}
    (run : placeEdges workerLocs edges state = .ok next) :
    next.taskToWorker = state.taskToWorker ∧ ∀ edge ∈ edges, edge.src = none → edge.dest.isSome := by
  induction edges generalizing state with
  | nil =>
      obtain rfl := Except.ok.inj run
      exact ⟨rfl, by simp⟩
  | cons edge rest ih =>
      obtain ⟨mid, placed, run⟩ := Except.exists_of_bind_eq_ok run
      obtain ⟨w, found, placed⟩ := Except.exists_of_bind_eq_ok placed
      obtain ⟨whole, -, changed⟩ := Except.exists_of_bind_eq_ok placed
      have records := change_taskToWorker changed
      obtain ⟨same, all⟩ := ih (records ▸ unknown) run
      refine ⟨same.trans records, List.forall_mem_cons.mpr ⟨fun fromCube => ?_, all⟩⟩
      cases dest : edge.dest with
      | some task => rfl
      | none =>
          have zero : TopoID.task 0 ∉ alter.ids := fun known => lt_irrefl 0 (closed.positive 0 known)
          simp only [fromCube, dest, Option.getD_none, unknown _ zero] at found
          cases found

/-- A policy is placed by its first operator, which has to be in the request. -/
def LeadsPolicy (alter : AlterTopo) (policy : List TaskID) : Prop :=
  ∃ o others, policy = o :: others ∧ ∃ op ∈ alter.toStart, op.id.task = o.task

theorem Homed.placePolicies (homed : Homed alter workerLocs home state) {policies : List (List TaskID)}
    (led : ∀ policy ∈ policies, LeadsPolicy alter policy) :
    ∃ next, placePolicies policies state = .ok next ∧ ∀ w, next.assignments.get? w =
      (state.assignments.get? w).map fun a => { a with policies := a.policies ++
        (policies.filter fun policy => policy.head?.map (fun o => home (.task o.task)) = some w) } := by
  induction policies generalizing state with
  | nil => exact ⟨state, rfl, fun w => by simp⟩
  | cons policy rest ih =>
      obtain ⟨⟨o, others, rfl, member⟩, ledRest⟩ := List.forall_mem_cons.mp led
      have known : .task o.task ∈ alter.ids := AlterTopo.task_mem_ids.mpr member
      obtain ⟨mid, added, records, changed⟩ := change_ok (homed.present _ known)
        fun assignment => assignment.addPolicy (o :: others)
      obtain ⟨next, run, assigned⟩ := ih (homed.change records changed) ledRest
      refine ⟨next, ?_, fun w => ?_⟩
      · simp only [QueryPlanner.placePolicies, homed.recorded _ known, orKeyError, Except.bind, added]
        exact run
      · rw [assigned, changed, Option.map_map]
        congr 1
        funext a
        by_cases here : home (.task o.task) = w
        · simp [here, WorkerAssignment.addPolicy]
        · simp [here, Ne.symm here]

theorem leadsPolicy_of_placePolicies (unknown : ∀ id, id ∉ alter.ids → state.taskToWorker id = none)
    {policies : List (List TaskID)} {next : PlacementState} (run : placePolicies policies state = .ok next) :
    ∀ policy ∈ policies, LeadsPolicy alter policy := by
  induction policies generalizing state with
  | nil => simp
  | cons policy rest ih =>
      cases policy with
      | nil => cases run
      | cons o others =>
          obtain ⟨w, found, run⟩ := Except.exists_of_bind_eq_ok run
          obtain ⟨mid, changed, run⟩ := Except.exists_of_bind_eq_ok run
          have records := change_taskToWorker changed
          refine List.forall_mem_cons.mpr ⟨⟨o, others, rfl, ?_⟩, ih (records ▸ unknown) run⟩
          by_contra missing
          rw [unknown (.task o.task) fun known => missing (AlterTopo.task_mem_ids.mp known)] at found
          cases found

end Edges

/-- Every node and every edge is in the assignment of one worker, and exactly the remote edges carry an address. -/
structure CompletePlacement (workerLocs : OrderedMap NodeID NodeID) (alter : AlterTopo)
    (plan : OrderedMap NodeID WorkerAssignment) (home : TopoID → NodeID) : Prop where
  located : ∀ id ∈ alter.ids, (workerLocs.get? (home id)).isSome ∧ (plan.get? (home id)).isSome
  operators : ∀ w a, plan.get? w = some a →
    a.operators.Perm (alter.toStart.filter fun op => home (.task op.id.task) = w)
  cubes : ∀ w a, plan.get? w = some a → a.cubes.Perm (alter.toCreate.filter fun cube => home (.cube cube.name) = w)
  pinned : ∀ node ∈ alter.planNodes, ∀ site, node.pinnedTo = some site → (workerLocs.get? site).isSome →
    home (getOid node) = site
  edges : ∀ w a, plan.get? w = some a →
    a.edges = (alter.edges.filter fun edge => home (holder edge) = w).map (filled workerLocs home)

section Complete

variable {g : JSGraph TopoID} {alter : AlterTopo} {workerLocs : OrderedMap NodeID NodeID} {defaultWorkerID : NodeID}
  {union root : TopoID} {home : TopoID → NodeID} {state : PlacementState}

theorem siteWorker_located (located : (workerLocs.get? defaultWorkerID).isSome) (id : TopoID) :
    (workerLocs.get? (siteWorker alter workerLocs defaultWorkerID id)).isSome := by
  rw [siteWorker]
  split
  · split_ifs with known
    · exact known
    · exact located
  · exact located

/-- The default worker is one of the workers. -/
theorem default_located {order : HashOrder}
    (first : (order.workers (workerLocs.entries.map Prod.fst)).head? = some defaultWorkerID) :
    (workerLocs.get? defaultWorkerID).isSome := by
  have member := (order.workers_perm _).mem_iff.mp (List.mem_of_head? first)
  obtain ⟨⟨key, loc⟩, entry, rfl⟩ := List.mem_map.mp member
  exact Option.isSome_iff_exists.mpr ⟨loc, workerLocs.mem_entries_iff.mp entry⟩

/-- A node that is pinned to a worker settles there. -/
theorem Settles.pinned {node : PlanNode} {w : NodeID}
    (settles : Settles g alter workerLocs defaultWorkerID union (getOid node) w) (closed : alter.IsClosed)
    (tree : g.IsInTree root) (nodes : g.nodes = alter.ids) (member : node ∈ alter.planNodes) {site : NodeID}
    (isPinned : node.pinnedTo = some site) (known : (workerLocs.get? site).isSome) : w = site := by
  have pin : pinWorker g workerLocs defaultWorkerID node = some site := by
    simp only [pinWorker, isPinned, if_pos known]
  obtain ⟨fixed, worker⟩ := pinWorker_eq_some union closed member pin
  have inside : getOid node ∈ g.nodes := nodes ▸ AlterTopo.mem_ids.mpr ⟨node, member, rfl⟩
  exact settles.eq tree (worker ▸ settles_self tree inside fixed)

/-- An assignment lists the nodes of one kind that are on its worker, each of them once. -/
theorem Sound.perm_filter {spec : TopoID → NodeID → Prop} (sound : Sound alter spec state)
    (recorded : ∀ id ∈ alter.ids, state.taskToWorker id = some (home id)) {w : NodeID} {a : WorkerAssignment}
    (found : state.assignments.get? w = some a) {A : Type} {f : A → PlanNode} {own all : List A} (ownNodup : own.Nodup)
    (allNodup : all.Nodup) (mem_own : ∀ x, f x ∈ a.nodes ↔ x ∈ own) (mem_all : ∀ x, f x ∈ alter.planNodes ↔ x ∈ all) :
    own.Perm (all.filter fun x => home (getOid (f x)) = w) := by
  apply (List.perm_ext_iff_of_nodup ownNodup (allNodup.filter _)).mpr
  intro x
  rw [← mem_own, sound.held w a found, mem_all, List.mem_filter, decide_eq_true_eq]
  apply and_congr_right
  intro member
  rw [recorded _ (AlterTopo.mem_ids.mpr ⟨f x, (mem_all x).mpr member, rfl⟩), Option.some.injEq]

/-- After the edges and the policies the assignments still hold the nodes of their workers. -/
theorem Sound.complete (sound : Sound alter (Settles g alter workerLocs defaultWorkerID union) state)
    (closed : alter.IsClosed) (tree : g.IsInTree root) (nodes : g.nodes = alter.ids)
    (homed : Homed alter workerLocs home state)
    (subscribed : ∀ edge ∈ alter.edges, edge.src = none → edge.dest.isSome)
    (led : ∀ policy ∈ alter.congestPolicies, LeadsPolicy alter policy) :
    ∃ plan, ((placeEdges workerLocs alter.edges state).bind fun state =>
        (placePolicies alter.congestPolicies state).map PlacementState.assignments) = .ok plan ∧
      CompletePlacement workerLocs alter plan home := by
  obtain ⟨mid, runEdges, homedMid, afterEdges⟩ := homed.placeEdges closed (List.Subset.refl _) subscribed
  obtain ⟨last, runPolicies, afterPolicies⟩ := homedMid.placePolicies led
  have before {w : NodeID} {b : WorkerAssignment} (found : last.assignments.get? w = some b) :
      ∃ a, state.assignments.get? w = some a ∧ b.operators = a.operators ∧ b.cubes = a.cubes ∧
        b.edges = (alter.edges.filter fun edge => home (holder edge) = w).map (filled workerLocs home) := by
    rw [afterPolicies, afterEdges, Option.map_map] at found
    obtain ⟨a, here, rfl⟩ := Option.map_eq_some_iff.mp found
    refine ⟨a, here, rfl, rfl, ?_⟩
    simp [(sound.idle w a here).1]
  have listed : alter.planNodes.Nodup := closed.ids_nodup.of_map
  refine ⟨last.assignments, ?_, ?_, ?_, ?_, ?_, ?_⟩
  · simp only [runEdges, Except.bind, runPolicies, Except.map]
  · intro id known
    refine ⟨homed.located id known, ?_⟩
    rw [afterPolicies, afterEdges, Option.isSome_map, Option.isSome_map]
    exact homed.present id known
  · intro w b found
    obtain ⟨a, here, operators, -, -⟩ := before found
    rw [operators]
    exact sound.perm_filter homed.recorded here (List.nodup_append.mp (sound.nodup w a here)).1.of_map
      (List.nodup_append.mp listed).1.of_map (fun op => by simp [WorkerAssignment.nodes])
      fun _ => AlterTopo.mem_planNodes_operator
  · intro w b found
    obtain ⟨a, here, -, cubes, -⟩ := before found
    rw [cubes]
    exact sound.perm_filter homed.recorded here (List.nodup_append.mp (sound.nodup w a here)).2.1.of_map
      (List.nodup_append.mp listed).2.1.of_map (fun cube => by simp [WorkerAssignment.nodes])
      fun _ => AlterTopo.mem_planNodes_cube
  · intro node member site isPinned known
    have recorded := homed.recorded _ (AlterTopo.mem_ids.mpr ⟨node, member, rfl⟩)
    exact (sound.agrees _ _ recorded).pinned closed tree nodes member isPinned known
  · intro w b found
    obtain ⟨a, -, -, -, edges⟩ := before found
    exact edges

/-- The planner returns a plan exactly when it can look up the worker of every edge and of every policy. -/
theorem exists_home (closed : alter.IsClosed) (tree : alter.FormsInTree root) (workers : workerLocs.entries ≠ [])
    (order : HashOrder) {fuel : ℕ} (enough : alter.ids.length < fuel) :
    ∃ g union defaultWorkerID home, JSGraph.init order alter = .ok g ∧ g.nodes = alter.ids ∧ g.Edge = alter.Leads ∧
      g.IsInTree root ∧ g.IsUnionPoint union ∧
      (order.workers (workerLocs.entries.map Prod.fst)).head? = some defaultWorkerID ∧
      (∀ id ∈ alter.ids, Settles g alter workerLocs defaultWorkerID union id (home id)) ∧
      ((∀ edge ∈ alter.edges, edge.src = none → edge.dest.isSome) →
        (∀ policy ∈ alter.congestPolicies, LeadsPolicy alter policy) →
        ∃ plan, placeTopo order fuel workerLocs alter = .ok plan ∧ CompletePlacement workerLocs alter plan home) ∧
      ∀ plan, placeTopo order fuel workerLocs alter = .ok plan →
        (∀ edge ∈ alter.edges, edge.src = none → edge.dest.isSome) ∧
        ∀ policy ∈ alter.congestPolicies, LeadsPolicy alter policy := by
  obtain ⟨g, union, defaultWorkerID, state, built, nodes, edge, inTree, point, first, sound, all, equation⟩ :=
    exists_placeTopo_eq closed tree workers order enough
  let home (id : TopoID) : NodeID := (state.taskToWorker id).getD defaultWorkerID
  have recorded (id : TopoID) (known : id ∈ alter.ids) : state.taskToWorker id = some (home id) := by
    obtain ⟨w, here⟩ := Option.isSome_iff_exists.mp (all id known)
    simp only [home, here, Option.getD_some]
  have settles (id : TopoID) (known : id ∈ alter.ids) :
      Settles g alter workerLocs defaultWorkerID union id (home id) :=
    sound.agrees id _ (recorded id known)
  have unknown (id : TopoID) (missing : id ∉ alter.ids) : state.taskToWorker id = none := by
    by_contra isRecorded
    obtain ⟨w, here⟩ := Option.ne_none_iff_exists'.mp isRecorded
    exact missing (sound.known id w here).1
  have homed : Homed alter workerLocs home state := by
    refine ⟨recorded, unknown, fun id known => (sound.known id _ (recorded id known)).2, fun id known => ?_⟩
    obtain ⟨s, a, -, -, site⟩ := settles id known
    rw [← site]
    exact siteWorker_located (default_located first) a
  refine ⟨g, union, defaultWorkerID, home, built, nodes, edge, inTree, point, first, settles, ?_, ?_⟩
  · intro subscribed led
    rw [equation]
    exact sound.complete closed inTree nodes homed subscribed led
  · intro plan planned
    rw [equation] at planned
    obtain ⟨mid, runEdges, runPolicies⟩ := Except.exists_of_bind_eq_ok planned
    obtain ⟨records, subscribed⟩ := subscribed_of_placeEdges closed unknown runEdges
    cases placed : placePolicies alter.congestPolicies mid with
    | error e =>
        rw [placed] at runPolicies
        cases runPolicies
    | ok last => exact ⟨subscribed, leadsPolicy_of_placePolicies (records ▸ unknown) placed⟩

end Complete

theorem getAssignments_eq_iff {order : HashOrder} {fuel : ℕ} {workerLocs : OrderedMap NodeID NodeID} {alter : AlterTopo}
    {compID : ℕ} {plan : OrderedMap NodeID WorkerAssignment} :
    getAssignments order fuel workerLocs alter compID = .assignments plan ↔
      placeTopo order fuel workerLocs (overwriteCompIds alter compID) = .ok plan := by
  rw [getAssignments]
  cases placeTopo order fuel workerLocs (overwriteCompIds alter compID) with
  | ok other => simp
  | error e =>
      simp only [reduceCtorEq, iff_false]
      split <;> simp_all

theorem leadsPolicy_overwriteCompIds (alter : AlterTopo) (compID : ℤ) :
    (∀ policy ∈ (overwriteCompIds alter compID).congestPolicies, LeadsPolicy (overwriteCompIds alter compID) policy) ↔
      ∀ policy ∈ alter.congestPolicies, LeadsPolicy alter policy := by
  refine List.forall_mem_map.trans (forall₂_congr fun policy _ => ?_)
  cases policy with
  | nil => simp [LeadsPolicy]
  | cons o others => simp [LeadsPolicy, overwriteCompIds, TaskID.task]

/-- The planner places an accepted in-tree completely if and only if every policy starts with one of its operators. -/
theorem getAssignments_complete_iff (order : HashOrder) (fuel : ℕ) (workerLocs : OrderedMap NodeID NodeID)
    (alter : AlterTopo) (compID : ℕ) (root : TopoID) (accepted : validateRawTopo alter = "")
    (tree : alter.FormsInTree root) (positive : ∀ op ∈ alter.toStart, 0 < op.id.task)
    (internal : ∀ edge ∈ alter.edges, edge.destAddr = none)
    (subscribed : ∀ edge ∈ alter.edges, edge.src = none → edge.dest.isSome) (workers : workerLocs.entries ≠ [])
    (enough : alter.ids.length < fuel) :
    (∃ plan home, getAssignments order fuel workerLocs alter compID = .assignments plan ∧
        CompletePlacement workerLocs (overwriteCompIds alter compID) plan home) ↔
      ∀ policy ∈ alter.congestPolicies, LeadsPolicy alter policy := by
  have closed := (isClosed_of_valid accepted positive internal).overwriteCompIds compID
  have subscribedAll : ∀ edge ∈ (overwriteCompIds alter compID).edges, edge.src = none → edge.dest.isSome :=
    List.forall_mem_map.mpr subscribed
  obtain ⟨g, union, defaultWorkerID, home, -, -, -, -, -, -, -, completes, planned⟩ :=
    exists_home closed (tree.overwriteCompIds compID) workers order (by rwa [AlterTopo.ids_overwriteCompIds])
  rw [← leadsPolicy_overwriteCompIds alter compID]
  constructor
  · rintro ⟨plan, home, result, -⟩
    exact (planned plan (getAssignments_eq_iff.mp result)).2
  · intro led
    obtain ⟨plan, result, complete⟩ := completes subscribedAll led
    exact ⟨plan, home, getAssignments_eq_iff.mpr result, complete⟩

/-- These dictionaries list their keys in the order of insertion. -/
def insertionOrder : HashOrder := ⟨id, fun _ => .refl _, id, fun _ => .refl _, fun _ => 0⟩

def twoWorkers : OrderedMap NodeID NodeID :=
  ⟨[(toLex ("east", 1), toLex ("east", 11)), (toLex ("west", 2), toLex ("west", 22))], by decide⟩

/-- The output of an operator goes to a cube on the second worker, and a subscriber of the cube is the sink. -/
def subscriberLine : AlterTopo where
  computationID := 0
  toStart := [⟨toLex (0, 1), "Source", none, []⟩, ⟨toLex (0, 2), "TimeSubscriber", none, []⟩]
  toCreate := [⟨"results", ⟨["host"], ["count"]⟩, some (toLex ("west", 2)), false⟩]
  taskToStop := []
  cubesToStop := []
  edges := [⟨0, some 1, none, none, some "results", none⟩, ⟨0, none, some "results", some 2, none, none⟩]
  congestPolicies := [[toLex (0, 2)]]

theorem subscriberLine_formsInTree : subscriberLine.FormsInTree (.task 2) := by
  refine ⟨by decide, by decide, ?_, ?_⟩
  · intro n known other
    have cases_of : n = .task 1 ∨ n = .task 2 ∨ n = .cube "results" := by
      simpa [AlterTopo.ids, AlterTopo.planNodes, subscriberLine, getOid, TaskID.task] using known
    rcases cases_of with rfl | rfl | rfl
    · exact ⟨_, rfl⟩
    · exact absurd rfl other
    · exact ⟨_, rfl⟩
  · intro n cycle
    let rank (id : TopoID) : ℕ := if id = .task 1 then 0 else if id = .task 2 then 2 else 1
    have increasing : ∀ edge ∈ subscriberLine.edges, rank (edgeSource edge) < rank (edgeDest edge) := by decide
    refine IsForest.acyclic_of_lt (fun _ _ less => less) (rank n) (Relation.TransGen.lift rank ?_ n n cycle)
    rintro _ _ ⟨edge, member, rfl, rfl⟩
    exact increasing edge member

/-- The operator and the subscriber are on the default worker, and both edges of the cube cross to it. -/
theorem getAssignments_complete_subscriberLine :
    ∃ plan home, getAssignments insertionOrder 4 twoWorkers subscriberLine 7 = .assignments plan ∧
      CompletePlacement twoWorkers (overwriteCompIds subscriberLine 7) plan home := by
  refine (getAssignments_complete_iff insertionOrder 4 twoWorkers subscriberLine 7 (.task 2) (by decide)
    subscriberLine_formsInTree (by decide) (by decide) (by decide) (by decide) (by decide)).mpr ?_
  intro policy member
  obtain rfl := List.mem_singleton.mp member
  exact ⟨toLex (0, 2), [], rfl, ⟨toLex (0, 2), "TimeSubscriber", none, []⟩, by decide, rfl⟩

/-- The only policy of this request names an operator that is not in it. -/
def strayPolicy : AlterTopo where
  computationID := 0
  toStart := [⟨toLex (0, 1), "Source", none, []⟩]
  toCreate := []
  taskToStop := []
  cubesToStop := []
  edges := []
  congestPolicies := [[toLex (0, 9)]]

/-- The validation accepts the request, and the planner raises an exception. -/
theorem getAssignments_strayPolicy : validateRawTopo strayPolicy = "" ∧ strayPolicy.FormsInTree (.task 1) ∧
    (∀ op ∈ strayPolicy.toStart, 0 < op.id.task) ∧ (∀ edge ∈ strayPolicy.edges, edge.destAddr = none) ∧
    (∀ edge ∈ strayPolicy.edges, edge.src = none → edge.dest.isSome) ∧ twoWorkers.entries ≠ [] ∧
    strayPolicy.ids.length < 2 ∧ ¬ ∃ plan home, getAssignments insertionOrder 2 twoWorkers strayPolicy 7 =
      .assignments plan ∧ CompletePlacement twoWorkers (overwriteCompIds strayPolicy 7) plan home := by
  refine ⟨by decide, ⟨by decide, by decide, ?_, ?_⟩, by decide, by decide, by decide, by decide, by decide, ?_⟩
  · intro n known other
    have here : n = .task 1 := by
      simpa [AlterTopo.ids, AlterTopo.planNodes, strayPolicy, getOid, TaskID.task] using known
    exact absurd here other
  · intro n cycle
    obtain ⟨-, ⟨edge, member, -⟩, -⟩ := Relation.TransGen.head'_iff.mp cycle
    exact absurd member List.not_mem_nil
  · rintro ⟨plan, home, result, -⟩
    have raised : getAssignments insertionOrder 2 twoWorkers strayPolicy 7 = .raised := rfl
    rw [raised] at result
    cases result

end QueryPlanner

end JetStream
