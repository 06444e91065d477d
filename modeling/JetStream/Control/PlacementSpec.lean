import JetStream.Control.PlacementPasses
import JetStream.Control.SourcesLca

namespace JetStream

namespace JSGraph

open IsForest

variable {N : Type} {g : JSGraph N}

open Classical in
/-- This is the first source, in the order of the graph, that reaches the node. -/
noncomputable def leader (g : JSGraph N) (n : N) : Option N := g.sources.find? fun s => Reaches g.Edge s n

theorem leader_eq {before after : List N} {s n : N} (split : g.sources = before ++ s :: after)
    (path : Reaches g.Edge s n) (earlier : ∀ t ∈ before, ¬ Reaches g.Edge t n) : g.leader n = some s := by
  rw [leader, split, List.find?_append, List.find?_eq_none.mpr (by simpa using earlier), Option.none_or]
  exact List.find?_cons_of_pos (by simpa using path)

theorem reaches_of_leader {s n : N} (leads : g.leader n = some s) : Reaches g.Edge s n := by
  rw [leader] at leads
  simpa using List.find?_some leads

/-- A node before another node on the way from its leader has the same leader. -/
theorem leader_eq_of_edge {s p n : N} (leads : g.leader n = some s) (edge : g.Edge p n) (path : Reaches g.Edge s p) :
    g.leader p = some s := by
  have found := leads
  rw [leader] at found
  obtain ⟨-, before, after, split, earlier⟩ := List.find?_eq_some_iff_append.mp found
  refine leader_eq split path fun t member reaches => ?_
  have apart := earlier t member
  simp [reaches.tail edge] at apart

/-- Nodes that all sources reach have the same leader. -/
theorem leader_eq_of_forall {n m : N} (first : ∀ s ∈ g.sources, Reaches g.Edge s n)
    (second : ∀ s ∈ g.sources, Reaches g.Edge s m) : g.leader n = g.leader m := by
  obtain ⟨s, rest, sources⟩ := List.exists_cons_of_ne_nil g.sources_ne
  have member : s ∈ g.sources := by simp [sources]
  have split : g.sources = [] ++ s :: rest := sources
  rw [leader_eq split (first s member) (by simp), leader_eq split (second s member) (by simp)]

theorem IsUnionPoint.mem_nodes {union : N} (point : g.IsUnionPoint union) : union ∈ g.nodes := by
  obtain ⟨s, rest, sources⟩ := List.exists_cons_of_ne_nil g.sources_ne
  have member : s ∈ g.sources := by simp [sources]
  exact mem_nodes_above ((g.mem_sources s).mp member).1 (point.1 s member)

variable [DecidableEq N] {root : N}

/-- A source reaches every node of an in-tree. -/
theorem IsInTree.exists_source (tree : g.IsInTree root) {n : N} (node : n ∈ g.nodes) :
    ∃ s ∈ g.sources, Reaches g.Edge s n := by
  have inside (v u : N) (edge : g.Edge v u) : v ∈ g.nodes.toFinset := List.mem_toFinset.mpr (g.inside _ edge).1
  obtain ⟨s, bottom, path⟩ := tree.forest.exists_leaf inside n
  refine ⟨s, (g.mem_sources s).mpr ⟨mem_nodes_of_reaches node path, ?_⟩, path⟩
  intro member
  obtain ⟨⟨v, u⟩, listed, rfl⟩ := List.mem_map.mp member
  exact bottom v listed

theorem IsInTree.exists_leader (tree : g.IsInTree root) {n : N} (node : n ∈ g.nodes) : ∃ s, g.leader n = some s := by
  obtain ⟨s, source, path⟩ := tree.exists_source node
  apply Option.isSome_iff_exists.mp
  rw [leader, List.find?_isSome]
  exact ⟨s, source, by simpa using path⟩

/-- A node of an in-tree is below the union point or above it. -/
theorem IsInTree.reaches_or (tree : g.IsInTree root) {union n : N} (point : g.IsUnionPoint union)
    (node : n ∈ g.nodes) : Reaches g.Edge n union ∨ Reaches g.Edge union n := by
  obtain ⟨s, source, path⟩ := tree.exists_source node
  exact Relation.ReflTransGen.total_of_right_unique tree.forest.unique path (point.1 s source)

end JSGraph

namespace QueryPlanner

open IsForest

section Spec

variable (g : JSGraph TopoID) (alter : AlterTopo) (workerLocs : OrderedMap NodeID NodeID) (defaultWorkerID : NodeID)
  (union : TopoID)

/-- Pinned nodes, sources, sinks and the union do not follow the node before them. -/
def IsFixed (id : TopoID) : Prop :=
  (∃ node ∈ alter.planNodes, getOid node = id ∧ node.pinnedTo.isSome) ∨ id ∈ g.sources ∨ id ∈ g.sinks ∨ id = union

/-- A fixed node is on the worker it is pinned to, or on the default worker. -/
def siteWorker (id : TopoID) : NodeID :=
  match (alter.object? id).bind PlanNode.pinnedTo with
  | some site => if (workerLocs.get? site).isSome then site else defaultWorkerID
  | none => defaultWorkerID

/-- A node is on the worker of the last fixed node on the way from its leader. -/
def Settles (id : TopoID) (workerID : NodeID) : Prop :=
  ∃ s a, g.leader id = some s ∧ IsAnchor g.Edge (IsFixed g alter union) s id a ∧
    siteWorker alter workerLocs defaultWorkerID a = workerID

end Spec

section Settling

variable {g : JSGraph TopoID} {alter : AlterTopo} {workerLocs : OrderedMap NodeID NodeID} {defaultWorkerID : NodeID}
  {union root : TopoID}

theorem settles_self (tree : g.IsInTree root) {id : TopoID} (node : id ∈ g.nodes) (fixed : IsFixed g alter union id) :
    Settles g alter workerLocs defaultWorkerID union id (siteWorker alter workerLocs defaultWorkerID id) := by
  obtain ⟨s, leads⟩ := tree.exists_leader node
  exact ⟨s, id, leads, tree.forest.isAnchor_self (JSGraph.reaches_of_leader leads) fixed, rfl⟩

theorem Settles.step {x y : TopoID} {w : NodeID} (settles : Settles g alter workerLocs defaultWorkerID union x w)
    (tree : g.IsInTree root) (edge : g.Edge x y) (free : ¬ IsFixed g alter union y) (same : g.leader x = g.leader y) :
    Settles g alter workerLocs defaultWorkerID union y w := by
  obtain ⟨s, a, leads, anchor, site⟩ := settles
  exact ⟨s, a, same ▸ leads, anchor.step tree.forest edge free, site⟩

/-- A node settles on one worker only. -/
theorem Settles.eq {id : TopoID} {w v : NodeID} (first : Settles g alter workerLocs defaultWorkerID union id w)
    (tree : g.IsInTree root) (second : Settles g alter workerLocs defaultWorkerID union id v) : w = v := by
  obtain ⟨s, a, leads, anchor, rfl⟩ := first
  obtain ⟨t, b, otherLeads, otherAnchor, rfl⟩ := second
  obtain rfl : s = t := Option.some.inj (leads.symm.trans otherLeads)
  rw [anchor.eq tree.forest otherAnchor]

variable (union) in
/-- The first pass puts a node where it settles. -/
theorem pinWorker_eq_some (closed : alter.IsClosed) {node : PlanNode} (member : node ∈ alter.planNodes) {w : NodeID}
    (pinned : pinWorker g workerLocs defaultWorkerID node = some w) :
    IsFixed g alter union (getOid node) ∧ siteWorker alter workerLocs defaultWorkerID (getOid node) = w := by
  rw [pinWorker] at pinned
  cases site : node.pinnedTo with
  | some at_site =>
      simp only [site, Option.some.injEq] at pinned
      refine ⟨Or.inl ⟨node, member, rfl, by rw [site]; rfl⟩, ?_⟩
      simp only [siteWorker, closed.object?_getOid member, Option.bind_some, site, pinned]
  | none =>
      simp only [site] at pinned
      split_ifs at pinned with outer
      refine ⟨Or.inr (outer.imp id Or.inl), ?_⟩
      simp only [siteWorker, closed.object?_getOid member, Option.bind_some, site, Option.some.inj pinned]

/-- The first pass waits only with nodes that are not fixed, and with the union. -/
theorem exists_pinWorker {node : PlanNode} (closed : alter.IsClosed) (member : node ∈ alter.planNodes)
    (fixed : IsFixed g alter union (getOid node)) (other : getOid node ≠ union) :
    ∃ w, pinWorker g workerLocs defaultWorkerID node = some w := by
  rw [pinWorker]
  cases site : node.pinnedTo with
  | some at_site => exact ⟨_, rfl⟩
  | none =>
      rcases fixed with ⟨pinned, inside, same, isPinned⟩ | source | sink | here
      · rw [closed.getOid_inj inside member same, site] at isPinned
        cases isPinned
      · exact ⟨_, if_pos (Or.inl source)⟩
      · exact ⟨_, if_pos (Or.inr sink)⟩
      · exact absurd here other

/-- A walk up to a node gives a worker to every node on its way. -/
theorem Sound.placeDescendants {spec : TopoID → NodeID → Prop} {state : PlacementState} (sound : Sound alter spec state)
    (closed : alter.IsClosed) (tree : g.IsInTree root) (nodes : g.nodes = alter.ids) {start last : TopoID}
    (node : start ∈ g.nodes) (path : Reaches g.Edge start last) {stop : Option TopoID}
    (ends : stop = some last ∨ stop = none ∧ last = root) {adjList : TopoID → List TopoID}
    (own : adjList start = if start = last then [] else g.adjList start)
    (intact : ∀ x, Relation.TransGen g.Edge start x → stop ≠ some x → adjList x = g.adjList x) {fuel : ℕ}
    (enough : alter.ids.length < fuel) {w : NodeID} (present : (state.assignments.get? w).isSome)
    (first : state.taskToWorker start = none → spec start w)
    (follow : ∀ x y, Reaches g.Edge start x → Reaches g.Edge y last → g.Edge x y → state.taskToWorker y = none →
      ∀ v, spec x v → spec y v) :
    ∃ next, placeDescendants fuel alter adjList start stop w state = .ok (next, Function.update adjList start []) ∧
      Sound alter spec next ∧ Grows state next ∧
      ∀ x, Reaches g.Edge start x → Reaches g.Edge x last → (next.taskToWorker x).isSome := by
  obtain ⟨rest, found, chain, members⟩ := tree.getDescendants_eq node path ends own intact (nodes ▸ enough)
  have inside : start :: rest ⊆ alter.ids := by
    intro x member
    rw [← nodes]
    exact JSGraph.mem_nodes_above node ((members x).mp member).1
  have firstOf : ∀ x ∈ (start :: rest).head?, state.taskToWorker x = none → spec x w := by
    intro x head
    obtain rfl : start = x := by simpa using head
    exact first
  have followChain : (start :: rest).IsChain fun x y => state.taskToWorker y = none → ∀ v, spec x v → spec y v := by
    refine chain.imp_of_mem_imp ?_
    intro x y memberX memberY edge
    exact follow x y ((members x).mp memberX).1 ((members y).mp memberY).2 edge
  obtain ⟨next, run, soundNext, grows, done⟩ := sound.placeNodes closed inside present firstOf followChain
  refine ⟨next, ?_, soundNext, grows, fun x up down => done x ((members x).mpr ⟨up, down⟩)⟩
  simp only [QueryPlanner.placeDescendants, found]
  rw [run]
  rfl

variable (closed : alter.IsClosed) (tree : g.IsInTree root) (nodes : g.nodes = alter.ids)
  (point : g.IsUnionPoint union)

variable (workerLocs defaultWorkerID union) in
include closed tree nodes in
/-- The first pass records every node that it does not wait with. -/
theorem exists_pinned :
    ∃ state, pinNodes g workerLocs defaultWorkerID alter.planNodes .empty = .ok state ∧
      Sound alter (Settles g alter workerLocs defaultWorkerID union) state ∧
      ∀ node ∈ alter.planNodes, ∀ w, pinWorker g workerLocs defaultWorkerID node = some w →
        state.taskToWorker (getOid node) = some w := by
  have fits (node : PlanNode) (member : node ∈ alter.planNodes) (w : NodeID)
      (pinned : pinWorker g workerLocs defaultWorkerID node = some w) :
      Settles g alter workerLocs defaultWorkerID union (getOid node) w := by
    obtain ⟨fixed, site⟩ := pinWorker_eq_some union closed member pinned
    have known : getOid node ∈ g.nodes := nodes ▸ AlterTopo.mem_ids.mpr ⟨node, member, rfl⟩
    exact site ▸ settles_self tree known fixed
  obtain ⟨state, run, sound, -, done⟩ := (sound_empty alter _).pinNodes closed (List.Subset.refl _) closed.ids_nodup
    (fun _ _ => rfl) fits
  exact ⟨state, run, sound, done⟩

variable {state : PlacementState} (pinned : ∀ node ∈ alter.planNodes, ∀ w,
  pinWorker g workerLocs defaultWorkerID node = some w → state.taskToWorker (getOid node) = some w)

include closed pinned in
theorem isSome_of_isFixed {id : TopoID} (known : id ∈ alter.ids) (fixed : IsFixed g alter union id)
    (other : id ≠ union) : (state.taskToWorker id).isSome := by
  obtain ⟨node, member, rfl⟩ := AlterTopo.mem_ids.mp known
  obtain ⟨w, here⟩ := exists_pinWorker closed member fixed other
  exact Option.isSome_iff_exists.mpr ⟨w, pinned node member w here⟩

include closed pinned in
/-- A node that the first pass waits with would be fixed on the default worker. -/
theorem siteWorker_of_unrecorded {id : TopoID} (known : id ∈ alter.ids) (unrecorded : state.taskToWorker id = none) :
    siteWorker alter workerLocs defaultWorkerID id = defaultWorkerID := by
  obtain ⟨node, member, rfl⟩ := AlterTopo.mem_ids.mp known
  rw [siteWorker, closed.object?_getOid member, Option.bind_some]
  cases site : node.pinnedTo with
  | none => rfl
  | some at_site =>
      have recorded := pinned node member _ (by rw [pinWorker, site])
      rw [unrecorded] at recorded
      cases recorded

include closed tree nodes point pinned in
/-- The second pass gives a worker to every node from the union to the sink. -/
theorem exists_placedUnion (sound : Sound alter (Settles g alter workerLocs defaultWorkerID union) state) {fuel : ℕ}
    (enough : alter.ids.length < fuel) :
    ∃ next, placeUnion g fuel defaultWorkerID alter union state = .ok (next, Function.update g.adjList union []) ∧
      Sound alter (Settles g alter workerLocs defaultWorkerID union) next ∧ Grows state next ∧
      ∀ x, Reaches g.Edge union x → (next.taskToWorker x).isSome := by
  let w := (state.taskToWorker union).getD defaultWorkerID
  have node : union ∈ g.nodes := point.mem_nodes
  have own : g.adjList union = if union = root then [] else g.adjList union := by
    split_ifs with top
    · apply List.eq_nil_iff_forall_not_mem.mpr
      intro m member
      exact tree.not_edge_root m (top ▸ JSGraph.mem_adjList.mp member)
    · rfl
  have same := ensure_taskToWorker state w
  have first : (state.ensure w).taskToWorker union = none → Settles g alter workerLocs defaultWorkerID union union w := by
    intro unrecorded
    rw [same] at unrecorded
    have default : siteWorker alter workerLocs defaultWorkerID union = w := by
      rw [siteWorker_of_unrecorded closed pinned (nodes ▸ node) unrecorded]
      simp only [w, unrecorded, Option.getD_none]
    exact default ▸ settles_self tree node (Or.inr (Or.inr (Or.inr rfl)))
  obtain ⟨next, run, soundNext, grows, done⟩ := (sound.ensure w).placeDescendants closed tree nodes node
    (tree.reaches_root node) (Or.inr ⟨rfl, rfl⟩) own (fun _ _ _ => rfl) enough (ensure_isSome state w) first
    (by
      intro x y path down edge unrecorded v settles
      rw [same] at unrecorded
      have other : y ≠ union := by
        rintro rfl
        exact tree.forest.not_reaches_child edge path
      have free : ¬ IsFixed g alter union y := by
        intro fixed
        have recorded := isSome_of_isFixed closed pinned (nodes ▸ (g.inside _ edge).2) fixed other
        rw [unrecorded] at recorded
        cases recorded
      refine settles.step tree edge free (JSGraph.leader_eq_of_forall ?_ ?_)
      · exact fun s source => (point.1 s source).trans path
      · exact fun s source => ((point.1 s source).trans path).tail edge)
  refine ⟨next, run, soundNext, fun id v recorded => grows id v (by rw [same]; exact recorded), fun x path => ?_⟩
  exact done x path (tree.reaches_root (JSGraph.mem_nodes_above node path))

/-- Before the third pass reaches a source, the earlier sources and the union have lost their lists. -/
structure Emptied (g : JSGraph TopoID) (union : TopoID) (done : List TopoID) (adjList : TopoID → List TopoID) :
    Prop where
  first : adjList union = []
  others : ∀ x, x ≠ union → x ∉ done → adjList x = g.adjList x

theorem Emptied.own {done : List TopoID} {adjList : TopoID → List TopoID} (emptied : Emptied g union done adjList)
    {s : TopoID} (fresh : s ∉ done) : adjList s = if s = union then [] else g.adjList s := by
  split_ifs with here
  · rw [here, emptied.first]
  · exact emptied.others s here fresh

/-- Below a source only the union point's list has been emptied, as no source is below another. -/
theorem Emptied.intact {done rest : List TopoID} (split : g.sources = done ++ rest) {adjList : TopoID → List TopoID}
    (emptied : Emptied g union done adjList) {s : TopoID} (x : TopoID) (up : Relation.TransGen g.Edge s x)
    (onward : some union ≠ some x) : adjList x = g.adjList x := by
  refine emptied.others x (fun here => onward (congrArg some here.symm)) fun member => ?_
  have isSource : x ∈ g.sources := by simp [split, member]
  exact JSGraph.not_transGen_source isSource up

theorem Emptied.source {done : List TopoID} {adjList : TopoID → List TopoID} (emptied : Emptied g union done adjList)
    (s : TopoID) : Emptied g union (done ++ [s]) (Function.update adjList s []) where
  first := by
    by_cases here : union = s
    · rw [here, Function.update_self]
    · rw [Function.update_of_ne here, emptied.first]
  others x other later := by
    rw [List.mem_append, List.mem_singleton, not_or] at later
    rw [Function.update_of_ne later.2, emptied.others x other later.1]

omit pinned in
include closed tree nodes point in
/-- The third pass gives a worker to every node from a source to the union. -/
theorem exists_placedSources {done rest : List TopoID} (split : g.sources = done ++ rest)
    {adjList : TopoID → List TopoID} (emptied : Emptied g union done adjList)
    (sound : Sound alter (Settles g alter workerLocs defaultWorkerID union) state)
    (fixed : ∀ id ∈ alter.ids, IsFixed g alter union id → (state.taskToWorker id).isSome)
    (placed : ∀ s ∈ done, ∀ x, Reaches g.Edge s x → Reaches g.Edge x union → (state.taskToWorker x).isSome)
    {fuel : ℕ} (enough : alter.ids.length < fuel) :
    ∃ next, placeSources fuel alter union rest adjList state = .ok next ∧
      Sound alter (Settles g alter workerLocs defaultWorkerID union) next ∧ Grows state next ∧
      ∀ s ∈ g.sources, ∀ x, Reaches g.Edge s x → Reaches g.Edge x union → (next.taskToWorker x).isSome := by
  induction rest generalizing state done adjList with
  | nil =>
      refine ⟨state, rfl, sound, fun _ _ recorded => recorded, ?_⟩
      intro s source
      rw [split, List.append_nil] at source
      exact placed s source
  | cons s rest ih =>
      have source : s ∈ g.sources := by simp [split]
      have node : s ∈ g.nodes := ((g.mem_sources s).mp source).1
      have fresh : s ∉ done := by
        have distinct := g.sources_nodup
        rw [split, List.nodup_append] at distinct
        exact fun member => distinct.2.2 s member s List.mem_cons_self rfl
      have path : Reaches g.Edge s union := point.1 s source
      obtain ⟨w, recorded⟩ := Option.isSome_iff_exists.mp
        (fixed s (nodes ▸ node) (Or.inr (Or.inl source)))
      have first : state.taskToWorker s = none → Settles g alter workerLocs defaultWorkerID union s w := by
        intro unrecorded
        rw [recorded] at unrecorded
        cases unrecorded
      obtain ⟨mid, run, soundMid, grows, recordedAll⟩ := sound.placeDescendants closed tree nodes node path
        (Or.inl rfl) (emptied.own fresh) (emptied.intact split) enough (sound.known s w recorded).2 first
        (by
          intro x y pathX downY edge unrecorded v settles
          have contradiction_of (isRecorded : (state.taskToWorker y).isSome) : False := by
            rw [unrecorded] at isRecorded
            cases isRecorded
          have leaderY : g.leader y = some s := by
            refine JSGraph.leader_eq split (pathX.tail edge) ?_
            exact fun t earlier reaches => contradiction_of (placed t earlier y reaches downY)
          have leaderX := JSGraph.leader_eq_of_edge leaderY edge pathX
          refine settles.step tree edge (fun isFixed => ?_) (leaderX.trans leaderY.symm)
          exact contradiction_of (fixed y (nodes ▸ (g.inside _ edge).2) isFixed))
      have splitRest : g.sources = (done ++ [s]) ++ rest := by simpa using split
      have placedRest : ∀ t ∈ done ++ [s], ∀ x, Reaches g.Edge t x → Reaches g.Edge x union →
          (mid.taskToWorker x).isSome := by
        intro t member x up down
        rcases List.mem_append.mp member with earlier | here
        · exact grows.isSome (placed t earlier x up down)
        · rw [List.mem_singleton.mp here] at up
          exact recordedAll x up down
      obtain ⟨next, runRest, soundNext, growsNext, all⟩ := ih splitRest (emptied.source s) soundMid
        (fun id known isFixed => grows.isSome (fixed id known isFixed)) placedRest
      refine ⟨next, ?_, soundNext, grows.trans growsNext, all⟩
      simp only [placeSources, recorded, run, Except.bind]
      exact runRest

end Settling

end QueryPlanner

end JetStream
