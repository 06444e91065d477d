import JetStream.Control.Exploration
import JetStream.Control.LcaRoots
import JetStream.Control.PlacementComplete

namespace JetStream

namespace QueryPlanner

open IsForest

section Recorded

variable {alter : AlterTopo} {workerLocs : OrderedMap NodeID NodeID} {placed : TopoID → Prop} {state : PlacementState}
  {w : NodeID}

/-- Exactly these ids are recorded, on known workers that have an assignment. -/
structure Recorded (workerLocs : OrderedMap NodeID NodeID) (placed : TopoID → Prop) (state : PlacementState) : Prop where
  records : ∀ id, (state.taskToWorker id).isSome ↔ placed id
  located : ∀ id w, state.taskToWorker id = some w → (workerLocs.get? w).isSome
  present : ∀ id w, state.taskToWorker id = some w → (state.assignments.get? w).isSome

theorem Recorded.congr (recorded : Recorded workerLocs placed state) {others : TopoID → Prop}
    (same : ∀ id, placed id ↔ others id) : Recorded workerLocs others state :=
  ⟨fun id => (recorded.records id).trans (same id), recorded.located, recorded.present⟩

theorem recorded_empty (workerLocs : OrderedMap NodeID NodeID) : Recorded workerLocs (fun _ => False) .empty :=
  ⟨fun _ => by simp [PlacementState.empty], fun _ _ => nofun, fun _ _ => nofun⟩

theorem Recorded.ensure (recorded : Recorded workerLocs placed state) (w : NodeID) :
    Recorded workerLocs placed (state.ensure w) := by
  have same := ensure_taskToWorker state w
  refine ⟨by rw [same]; exact recorded.records, by rw [same]; exact recorded.located, fun id v here => ?_⟩
  rw [same] at here
  have there := recorded.present id v here
  rw [PlacementState.ensure]
  split_ifs
  · exact there
  · exact OrderedMap.isSome_get?_set there w .new

theorem Recorded.addNode (recorded : Recorded workerLocs placed state) (located : (workerLocs.get? w).isSome)
    (present : (state.assignments.get? w).isSome) (node : PlanNode) :
    ∃ next, state.addNode w node = .ok next ∧ Recorded workerLocs (fun id => placed id ∨ id = getOid node) next ∧
      next.taskToWorker (getOid node) = some w := by
  obtain ⟨a, here⟩ := Option.isSome_iff_exists.mp present
  refine ⟨_, addNode_eq_placed here, ⟨fun id => ?_, fun id v found => ?_, fun id v found => ?_⟩, placed_own⟩
  · by_cases own : id = getOid node
    · rw [own, placed_own]
      exact iff_of_true rfl (Or.inr rfl)
    · rw [placed_other own, recorded.records]
      exact (or_iff_left own).symm
  · rcases placed_cases found with ⟨-, rfl⟩ | ⟨-, before⟩
    · exact located
    · exact recorded.located id v before
  · rcases placed_cases found with ⟨-, rfl⟩ | ⟨-, before⟩
    · exact OrderedMap.isSome_get?_set present _ _
    · exact OrderedMap.isSome_get?_set (recorded.present id v before) _ _

/-- The first pass records the nodes that it does not wait with. -/
theorem Recorded.pinNodes (recorded : Recorded workerLocs placed state) {g : JSGraph TopoID} {defaultWorkerID : NodeID}
    (located : (workerLocs.get? defaultWorkerID).isSome) (nodes : List PlanNode) :
    ∃ next, pinNodes g workerLocs defaultWorkerID nodes state = .ok next ∧
      Recorded workerLocs (fun id => placed id ∨ ∃ node ∈ nodes, getOid node = id ∧
        (pinWorker g workerLocs defaultWorkerID node).isSome) next := by
  induction nodes generalizing placed state with
  | nil => exact ⟨state, rfl, recorded.congr fun id => by simp⟩
  | cons node rest ih =>
      cases pinned : pinWorker g workerLocs defaultWorkerID node with
      | none =>
          obtain ⟨next, run, after⟩ := ih recorded
          refine ⟨next, by simp only [QueryPlanner.pinNodes, pinned, run], after.congr fun id => ?_⟩
          simp [pinned]
      | some w =>
          have known : (workerLocs.get? w).isSome := by
            rw [pinWorker] at pinned
            split at pinned
            · obtain rfl := Option.some.inj pinned
              split_ifs with there
              · exact there
              · exact located
            · split_ifs at pinned
              exact Option.some.inj pinned ▸ located
          obtain ⟨mid, added, recordedMid, -⟩ := (recorded.ensure w).addNode known (ensure_isSome state w) node
          obtain ⟨next, run, after⟩ := ih recordedMid
          refine ⟨next, ?_, after.congr fun id => ?_⟩
          · simp only [QueryPlanner.pinNodes, pinned, added]
            exact run
          · simp only [List.mem_cons, exists_eq_or_imp, pinned, Option.isSome_some, and_true, or_assoc]
            rw [eq_comm (a := id)]

/-- A walk over nodes of the request records all of them. -/
theorem Recorded.placeNodes (recorded : Recorded workerLocs placed state) {path : List TopoID} (inside : path ⊆ alter.ids)
    (located : (workerLocs.get? w).isSome) (present : (state.assignments.get? w).isSome) :
    ∃ next, placeNodes alter path w state = .ok next ∧ Recorded workerLocs (fun id => placed id ∨ id ∈ path) next := by
  induction path generalizing placed state w with
  | nil => exact ⟨state, rfl, recorded.congr fun id => by simp⟩
  | cons x rest ih =>
      obtain ⟨member, others⟩ := List.cons_subset.mp inside
      cases found : state.taskToWorker x with
      | some v =>
          obtain ⟨next, run, after⟩ := ih recorded others (recorded.located x v found) (recorded.present x v found)
          refine ⟨next, by simp only [QueryPlanner.placeNodes, found, run], after.congr fun id => ?_⟩
          have known : placed x := (recorded.records x).mp (by rw [found]; rfl)
          rw [List.mem_cons, or_left_comm]
          exact ⟨Or.inr, fun either => either.elim (fun same => Or.inl (same ▸ known)) fun rest => rest⟩
      | none =>
          obtain ⟨node, -, object, rfl⟩ := AlterTopo.exists_object member
          obtain ⟨mid, added, recordedMid, own⟩ := recorded.addNode located present node
          obtain ⟨next, run, after⟩ := ih recordedMid others located (recordedMid.present _ w own)
          refine ⟨next, ?_, after.congr fun id => by rw [List.mem_cons, or_assoc]⟩
          simp only [QueryPlanner.placeNodes, found, object, orKeyError]
          simp only [Except.bind, added]
          exact run

/-- The worker of an edge is looked up, and an edge to a node also needs the worker of the node. -/
def EdgeFits (placed : TopoID → Prop) (edge : Edge) : Prop :=
  placed (.task (edge.src.getD (edge.dest.getD 0))) ∧
    (edge.dest.isSome ∨ edge.destCube.isSome → placed (edgeDest edge)) ∧
    (edge.dest.isSome ∨ edge.destCube.isSome ∨ edge.destAddr.isSome)

theorem Recorded.change (recorded : Recorded workerLocs placed state) (present : (state.assignments.get? w).isSome)
    (f : WorkerAssignment → WorkerAssignment) :
    ∃ next, state.change w f = .ok next ∧ Recorded workerLocs placed next := by
  obtain ⟨next, changed, records, assigned⟩ := change_ok present f
  refine ⟨next, changed, by rw [records]; exact recorded.records, by rw [records]; exact recorded.located, ?_⟩
  rw [records]
  intro id v here
  rw [assigned, Option.isSome_map]
  exact recorded.present id v here

theorem Recorded.placeEdge (recorded : Recorded workerLocs placed state) {edge : Edge} (fits : EdgeFits placed edge) :
    ∃ next, placeEdge workerLocs edge state = .ok next ∧ Recorded workerLocs placed next := by
  obtain ⟨held, joined, some⟩ := fits
  obtain ⟨w, here⟩ := Option.isSome_iff_exists.mp ((recorded.records _).mpr held)
  have filled : ∃ whole, (if edge.dest.isSome ∨ edge.destCube.isSome then
      (orKeyError (state.taskToWorker (edgeDest edge))).bind fun destWorkerID =>
        fillAddress workerLocs w destWorkerID edge
      else if edge.destAddr.isSome then .ok edge else .error .assertionError) = .ok whole := by
    by_cases inside : edge.dest.isSome ∨ edge.destCube.isSome
    · obtain ⟨v, there⟩ := Option.isSome_iff_exists.mp ((recorded.records _).mpr (joined inside))
      obtain ⟨loc, located⟩ := Option.isSome_iff_exists.mp (recorded.located _ v there)
      rw [if_pos inside, there]
      by_cases other : v ≠ w
      · exact ⟨_, by simp only [orKeyError, Except.bind, fillAddress, if_pos other, located, Except.map]; rfl⟩
      · exact ⟨edge, by simp only [orKeyError, Except.bind, fillAddress, if_neg other]⟩
    · have addressed : edge.destAddr.isSome := (or_assoc.mpr some).resolve_left inside
      exact ⟨edge, by rw [if_neg inside, if_pos addressed]⟩
  obtain ⟨whole, filled⟩ := filled
  obtain ⟨next, changed, after⟩ := recorded.change (recorded.present _ w here)
    fun assignment => assignment.addEdge whole
  refine ⟨next, ?_, after⟩
  rw [QueryPlanner.placeEdge, here, orKeyError]
  simp only [Except.bind] at filled ⊢
  rw [filled]
  exact changed

theorem Recorded.placeEdges (recorded : Recorded workerLocs placed state) {edges : List Edge}
    (fits : ∀ edge ∈ edges, EdgeFits placed edge) :
    ∃ next, placeEdges workerLocs edges state = .ok next ∧ Recorded workerLocs placed next := by
  induction edges generalizing state with
  | nil => exact ⟨state, rfl, recorded⟩
  | cons edge rest ih =>
      obtain ⟨here, others⟩ := List.forall_mem_cons.mp fits
      obtain ⟨mid, ran, recordedMid⟩ := recorded.placeEdge here
      obtain ⟨next, run, after⟩ := ih recordedMid others
      refine ⟨next, ?_, after⟩
      rw [QueryPlanner.placeEdges, ran]
      exact run

/-- An edge that was placed fits, and the records stay. -/
theorem Recorded.fits_of_placeEdge (recorded : Recorded workerLocs placed state) {edge : Edge} {next : PlacementState}
    (ran : QueryPlanner.placeEdge workerLocs edge state = .ok next) : EdgeFits placed edge := by
  have known {id : TopoID} {v : NodeID} (found : orKeyError (state.taskToWorker id) = .ok v) : placed id := by
    rw [← recorded.records]
    cases here : state.taskToWorker id with
    | none =>
        rw [here] at found
        cases found
    | some _ => rfl
  obtain ⟨w, found, ran⟩ := Except.exists_of_bind_eq_ok ran
  obtain ⟨whole, filled, -⟩ := Except.exists_of_bind_eq_ok ran
  refine ⟨known found, fun inside => ?_, ?_⟩
  · rw [if_pos inside] at filled
    obtain ⟨v, there, -⟩ := Except.exists_of_bind_eq_ok filled
    exact known there
  · by_cases inside : edge.dest.isSome ∨ edge.destCube.isSome
    · exact or_assoc.mp (Or.inl inside)
    · rw [if_neg inside] at filled
      split_ifs at filled with addressed
      exact Or.inr (Or.inr addressed)

theorem Recorded.fits_of_placeEdges (recorded : Recorded workerLocs placed state) {edges : List Edge}
    {next : PlacementState} (run : QueryPlanner.placeEdges workerLocs edges state = .ok next) :
    ∀ edge ∈ edges, EdgeFits placed edge := by
  induction edges generalizing state with
  | nil => exact fun edge member => absurd member List.not_mem_nil
  | cons edge rest ih =>
      obtain ⟨mid, ran, run⟩ := Except.exists_of_bind_eq_ok run
      have fits := recorded.fits_of_placeEdge ran
      obtain ⟨same, ranSame, recordedMid⟩ := recorded.placeEdge fits
      obtain rfl := Except.ok.inj (ran.symm.trans ranSame)
      exact List.forall_mem_cons.mpr ⟨fits, ih recordedMid run⟩

/-- The worker of a policy is the one of its first operator. -/
def PolicyFits (placed : TopoID → Prop) (policy : List TaskID) : Prop :=
  ∃ o others, policy = o :: others ∧ placed (.task o.task)

theorem Recorded.placePolicies_iff (recorded : Recorded workerLocs placed state) (policies : List (List TaskID)) :
    (∃ next, placePolicies policies state = .ok next) ↔ ∀ policy ∈ policies, PolicyFits placed policy := by
  induction policies generalizing state with
  | nil => simp [placePolicies]
  | cons policy rest ih =>
      rw [List.forall_mem_cons]
      cases policy with
      | nil => simp [placePolicies, PolicyFits]
      | cons o others =>
          have fits : PolicyFits placed (o :: others) ↔ placed (.task o.task) := by simp [PolicyFits]
          rw [fits, ← recorded.records]
          cases found : state.taskToWorker (.task o.task) with
          | none => simp [placePolicies, found, orKeyError, Except.bind]
          | some w =>
              obtain ⟨mid, changed, recordedMid⟩ := recorded.change (recorded.present _ w found)
                fun assignment => assignment.addPolicy (o :: others)
              rw [and_iff_right (Option.isSome_some), ← ih recordedMid]
              simp [placePolicies, found, orKeyError, Except.bind, changed]

end Recorded

section Searches

variable {g : JSGraph TopoID} {alter : AlterTopo} {workerLocs : OrderedMap NodeID NodeID} {placed : TopoID → Prop}
  {state : PlacementState} {union s : TopoID} {done rest : List TopoID} {adjList : TopoID → List TopoID}

theorem step_adjList : Worklist.Step g.adjList = g.Edge := funext₂ fun _ _ => propext JSGraph.mem_adjList

/-- A search that ends records the nodes that it finds. -/
theorem Recorded.placeDescendants (recorded : Recorded workerLocs placed state) (nodes : g.nodes = alter.ids)
    (within : ∀ n m, m ∈ adjList n → g.Edge n m) {start : TopoID} (node : start ∈ g.nodes)
    (away : ¬ Relation.TransGen g.Edge start start) (stop : Option TopoID)
    (ends : ∀ n ∈ adjList start, Worklist.Ends (JSGraph.onward adjList stop) n) {w : NodeID}
    (located : (workerLocs.get? w).isSome) (present : (state.assignments.get? w).isSome) :
    ∃ bound next, (∀ fuel ≥ bound, placeDescendants fuel alter adjList start stop w state =
        .ok (next, Function.update adjList start [])) ∧
      Recorded workerLocs (fun id => placed id ∨ id = start ∨ ∃ n ∈ adjList start,
        Relation.ReflTransGen (Worklist.Step (JSGraph.onward adjList stop)) n id) next := by
  obtain ⟨bound, found, ran, members⟩ := JSGraph.getDescendants_ends within away stop ends
  have inside : start :: found ⊆ alter.ids := by
    rw [← nodes]
    refine List.cons_subset.mpr ⟨node, fun x member => ?_⟩
    obtain ⟨n, listed, path⟩ := (members x).mp member
    refine JSGraph.mem_nodes_above (g.inside _ (within start n listed)).2 ?_
    exact Relation.ReflTransGen.mono (fun _ _ step => JSGraph.edge_of_step within step) _ _ path
  obtain ⟨next, run, after⟩ := recorded.placeNodes inside located present
  refine ⟨bound, next, fun fuel enough => ?_, after.congr fun id => by rw [List.mem_cons, members]⟩
  simp only [QueryPlanner.placeDescendants, ran fuel enough, run]
  rfl

theorem getDescendants_of_placeDescendants {fuel : ℕ} {start : TopoID} {stop : Option TopoID} {w : NodeID}
    {next : PlacementState} {after : TopoID → List TopoID}
    (ran : placeDescendants fuel alter adjList start stop w state = .ok (next, after)) :
    ∃ found, JSGraph.getDescendants fuel adjList start stop = some (found, after) := by
  rw [QueryPlanner.placeDescendants] at ran
  split at ran
  · cases ran
  · rename_i toPlace lists found
    cases placing : placeNodes alter toPlace w state with
    | error e =>
        rw [placing] at ran
        cases ran
    | ok mid =>
        rw [placing] at ran
        obtain ⟨-, rfl⟩ := Prod.mk.inj (Except.ok.inj ran)
        exact ⟨toPlace, found⟩

theorem placeDescendants_mono {fuel more : ℕ} {start : TopoID} {stop : Option TopoID} {w : NodeID}
    {result : PlacementState × (TopoID → List TopoID)}
    (ran : placeDescendants fuel alter adjList start stop w state = .ok result) (enough : fuel ≤ more) :
    placeDescendants more alter adjList start stop w state = .ok result := by
  obtain ⟨found, search⟩ := getDescendants_of_placeDescendants ran
  have later : JSGraph.getDescendants more adjList start stop = some (found, result.2) :=
    JSGraph.explore_mono search enough
  simp only [QueryPlanner.placeDescendants, search] at ran
  simp only [QueryPlanner.placeDescendants, later]
  exact ran

theorem placeSources_mono {fuel more : ℕ} {next : PlacementState}
    (run : placeSources fuel alter union rest adjList state = .ok next) (enough : fuel ≤ more) :
    placeSources more alter union rest adjList state = .ok next := by
  induction rest generalizing adjList state with
  | nil => exact run
  | cons s rest ih =>
      cases here : state.taskToWorker s with
      | none =>
          simp only [QueryPlanner.placeSources, here] at run
          cases run
      | some w =>
          simp only [QueryPlanner.placeSources, here] at run ⊢
          obtain ⟨⟨mid, after⟩, ran, run⟩ := Except.exists_of_bind_eq_ok run
          rw [placeDescendants_mono ran enough]
          exact ih run

theorem onward_none (adjList : TopoID → List TopoID) : JSGraph.onward adjList none = adjList := by
  funext n
  simp [JSGraph.onward]

/-- The second pass records the nodes that the union reaches. -/
theorem Recorded.placeUnion (recorded : Recorded workerLocs placed state) (nodes : g.nodes = alter.ids)
    (node : union ∈ g.nodes) (away : ¬ Relation.TransGen g.Edge union union)
    (ends : Worklist.Ends g.adjList union) {defaultWorkerID : NodeID}
    (located : (workerLocs.get? defaultWorkerID).isSome) :
    ∃ bound next, (∀ fuel ≥ bound, placeUnion g fuel defaultWorkerID alter union state =
        .ok (next, Function.update g.adjList union [])) ∧
      Recorded workerLocs (fun id => placed id ∨ Reaches g.Edge union id) next := by
  have worker : (workerLocs.get? ((state.taskToWorker union).getD defaultWorkerID)).isSome := by
    cases here : state.taskToWorker union with
    | none => exact located
    | some w => exact recorded.located union w here
  obtain ⟨bound, next, ran, after⟩ := (recorded.ensure _).placeDescendants nodes
    (fun n m listed => JSGraph.mem_adjList.mp listed) node away none
    (fun n listed => by rw [onward_none]; exact ends.step listed) worker (ensure_isSome state _)
  refine ⟨bound, next, ran, after.congr fun id => or_congr_right ?_⟩
  rw [onward_none, step_adjList, eq_comm]
  simp only [JSGraph.mem_adjList]
  exact Relation.ReflTransGen.cases_head_iff.symm

theorem ends_of_placeUnion (away : ¬ Relation.TransGen g.Edge union union) {fuel : ℕ} {defaultWorkerID : NodeID}
    {next : PlacementState} (ran : placeUnion g fuel defaultWorkerID alter union state = .ok (next, adjList)) :
    Worklist.Ends g.adjList union ∧ adjList = Function.update g.adjList union [] := by
  obtain ⟨found, search⟩ := getDescendants_of_placeDescendants ran
  obtain ⟨ends, same⟩ :=
    JSGraph.ends_of_getDescendants (fun n m listed => JSGraph.mem_adjList.mp listed) away search
  rw [onward_none] at ends
  exact ⟨Acc.intro union ends, same⟩

/-- Every way on from a source ends when the ways up to the union and the ways on from the union do. -/
theorem Emptied.ends_of_onward (emptied : Emptied g union done adjList) (split : g.sources = done ++ rest)
    (unionEnds : Worklist.Ends g.adjList union) {n : TopoID} (up : Relation.TransGen g.Edge s n)
    (ends : Worklist.Ends (JSGraph.onward adjList (some union)) n) : Worklist.Ends g.adjList n := by
  induction ends with
  | intro n _ ih =>
      by_cases here : n = union
      · exact here ▸ unionEnds
      · have apart : some union ≠ some n := fun same => here (Option.some.inj same).symm
        refine Acc.intro n fun m step => ih m (JSGraph.step_onward.mpr ⟨apart, ?_⟩) (up.tail (JSGraph.mem_adjList.mp step))
        rw [emptied.intact split n up apart]
        exact step

theorem Emptied.ends_iff (emptied : Emptied g union done adjList) (split : g.sources = done ++ s :: rest)
    (within : ∀ n m, m ∈ adjList n → g.Edge n m) (unionEnds : Worklist.Ends g.adjList union) (fresh : s ∉ done) :
    (∀ n ∈ adjList s, Worklist.Ends (JSGraph.onward adjList (some union)) n) ↔ Worklist.Ends g.adjList s := by
  constructor
  · intro ends
    by_cases here : s = union
    · exact here ▸ unionEnds
    · rw [emptied.others s here fresh] at ends
      refine Acc.intro s fun n step => ?_
      exact emptied.ends_of_onward split unionEnds (.single (JSGraph.mem_adjList.mp step)) (ends n step)
  · intro ends n listed
    refine Worklist.Ends.mono (fun x y step => ?_) (ends.step (JSGraph.mem_adjList.mpr (within s n listed)))
    exact JSGraph.mem_adjList.mpr (JSGraph.edge_of_step within step)

/-- A node that a source reaches is found from the source, unless the union reaches it. -/
theorem Emptied.covers (emptied : Emptied g union done adjList) (split : g.sources = done ++ s :: rest)
    (within : ∀ n m, m ∈ adjList n → g.Edge n m) (fresh : s ∉ done) {x : TopoID} (path : Reaches g.Edge s x) :
    Reaches g.Edge union x ∨ x = s ∨
      ∃ n ∈ adjList s, Relation.ReflTransGen (Worklist.Step (JSGraph.onward adjList (some union))) n x := by
  induction path with
  | refl => exact Or.inr (Or.inl rfl)
  | @tail x y _ edge ih =>
      by_cases here : x = union
      · exact Or.inl (.single (here ▸ edge))
      · rcases ih with below | rfl | ⟨n, listed, found⟩
        · exact Or.inl (below.tail edge)
        · refine Or.inr (Or.inr ⟨y, ?_, .refl⟩)
          rw [emptied.others x here fresh]
          exact JSGraph.mem_adjList.mpr edge
        · have apart : some union ≠ some x := fun same => here (Option.some.inj same).symm
          have up : Relation.TransGen g.Edge s x := .head' (within s n listed)
            (Relation.ReflTransGen.mono (fun _ _ step => JSGraph.edge_of_step within step) _ _ found)
          refine Or.inr (Or.inr ⟨n, listed, found.tail (JSGraph.step_onward.mpr ⟨apart, ?_⟩)⟩)
          rw [emptied.intact split x up apart]
          exact JSGraph.mem_adjList.mpr edge

theorem within_update (within : ∀ n m, m ∈ adjList n → g.Edge n m) (s : TopoID) :
    ∀ n m, m ∈ Function.update adjList s [] n → g.Edge n m := by
  intro n m listed
  by_cases same : n = s
  · rw [same, Function.update_self] at listed
    exact absurd listed List.not_mem_nil
  · rw [Function.update_of_ne same] at listed
    exact within n m listed

theorem fresh_source (split : g.sources = done ++ s :: rest) : s ∉ done := by
  have distinct := g.sources_nodup
  rw [split, List.nodup_append] at distinct
  exact fun member => distinct.2.2 s member s List.mem_cons_self rfl

/-- The third pass records the nodes that a source reaches. -/
theorem Recorded.placeSources (nodes : g.nodes = alter.ids) (unionEnds : Worklist.Ends g.adjList union)
    (ends : ∀ s ∈ g.sources, Worklist.Ends g.adjList s) (split : g.sources = done ++ rest)
    (emptied : Emptied g union done adjList) (within : ∀ n m, m ∈ adjList n → g.Edge n m)
    (recorded : Recorded workerLocs placed state) (pinned : ∀ s ∈ g.sources, placed s)
    (above : ∀ x, Reaches g.Edge union x → placed x) :
    ∃ bound next, (∀ fuel ≥ bound, placeSources fuel alter union rest adjList state = .ok next) ∧
      Recorded workerLocs (fun id => placed id ∨ ∃ s ∈ rest, Reaches g.Edge s id) next := by
  induction rest generalizing done adjList placed state with
  | nil => exact ⟨0, state, fun _ _ => rfl, recorded.congr fun id => by simp⟩
  | cons s rest ih =>
      have source : s ∈ g.sources := by simp [split]
      have fresh := fresh_source split
      obtain ⟨w, here⟩ := Option.isSome_iff_exists.mp ((recorded.records s).mpr (pinned s source))
      obtain ⟨bound, mid, ran, found⟩ := recorded.placeDescendants nodes within ((g.mem_sources s).mp source).1
        (JSGraph.not_transGen_source source) (some union)
        ((emptied.ends_iff split within unionEnds fresh).mpr (ends s source)) (recorded.located s w here)
        (recorded.present s w here)
      have recordedMid : Recorded workerLocs (fun id => placed id ∨ Reaches g.Edge s id) mid := by
        refine found.congr fun id => ⟨fun known => known.imp_right ?_, fun known => ?_⟩
        · rintro (rfl | ⟨n, listed, path⟩)
          · exact .refl
          · refine .head (within s n listed) ?_
            exact Relation.ReflTransGen.mono (fun _ _ step => JSGraph.edge_of_step within step) _ _ path
        · rcases known with known | path
          · exact Or.inl known
          · exact (emptied.covers split within fresh path).imp_left (above id)
      obtain ⟨later, next, run, after⟩ := ih (by simpa using split) (emptied.source s) (within_update within s) recordedMid
        (fun t member => Or.inl (pinned t member)) fun x path => Or.inl (above x path)
      refine ⟨max bound later, next, fun fuel enough => ?_, after.congr fun id => ?_⟩
      · simp only [QueryPlanner.placeSources, here, ran fuel (le_of_max_le_left enough), Except.bind]
        exact run fuel (le_of_max_le_right enough)
      · simp only [List.mem_cons, exists_eq_or_imp, or_assoc]

/-- When the third pass has ended, every way on from a source ends. -/
theorem ends_of_placeSources (unionEnds : Worklist.Ends g.adjList union) (split : g.sources = done ++ rest)
    (emptied : Emptied g union done adjList) (within : ∀ n m, m ∈ adjList n → g.Edge n m) {fuel : ℕ}
    {next : PlacementState} (run : placeSources fuel alter union rest adjList state = .ok next) :
    ∀ s ∈ rest, Worklist.Ends g.adjList s := by
  induction rest generalizing done adjList state with
  | nil => exact fun s member => absurd member List.not_mem_nil
  | cons s rest ih =>
      have source : s ∈ g.sources := by simp [split]
      rw [QueryPlanner.placeSources] at run
      split at run
      · cases run
      · obtain ⟨⟨mid, after⟩, ran, run⟩ := Except.exists_of_bind_eq_ok run
        obtain ⟨found, search⟩ := getDescendants_of_placeDescendants ran
        obtain ⟨ends, rfl⟩ := JSGraph.ends_of_getDescendants within (JSGraph.not_transGen_source source) search
        refine List.forall_mem_cons.mpr ⟨(emptied.ends_iff split within unionEnds (fresh_source split)).mp ends, ?_⟩
        exact ih (by simpa using split) (emptied.source s) (within_update within s) run

end Searches

end QueryPlanner

end JetStream
