import JetStream.Control.Descendants
import JetStream.Control.TopoGraph

namespace JetStream

/-- These operators and cubes are on the worker. -/
def WorkerAssignment.nodes (assignment : WorkerAssignment) : List PlanNode :=
  assignment.operators.map .operator ++ assignment.cubes.map .cube

theorem WorkerAssignment.nodes_addNode (assignment : WorkerAssignment) (node : PlanNode) :
    (assignment.addNode node).nodes.Perm (node :: assignment.nodes) := by
  cases node with
  | operator op =>
      simp only [addNode, nodes, List.map_append, List.map_cons, List.map_nil, List.append_assoc, List.singleton_append]
      exact List.perm_middle
  | cube cube =>
      simp only [addNode, nodes, List.map_append, List.map_cons, List.map_nil, ← List.append_assoc]
      exact List.perm_append_singleton _ _

theorem WorkerAssignment.addNode_edges (assignment : WorkerAssignment) (node : PlanNode) :
    (assignment.addNode node).edges = assignment.edges ∧ (assignment.addNode node).policies = assignment.policies := by
  cases node <;> exact ⟨rfl, rfl⟩

theorem AlterTopo.exists_object {alter : AlterTopo} {id : TopoID} (known : id ∈ alter.ids) :
    ∃ node ∈ alter.planNodes, alter.object? id = some node ∧ getOid node = id := by
  obtain ⟨node, member, same⟩ := mem_ids.mp known
  cases found : alter.object? id with
  | none =>
      have missing := List.find?_eq_none.mp found node (List.mem_reverse.mpr member)
      exact absurd (decide_eq_true same) missing
  | some other =>
      refine ⟨other, List.mem_reverse.mp (List.mem_of_find?_eq_some found), rfl, ?_⟩
      exact of_decide_eq_true (List.find?_some (p := fun node => decide (getOid node = id)) found)

/-- Two nodes with one id are the same node. -/
theorem AlterTopo.IsClosed.getOid_inj {alter : AlterTopo} (closed : alter.IsClosed) {node other : PlanNode}
    (member : node ∈ alter.planNodes) (otherMember : other ∈ alter.planNodes) (same : getOid node = getOid other) :
    node = other :=
  List.inj_on_of_nodup_map closed.ids_nodup member otherMember same

theorem AlterTopo.IsClosed.object?_getOid {alter : AlterTopo} (closed : alter.IsClosed) {node : PlanNode}
    (member : node ∈ alter.planNodes) : alter.object? (getOid node) = some node := by
  obtain ⟨other, otherMember, found, same⟩ := exists_object (mem_ids.mpr ⟨node, member, rfl⟩)
  rw [found, closed.getOid_inj otherMember member same]

namespace QueryPlanner

/-- Each assignment holds the nodes recorded for its worker, and each record agrees with the given relation. -/
structure Sound (alter : AlterTopo) (spec : TopoID → NodeID → Prop) (state : PlacementState) : Prop where
  nodup : ∀ w a, state.assignments.get? w = some a → a.nodes.Nodup
  held : ∀ w a, state.assignments.get? w = some a → ∀ node, node ∈ a.nodes ↔
    node ∈ alter.planNodes ∧ state.taskToWorker (getOid node) = some w
  idle : ∀ w a, state.assignments.get? w = some a → a.edges = [] ∧ a.policies = []
  known : ∀ id w, state.taskToWorker id = some w → id ∈ alter.ids ∧ (state.assignments.get? w).isSome
  agrees : ∀ id w, state.taskToWorker id = some w → spec id w

/-- A recorded node keeps its worker. -/
def Grows (state next : PlacementState) : Prop :=
  ∀ id w, state.taskToWorker id = some w → next.taskToWorker id = some w

theorem Grows.trans {state next last : PlacementState} (first : Grows state next) (second : Grows next last) :
    Grows state last :=
  fun id w recorded => second id w (first id w recorded)

theorem Grows.isSome {state next : PlacementState} (grows : Grows state next) {id : TopoID}
    (recorded : (state.taskToWorker id).isSome) : (next.taskToWorker id).isSome := by
  obtain ⟨w, here⟩ := Option.isSome_iff_exists.mp recorded
  exact Option.isSome_iff_exists.mpr ⟨w, grows id w here⟩

theorem Grows.eq_none {state next : PlacementState} (grows : Grows state next) {id : TopoID}
    (unrecorded : next.taskToWorker id = none) : state.taskToWorker id = none := by
  by_contra recorded
  have still := grows.isSome (Option.isSome_iff_ne_none.mpr recorded)
  rw [unrecorded] at still
  exact Bool.false_ne_true still

theorem ensure_taskToWorker (state : PlacementState) (w : NodeID) :
    (state.ensure w).taskToWorker = state.taskToWorker := by
  rw [PlacementState.ensure]
  split_ifs <;> rfl

theorem ensure_isSome (state : PlacementState) (w : NodeID) : ((state.ensure w).assignments.get? w).isSome := by
  rw [PlacementState.ensure]
  split_ifs with present
  · exact present
  · rw [OrderedMap.get?_set, if_pos rfl]
    rfl

section Invariant

variable {alter : AlterTopo} {spec : TopoID → NodeID → Prop} {state : PlacementState}

theorem sound_empty (alter : AlterTopo) (spec : TopoID → NodeID → Prop) : Sound alter spec .empty := by
  constructor <;> intro _ _ recorded <;> cases recorded

theorem Sound.ensure (sound : Sound alter spec state) (w : NodeID) : Sound alter spec (state.ensure w) := by
  by_cases present : (state.assignments.get? w).isSome
  · rw [PlacementState.ensure, if_pos present]
    exact sound
  · have added : state.ensure w = { state with assignments := state.assignments.set w .new } := by
      rw [PlacementState.ensure, if_neg present]
    have cases_of {v : NodeID} {a : WorkerAssignment} (found : (state.ensure w).assignments.get? v = some a) :
        (v = w ∧ a = .new) ∨ state.assignments.get? v = some a := by
      rw [added] at found
      exact (OrderedMap.get?_set_cases found).imp_right And.right
    constructor
    · intro v a found
      rcases cases_of found with ⟨-, rfl⟩ | before
      · exact List.nodup_nil
      · exact sound.nodup v a before
    · intro v a found node
      rw [ensure_taskToWorker]
      rcases cases_of found with ⟨rfl, rfl⟩ | before
      · refine ⟨fun member => absurd member List.not_mem_nil, fun recorded => ?_⟩
        exact absurd (sound.known _ _ recorded.2).2 present
      · exact sound.held v a before node
    · intro v a found
      rcases cases_of found with ⟨-, rfl⟩ | before
      · exact ⟨rfl, rfl⟩
      · exact sound.idle v a before
    · intro id v recorded
      rw [ensure_taskToWorker] at recorded
      obtain ⟨inside, there⟩ := sound.known id v recorded
      rw [added]
      exact ⟨inside, OrderedMap.isSome_get?_set there w .new⟩
    · intro id v recorded
      rw [ensure_taskToWorker] at recorded
      exact sound.agrees id v recorded

/-- The assignment gets the node, and the node gets the worker. -/
def placed (state : PlacementState) (w : NodeID) (a : WorkerAssignment) (node : PlanNode) : PlacementState :=
  ⟨state.assignments.set w (a.addNode node), Function.update state.taskToWorker (getOid node) (some w)⟩

section Placed

variable {node : PlanNode} {w : NodeID} {a : WorkerAssignment}

theorem addNode_eq_placed (here : state.assignments.get? w = some a) :
    state.addNode w node = .ok (placed state w a node) := by
  simp only [PlacementState.addNode, PlacementState.change, here, orKeyError]
  rfl

theorem placed_own : (placed state w a node).taskToWorker (getOid node) = some w := Function.update_self _ _ _

theorem placed_other {id : TopoID} (other : id ≠ getOid node) :
    (placed state w a node).taskToWorker id = state.taskToWorker id := Function.update_of_ne other _ _

/-- A record is the new one or an old one under another id. -/
theorem placed_cases {id : TopoID} {v : NodeID} (recorded : (placed state w a node).taskToWorker id = some v) :
    id = getOid node ∧ v = w ∨ id ≠ getOid node ∧ state.taskToWorker id = some v := by
  by_cases same : id = getOid node
  · rw [same, placed_own] at recorded
    exact .inl ⟨same, (Option.some.inj recorded).symm⟩
  · rw [placed_other same] at recorded
    exact .inr ⟨same, recorded⟩

/-- The assignments hold the recorded nodes after the node is placed. -/
theorem Sound.held_placed (sound : Sound alter spec state) (closed : alter.IsClosed) (member : node ∈ alter.planNodes)
    (here : state.assignments.get? w = some a) (free : state.taskToWorker (getOid node) = none) {v : NodeID}
    {b : WorkerAssignment} (found : (placed state w a node).assignments.get? v = some b) (other : PlanNode) :
    other ∈ b.nodes ↔ other ∈ alter.planNodes ∧ (placed state w a node).taskToWorker (getOid other) = some v := by
  by_cases same : other = node
  · rw [same, placed_own, Option.some.injEq, and_iff_right member]
    rcases OrderedMap.get?_set_cases found with ⟨rfl, rfl⟩ | ⟨apart, before⟩
    · rw [(a.nodes_addNode node).mem_iff]
      exact ⟨fun _ => rfl, fun _ => List.mem_cons_self⟩
    · rw [sound.held v b before, free]
      exact iff_of_false (fun listed => nomatch listed.2) (Ne.symm apart)
  · have unchanged (inside : other ∈ alter.planNodes) :
        (placed state w a node).taskToWorker (getOid other) = state.taskToWorker (getOid other) :=
      placed_other fun sameOid => same (closed.getOid_inj inside member sameOid)
    rcases OrderedMap.get?_set_cases found with ⟨rfl, rfl⟩ | ⟨-, before⟩
    · rw [(a.nodes_addNode node).mem_iff, List.mem_cons, or_iff_right same, sound.held v a here]
      exact and_congr_right fun inside => by rw [unchanged inside]
    · rw [sound.held v b before]
      exact and_congr_right fun inside => by rw [unchanged inside]

/-- Placing a node that has no worker keeps the records in order. -/
theorem Sound.placed (sound : Sound alter spec state) (closed : alter.IsClosed) (member : node ∈ alter.planNodes)
    (here : state.assignments.get? w = some a) (free : state.taskToWorker (getOid node) = none)
    (fits : spec (getOid node) w) : Sound alter spec (placed state w a node) where
  nodup := by
    have absent : node ∉ a.nodes := by
      intro inside
      have recorded := ((sound.held w a here node).mp inside).2
      rw [free] at recorded
      cases recorded
    intro v b found
    rcases OrderedMap.get?_set_cases found with ⟨-, rfl⟩ | ⟨-, before⟩
    · exact (a.nodes_addNode node).nodup_iff.mpr (List.nodup_cons.mpr ⟨absent, sound.nodup w a here⟩)
    · exact sound.nodup v b before
  held := fun v b found other => sound.held_placed closed member here free found other
  idle := by
    intro v b found
    rcases OrderedMap.get?_set_cases found with ⟨-, rfl⟩ | ⟨-, before⟩
    · rw [(a.addNode_edges node).1, (a.addNode_edges node).2]
      exact sound.idle w a here
    · exact sound.idle v b before
  known := by
    intro id v recorded
    have there (before : (state.assignments.get? v).isSome) :
        ((QueryPlanner.placed state w a node).assignments.get? v).isSome := OrderedMap.isSome_get?_set before w _
    rcases placed_cases recorded with ⟨same, rfl⟩ | ⟨-, before⟩
    · exact ⟨same ▸ AlterTopo.mem_ids.mpr ⟨node, member, rfl⟩, there (Option.isSome_of_eq_some here)⟩
    · exact ⟨(sound.known id v before).1, there (sound.known id v before).2⟩
  agrees := by
    intro id v recorded
    rcases placed_cases recorded with ⟨same, rfl⟩ | ⟨-, before⟩
    · exact same ▸ fits
    · exact sound.agrees id v before

end Placed

/-- Placing a node that has no worker keeps all other records. -/
theorem Sound.addNode (sound : Sound alter spec state) (closed : alter.IsClosed) {node : PlanNode}
    (member : node ∈ alter.planNodes) {w : NodeID} (free : state.taskToWorker (getOid node) = none)
    (present : (state.assignments.get? w).isSome) (fits : spec (getOid node) w) :
    ∃ next, state.addNode w node = .ok next ∧ Sound alter spec next ∧ Grows state next ∧
      next.taskToWorker (getOid node) = some w ∧
      ∀ id, id ≠ getOid node → next.taskToWorker id = state.taskToWorker id := by
  obtain ⟨a, here⟩ := Option.isSome_iff_exists.mp present
  refine ⟨_, addNode_eq_placed here, sound.placed closed member here free fits, ?_, placed_own,
    fun _ other => placed_other other⟩
  intro id v recorded
  have apart : id ≠ getOid node := by
    rintro rfl
    rw [free] at recorded
    cases recorded
  exact (placed_other apart).trans recorded

/-- The first pass records every node that has to wait for no other node. -/
theorem Sound.pinNodes (sound : Sound alter spec state) (closed : alter.IsClosed) {g : JSGraph TopoID}
    {workerLocs : OrderedMap NodeID NodeID} {defaultWorkerID : NodeID} {nodes : List PlanNode}
    (inside : nodes ⊆ alter.planNodes) (distinct : (nodes.map getOid).Nodup)
    (free : ∀ node ∈ nodes, state.taskToWorker (getOid node) = none)
    (fits : ∀ node ∈ nodes, ∀ w, pinWorker g workerLocs defaultWorkerID node = some w → spec (getOid node) w) :
    ∃ next, pinNodes g workerLocs defaultWorkerID nodes state = .ok next ∧ Sound alter spec next ∧ Grows state next ∧
      ∀ node ∈ nodes, ∀ w, pinWorker g workerLocs defaultWorkerID node = some w →
        next.taskToWorker (getOid node) = some w := by
  induction nodes generalizing state with
  | nil => exact ⟨state, rfl, sound, fun _ _ recorded => recorded, by simp⟩
  | cons node rest ih =>
      obtain ⟨member, others⟩ := List.cons_subset.mp inside
      obtain ⟨fresh, distinctRest⟩ := List.nodup_cons.mp distinct
      obtain ⟨freeHead, freeRest⟩ := List.forall_mem_cons.mp free
      obtain ⟨fitsHead, fitsRest⟩ := List.forall_mem_cons.mp fits
      cases pinned : pinWorker g workerLocs defaultWorkerID node with
      | none =>
          obtain ⟨next, run, soundNext, grows, done⟩ := ih sound others distinctRest freeRest fitsRest
          refine ⟨next, by simp only [QueryPlanner.pinNodes, pinned, run], soundNext, grows, ?_⟩
          refine List.forall_mem_cons.mpr ⟨fun w here => ?_, done⟩
          rw [pinned] at here
          cases here
      | some w =>
          have sameRecords := ensure_taskToWorker state w
          obtain ⟨mid, added, soundMid, growsMid, own, apart⟩ := (sound.ensure w).addNode closed member
            (by rw [sameRecords]; exact freeHead) (ensure_isSome state w) (fitsHead w pinned)
          have freeMid (other : PlanNode) (later : other ∈ rest) : mid.taskToWorker (getOid other) = none := by
            have different : getOid other ≠ getOid node := fun same => fresh (same ▸ List.mem_map_of_mem later)
            rw [apart _ different, sameRecords]
            exact freeRest other later
          obtain ⟨next, run, soundNext, grows, done⟩ := ih soundMid others distinctRest freeMid fitsRest
          refine ⟨next, ?_, soundNext, ?_, List.forall_mem_cons.mpr ⟨?_, done⟩⟩
          · simp only [QueryPlanner.pinNodes, pinned, added]
            exact run
          · intro id v recorded
            exact grows id v (growsMid id v (by rw [sameRecords]; exact recorded))
          · intro v here
            rw [pinned] at here
            obtain rfl := Option.some.inj here
            exact grows _ _ own

/-- A walk records all its nodes when each node may follow the node before it. -/
theorem Sound.placeNodes (sound : Sound alter spec state) (closed : alter.IsClosed) {path : List TopoID} {w : NodeID}
    (inside : path ⊆ alter.ids) (present : (state.assignments.get? w).isSome)
    (first : ∀ x ∈ path.head?, state.taskToWorker x = none → spec x w)
    (follow : path.IsChain fun x y => state.taskToWorker y = none → ∀ w, spec x w → spec y w) :
    ∃ next, placeNodes alter path w state = .ok next ∧ Sound alter spec next ∧ Grows state next ∧
      ∀ x ∈ path, (next.taskToWorker x).isSome := by
  induction path generalizing state w with
  | nil => exact ⟨state, rfl, sound, fun _ _ recorded => recorded, by simp⟩
  | cons x rest ih =>
      obtain ⟨member, others⟩ := List.cons_subset.mp inside
      have walk {mid : PlacementState} {v : NodeID} (soundMid : Sound alter spec mid) (grows : Grows state mid)
          (own : mid.taskToWorker x = some v) :
          ∃ next, QueryPlanner.placeNodes alter rest v mid = .ok next ∧ Sound alter spec next ∧ Grows state next ∧
            ∀ y ∈ x :: rest, (next.taskToWorker y).isSome := by
        obtain ⟨next, run, soundNext, growsNext, done⟩ := ih soundMid others (soundMid.known x v own).2
          (by
            intro y head unrecorded
            obtain ⟨tail, rfl⟩ : ∃ tail, rest = y :: tail := by
              cases rest with
              | nil => cases head
              | cons z tail =>
                  obtain rfl : z = y := by simpa using head
                  exact ⟨tail, rfl⟩
            exact (List.isChain_cons_cons.mp follow).1 (grows.eq_none unrecorded) v (soundMid.agrees x v own))
          (follow.tail.imp fun _ _ step unrecorded => step (grows.eq_none unrecorded))
        refine ⟨next, run, soundNext, grows.trans growsNext, List.forall_mem_cons.mpr ⟨?_, done⟩⟩
        exact growsNext.isSome (Option.isSome_iff_exists.mpr ⟨v, own⟩)
      cases recorded : state.taskToWorker x with
      | some v =>
          obtain ⟨next, run, rest⟩ := walk sound (fun _ _ same => same) recorded
          exact ⟨next, by simp only [QueryPlanner.placeNodes, recorded, run], rest⟩
      | none =>
          obtain ⟨node, known, found, rfl⟩ := AlterTopo.exists_object member
          obtain ⟨mid, added, soundMid, grows, own, -⟩ := sound.addNode closed known recorded present
            (first _ (by simp) recorded)
          obtain ⟨next, run, rest⟩ := walk soundMid grows own
          refine ⟨next, ?_, rest⟩
          simp only [QueryPlanner.placeNodes, recorded, found, orKeyError]
          simp only [Except.bind, added]
          exact run

end Invariant

end QueryPlanner

end JetStream
