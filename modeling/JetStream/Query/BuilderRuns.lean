import JetStream.Query.CloneBack

namespace JetStream

namespace GraphBuilder

variable {g next : GraphBuilder}

/-- Edges that are there can all be deleted. -/
theorem loop_delEdge {edges : List (ℕ × ℕ)} (distinct : edges.Nodup) (listed : ∀ edge ∈ edges, g.Joins edge.1 edge.2) :
    ∃ left, Attempt.loop delEdge g edges = .done {g with edges := left} ∧
      ∀ edge : ℕ × ℕ, left.get? (toLex edge) = if edge ∈ edges then none else g.edges.get? (toLex edge) := by
  induction edges generalizing g with
  | nil => exact ⟨g.edges, rfl, fun edge => (if_neg List.not_mem_nil).symm⟩
  | cons first rest ih =>
      obtain ⟨aux, found⟩ := Option.isSome_iff_exists.mp (listed first List.mem_cons_self)
      obtain ⟨unlisted, distinctRest⟩ := List.nodup_cons.mp distinct
      have deleted : delEdge g first = .done {g with edges := g.edges.erase (toLex first)} := by rw [delEdge, found]
      obtain ⟨left, ran, after⟩ := ih (g := {g with edges := g.edges.erase (toLex first)}) distinctRest
        fun edge member => by
          have different : toLex edge ≠ toLex first := fun same => unlisted (toLex_inj.mp same ▸ member)
          rw [Joins, OrderedMap.get?_erase, if_neg different]
          exact listed edge (List.mem_cons_of_mem _ member)
      refine ⟨left, by rw [Attempt.loop, deleted]; exact ran, fun edge => ?_⟩
      rw [after, OrderedMap.get?_erase]
      by_cases same : edge = first
      · simp [same]
      · simp [same]

/-- Destinations that know their predecessor can all forget it. -/
theorem loop_removePred {oid : ℕ} {dests : List ℕ} (distinct : dests.Nodup)
    (known : ∀ id ∈ dests, ∃ d, g.destinations.get? id = some d ∧ oid ∈ d.preds) :
    ∃ destinations, Attempt.loop (removePred oid) g dests = .done {g with destinations := destinations} ∧
      ∀ id, destinations.get? id =
        if id ∈ dests then (g.destinations.get? id).map (GraphDestination.forget oid) else g.destinations.get? id := by
  induction dests generalizing g with
  | nil => exact ⟨g.destinations, rfl, fun id => (if_neg List.not_mem_nil).symm⟩
  | cons first rest ih =>
      obtain ⟨d, found, pred⟩ := known first List.mem_cons_self
      obtain ⟨unlisted, distinctRest⟩ := List.nodup_cons.mp distinct
      have removed : removePred oid g first =
          .done {g with destinations := g.destinations.set first (.forget oid d)} := by
        rw [removePred, found]
        exact if_pos pred
      obtain ⟨destinations, ran, after⟩ := ih (g := {g with destinations := g.destinations.set first (.forget oid d)})
        distinctRest fun id member => by
          have different : id ≠ first := fun same => unlisted (same ▸ member)
          rw [OrderedMap.get?_set, if_neg different]
          exact known id (List.mem_cons_of_mem _ member)
      refine ⟨destinations, by rw [Attempt.loop, removed]; exact ran, fun id => ?_⟩
      rw [after, OrderedMap.get?_set]
      by_cases same : id = first
      · rw [if_pos same, if_neg (same ▸ unlisted), if_pos (same ▸ List.mem_cons_self), same, found]
        rfl
      · simp [same]

/-- Edges that are there can all be capped. -/
theorem loop_capEdge {id : ℕ} (val : ℤ) {preds : List ℕ} (joined : ∀ p ∈ preds, g.Joins p id) :
    ∃ edges, Attempt.loop (capEdge id val) g preds = .done {g with edges := edges} ∧
      ∀ p e, edges.get? (toLex (p, e)) =
        if e = id ∧ p ∈ preds then some ⟨false, some val⟩ else g.edges.get? (toLex (p, e)) := by
  induction preds generalizing g with
  | nil => exact ⟨g.edges, rfl, fun p e => (if_neg fun member => List.not_mem_nil member.2).symm⟩
  | cons first rest ih =>
      obtain ⟨aux, found⟩ := Option.isSome_iff_exists.mp (joined first List.mem_cons_self)
      have capped : capEdge id val g first =
          .done {g with edges := g.edges.set (toLex (first, id)) ⟨false, some val⟩} := by
        rw [capEdge, found]
      obtain ⟨edges, ran, after⟩ := ih (g := {g with edges := g.edges.set (toLex (first, id)) ⟨false, some val⟩})
        fun p member => OrderedMap.isSome_get?_set (joined p (List.mem_cons_of_mem _ member)) _ _
      refine ⟨edges, by rw [Attempt.loop, capped]; exact ran, fun p e => ?_⟩
      rw [after, OrderedMap.get?_set]
      by_cases same : p = first ∧ e = id
      · obtain ⟨rfl, rfl⟩ := same
        simp
      · have different : toLex (p, e) ≠ toLex (first, id) := fun keys => same (Prod.mk.inj (toLex_inj.mp keys))
        rw [if_neg different]
        by_cases here : e = id
        · have other : p ≠ first := fun equal => same ⟨equal, here⟩
          simp [here, other]
        · simp [here]

/-- A destination leaves with its edges, the others forget it, and nothing else changes. -/
structure Removed (g : GraphBuilder) (oid : ℕ) (next : GraphBuilder) : Prop where
  nID : next.nID = g.nID
  externalEdges : next.externalEdges = g.externalEdges
  policies : next.policies = g.policies
  edges : ∀ p e, next.edges.get? (toLex (p, e)) = if p = oid ∨ e = oid then none else g.edges.get? (toLex (p, e))
  destinations : ∀ id, next.destinations.get? id =
    if id = oid then none else (g.destinations.get? id).map (GraphDestination.forget oid)

/-- The limit is set on all in-edges, and nothing else changes. -/
structure Capped (g : GraphBuilder) (id : ℕ) (val : ℤ) (next : GraphBuilder) : Prop where
  nID : next.nID = g.nID
  externalEdges : next.externalEdges = g.externalEdges
  policies : next.policies = g.policies
  destinations : next.destinations = g.destinations
  edges : ∀ p e, next.edges.get? (toLex (p, e)) =
    if e = id ∧ g.Joins p e then some ⟨false, some val⟩ else g.edges.get? (toLex (p, e))

theorem mem_outEdges {oid : ℕ} {edge : ℕ × ℕ} : edge ∈ g.outEdges oid ↔ edge.1 = oid ∧ g.Joins edge.1 edge.2 := by
  rw [outEdges, List.mem_filter, List.mem_map, decide_eq_true_iff, and_comm]
  refine and_congr_right fun _ => ?_
  constructor
  · rintro ⟨⟨key, aux⟩, member, rfl⟩
    exact Option.isSome_of_mem (g.edges.mem_entries_iff.mp member)
  · intro joins
    obtain ⟨aux, found⟩ := Option.isSome_iff_exists.mp joins
    exact ⟨(toLex edge, aux), g.edges.mem_entries_iff.mpr found, rfl⟩

theorem nodup_outEdges (g : GraphBuilder) (oid : ℕ) : (g.outEdges oid).Nodup := by
  refine List.Nodup.filter _ ?_
  rw [List.Nodup, List.pairwise_map]
  exact g.edges.sorted.imp fun less same => less.ne (ofLex_inj.mp same)

/-- The edges from the predecessors of a destination are all its in-edges. -/
theorem Consistent.delInEdges (consistent : g.Consistent) {oid : ℕ} {o : GraphDestination}
    (found : g.destinations.get? oid = some o) :
    ∃ left, Attempt.loop delEdge g ((o.preds.sort (· ≤ ·)).map fun p => (p, oid)) = .done {g with edges := left} ∧
      ∀ p e, left.get? (toLex (p, e)) = if e = oid then none else g.edges.get? (toLex (p, e)) := by
  have member (p e : ℕ) : (p, e) ∈ (o.preds.sort (· ≤ ·)).map (fun p => (p, oid)) ↔ e = oid ∧ g.Joins p e := by
    rw [List.mem_map]
    constructor
    · rintro ⟨other, listed, same⟩
      obtain ⟨rfl, rfl⟩ := Prod.mk.inj same
      exact ⟨rfl, (consistent.preds oid o found other).mp ((Finset.mem_sort _).mp listed)⟩
    · rintro ⟨rfl, joins⟩
      exact ⟨p, (Finset.mem_sort _).mpr ((consistent.preds e o found p).mpr joins), rfl⟩
  have distinct : ((o.preds.sort (· ≤ ·)).map fun p => (p, oid)).Nodup :=
    (Finset.sort_nodup _ _).map fun _ _ same => (Prod.mk.inj same).1
  obtain ⟨left, ran, after⟩ := loop_delEdge distinct fun edge listed => ((member edge.1 edge.2).mp listed).2
  refine ⟨left, ran, fun p e => ?_⟩
  rw [after]
  by_cases into : e = oid
  · rw [if_pos into]
    by_cases joins : g.Joins p e
    · exact if_pos ((member p e).mpr ⟨into, joins⟩)
    · rw [if_neg fun listed => joins ((member p e).mp listed).2]
      exact Option.not_isSome_iff_eq_none.mp joins
  · rw [if_neg into, if_neg fun listed => into ((member p e).mp listed).1]

/-- All that is to be deleted is there, so no exception is raised. -/
theorem Consistent.remove (consistent : g.Consistent) {oid : ℕ} (there : g.Has oid) :
    ∃ next, g.remove oid = .done next ∧ g.Removed oid next := by
  obtain ⟨o, found⟩ := there.exists_dest
  obtain ⟨edges₁, first, left⟩ := consistent.delInEdges found
  let g₁ : GraphBuilder := {g with edges := edges₁}
  have joins₁ (p e : ℕ) : g₁.Joins p e ↔ e ≠ oid ∧ g.Joins p e := by
    rw [Joins, left]
    by_cases into : e = oid
    · simp [into]
    · simp [into, Joins]
  have out {edge : ℕ × ℕ} : edge ∈ g₁.outEdges oid ↔ edge.1 = oid ∧ edge.2 ≠ oid ∧ g.Joins edge.1 edge.2 := by
    rw [mem_outEdges, joins₁]
  have distinct : ((g₁.outEdges oid).map Prod.snd).Nodup := by
    refine List.Nodup.map_on (fun edge member other otherMember same => ?_) (g₁.nodup_outEdges oid)
    exact Prod.ext ((out.mp member).1.trans (out.mp otherMember).1.symm) same
  have mem_dests (id : ℕ) : id ∈ (g₁.outEdges oid).map Prod.snd ↔ id ≠ oid ∧ g.Joins oid id := by
    rw [List.mem_map]
    constructor
    · rintro ⟨edge, member, rfl⟩
      obtain ⟨source, other, joins⟩ := out.mp member
      exact ⟨other, source ▸ joins⟩
    · rintro ⟨other, joins⟩
      exact ⟨(oid, id), out.mpr ⟨rfl, other, joins⟩, rfl⟩
  obtain ⟨destinations, second, after⟩ := loop_removePred (g := g₁) distinct fun id member => by
    obtain ⟨other, joins⟩ := (mem_dests id).mp member
    obtain ⟨d, listed⟩ := (consistent.inside oid id joins).2.exists_dest
    exact ⟨d, listed, (consistent.preds id d listed oid).mpr joins⟩
  obtain ⟨edges₂, third, left₂⟩ := loop_delEdge (g := {g₁ with destinations := destinations}) (g₁.nodup_outEdges oid)
    fun edge member => (mem_outEdges.mp member).2
  refine ⟨{g with edges := edges₂, destinations := destinations.erase oid}, ?_, rfl, rfl, rfl, ?_, ?_⟩
  · rw [GraphBuilder.remove, found]
    simp only [first, Attempt.bind]
    rw [second]
    dsimp only
    rw [third]
    rfl
  · intro p e
    have gone : (p, e) ∈ g₁.outEdges oid ↔ p = oid ∧ e ≠ oid ∧ g.Joins p e := out
    rw [left₂, left]
    by_cases into : e = oid
    · simp [into]
    · by_cases source : p = oid
      · rw [if_pos (Or.inl source), if_neg into]
        by_cases joins : g.Joins p e
        · exact if_pos (gone.mpr ⟨source, into, joins⟩)
        · rw [if_neg fun member => joins (gone.mp member).2.2]
          exact Option.not_isSome_iff_eq_none.mp joins
      · rw [if_neg fun member => source (gone.mp member).1, if_neg into, if_neg (not_or.mpr ⟨source, into⟩)]
  · intro id
    rw [OrderedMap.get?_erase, after]
    by_cases here : id = oid
    · rw [if_pos here, if_pos here]
    · rw [if_neg here, if_neg here]
      by_cases joins : g.Joins oid id
      · exact if_pos ((mem_dests id).mpr ⟨here, joins⟩)
      · rw [if_neg fun member => joins ((mem_dests id).mp member).2]
        cases listed : g.destinations.get? id with
        | none => rfl
        | some d =>
            have unknown : oid ∉ d.preds := fun member => joins ((consistent.preds id d listed oid).mp member)
            rw [Option.map_some, GraphDestination.forget, Finset.erase_eq_of_notMem unknown]

theorem Removed.consistent {oid : ℕ} (removed : g.Removed oid next) (consistent : g.Consistent) : next.Consistent := by
  have kept {id : ℕ} {dest : GraphDestination} (found : next.destinations.get? id = some dest) :
      id ≠ oid ∧ ∃ d, g.destinations.get? id = some d ∧ dest = d.forget oid := by
    rw [removed.destinations] at found
    split_ifs at found with here
    obtain ⟨d, listed, rfl⟩ := Option.map_eq_some_iff.mp found
    exact ⟨here, d, listed, rfl⟩
  refine ⟨?_, ?_, ?_⟩
  · intro id dest found
    obtain ⟨-, d, listed, -⟩ := kept found
    rw [removed.nID]
    exact consistent.fresh id d listed
  · intro id dest found p
    obtain ⟨other, d, listed, rfl⟩ := kept found
    rw [removed.edges, GraphDestination.forget, Finset.mem_erase, consistent.preds id d listed]
    by_cases source : p = oid
    · simp [source]
    · simp [source, other]
  · intro p e joins
    rw [removed.edges] at joins
    split_ifs at joins with gone
    · cases joins
    · obtain ⟨source, into⟩ := not_or.mp gone
      obtain ⟨first, second⟩ := consistent.inside p e joins
      rw [Has, Has, removed.destinations, removed.destinations, if_neg source, if_neg into, Option.isSome_map,
        Option.isSome_map]
      exact ⟨first, second⟩

theorem Consistent.setInlinkBwcap (consistent : g.Consistent) {id : ℕ} (there : g.Has id) (val : ℤ)
    (joined : ∃ p, g.Joins p id) : ∃ next, g.setInlinkBwcap id val = .done next ∧ g.Capped id val next := by
  obtain ⟨dest, found⟩ := there.exists_dest
  obtain ⟨p, joins⟩ := joined
  have preceded : dest.preds ≠ ∅ := Finset.ne_empty_of_mem ((consistent.preds id dest found p).mpr joins)
  obtain ⟨edges, ran, after⟩ := loop_capEdge (g := g) val fun p member =>
    (consistent.preds id dest found p).mp ((Finset.mem_sort (· ≤ ·)).mp member)
  refine ⟨{g with edges := edges}, ?_, rfl, rfl, rfl, rfl, ?_⟩
  · rw [GraphBuilder.setInlinkBwcap, found]
    exact (if_neg preceded).trans ran
  · intro p e
    rw [after]
    refine if_congr (and_congr_right fun here => ?_) rfl rfl
    rw [Finset.mem_sort, consistent.preds id dest found, here]
    rfl

theorem Consistent.setInlinkBwcap_refused (consistent : g.Consistent) {id : ℕ} (there : g.Has id) (val : ℤ)
    (alone : ¬ ∃ p, g.Joins p id) : g.setInlinkBwcap id val =
      .refused (.schemaError "No predecessors; you need to have some first before setting bwcap" []) g := by
  obtain ⟨dest, found⟩ := there.exists_dest
  have empty : dest.preds = ∅ := Finset.eq_empty_of_forall_notMem fun p member =>
    alone ⟨p, (consistent.preds id dest found p).mp member⟩
  rw [GraphBuilder.setInlinkBwcap, found]
  exact if_pos empty

theorem Capped.consistent {id : ℕ} {val : ℤ} (capped : g.Capped id val next) (consistent : g.Consistent) :
    next.Consistent := by
  have joins (p e : ℕ) : (next.edges.get? (toLex (p, e))).isSome ↔ g.Joins p e := by
    rw [capped.edges]
    by_cases here : e = id ∧ g.Joins p e
    · rw [if_pos here]
      exact iff_of_true rfl here.2
    · rw [if_neg here]
      rfl
  refine ⟨?_, ?_, ?_⟩
  · rw [capped.destinations, capped.nID]
    exact consistent.fresh
  · intro other dest found p
    rw [joins]
    exact consistent.preds other dest (capped.destinations ▸ found) p
  · intro p e joined
    rw [Has, Has, capped.destinations]
    exact consistent.inside p e ((joins p e).mp joined)

theorem swept_of_cloneBackFrom {picks : List ℕ} {items : KeyOrder} {head numcopies : ℕ}
    {copies : GraphBuilder × List ℕ} (cloned : g.cloneBackFrom picks items head numcopies = some copies) :
    ∃ found, sweep g.predList g.inspect picks [head] ([], []) = some found := by
  rw [cloneBackFrom, Option.bind_eq_bind, Option.bind_eq_some_iff] at cloned
  obtain ⟨found, swept, -⟩ := cloned
  exact ⟨found, swept⟩

/-- The copies that are given back are as they should be. -/
theorem Consistent.cloneBackFrom (consistent : g.Consistent) {head : ℕ} (there : g.Has head) {picks : List ℕ}
    {items : KeyOrder} {numcopies : ℕ} {copies : GraphBuilder × List ℕ}
    (cloned : g.cloneBackFrom picks items head numcopies = some copies) :
    ∃ nodes : List ℕ, nodes.Nodup ∧ (∀ a, a ∈ nodes ↔ Relation.ReflTransGen g.Joins a head) ∧
      g.Cloned nodes head numcopies copies := by
  obtain ⟨found, swept⟩ := swept_of_cloneBackFrom cloned
  obtain ⟨made, ran, spec⟩ := consistent.cloneBackFrom_of_swept there items swept numcopies
  obtain rfl := Option.some.inj (ran.symm.trans cloned)
  exact spec

/-- This is what a call does to the graph. A call that raises an exception does nothing. -/
inductive Change (g next : GraphBuilder) : Prop where
  | none (same : next = g)
  | added (kind : DestinationKind) (made : next = (g.addDestination kind).1)
  | connected (oper1 oper2 : ℕ) (bwLimit : ℤ) (connects : g.connect oper1 oper2 bwLimit = some next)
  | external (operator : ℕ) (nodeid : NodeID) (made : next = g.connectExternal operator nodeid)
  | policy (oplist : List ℕ) (made : next = g.addPolicy oplist)
  | capped (id : ℕ) (val : ℤ) (caps : g.Capped id val next)
  | placed (id : ℕ) (n : NodeID) (dest : GraphDestination) (found : g.destinations.get? id = some dest)
      (made : next = {g with destinations := g.destinations.set id {dest with location := some n}})
  | removed (id : ℕ) (removes : g.Removed id next)
  | cloned (nodes : List ℕ) (head n : ℕ) (heads : List ℕ) (clones : g.Cloned nodes head n (next, heads))

theorem Consistent.step_cases (consistent : g.Consistent) {call : BuilderCall} (stepped : g.step call = some next) :
    g.Change next := by
  rw [GraphBuilder.step] at stepped
  split_ifs at stepped with there
  cases call with
  | addDestination kind => exact .added kind (Option.some.inj stepped).symm
  | connect oper1 oper2 bwLimit =>
      rw [GraphBuilder.call] at stepped
      cases connects : g.connect oper1 oper2 bwLimit with
      | none => rw [connects] at stepped; cases stepped
      | some after =>
          rw [connects] at stepped
          obtain rfl := Option.some.inj stepped
          exact .connected oper1 oper2 bwLimit connects
  | connectExternal operator nodeid => exact .external operator nodeid (Option.some.inj stepped).symm
  | addPolicy oplist => exact .policy oplist (Option.some.inj stepped).symm
  | setInlinkDummy id =>
      obtain ⟨dest, found⟩ := (there id List.mem_cons_self).exists_dest
      rw [GraphBuilder.call, setInlinkDummy, found] at stepped
      by_cases alone : dest.preds = ∅
      · simp only [alone, if_true] at stepped
        exact .none (Option.some.inj stepped).symm
      · simp only [alone, if_false] at stepped
        exact .none (Option.some.inj stepped).symm
  | setInlinkBwcap id val =>
      have here : g.Has id := there id List.mem_cons_self
      by_cases joined : ∃ p, g.Joins p id
      · obtain ⟨after, capped, spec⟩ := consistent.setInlinkBwcap here val joined
        rw [GraphBuilder.call, capped] at stepped
        obtain rfl := Option.some.inj stepped
        exact .capped id val spec
      · rw [GraphBuilder.call, consistent.setInlinkBwcap_refused here val joined] at stepped
        exact .none (Option.some.inj stepped).symm
  | instantiateOn id n =>
      obtain ⟨dest, found⟩ := (there id List.mem_cons_self).exists_dest
      rw [GraphBuilder.call, instantiateOn, found] at stepped
      exact .placed id n dest found (Option.some.inj stepped).symm
  | remove id =>
      obtain ⟨after, removed, spec⟩ := consistent.remove (there id List.mem_cons_self)
      rw [GraphBuilder.call, removed] at stepped
      obtain rfl := Option.some.inj stepped
      exact .removed id spec
  | cloneBackFrom picks items head numcopies =>
      rw [GraphBuilder.call] at stepped
      cases made : g.cloneBackFrom picks items head numcopies with
      | none => rw [made] at stepped; cases stepped
      | some copies =>
          rw [made] at stepped
          obtain ⟨nodes, -, -, cloned⟩ := consistent.cloneBackFrom (there head List.mem_cons_self) made
          obtain rfl := Option.some.inj stepped
          exact .cloned nodes head numcopies copies.2 cloned

/-- Every call leaves the graph consistent, also one that raises an exception. -/
theorem Change.consistent (change : g.Change next) (consistent : g.Consistent) : next.Consistent := by
  cases change with
  | none same => exact same ▸ consistent
  | added kind made => exact made ▸ consistent.addDestination kind
  | connected oper1 oper2 bwLimit connects => exact consistent.connect connects
  | external operator nodeid made => exact made ▸ ⟨consistent.fresh, consistent.preds, consistent.inside⟩
  | policy oplist made => exact made ▸ ⟨consistent.fresh, consistent.preds, consistent.inside⟩
  | capped id val caps => exact caps.consistent consistent
  | placed id n dest found made => exact made ▸ consistent.setNode found rfl
  | removed id removes => exact removes.consistent consistent
  | cloned nodes head n heads clones => exact clones.consistent

theorem consistent_of_reachable (reachable : system.Reachable g) : g.Consistent :=
  reachable.invariant Consistent new_consistent fun _ _ _ consistent stepped =>
    (consistent.step_cases stepped).consistent consistent

/-- No call gives an id back. -/
theorem Change.nID_le (change : g.Change next) : g.nID ≤ next.nID := by
  cases change with
  | none same => exact same ▸ le_rfl
  | added kind made => exact made ▸ Nat.le_succ _
  | connected oper1 oper2 bwLimit connects =>
      obtain ⟨source, dest, -, -, rfl⟩ := connect_eq_some connects
      exact le_rfl
  | external operator nodeid made => exact made ▸ le_rfl
  | policy oplist made => exact made ▸ le_rfl
  | capped id val caps => exact caps.nID.ge
  | placed id n dest found made => exact made ▸ le_rfl
  | removed id removes => exact removes.nID.ge
  | cloned nodes head n heads clones => exact (Nat.le_add_right _ _).trans clones.nID.ge

theorem Consistent.nID_le_of_runFrom (consistent : g.Consistent) {calls : List BuilderCall} {later : GraphBuilder}
    (ran : system.runFrom g calls = some later) : g.nID ≤ later.nID := by
  have kept := EventSystem.runFrom_invariant (fun after : GraphBuilder => after.Consistent ∧ g.nID ≤ after.nID)
    (fun _ _ _ before stepped => by
      have change := before.1.step_cases stepped
      exact ⟨change.consistent before.1, before.2.trans change.nID_le⟩)
    ⟨consistent, le_rfl⟩ ran
  exact kept.2

/-- The calls that change edges find what they need. Only a limit without an in-edge is refused, and a dummy mark with
one. The next id never falls, so no id is handed out twice. -/
structure Maintained (g : GraphBuilder) : Prop where
  consistent : g.Consistent
  once : ∀ calls later, system.runFrom g calls = some later → g.nID ≤ later.nID
  removes : ∀ id, g.Has id → ∃ next, g.remove id = .done next ∧ g.Removed id next
  caps : ∀ id val, g.Has id → (∃ p, g.Joins p id) → ∃ next, g.setInlinkBwcap id val = .done next ∧ g.Capped id val next
  refusesCap : ∀ id val, g.Has id → (¬ ∃ p, g.Joins p id) → g.setInlinkBwcap id val =
    .refused (.schemaError "No predecessors; you need to have some first before setting bwcap" []) g
  refusesDummy : ∀ id, g.Has id → (∃ p, g.Joins p id) → g.setInlinkDummy id = .refused .keyError g

/-- In every graph that a client builds, the predecessors and the edges agree, so the calls raise no other exception. -/
theorem builder_keeps (g : GraphBuilder) (reachable : system.Reachable g) : g.Maintained := by
  have consistent : g.Consistent := consistent_of_reachable reachable
  refine ⟨consistent, ?_, ?_, ?_, ?_, ?_⟩
  · intro calls later ran
    exact consistent.nID_le_of_runFrom ran
  · intro id there
    exact consistent.remove there
  · intro id val there joined
    exact consistent.setInlinkBwcap there val joined
  · intro id val there alone
    exact consistent.setInlinkBwcap_refused there val alone
  · rintro id there ⟨p, joins⟩
    obtain ⟨dest, found⟩ := there.exists_dest
    have known : dest.preds ≠ ∅ := Finset.ne_empty_of_mem ((consistent.preds id dest found p).mpr joins)
    rw [setInlinkDummy, found]
    exact if_neg known

/-- A source feeds a cube that a subscriber reads. -/
def lineCalls : List BuilderCall :=
  [.addDestination .operator, .addDestination .cube, .addDestination .timeSubscriber, .connect 1 2 (-1),
    .connect 2 3 100]

def line : GraphBuilder := (system.runFrom new lineCalls).get (by decide)

theorem line_reachable : system.Reachable line := ⟨lineCalls, (Option.some_get _).symm⟩

theorem builder_keeps_line : line.Maintained := builder_keeps line line_reachable

/-- The copies of a destination and of everything that leads to it are made exactly if none of these is on a cycle. -/
structure Clones (g : GraphBuilder) (items : KeyOrder) (head numcopies : ℕ) : Prop where
  ends : (∀ a, Relation.ReflTransGen g.Joins a head → ¬ Relation.TransGen g.Joins a a) →
    ∃ bound : ℕ, ∀ picks : List ℕ, bound ≤ picks.length → (g.cloneBackFrom picks items head numcopies).isSome
  never : ∀ a, Relation.ReflTransGen g.Joins a head → Relation.TransGen g.Joins a a →
    ∀ picks, g.cloneBackFrom picks items head numcopies = none
  copies : ∀ picks copies, g.cloneBackFrom picks items head numcopies = some copies →
    ∃ nodes : List ℕ, nodes.Nodup ∧ (∀ a, a ∈ nodes ↔ Relation.ReflTransGen g.Joins a head) ∧
      g.Cloned nodes head numcopies copies

theorem cloneBackFrom_clones (g : GraphBuilder) (reachable : system.Reachable g) (items : KeyOrder) (head numcopies : ℕ)
    (there : g.Has head) : g.Clones items head numcopies := by
  have consistent : g.Consistent := consistent_of_reachable reachable
  refine ⟨?_, ?_, ?_⟩
  · intro acyclic
    have ends : Sweep.Ends g.predList head := (consistent.ends_iff there).mpr acyclic
    have waits : ∀ a ∈ [head], Sweep.Ends g.predList a := fun a member => List.mem_singleton.mp member ▸ ends
    obtain ⟨bound, enough⟩ : ∃ bound : ℕ, ∀ (picks : List ℕ) (state : List ℕ × List (ℕ × ℕ)), bound ≤ picks.length →
        (sweep g.predList g.inspect picks [head] state).isSome := Sweep.sweep_ends [head] waits
    refine ⟨bound, fun picks long => ?_⟩
    obtain ⟨found, swept⟩ := Option.isSome_iff_exists.mp (enough picks ([], []) long)
    obtain ⟨copies, made, -⟩ := consistent.cloneBackFrom_of_swept there items swept numcopies
    exact Option.isSome_of_mem made
  · intro a reaches cycle picks
    have endless : ¬ Sweep.Ends g.predList head := fun ends => (consistent.ends_iff there).mp ends a reaches cycle
    rw [cloneBackFrom, Sweep.sweep_never List.mem_cons_self endless]
    rfl
  · intro picks copies made
    exact consistent.cloneBackFrom there made

/-- The search lists its nodes as it has found them. -/
def asFound : KeyOrder := ⟨id, fun _ => .rfl⟩

theorem cloneBackFrom_clones_line : (line.cloneBackFrom [0, 0, 0] asFound 3 2).isSome ∧ line.Clones asFound 3 2 :=
  ⟨by decide +kernel, cloneBackFrom_clones line line_reachable asFound 3 2 (by decide)⟩

end GraphBuilder

end JetStream
