import JetStream.Query.GraphBuilder

namespace JetStream

namespace GraphBuilder

/-- The first destination is a predecessor of the second one. -/
def Joins (g : GraphBuilder) (p e : ℕ) : Prop := (g.edges.get? (toLex (p, e))).isSome

instance (g : GraphBuilder) (p e : ℕ) : Decidable (g.Joins p e) := inferInstanceAs (Decidable (_ = true))

def label (g : GraphBuilder) (id : ℕ) : Option (DestinationKind × Option NodeID) :=
  (g.destinations.get? id).map fun dest => (dest.kind, dest.location)

/-- The copy of a destination has no place yet. -/
def copyLabel (label : DestinationKind × Option NodeID) : DestinationKind × Option NodeID := (label.1.copy, none)

/-- An edge between copies has no attributes. -/
def plain : EdgeAux := ⟨false, none⟩

variable {g h next : GraphBuilder} {ids nodes : List ℕ} {copies : GraphBuilder × OrderedMap ℕ ℕ}

theorem has_iff_label {id : ℕ} : g.Has id ↔ (g.label id).isSome := by rw [label, Option.isSome_map]; rfl

theorem Has.exists_dest {id : ℕ} (there : g.Has id) : ∃ dest, g.destinations.get? id = some dest :=
  Option.isSome_iff_exists.mp there

theorem Consistent.lt_of_has (consistent : g.Consistent) {id : ℕ} (there : g.Has id) : id < g.nID := by
  obtain ⟨dest, found⟩ := there.exists_dest
  exact consistent.fresh _ _ found

theorem label_addDestination (g : GraphBuilder) (kind : DestinationKind) (id : ℕ) :
    (g.addDestination kind).1.label id = if id = g.nID then some (kind, none) else g.label id := by
  rw [label, addDestination, OrderedMap.get?_set]
  split_ifs
  · rfl
  · rfl

/-- The nodes that have been copied so far have the next ids, in their order. -/
structure Copying (h : GraphBuilder) (ids : List ℕ) (copies : GraphBuilder × OrderedMap ℕ ℕ) : Prop where
  consistent : copies.1.Consistent
  nID : copies.1.nID = h.nID + ids.length
  edges : copies.1.edges = h.edges
  externalEdges : copies.1.externalEdges = h.externalEdges
  policies : copies.1.policies = h.policies
  kept : ∀ id < h.nID, copies.1.destinations.get? id = h.destinations.get? id
  copied : ∀ id ∈ ids, copies.1.label (h.nID + ids.idxOf id) = (h.label id).map copyLabel
  renamed : ∀ id ∈ ids, copies.2.get? id = some (h.nID + ids.idxOf id)

theorem Consistent.copying (consistent : h.Consistent) : Copying h [] (h, .empty) where
  consistent := consistent
  nID := rfl
  edges := rfl
  externalEdges := rfl
  policies := rfl
  kept := fun _ _ => rfl
  copied := nofun
  renamed := nofun

theorem Copying.step (copying : Copying h ids copies) {id : ℕ} (old : id < h.nID) (there : h.Has id)
    (unseen : id ∉ ids) : ∃ next, copyDest copies id = some next ∧ Copying h (ids ++ [id]) next := by
  obtain ⟨dest, found⟩ := there.exists_dest
  have present : copies.1.destinations.get? id = some dest := (copying.kept id old).trans found
  have last : (ids ++ [id]).idxOf id = ids.length := by rw [List.idxOf_append_of_notMem unseen]; simp
  have copied : copyDest copies id =
      some ((copies.1.addDestination dest.kind.copy).1, copies.2.set id copies.1.nID) := by
    rw [copyDest, present]
    rfl
  have earlier {other : ℕ} (member : other ∈ ids ++ [id]) (different : other ≠ id) : other ∈ ids :=
    (List.mem_append.mp member).resolve_right fun last => different (List.mem_singleton.mp last)
  refine ⟨_, copied, ?_⟩
  refine ⟨copying.consistent.addDestination _, ?_, copying.edges, copying.externalEdges, copying.policies, ?_, ?_, ?_⟩
  · rw [List.length_append, ← Nat.add_assoc, ← copying.nID]
    rfl
  · intro other older
    have different : other ≠ copies.1.nID := by rw [copying.nID]; omega
    rw [← copying.kept other older, addDestination, OrderedMap.get?_set, if_neg different]
  · intro other member
    rw [label_addDestination, copying.nID]
    by_cases same : other = id
    · rw [same, last, if_pos rfl, label, found]
      rfl
    · have below : ids.idxOf other < ids.length := List.idxOf_lt_length_of_mem (earlier member same)
      rw [List.idxOf_append_of_mem (earlier member same), if_neg (by omega)]
      exact copying.copied other (earlier member same)
  · intro other member
    rw [OrderedMap.get?_set]
    by_cases same : other = id
    · rw [if_pos same, same, last, copying.nID]
    · rw [if_neg same, List.idxOf_append_of_mem (earlier member same)]
      exact copying.renamed other (earlier member same)

theorem Copying.run (consistent : h.Consistent) {rest : List ℕ} (copying : Copying h ids copies)
    (distinct : (ids ++ rest).Nodup) (there : ∀ id ∈ rest, h.Has id) :
    ∃ final, rest.foldlM copyDest copies = some final ∧ Copying h (ids ++ rest) final := by
  induction rest generalizing ids copies with
  | nil => exact ⟨copies, rfl, (List.append_nil ids).symm ▸ copying⟩
  | cons id rest ih =>
      have here : h.Has id := there id List.mem_cons_self
      have unseen : id ∉ ids := fun member => List.disjoint_of_nodup_append distinct member List.mem_cons_self
      obtain ⟨next, copied, copying⟩ := copying.step (consistent.lt_of_has here) here unseen
      have split : ids ++ id :: rest = ids ++ [id] ++ rest := (List.append_cons ids id rest)
      obtain ⟨final, ran, done⟩ := ih copying (split ▸ distinct) fun other member =>
        there other (List.mem_cons_of_mem _ member)
      refine ⟨final, ?_, split ▸ done⟩
      rw [List.foldlM_cons, copied]
      exact ran

/-- The edges that have been copied so far join the new destinations. -/
structure Joining (h : GraphBuilder) (rename : ℕ → ℕ) (joined : List (ℕ × ℕ)) (next : GraphBuilder) : Prop where
  consistent : next.Consistent
  nID : next.nID = h.nID
  externalEdges : next.externalEdges = h.externalEdges
  policies : next.policies = h.policies
  labels : ∀ id, next.label id = h.label id
  edges : ∀ a b, next.edges.get? (toLex (a, b)) =
    if (a, b) ∈ joined.map (Prod.map rename rename) then some plain else h.edges.get? (toLex (a, b))

theorem label_connect {oper1 oper2 : ℕ} {bwLimit : ℤ} (connects : g.connect oper1 oper2 bwLimit = some next) (id : ℕ) :
    next.label id = g.label id := by
  obtain ⟨source, dest, first, second, rfl⟩ := connect_eq_some connects
  rw [label, label, OrderedMap.get?_set]
  split_ifs with same
  · rw [same, second]
    rfl
  · rfl

theorem exists_connect {oper1 oper2 : ℕ} (first : g.Has oper1) (second : g.Has oper2) (bwLimit : ℤ) :
    ∃ next, g.connect oper1 oper2 bwLimit = some next := by
  obtain ⟨source, found⟩ := first.exists_dest
  obtain ⟨dest, found'⟩ := second.exists_dest
  rw [connect, found, found']
  exact ⟨_, rfl⟩

theorem Joining.step {rename : ℕ → ℕ} {joined : List (ℕ × ℕ)} (joining : Joining h rename joined next)
    {oldToNew : OrderedMap ℕ ℕ} {edge : ℕ × ℕ} (first : oldToNew.get? edge.1 = some (rename edge.1))
    (second : oldToNew.get? edge.2 = some (rename edge.2)) (has : h.Has (rename edge.1))
    (has' : h.Has (rename edge.2)) :
    ∃ after, copyEdge oldToNew next edge = some after ∧ Joining h rename (joined ++ [edge]) after := by
  have there {id : ℕ} (has : h.Has id) : next.Has id := by
    rw [has_iff_label, joining.labels]
    exact has_iff_label.mp has
  obtain ⟨after, connects⟩ := exists_connect (there has) (there has') (-1)
  have copied : copyEdge oldToNew next edge = some after := by
    rw [copyEdge, first, second]
    exact connects
  refine ⟨after, copied, joining.consistent.connect connects, ?_, ?_, ?_, ?_, ?_⟩
  · obtain ⟨_, _, -, -, rfl⟩ := connect_eq_some connects
    exact joining.nID
  · obtain ⟨_, _, -, -, rfl⟩ := connect_eq_some connects
    exact joining.externalEdges
  · obtain ⟨_, _, -, -, rfl⟩ := connect_eq_some connects
    exact joining.policies
  · intro id
    rw [label_connect connects, joining.labels]
  · intro a b
    obtain ⟨_, _, -, -, rfl⟩ := connect_eq_some connects
    have listed : (a, b) ∈ (joined ++ [edge]).map (Prod.map rename rename) ↔
        (a, b) ∈ joined.map (Prod.map rename rename) ∨ (a, b) = Prod.map rename rename edge := by
      rw [List.map_append, List.mem_append, List.map_singleton, List.mem_singleton]
    rw [OrderedMap.get?_set, joining.edges]
    simp only [listed]
    by_cases same : (a, b) = Prod.map rename rename edge
    · have keys : toLex (a, b) = toLex (rename edge.1, rename edge.2) := congrArg toLex same
      rw [if_pos keys, if_pos (Or.inr same)]
      rfl
    · have keys : toLex (a, b) ≠ toLex (rename edge.1, rename edge.2) := fun keys => same (toLex_inj.mp keys)
      rw [if_neg keys]
      simp only [same, or_false]

theorem Joining.run {rename : ℕ → ℕ} {joined rest : List (ℕ × ℕ)} (joining : Joining h rename joined next)
    {oldToNew : OrderedMap ℕ ℕ}
    (known : ∀ edge ∈ rest, (oldToNew.get? edge.1 = some (rename edge.1) ∧ h.Has (rename edge.1)) ∧
      oldToNew.get? edge.2 = some (rename edge.2) ∧ h.Has (rename edge.2)) :
    ∃ final, rest.foldlM (copyEdge oldToNew) next = some final ∧ Joining h rename (joined ++ rest) final := by
  induction rest generalizing joined next with
  | nil => exact ⟨next, rfl, (List.append_nil joined).symm ▸ joining⟩
  | cons edge rest ih =>
      obtain ⟨⟨first, has⟩, second, has'⟩ := known edge List.mem_cons_self
      obtain ⟨after, copied, joining⟩ := joining.step first second has has'
      have split : joined ++ edge :: rest = joined ++ [edge] ++ rest := List.append_cons joined edge rest
      obtain ⟨final, ran, done⟩ := ih joining fun other member => known other (List.mem_cons_of_mem _ member)
      refine ⟨final, ?_, split ▸ done⟩
      rw [List.foldlM_cons, copied]
      exact ran

/-- One copy has the next ids. It repeats the kinds of the nodes and the edges, and the rest of the graph is as
before. -/
structure OneCopy (h : GraphBuilder) (nodes : List ℕ) (edgesToCopy : List (ℕ × ℕ)) (next : GraphBuilder) : Prop where
  consistent : next.Consistent
  nID : next.nID = h.nID + nodes.length
  externalEdges : next.externalEdges = h.externalEdges
  policies : next.policies = h.policies
  kept : ∀ id < h.nID, next.label id = h.label id
  copied : ∀ id ∈ nodes, next.label (h.nID + nodes.idxOf id) = (h.label id).map copyLabel
  edges : ∀ a b aux, next.edges.get? (toLex (a, b)) = some aux ↔ h.edges.get? (toLex (a, b)) = some aux ∨
    aux = plain ∧ ∃ p e, (p, e) ∈ edgesToCopy ∧ a = h.nID + nodes.idxOf p ∧ b = h.nID + nodes.idxOf e

theorem Consistent.copyAll (consistent : h.Consistent) (distinct : nodes.Nodup) (there : ∀ id ∈ nodes, h.Has id)
    {edgesToCopy : List (ℕ × ℕ)} (ends : ∀ edge ∈ edgesToCopy, edge.1 ∈ nodes ∧ edge.2 ∈ nodes) {head : ℕ}
    (member : head ∈ nodes) (heads : List ℕ) :
    ∃ next, copyAll nodes edgesToCopy head (h, heads) = some (next, heads ++ [h.nID + nodes.idxOf head]) ∧
      OneCopy h nodes edgesToCopy next := by
  obtain ⟨⟨made, oldToNew⟩, copied, copying⟩ := consistent.copying.run consistent distinct there
  rw [List.nil_append] at copying
  let rename (id : ℕ) : ℕ := h.nID + nodes.idxOf id
  have known {id : ℕ} (member : id ∈ nodes) : oldToNew.get? id = some (rename id) ∧ made.Has (rename id) := by
    refine ⟨copying.renamed id member, ?_⟩
    rw [has_iff_label, copying.copied id member, Option.isSome_map]
    exact has_iff_label.mp (there id member)
  have start : Joining made rename [] made :=
    ⟨copying.consistent, rfl, rfl, rfl, fun _ => rfl, fun a b => (if_neg List.not_mem_nil).symm⟩
  obtain ⟨next, joined, joining⟩ := start.run fun edge listed =>
    ⟨known (ends edge listed).1, known (ends edge listed).2⟩
  refine ⟨next, ?_, joining.consistent, ?_, ?_, ?_, ?_, ?_, ?_⟩
  · simp only [GraphBuilder.copyAll, copied, joined, (known member).1, Option.bind_eq_bind, Option.bind_some]
    rfl
  · rw [joining.nID, copying.nID]
  · rw [joining.externalEdges, copying.externalEdges]
  · rw [joining.policies, copying.policies]
  · intro id old
    rw [joining.labels, label, copying.kept id old]
    rfl
  · intro id member
    rw [joining.labels, copying.copied id member]
  · intro a b aux
    rw [joining.edges, List.nil_append, copying.edges]
    split_ifs with repeated
    · obtain ⟨edge, listed, same⟩ := List.mem_map.mp repeated
      obtain ⟨rfl, rfl⟩ := Prod.mk.inj same
      have unused := (consistent.unused (Nat.le_add_right h.nID (nodes.idxOf edge.1))).2 (rename edge.2)
      rw [Option.some_inj]
      constructor
      · intro aux
        exact Or.inr ⟨aux.symm, edge.1, edge.2, listed, rfl, rfl⟩
      · rintro (old | ⟨rfl, -⟩)
        · rw [unused.2] at old
          cases old
        · rfl
    · constructor
      · exact Or.inl
      · rintro (old | ⟨-, p, e, listed, rfl, rfl⟩)
        · exact old
        · exact absurd (List.mem_map.mpr ⟨(p, e), listed, rfl⟩) repeated

/-- The copies get the next ids, one copy after the other. -/
def copyId (g : GraphBuilder) (nodes : List ℕ) (k id : ℕ) : ℕ := g.nID + k * nodes.length + nodes.idxOf id

/-- The copies repeat the kinds of the nodes and the edges between them, but no place and no attribute of an edge. The
rest of the graph is as before. -/
structure Cloned (g : GraphBuilder) (nodes : List ℕ) (head n : ℕ) (copies : GraphBuilder × List ℕ) : Prop where
  consistent : copies.1.Consistent
  nID : copies.1.nID = g.nID + n * nodes.length
  externalEdges : copies.1.externalEdges = g.externalEdges
  policies : copies.1.policies = g.policies
  kept : ∀ id < g.nID, copies.1.label id = g.label id
  copied : ∀ k < n, ∀ id ∈ nodes, copies.1.label (g.copyId nodes k id) = (g.label id).map copyLabel
  edges : ∀ a b aux, copies.1.edges.get? (toLex (a, b)) = some aux ↔ g.edges.get? (toLex (a, b)) = some aux ∨
    aux = plain ∧ ∃ k < n, ∃ p e, e ∈ nodes ∧ g.Joins p e ∧ a = g.copyId nodes k p ∧ b = g.copyId nodes k e
  heads : copies.2 = (List.range n).map fun k => g.copyId nodes k head

theorem Consistent.cloned (consistent : g.Consistent) (nodes : List ℕ) (head : ℕ) : g.Cloned nodes head 0 (g, []) where
  consistent := consistent
  nID := by rw [Nat.zero_mul]; rfl
  externalEdges := rfl
  policies := rfl
  kept := fun _ _ => rfl
  copied := nofun
  edges := fun a b aux => ⟨Or.inl, fun listed => listed.resolve_right fun ⟨_, _, below, _⟩ => Nat.not_lt_zero _ below⟩
  heads := rfl

theorem copyId_lt {k n id : ℕ} (earlier : k < n) (member : id ∈ nodes) :
    g.copyId nodes k id < g.nID + n * nodes.length := by
  have position : nodes.idxOf id < nodes.length := List.idxOf_lt_length_of_mem member
  have whole : (k + 1) * nodes.length ≤ n * nodes.length := Nat.mul_le_mul_right _ earlier
  rw [Nat.add_mul, Nat.one_mul] at whole
  rw [copyId]
  omega

/-- Everything that is to be copied is in the graph, with the sources of its in-edges. -/
structure Selected (g : GraphBuilder) (nodes : List ℕ) (edgesToCopy : List (ℕ × ℕ)) (head : ℕ) : Prop where
  consistent : g.Consistent
  distinct : nodes.Nodup
  there : ∀ id ∈ nodes, g.Has id
  closed : ∀ p e, e ∈ nodes → g.Joins p e → p ∈ nodes
  listed : ∀ p e, (p, e) ∈ edgesToCopy ↔ e ∈ nodes ∧ g.Joins p e
  member : head ∈ nodes

theorem Cloned.step {edgesToCopy : List (ℕ × ℕ)} {head n : ℕ} {copies : GraphBuilder × List ℕ}
    (cloned : g.Cloned nodes head n copies) (selected : g.Selected nodes edgesToCopy head) :
    ∃ next, copyAll nodes edgesToCopy head copies = some next ∧ g.Cloned nodes head (n + 1) next := by
  obtain ⟨h, heads⟩ := copies
  have old {id : ℕ} (member : id ∈ nodes) : id < g.nID := selected.consistent.lt_of_has (selected.there id member)
  have position (id : ℕ) : h.nID + nodes.idxOf id = g.copyId nodes n id := by rw [cloned.nID]; rfl
  have there (id : ℕ) (member : id ∈ nodes) : h.Has id := by
    rw [has_iff_label, cloned.kept id (old member)]
    exact has_iff_label.mp (selected.there id member)
  have ends (edge : ℕ × ℕ) (listed : edge ∈ edgesToCopy) : edge.1 ∈ nodes ∧ edge.2 ∈ nodes := by
    obtain ⟨inside, joins⟩ := (selected.listed edge.1 edge.2).mp listed
    exact ⟨selected.closed _ _ inside joins, inside⟩
  obtain ⟨next, copied, one⟩ := cloned.consistent.copyAll selected.distinct there ends selected.member heads
  refine ⟨_, copied, one.consistent, ?_, ?_, ?_, ?_, ?_, ?_, ?_⟩
  · rw [one.nID, cloned.nID, Nat.add_mul, Nat.one_mul, Nat.add_assoc]
  · exact one.externalEdges.trans cloned.externalEdges
  · exact one.policies.trans cloned.policies
  · intro id older
    have within : id < h.nID := older.trans_le (cloned.nID ▸ Nat.le_add_right _ _)
    rw [one.kept id within, cloned.kept id older]
  · intro k below id member
    rcases Nat.lt_succ_iff_lt_or_eq.mp below with earlier | rfl
    · rw [one.kept _ (cloned.nID ▸ copyId_lt earlier member), cloned.copied k earlier id member]
    · rw [← position, one.copied id member, cloned.kept id (old member)]
  · intro a b aux
    rw [one.edges, cloned.edges, or_assoc]
    refine or_congr_right ?_
    constructor
    · rintro (⟨rfl, k, below, p, e, copy⟩ | ⟨rfl, p, e, listed, rfl, rfl⟩)
      · exact ⟨rfl, k, Nat.lt_succ_of_lt below, p, e, copy⟩
      · obtain ⟨inside, joins⟩ := (selected.listed p e).mp listed
        exact ⟨rfl, n, Nat.lt_succ_self n, p, e, inside, joins, position p, position e⟩
    · rintro ⟨rfl, k, below, p, e, inside, joins, rfl, rfl⟩
      rcases Nat.lt_succ_iff_lt_or_eq.mp below with earlier | rfl
      · exact Or.inl ⟨rfl, k, earlier, p, e, inside, joins, rfl, rfl⟩
      · exact Or.inr ⟨rfl, p, e, (selected.listed p e).mpr ⟨inside, joins⟩, (position p).symm, (position e).symm⟩
  · have earlier : heads = (List.range n).map fun k => g.copyId nodes k head := cloned.heads
    rw [List.range_succ, List.map_append, ← earlier, List.map_singleton, position]

theorem Cloned.run {edgesToCopy : List (ℕ × ℕ)} {head n : ℕ} {copies : GraphBuilder × List ℕ}
    (cloned : g.Cloned nodes head n copies) (selected : g.Selected nodes edgesToCopy head) (numcopies : ℕ) :
    ∃ final, copyTimes nodes edgesToCopy head numcopies copies = some final ∧
      g.Cloned nodes head (n + numcopies) final := by
  induction numcopies generalizing n copies with
  | zero => exact ⟨copies, rfl, cloned⟩
  | succ numcopies ih =>
      obtain ⟨next, copied, cloned⟩ := cloned.step selected
      obtain ⟨final, ran, done⟩ := ih cloned
      refine ⟨final, ?_, by rw [Nat.add_comm numcopies, ← Nat.add_assoc]; exact done⟩
      rw [copyTimes, copied]
      exact ran

theorem Consistent.mem_predList (consistent : g.Consistent) (p e : ℕ) : p ∈ g.predList e ↔ g.Joins p e := by
  rw [predList]
  cases found : g.destinations.get? e with
  | none =>
      refine iff_of_false List.not_mem_nil fun joins => ?_
      have there : g.Has e := (consistent.inside p e joins).2
      rw [Has, found] at there
      cases there
  | some dest => exact (Finset.mem_sort _).trans (consistent.preds e dest found p)

/-- The search goes from a node to its predecessors. -/
theorem Consistent.step_predList (consistent : g.Consistent) :
    Sweep.Step g.predList = Function.swap g.Joins := by
  funext e p
  exact propext (consistent.mem_predList p e)

theorem Consistent.reaches_iff (consistent : g.Consistent) (a head : ℕ) :
    Relation.ReflTransGen (Sweep.Step g.predList) head a ↔ Relation.ReflTransGen g.Joins a head := by
  rw [consistent.step_predList]
  exact Relation.reflTransGen_swap

theorem Consistent.has_of_reaches (consistent : g.Consistent) {a head : ℕ} (there : g.Has head)
    (reaches : Relation.ReflTransGen g.Joins a head) : g.Has a := by
  rcases Relation.ReflTransGen.cases_head reaches with rfl | ⟨b, joins, -⟩
  · exact there
  · exact (consistent.inside a b joins).1

theorem Consistent.ends_iff (consistent : g.Consistent) {head : ℕ} (there : g.Has head) :
    Sweep.Ends g.predList head ↔ ∀ a, Relation.ReflTransGen g.Joins a head → ¬ Relation.TransGen g.Joins a a := by
  have finite : {a | Relation.ReflTransGen (Sweep.Step g.predList) head a}.Finite := by
    refine (Finset.range g.nID).finite_toSet.subset fun a reached => ?_
    refine Finset.mem_coe.mpr (Finset.mem_range.mpr ?_)
    exact consistent.lt_of_has (consistent.has_of_reaches there ((consistent.reaches_iff a head).mp reached))
  rw [Sweep.ends_iff finite]
  refine forall_congr' fun a => ?_
  rw [consistent.reaches_iff, consistent.step_predList, Relation.transGen_swap]

/-- The search lists each node that it has taken once, and with it all edges from its predecessors. -/
theorem foldl_inspect (visits : List ℕ) (found : List ℕ × List (ℕ × ℕ)) (distinct : found.1.Nodup) :
    (visits.foldl g.inspect found).1.Nodup ∧ (∀ a, a ∈ (visits.foldl g.inspect found).1 ↔ a ∈ visits ∨ a ∈ found.1) ∧
      ∀ p e, (p, e) ∈ (visits.foldl g.inspect found).2 ↔ (e ∈ visits ∧ p ∈ g.predList e) ∨ (p, e) ∈ found.2 := by
  induction visits generalizing found with
  | nil => simp [distinct]
  | cons visit rest ih =>
      obtain ⟨once, nodes, edges⟩ := ih (g.inspect found visit) distinct.insert
      refine ⟨once, ?_, ?_⟩
      · intro a
        rw [List.foldl_cons, nodes, inspect, List.mem_insert_iff, List.mem_cons]
        tauto
      · intro p e
        rw [List.foldl_cons, edges, inspect, List.mem_append, List.mem_map, List.mem_cons]
        constructor
        · rintro (⟨member, pred⟩ | listed | ⟨other, pred, same⟩)
          · exact Or.inl ⟨Or.inr member, pred⟩
          · exact Or.inr listed
          · obtain ⟨rfl, rfl⟩ := Prod.mk.inj same
            exact Or.inl ⟨Or.inl rfl, pred⟩
        · rintro (⟨rfl | member, pred⟩ | listed)
          · exact Or.inr (Or.inr ⟨p, pred, rfl⟩)
          · exact Or.inl ⟨member, pred⟩
          · exact Or.inr (Or.inl listed)

variable {picks : List ℕ} {head : ℕ}

/-- What the search has found is what the head can be reached from. -/
theorem Consistent.selected (consistent : g.Consistent) (there : g.Has head) (items : KeyOrder)
    {found : List ℕ × List (ℕ × ℕ)} (swept : sweep g.predList g.inspect picks [head] ([], []) = some found) :
    g.Selected (items.keys found.1) found.2 head ∧
      ∀ a, a ∈ items.keys found.1 ↔ Relation.ReflTransGen g.Joins a head := by
  obtain ⟨visits, rfl, visited⟩ := Sweep.sweep_eq_some swept
  obtain ⟨distinct, nodes, edges⟩ := foldl_inspect (g := g) visits ([], []) List.nodup_nil
  generalize visits.foldl g.inspect ([], []) = found at distinct nodes edges
  have reached (a : ℕ) : a ∈ visits ↔ Relation.ReflTransGen g.Joins a head := by
    rw [visited, ← consistent.reaches_iff]
    simp
  have member (a : ℕ) : a ∈ items.keys found.1 ↔ Relation.ReflTransGen g.Joins a head := by
    rw [(items.lists found.1).mem_iff, nodes, reached]
    simp
  refine ⟨⟨consistent, (items.lists found.1).nodup_iff.mpr distinct, ?_, ?_, ?_, (member head).mpr .refl⟩, member⟩
  · intro id listed
    exact consistent.has_of_reaches there ((member id).mp listed)
  · intro p e listed joins
    exact (member p).mpr (Relation.ReflTransGen.head joins ((member e).mp listed))
  · intro p e
    rw [edges, member, reached, consistent.mem_predList]
    simp

/-- A search that ends gives the copies. -/
theorem Consistent.cloneBackFrom_of_swept (consistent : g.Consistent) (there : g.Has head) (items : KeyOrder)
    {found : List ℕ × List (ℕ × ℕ)}
    (swept : sweep g.predList g.inspect picks [head] ([], []) = some found) (numcopies : ℕ) :
    ∃ copies, g.cloneBackFrom picks items head numcopies = some copies ∧
      ∃ nodes : List ℕ, nodes.Nodup ∧ (∀ a, a ∈ nodes ↔ Relation.ReflTransGen g.Joins a head) ∧
        g.Cloned nodes head numcopies copies := by
  obtain ⟨selected, member⟩ := consistent.selected there items swept
  obtain ⟨copies, ran, cloned⟩ := (consistent.cloned (items.keys found.1) head).run selected numcopies
  refine ⟨copies, ?_, items.keys found.1, selected.distinct, member, by rw [Nat.zero_add] at cloned; exact cloned⟩
  rw [cloneBackFrom, swept]
  exact ran

end GraphBuilder

end JetStream
