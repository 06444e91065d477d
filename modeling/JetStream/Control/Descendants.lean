import Mathlib.Data.List.Chain
import JetStream.Control.LcaPairs

namespace JetStream

namespace JSGraph

open IsForest

variable {N : Type}

/-- The list climbs along the only neighbours up to the stop, or up to a node without neighbours. -/
def Climbs (adjList : N → List N) (stop : Option N) : List N → Prop
  | [] => True
  | n :: rest => (stop = some n ∧ rest = []) ∨
      (stop ≠ some n ∧ adjList n = rest.head?.toList ∧ Climbs adjList stop rest)

/-- Only the neighbours of the nodes before the stop matter. -/
theorem Climbs.congr {adjList other : N → List N} {stop : Option N} {path : List N}
    (climbs : Climbs adjList stop path) (same : ∀ n ∈ path, stop ≠ some n → other n = adjList n) :
    Climbs other stop path := by
  induction path with
  | nil => exact trivial
  | cons n rest ih =>
      rcases climbs with ⟨ends, last⟩ | ⟨goes, next, climbs⟩
      · exact Or.inl ⟨ends, last⟩
      · refine Or.inr ⟨goes, ?_, ih climbs fun m member => same m (List.mem_cons_of_mem _ member)⟩
        rw [same n List.mem_cons_self goes, next]

variable [DecidableEq N]

/-- The search finds the nodes of the climb in their order and empties the list of the start. -/
theorem explore_climbs {stop : Option N} {start : N} {path : List N} {adjList : N → List N}
    (climbs : Climbs adjList stop path) (own : adjList start = path.head?.toList) (apart : start ∉ path) {fuel : ℕ}
    (enough : path.length < fuel) (found : List N) :
    explore stop start fuel adjList found = some (found ++ path, Function.update adjList start []) := by
  induction path generalizing adjList fuel found with
  | nil =>
      obtain ⟨fuel, rfl⟩ : ∃ k, fuel = k + 1 := ⟨fuel - 1, by omega⟩
      have same : Function.update adjList start [] = adjList := by
        rw [← show adjList start = [] from own, Function.update_eq_self]
      simp [explore, show adjList start = [] from own, same]
  | cons n rest ih =>
      obtain ⟨fuel, rfl⟩ : ∃ k, fuel = k + 1 := ⟨fuel - 1, by omega⟩
      have single : adjList start = [n] := own
      obtain ⟨other, absent⟩ := List.ne_and_not_mem_of_not_mem_cons apart
      have shorter : rest.length < fuel := by
        rw [List.length_cons] at enough
        omega
      have unchanged (value : List N) (m : N) (member : m ∈ rest) :
          Function.update adjList start value m = adjList m := by
        apply Function.update_of_ne
        rintro rfl
        exact absent member
      rw [explore, single]
      simp only [List.getLast?_singleton, List.dropLast_singleton, Function.update_self, List.nil_append]
      rcases climbs with ⟨ends, rfl⟩ | ⟨goes, next, climbs⟩
      · rw [if_pos ends, ih trivial (by simp) absent shorter, Function.update_idem, List.append_assoc,
          List.singleton_append]
      · rw [if_neg goes, Function.update_of_ne (Ne.symm other), Function.update_idem]
        rw [ih (climbs.congr fun m member _ => unchanged _ m member) (by rw [Function.update_self, next]) absent
          shorter, Function.update_idem, List.append_assoc, List.singleton_append]

variable {g : JSGraph N} {root : N}

/-- In an in-tree the climb from a node to a node above it lists the nodes between them. -/
theorem IsInTree.exists_climb (tree : g.IsInTree root) {stop : Option N} {n last : N} (path : Reaches g.Edge n last)
    (ends : stop = some last ∨ stop = none ∧ last = root) :
    ∃ rest, Climbs g.adjList stop (n :: rest) ∧ (n :: rest).IsChain g.Edge ∧
      (∀ x, x ∈ n :: rest ↔ Reaches g.Edge n x ∧ Reaches g.Edge x last) ∧ (n :: rest).Nodup := by
  induction path using Relation.ReflTransGen.head_induction_on with
  | refl =>
      refine ⟨[], ?_, List.isChain_singleton _, fun x => ?_, List.nodup_singleton _⟩
      · rcases ends with stops | ⟨rfl, rfl⟩
        · exact Or.inl ⟨stops, rfl⟩
        · refine Or.inr ⟨(Option.some_ne_none _).symm, ?_, trivial⟩
          apply List.eq_nil_iff_forall_not_mem.mpr
          intro m member
          exact tree.not_edge_root m (mem_adjList.mp member)
      · rw [List.mem_singleton]
        constructor
        · rintro rfl
          exact ⟨.refl, .refl⟩
        · exact fun between => tree.forest.antisymm between.2 between.1
  | head edge path ih =>
      rename_i n m
      obtain ⟨rest, climbs, chain, members, distinct⟩ := ih
      have below : n ≠ last := by
        rintro rfl
        exact tree.forest.not_reaches_child edge path
      have lower : n ≠ root := by
        rintro rfl
        exact tree.not_edge_root m edge
      obtain ⟨next, only⟩ := tree.out n (g.inside _ edge).1 lower
      have same : next = m := by
        have member : m ∈ g.adjList n := mem_adjList.mpr edge
        rw [only, List.mem_singleton] at member
        exact member.symm
      refine ⟨m :: rest, Or.inr ⟨?_, ?_, climbs⟩, List.isChain_cons_cons.mpr ⟨edge, chain⟩, fun x => ?_, ?_⟩
      · rcases ends with rfl | ⟨rfl, -⟩
        · exact fun stops => below (Option.some.inj stops).symm
        · exact (Option.some_ne_none _).symm
      · rw [only, same]
        rfl
      · rw [List.mem_cons, members]
        constructor
        · rintro (rfl | ⟨up, down⟩)
          · exact ⟨.refl, path.head edge⟩
          · exact ⟨up.head edge, down⟩
        · rintro ⟨up, down⟩
          by_cases here : x = n
          · exact Or.inl here
          · exact Or.inr ⟨tree.forest.reaches_parent edge up here, down⟩
      · refine List.nodup_cons.mpr ⟨fun member => ?_, distinct⟩
        exact tree.forest.not_reaches_child edge ((members n).mp member).1

/-- The search from a node returns the nodes up to the last one, although earlier searches emptied some lists. -/
theorem IsInTree.getDescendants_eq (tree : g.IsInTree root) {stop : Option N} {n last : N} (node : n ∈ g.nodes)
    (path : Reaches g.Edge n last) (ends : stop = some last ∨ stop = none ∧ last = root) {adjList : N → List N}
    (own : adjList n = if n = last then [] else g.adjList n)
    (intact : ∀ x, Relation.TransGen g.Edge n x → stop ≠ some x → adjList x = g.adjList x) {fuel : ℕ}
    (enough : g.nodes.length < fuel) :
    ∃ rest, getDescendants fuel adjList n stop = some (n :: rest, Function.update adjList n []) ∧
      (n :: rest).IsChain g.Edge ∧ ∀ x, x ∈ n :: rest ↔ Reaches g.Edge n x ∧ Reaches g.Edge x last := by
  obtain ⟨rest, climbs, chain, members, distinct⟩ := tree.exists_climb path ends
  obtain ⟨absent, -⟩ := List.nodup_cons.mp distinct
  have between (x : N) (member : x ∈ rest) : Relation.TransGen g.Edge n x := by
    have reached := ((members x).mp (List.mem_cons_of_mem _ member)).1
    rcases Relation.reflTransGen_iff_eq_or_transGen.mp reached with rfl | up
    · exact absurd member absent
    · exact up
  have short : rest.length < fuel := by
    have inside : n :: rest ⊆ g.nodes := fun x member => mem_nodes_above node ((members x).mp member).1
    have bound := (distinct.subperm inside).length_le
    rw [List.length_cons] at bound
    omega
  have climbsRest : Climbs adjList stop rest ∧ adjList n = rest.head?.toList := by
    rcases climbs with ⟨stops, rfl⟩ | ⟨goes, next, climbs⟩
    · refine ⟨trivial, ?_⟩
      have top : last = n := by
        have member := (members last).mpr ⟨path, .refl⟩
        exact List.mem_singleton.mp member
      rw [own, if_pos top.symm]
      rfl
    · refine ⟨climbs.congr fun x member onward => intact x (between x member) onward, ?_⟩
      by_cases top : n = last
      · rw [own, if_pos top]
        have none_left : rest = [] := by
          apply List.eq_nil_iff_forall_not_mem.mpr
          intro x member
          have down := ((members x).mp (List.mem_cons_of_mem _ member)).2
          exact tree.acyclic n ((between x member).trans_left (top ▸ down))
        rw [none_left]
        rfl
      · rw [own, if_neg top, next]
  refine ⟨rest, ?_, chain, members⟩
  exact explore_climbs climbsRest.1 climbsRest.2 absent short [n]

end JSGraph

end JetStream
