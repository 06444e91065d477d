import Mathlib.Data.Finset.Card
import Mathlib.Data.Fintype.Card
import Mathlib.Data.Set.Finite.Basic
import Mathlib.Logic.Relation
import Mathlib.Order.WellFounded

/-- Each node has at most one edge to a parent, and no node lies on a cycle. -/
structure IsForest {α : Type} (edge : α → α → Prop) : Prop where
  unique : Relator.RightUnique edge
  acyclic : ∀ n, ¬ Relation.TransGen edge n n

namespace IsForest

variable {α : Type} {edge : α → α → Prop}

/-- A node reaches itself, its parent, and all nodes above its parent. -/
abbrev Reaches (edge : α → α → Prop) : α → α → Prop := Relation.ReflTransGen edge

/-- This is the first node that two nodes both reach. -/
def IsJoin (edge : α → α → Prop) (v u join : α) : Prop :=
  Reaches edge v join ∧ Reaches edge u join ∧ ∀ x, Reaches edge v x → Reaches edge u x → Reaches edge join x

/-- Edges to larger nodes make no cycle. -/
theorem acyclic_of_lt [Preorder α] (increasing : ∀ v u, edge v u → v < u) (n : α) : ¬ Relation.TransGen edge n n := by
  have larger (v u : α) (path : Relation.TransGen edge v u) : v < u := by
    induction path with
    | single parent => exact increasing _ _ parent
    | tail _ parent ih => exact ih.trans (increasing _ _ parent)
  exact fun cycle => lt_irrefl n (larger n n cycle)

theorem antisymm (forest : IsForest edge) {u v : α} (up : Reaches edge u v) (down : Reaches edge v u) : u = v := by
  rcases Relation.reflTransGen_iff_eq_or_transGen.mp up with same | path
  · exact same.symm
  · exact absurd (path.trans_left down) (forest.acyclic u)

/-- A node that reaches another node reaches it through its parent. -/
theorem reaches_parent (forest : IsForest edge) {w u x : α} (parent : edge w u) (path : Reaches edge w x)
    (different : x ≠ w) : Reaches edge u x := by
  rcases path.cases_head with same | ⟨next, first, rest⟩
  · exact absurd same.symm different
  · exact forest.unique parent first ▸ rest

theorem not_reaches_child (forest : IsForest edge) {w u : α} (parent : edge w u) : ¬ Reaches edge u w :=
  fun path => forest.acyclic w ((Relation.TransGen.single parent).trans_left path)

/-- No node is below two children of one node. -/
theorem child_eq_of_reaches (forest : IsForest edge) {v w x u : α} (first : edge w u) (second : edge x u)
    (toFirst : Reaches edge v w) (toSecond : Reaches edge v x) : w = x := by
  by_contra different
  rcases Relation.ReflTransGen.total_of_right_unique forest.unique toFirst toSecond with path | path
  · exact forest.not_reaches_child second (forest.reaches_parent first path (Ne.symm different))
  · exact forest.not_reaches_child first (forest.reaches_parent second path different)

theorem isJoin_self (u : α) : IsJoin edge u u u :=
  ⟨.refl, .refl, fun _ path _ => path⟩

/-- The join with a node above is that node. -/
theorem isJoin_above {v u : α} (path : Reaches edge v u) : IsJoin edge v u u :=
  ⟨path, .refl, fun _ _ above => above⟩

theorem isJoin_above_left {v u : α} (path : Reaches edge v u) : IsJoin edge u v u :=
  ⟨.refl, path, fun _ above _ => above⟩

theorem IsJoin.eq {v u a b : α} (first : IsJoin edge v u a) (forest : IsForest edge) (second : IsJoin edge v u b) :
    a = b :=
  forest.antisymm (first.2.2 b second.1 second.2.1) (second.2.2 a first.1 first.2.1)

/-- What two nodes both reach is what their join reaches. -/
theorem IsJoin.reaches_iff {v u a : α} (join : IsJoin edge v u a) (x : α) :
    Reaches edge a x ↔ Reaches edge v x ∧ Reaches edge u x :=
  ⟨fun path => ⟨join.1.trans path, join.2.1.trans path⟩, fun both => join.2.2 x both.1 both.2⟩

/-- A node that is not below a child has the same join with the child and with its parent. -/
theorem isJoin_child_iff (forest : IsForest edge) {v w u a : α} (parent : edge w u) (apart : ¬ Reaches edge v w) :
    IsJoin edge v w a ↔ IsJoin edge v u a := by
  have same (x : α) (path : Reaches edge v x) : Reaches edge w x ↔ Reaches edge u x := by
    refine ⟨fun up => forest.reaches_parent parent up ?_, fun up => up.head parent⟩
    rintro rfl
    exact apart path
  constructor
  · rintro ⟨first, second, least⟩
    exact ⟨first, (same a first).mp second, fun x fromV fromU => least x fromV ((same x fromV).mpr fromU)⟩
  · rintro ⟨first, second, least⟩
    exact ⟨first, (same a first).mpr second, fun x fromV fromW => least x fromV ((same x fromV).mp fromW)⟩

/-- The anchor is the last fixed node on the way from the start to a node. -/
structure IsAnchor (edge : α → α → Prop) (isFixed : α → Prop) (start n anchor : α) : Prop where
  above : Reaches edge start anchor
  below : Reaches edge anchor n
  fixed : isFixed anchor
  last : ∀ b, Reaches edge anchor b → Reaches edge b n → isFixed b → b = anchor

/-- A fixed node is its own anchor. -/
theorem isAnchor_self (forest : IsForest edge) {isFixed : α → Prop} {start n : α} (path : Reaches edge start n)
    (fixed : isFixed n) : IsAnchor edge isFixed start n n :=
  ⟨path, .refl, fixed, fun _ up down _ => forest.antisymm down up⟩

/-- A node that is not fixed has the anchor of the node before it. -/
theorem IsAnchor.step {isFixed : α → Prop} {start x y a : α} (anchor : IsAnchor edge isFixed start x a)
    (forest : IsForest edge) (parent : edge x y) (free : ¬ isFixed y) : IsAnchor edge isFixed start y a := by
  refine ⟨anchor.above, anchor.below.tail parent, anchor.fixed, ?_⟩
  intro b up down fixed
  rcases down.cases_tail with same | ⟨before, path, last⟩
  · exact absurd (same ▸ fixed) free
  · have here : before = x := forest.child_eq_of_reaches last parent (up.trans path) anchor.below
    exact anchor.last b up (here ▸ path) fixed

theorem IsAnchor.eq {isFixed : α → Prop} {start n a b : α} (first : IsAnchor edge isFixed start n a)
    (forest : IsForest edge) (second : IsAnchor edge isFixed start n b) : a = b := by
  rcases Relation.ReflTransGen.total_of_right_unique forest.unique first.above second.above with path | path
  · exact (first.last b path second.below second.fixed).symm
  · exact second.last a path first.below first.fixed

section Finite

variable {nodes : Finset α}

/-- A property of all nodes follows upwards from the children of each node. -/
theorem induction_up (forest : IsForest edge) (inside : ∀ v u, edge v u → v ∈ nodes) {motive : α → Prop}
    (step : ∀ u, (∀ v, edge v u → motive v) → motive u) (u : α) : motive u := by
  let below (v u : nodes) : Prop := Relation.TransGen edge v.1 u.1
  have : IsTrans nodes below := ⟨fun _ _ _ first second => first.trans second⟩
  have : Std.Irrefl below := ⟨fun n cycle => forest.acyclic n.1 cycle⟩
  have founded : WellFounded below := Finite.wellFounded_of_trans_of_irrefl below
  have onNodes (n : nodes) : motive n.1 := by
    apply founded.induction (C := fun n => motive n.1) n
    intro n ih
    apply step
    intro v parent
    exact ih ⟨v, inside v n.1 parent⟩ (.single parent)
  exact step u fun v parent => onNodes ⟨v, inside v u parent⟩

/-- Every node is reached from a node without children. -/
theorem exists_leaf (forest : IsForest edge) (inside : ∀ v u, edge v u → v ∈ nodes) (u : α) :
    ∃ s, (∀ v, ¬ edge v s) ∧ Reaches edge s u := by
  apply forest.induction_up inside _ u
  intro u ih
  by_cases child : ∃ v, edge v u
  · obtain ⟨v, parent⟩ := child
    obtain ⟨s, bottom, path⟩ := ih v parent
    exact ⟨s, bottom, path.tail parent⟩
  · exact ⟨u, fun v parent => child ⟨v, parent⟩, .refl⟩

/-- A property of all nodes follows downwards from the parent of each node. -/
theorem induction_down (forest : IsForest edge) (inside : ∀ v u, edge v u → v ∈ nodes) {motive : α → Prop}
    (step : ∀ v, (∀ u, edge v u → motive u) → motive v) (v : α) : motive v := by
  let above (u v : nodes) : Prop := Relation.TransGen edge v.1 u.1
  have : IsTrans nodes above := ⟨fun _ _ _ first second => second.trans first⟩
  have : Std.Irrefl above := ⟨fun n cycle => forest.acyclic n.1 cycle⟩
  have founded : WellFounded above := Finite.wellFounded_of_trans_of_irrefl above
  have onNodes (n : nodes) : motive n.1 := by
    apply founded.induction (C := fun n => motive n.1) n
    intro n ih
    apply step
    intro u parent
    by_cases node : u ∈ nodes
    · exact ih ⟨u, node⟩ (.single parent)
    · exact step u fun w next => absurd (inside u w next) node
  by_cases node : v ∈ nodes
  · exact onNodes ⟨v, node⟩
  · exact step v fun u parent => absurd (inside v u parent) node

/-- Every node reaches the only node without a parent. -/
theorem reaches_root (forest : IsForest edge) (inside : ∀ v u, edge v u → v ∈ nodes ∧ u ∈ nodes) {root : α}
    (climbs : ∀ v ∈ nodes, v ≠ root → ∃ u, edge v u) {v : α} (node : v ∈ nodes) : Reaches edge v root := by
  revert node
  apply forest.induction_down (fun v u parent => (inside v u parent).1) _ v
  intro v ih node
  by_cases top : v = root
  · rw [top]
  · obtain ⟨u, parent⟩ := climbs v node top
    exact (ih u parent (inside v u parent).2).head parent

open Classical in
/-- These nodes reach the given node. -/
noncomputable def below (edge : α → α → Prop) (nodes : Finset α) (u : α) : Finset α :=
  nodes.filter fun v => Reaches edge v u

open Classical in
theorem mem_below {v u : α} : v ∈ below edge nodes u ↔ v ∈ nodes ∧ Reaches edge v u :=
  Finset.mem_filter

/-- A child has fewer nodes below it than its parent when no cycle leads back to it. -/
theorem card_below_lt {w u : α} (parent : edge w u) (apart : ¬ Reaches edge u w) (node : u ∈ nodes) :
    (below edge nodes w).card < (below edge nodes u).card := by
  refine Finset.card_lt_card (Finset.ssubset_iff_of_subset ?_ |>.mpr ⟨u, ?_, ?_⟩)
  · intro v member
    obtain ⟨inside, path⟩ := mem_below.mp member
    exact mem_below.mpr ⟨inside, path.tail parent⟩
  · exact mem_below.mpr ⟨node, .refl⟩
  · exact fun member => apart (mem_below.mp member).2

end Finite

end IsForest
