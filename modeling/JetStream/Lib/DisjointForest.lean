import JetStream.Lib.DisjointSets

namespace DisjointSets

variable {α : Type} {sets : DisjointSets α} {n : ℕ} {x y r q : α}

/-- The parents lead from the element to its root in so many steps. -/
inductive RootAfter (sets : DisjointSets α) : ℕ → α → α → Prop where
  | top {x : α} (own : sets.parent x = some x) : RootAfter sets 0 x x
  | up {n : ℕ} {x above r : α} (points : sets.parent x = some above) (moves : above ≠ x)
      (later : RootAfter sets n above r) : RootAfter sets (n + 1) x r

/-- The parents lead from the element to its root. -/
def Root (sets : DisjointSets α) (x r : α) : Prop := ∃ n, RootAfter sets n x r

theorem RootAfter.parent_root (path : RootAfter sets n x r) : sets.parent r = some r := by
  induction path with
  | top own => exact own
  | up _ _ _ ih => exact ih

theorem RootAfter.parent_ne_none (path : RootAfter sets n x r) : sets.parent x ≠ none := by
  cases path with
  | top own => simp [own]
  | up points => simp [points]

theorem RootAfter.unique (path : RootAfter sets n x r) {m : ℕ} (other : RootAfter sets m x q) : n = m ∧ r = q := by
  induction path generalizing m with
  | top own =>
      cases other with
      | top => exact ⟨rfl, rfl⟩
      | up points moves => exact absurd (Option.some.inj (points.symm.trans own)) moves
  | up points moves _ ih =>
      cases other with
      | top own => exact absurd (Option.some.inj (points.symm.trans own)) moves
      | up otherPoints _ later =>
          obtain rfl := Option.some.inj (points.symm.trans otherPoints)
          obtain ⟨rfl, rfl⟩ := ih later
          exact ⟨rfl, rfl⟩

/-- The way to the root passes different elements, so there are more of them than steps. -/
theorem RootAfter.lt_card (path : RootAfter sets n x r) {members : Finset α}
    (inside : ∀ y, sets.parent y ≠ none → y ∈ members) : n < members.card := by
  classical
  suffices ∃ passed ⊆ members, passed.card = n + 1 ∧ ∀ y ∈ passed, ∃ m ≤ n, RootAfter sets m y r by
    obtain ⟨passed, within, size, -⟩ := this
    have bound := Finset.card_le_card within
    omega
  induction path with
  | @top x own =>
      refine ⟨{x}, Finset.singleton_subset_iff.mpr (inside x (by simp [own])), Finset.card_singleton x, fun y member => ?_⟩
      rw [Finset.mem_singleton.mp member]
      exact ⟨0, le_rfl, .top own⟩
  | @up n x above r points moves later ih =>
      obtain ⟨passed, within, size, ends⟩ := ih
      have here := RootAfter.up points moves later
      have apart : x ∉ passed := by
        intro member
        obtain ⟨m, less, path⟩ := ends x member
        have same := (here.unique path).1
        omega
      refine ⟨insert x passed, Finset.insert_subset (inside x here.parent_ne_none) within, ?_, fun y member => ?_⟩
      · rw [Finset.card_insert_of_notMem apart, size]
      · rcases Finset.mem_insert.mp member with rfl | member
        · exact ⟨n + 1, le_rfl, here⟩
        · obtain ⟨m, less, path⟩ := ends y member
          exact ⟨m, Nat.le_succ_of_le less, path⟩

theorem Root.parent_root (root : sets.Root x r) : sets.parent r = some r := by
  obtain ⟨n, path⟩ := root
  exact path.parent_root

theorem Root.unique (root : sets.Root x r) (other : sets.Root x q) : r = q := by
  obtain ⟨n, path⟩ := root
  obtain ⟨m, otherPath⟩ := other
  exact (path.unique otherPath).2

theorem root_of_parent (points : sets.parent x = some r) (own : sets.parent r = some r) : sets.Root x r := by
  by_cases same : r = x
  · subst same
    exact ⟨0, .top own⟩
  · exact ⟨1, .up points same (.top own)⟩

theorem root_self (own : sets.parent r = some r) : sets.Root r r := root_of_parent own own

/-- A change of parents keeps the roots up to a function when the roots and the steps to the parents do. -/
theorem Root.map {next : DisjointSets α} {f : α → α} (root : sets.Root x r)
    (tops : ∀ y, sets.parent y = some y → next.Root y (f y))
    (steps : ∀ y above q, sets.parent y = some above → above ≠ y → sets.Root above q → next.Root above (f q) →
      next.Root y (f q)) : next.Root x (f r) := by
  obtain ⟨n, path⟩ := root
  induction path with
  | top own => exact tops _ own
  | up points moves later ih => exact steps _ _ _ points moves ⟨_, later⟩ ih

theorem Root.up {next : DisjointSets α} {above : α} (points : next.parent x = some above) (moves : above ≠ x)
    (later : next.Root above r) : next.Root x r := by
  obtain ⟨n, path⟩ := later
  exact ⟨n + 1, .up points moves path⟩

/-- The elements point to their parents or to their roots, and the roots are the same. -/
structure Compressed (sets next : DisjointSets α) : Prop where
  roots : ∀ y q, sets.Root y q → next.Root y q
  parents : ∀ y, next.parent y = sets.parent y ∨ ∃ q, sets.Root y q ∧ next.parent y = some q

theorem Compressed.refl (sets : DisjointSets α) : Compressed sets sets := ⟨fun _ _ root => root, fun _ => Or.inl rfl⟩

theorem Compressed.trans {next last : DisjointSets α} (first : Compressed sets next) (second : Compressed next last)
    (rooted : ∀ y, sets.parent y ≠ none → ∃ q, sets.Root y q) : Compressed sets last := by
  refine ⟨fun y q root => second.roots y q (first.roots y q root), fun y => ?_⟩
  rcases second.parents y with same | ⟨q, root, points⟩
  · rw [same]
    exact first.parents y
  · by_cases known : sets.parent y = none
    · rcases first.parents y with same | ⟨p, found, -⟩
      · obtain ⟨n, path⟩ := root
        exact absurd (same.trans known) path.parent_ne_none
      · obtain ⟨n, path⟩ := found
        exact absurd known path.parent_ne_none
    · obtain ⟨p, found⟩ := rooted y known
      obtain rfl := (first.roots y p found).unique root
      exact Or.inr ⟨p, found, points⟩

/-- An element that points to its root keeps doing so. -/
theorem Compressed.parent_eq {next : DisjointSets α} (compressed : Compressed sets next)
    (points : sets.parent x = some r) (own : sets.parent r = some r) : next.parent x = some r := by
  rcases compressed.parents x with same | ⟨q, root, moved⟩
  · rw [same, points]
  · rw [moved, (root_of_parent points own).unique root]

theorem Compressed.parent_ne_none {next : DisjointSets α} (compressed : Compressed sets next) (y : α) :
    next.parent y ≠ none ↔ sets.parent y ≠ none := by
  rcases compressed.parents y with same | ⟨q, ⟨n, path⟩, moved⟩
  · rw [same]
  · exact iff_of_true (by simp [moved]) path.parent_ne_none

/-- No element becomes a root. -/
theorem Compressed.parent_self {next : DisjointSets α} (compressed : Compressed sets next)
    (own : next.parent x = some x) : sets.parent x = some x := by
  rcases compressed.parents x with same | ⟨q, root, moved⟩
  · rw [← same, own]
  · obtain rfl := Option.some.inj (moved.symm.trans own)
    exact root.parent_root

/-- The elements are among the members, and each of them has a root. -/
structure Rooted (sets : DisjointSets α) (members : Finset α) : Prop where
  inside : ∀ y, sets.parent y ≠ none → y ∈ members
  root : ∀ y, sets.parent y ≠ none → ∃ r, sets.Root y r

theorem Rooted.compressed {next : DisjointSets α} {members : Finset α} (rooted : sets.Rooted members)
    (compressed : Compressed sets next) :
    next.Rooted members := by
  refine ⟨fun y known => rooted.inside y ((compressed.parent_ne_none y).mp known), fun y known => ?_⟩
  obtain ⟨r, root⟩ := rooted.root y ((compressed.parent_ne_none y).mp known)
  exact ⟨r, compressed.roots y r root⟩

section Operations

variable [DecidableEq α]

/-- Letting an element point to its root keeps the roots. -/
theorem compressed_update (root : sets.Root x r) :
    Compressed sets { sets with parent := Function.update sets.parent x (some r) } := by
  refine ⟨fun y q other => ?_, fun y => ?_⟩
  · by_cases top : r = x
    · have same : Function.update sets.parent x (some r) = sets.parent := by
        rw [top, ← (top ▸ root.parent_root : sets.parent x = some x), Function.update_eq_self]
      rw [same]
      exact other
    · have ownRoot : Function.update sets.parent x (some r) r = some r :=
        (Function.update_of_ne top _ _).trans root.parent_root
      refine other.map (f := id) (fun y own => root_self ?_) fun y above q points moves known later => ?_
      · have apart : y ≠ x := by
          rintro rfl
          exact top (root.unique (root_self own))
        exact (Function.update_of_ne apart _ _).trans own
      · by_cases same : y = x
        · subst same
          obtain rfl := root.unique (Root.up points moves known)
          exact root_of_parent (Function.update_self _ _ _) ownRoot
        · exact Root.up ((Function.update_of_ne same _ _).trans points) moves later
  · by_cases same : y = x
    · subst same
      exact Or.inr ⟨r, root, Function.update_self _ _ _⟩
    · exact Or.inl (Function.update_of_ne same _ _)

/-- A search with a step for each element on the way finds the root and compresses the way. -/
theorem RootAfter.find (path : RootAfter sets n x r) (rooted : ∀ y, sets.parent y ≠ none → ∃ q, sets.Root y q) {fuel : ℕ}
    (enough : n < fuel) :
    ∃ next, DisjointSets.find fuel sets x = some (next, r) ∧ Compressed sets next ∧ next.parent x = some r := by
  induction path generalizing fuel with
  | top own =>
      obtain ⟨fuel, rfl⟩ : ∃ less, fuel = less + 1 := ⟨fuel - 1, by omega⟩
      refine ⟨sets, ?_, .refl sets, own⟩
      rw [DisjointSets.find, own, Option.bind_some, if_pos rfl]
  | @up n x above r points moves later ih =>
      obtain ⟨fuel, rfl⟩ : ∃ less, fuel = less + 1 := ⟨fuel - 1, by omega⟩
      obtain ⟨next, found, compressed, -⟩ := @ih fuel (by omega)
      refine ⟨_, ?_, compressed.trans (compressed_update (compressed.roots _ _ ⟨_, .up points moves later⟩)) rooted,
        Function.update_self _ _ _⟩
      rw [DisjointSets.find, points, Option.bind_some, if_neg moves, found, Option.map_some]

/-- Elements that are no longer below a new root keep their root. -/
theorem Root.makeSet (root : sets.Root x r) (y : α) : (sets.makeSet y).Root x r ∨ (sets.makeSet y).Root x y := by
  obtain ⟨n, path⟩ := root
  have own : (sets.makeSet y).Root y y := root_self (Function.update_self _ _ _)
  induction path with
  | @top x own' =>
      by_cases same : x = y
      · exact Or.inr (same ▸ own)
      · exact Or.inl (root_self ((Function.update_of_ne same _ _).trans own'))
  | @up n x above r points moves _ ih =>
      by_cases same : x = y
      · exact Or.inr (same ▸ own)
      · have step : (sets.makeSet y).parent x = some above := (Function.update_of_ne same _ _).trans points
        exact ih.imp (Root.up step moves) (Root.up step moves)

/-- A root that is put below another root hands over its elements. -/
theorem Root.attach {low top : α} {rank : α → ℤ} (different : low ≠ top) (lowRoot : sets.parent low = some low)
    (topRoot : sets.parent top = some top) (root : sets.Root x r) :
    Root ⟨Function.update sets.parent low (some top), rank⟩ x (if r = low then top else r) := by
  have topOwn : Function.update sets.parent low (some top) top = some top :=
    (Function.update_of_ne (Ne.symm different) _ _).trans topRoot
  refine root.map (f := fun r => if r = low then top else r) (fun y own => ?_) fun y above q points moves _ later => ?_
  · by_cases same : y = low
    · subst same
      simp only [if_true]
      exact root_of_parent (Function.update_self _ _ _) topOwn
    · simp only [if_neg same]
      exact root_self ((Function.update_of_ne same _ _).trans own)
  · have apart : y ≠ low := by
      rintro rfl
      exact moves (Option.some.inj (points.symm.trans lowRoot))
    exact Root.up ((Function.update_of_ne apart _ _).trans points) moves later

/-- Linking two roots puts one of them below the other one and changes no other element. -/
theorem link_spec (xRoot : sets.parent x = some x) (yRoot : sets.parent y = some y) :
    ∃ top, (top = x ∨ top = y) ∧
      (∀ z r, sets.Root z r → (link sets x y).Root z (if r = x ∨ r = y then top else r)) ∧
      ∀ z, (link sets x y).parent z = if z = x ∨ z = y then some top else sets.parent z := by
  -- the second root is put below the first one, or the other way round
  have joins {low top : α} {rank : α → ℤ} (pair : low = y ∧ top = x ∨ low = x ∧ top = y) (different : low ≠ top) :
      (∀ z r, sets.Root z r →
        Root ⟨Function.update sets.parent low (some top), rank⟩ z (if r = x ∨ r = y then top else r)) ∧
      ∀ z, Function.update sets.parent low (some top) z = if z = x ∨ z = y then some top else sets.parent z := by
    have lowRoot : sets.parent low = some low := by rcases pair with ⟨rfl, rfl⟩ | ⟨rfl, rfl⟩ <;> assumption
    have topRoot : sets.parent top = some top := by rcases pair with ⟨rfl, rfl⟩ | ⟨rfl, rfl⟩ <;> assumption
    have either (z : α) : z = x ∨ z = y ↔ z = low ∨ z = top := by
      rcases pair with ⟨rfl, rfl⟩ | ⟨rfl, rfl⟩
      · exact or_comm
      · exact Iff.rfl
    refine ⟨fun z r root => ?_, fun z => ?_⟩
    · have attached : Root ⟨Function.update sets.parent low (some top), rank⟩ z (if r = low then top else r) :=
        root.attach different lowRoot topRoot
      by_cases isTop : r = top
      · rw [if_neg (isTop ▸ Ne.symm different)] at attached
        rw [if_pos ((either r).mpr (Or.inr isTop))]
        exact isTop ▸ attached
      · simp only [either, isTop, or_false]
        exact attached
    · by_cases isLow : z = low
      · rw [if_pos ((either z).mpr (Or.inl isLow)), isLow, Function.update_self]
      · rw [Function.update_of_ne isLow]
        by_cases isTop : z = top
        · rw [if_pos ((either z).mpr (Or.inr isTop)), isTop, topRoot]
        · rw [if_neg (mt (either z).mp (not_or.mpr ⟨isLow, isTop⟩))]
  rw [link]
  split_ifs with less more different
  · exact ⟨x, Or.inl rfl, joins (Or.inl ⟨rfl, rfl⟩) fun same => by simp [same] at less⟩
  · exact ⟨y, Or.inr rfl, joins (Or.inr ⟨rfl, rfl⟩) fun same => by simp [same] at more⟩
  · exact ⟨x, Or.inl rfl, joins (Or.inl ⟨rfl, rfl⟩) (Ne.symm different)⟩
  · obtain rfl := not_not.mp different
    refine ⟨x, Or.inl rfl, fun z r root => ?_, fun z => ?_⟩
    · split_ifs with same
      · rw [or_self] at same
        rwa [← same]
      · exact root
    · split_ifs with same
      · rw [or_self] at same
        rw [same, xRoot]
      · rfl

variable {members : Finset α} {fuel : ℕ}

theorem Rooted.find (rooted : sets.Rooted members) (enough : members.card ≤ fuel) (known : sets.parent x ≠ none) :
    ∃ next r, DisjointSets.find fuel sets x = some (next, r) ∧ sets.Root x r ∧ Compressed sets next ∧
      next.parent x = some r := by
  obtain ⟨r, n, path⟩ := rooted.root x known
  obtain ⟨next, found, compressed, points⟩ := path.find rooted.root ((path.lt_card rooted.inside).trans_le enough)
  exact ⟨next, r, found, ⟨n, path⟩, compressed, points⟩

/-- One of the two roots becomes the root of both elements, and the other roots and what points to them stay. -/
theorem Rooted.union (rooted : sets.Rooted members) (enough : members.card ≤ fuel) (xKnown : sets.parent x ≠ none)
    (yKnown : sets.parent y ≠ none) :
    ∃ next r q top, DisjointSets.union fuel sets x y = some next ∧ sets.Root x r ∧ sets.Root y q ∧
      (top = r ∨ top = q) ∧ next.Rooted members ∧ next.Root x top ∧
      (∀ z, next.parent z = some z → z = top ∨ ¬ (z = r ∨ z = q) ∧ sets.parent z = some z) ∧
      (∀ z p, sets.parent z = some p → sets.parent p = some p → ¬ (p = r ∨ p = q) → next.parent z = some p) ∧
      ∀ z, next.parent z ≠ none ↔ sets.parent z ≠ none := by
  obtain ⟨mid, r, foundX, rootX, compressed, -⟩ := rooted.find enough xKnown
  obtain ⟨last, q, foundY, rootMid, compressed', -⟩ := (rooted.compressed compressed).find enough
    ((compressed.parent_ne_none y).mpr yKnown)
  have both := compressed.trans compressed' rooted.root
  have rootY : sets.Root y q := by
    obtain ⟨p, root⟩ := rooted.root y yKnown
    rwa [← (compressed.roots y p root).unique rootMid]
  obtain ⟨top, either, roots, parents⟩ := link_spec (both.parent_eq rootX.parent_root rootX.parent_root)
    (both.parent_eq rootY.parent_root rootY.parent_root)
  have known (z : α) : (link last r q).parent z ≠ none ↔ sets.parent z ≠ none := by
    rw [parents, ← both.parent_ne_none]
    split_ifs with joined
    · refine iff_of_true (by simp) ((both.parent_ne_none z).mpr ?_)
      rcases joined with rfl | rfl
      · simp [rootX.parent_root]
      · simp [rootY.parent_root]
    · rfl
  refine ⟨link last r q, r, q, top, ?_, rootX, rootY, either, ⟨fun z there => ?_, fun z there => ?_⟩, ?_, fun z own => ?_,
    fun z p points own apart => ?_, known⟩
  · simp only [DisjointSets.union, foundX, foundY, Option.bind_some, Option.map_some]
  · exact rooted.inside z ((known z).mp there)
  · obtain ⟨p, root⟩ := rooted.root z ((known z).mp there)
    exact ⟨_, roots z p (both.roots z p root)⟩
  · have moved := roots x r (both.roots x r rootX)
    rwa [if_pos (Or.inl rfl)] at moved
  · rw [parents] at own
    split_ifs at own with joined
    · exact Or.inl (Option.some.inj own).symm
    · exact Or.inr ⟨joined, both.parent_self own⟩
  · rw [parents, if_neg, both.parent_eq points own]
    rintro (rfl | rfl)
    · exact apart (Or.inl (Option.some.inj (points.symm.trans rootX.parent_root)))
    · exact apart (Or.inr (Option.some.inj (points.symm.trans rootY.parent_root)))

end Operations

end DisjointSets
