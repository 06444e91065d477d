import Mathlib.Data.Finset.Card
import Mathlib.Data.Finset.Insert
import Mathlib.Logic.Function.Basic

/-- Each element of a set points to its parent, and a root points to itself. -/
structure DisjointSets (α : Type) where
  parent : α → Option α
  rank : α → ℤ

namespace DisjointSets

variable {α : Type}

/-- No element is in a set yet. -/
def empty : DisjointSets α := ⟨fun _ => none, fun _ => -1⟩

section Operations

variable [DecidableEq α]

def makeSet (sets : DisjointSets α) (x : α) : DisjointSets α :=
  ⟨Function.update sets.parent x (some x), Function.update sets.rank x 0⟩

/-- The search returns the root and lets every element on the way point to it. -/
def find : ℕ → DisjointSets α → α → Option (DisjointSets α × α)
  | 0, _, _ => none
  | fuel + 1, sets, x =>
      (sets.parent x).bind fun above =>
        if above = x then some (sets, x)
        else (find fuel sets above).map fun (next, root) =>
          ({ next with parent := Function.update next.parent x (some root) }, root)

/-- The root of smaller rank is put below the other root, and equal ranks raise the first one. -/
def link (sets : DisjointSets α) (xRoot yRoot : α) : DisjointSets α :=
  if sets.rank yRoot < sets.rank xRoot then { sets with parent := Function.update sets.parent yRoot (some xRoot) }
  else if sets.rank xRoot < sets.rank yRoot then
    { sets with parent := Function.update sets.parent xRoot (some yRoot) }
  else if xRoot ≠ yRoot then
    ⟨Function.update sets.parent yRoot (some xRoot), Function.update sets.rank xRoot (sets.rank xRoot + 1)⟩
  else sets

def union (fuel : ℕ) (sets : DisjointSets α) (x y : α) : Option (DisjointSets α) :=
  (find fuel sets x).bind fun (sets, xRoot) => (find fuel sets y).map fun (sets, yRoot) => link sets xRoot yRoot

end Operations

/-- The function gives the root of each member, and ranks grow towards the roots. -/
structure Represents (sets : DisjointSets α) (members : Finset α) (root : α → α) : Prop where
  root_mem : ∀ x ∈ members, root x ∈ members
  parent_root : ∀ x ∈ members, sets.parent (root x) = some (root x)
  parent : ∀ x ∈ members, ∃ above ∈ members, sets.parent x = some above ∧ root above = root x ∧
    (above = x → root x = x) ∧ (above ≠ x → sets.rank x < sets.rank above)

namespace Represents

variable {sets : DisjointSets α} {members : Finset α} {root : α → α}

theorem root_root (represents : sets.Represents members root) {x : α} (member : x ∈ members) :
    root (root x) = root x := by
  obtain ⟨above, -, points, -, stops, -⟩ := represents.parent (root x) (represents.root_mem x member)
  rw [represents.parent_root x member] at points
  exact stops (Option.some.inj points).symm

/-- Nothing is represented at the start. -/
theorem empty (root : α → α) : (DisjointSets.empty : DisjointSets α).Represents ∅ root := by
  constructor <;> simp

/-- Fewer members have a larger rank than a member of larger rank. -/
theorem card_above_lt {rank : α → ℤ} {x above : α} (inside : above ∈ members) (grows : rank x < rank above) :
    (members.filter fun y => rank above < rank y).card < (members.filter fun y => rank x < rank y).card := by
  refine Finset.card_lt_card (Finset.ssubset_iff_of_subset ?_ |>.mpr ⟨above, ?_, ?_⟩)
  · intro y member
    obtain ⟨member, larger⟩ := Finset.mem_filter.mp member
    exact Finset.mem_filter.mpr ⟨member, grows.trans larger⟩
  · exact Finset.mem_filter.mpr ⟨inside, grows⟩
  · exact fun member => lt_irrefl _ (Finset.mem_filter.mp member).2

variable [DecidableEq α]

/-- A new set has one member, which is its root. -/
theorem makeSet (represents : sets.Represents members root) {x : α} (new : x ∉ members) :
    (sets.makeSet x).Represents (insert x members) (Function.update root x x) := by
  have other : ∀ y ∈ members, y ≠ x := by
    rintro y member rfl
    exact new member
  have kept : ∀ y ∈ members, (sets.makeSet x).parent y = sets.parent y ∧ (sets.makeSet x).rank y = sets.rank y ∧
      Function.update root x x y = root y := by
    intro y member
    exact ⟨Function.update_of_ne (other y member) _ _, Function.update_of_ne (other y member) _ _,
      Function.update_of_ne (other y member) _ _⟩
  have own : (sets.makeSet x).parent x = some x ∧ Function.update root x x x = x :=
    ⟨Function.update_self _ _ _, Function.update_self _ _ _⟩
  constructor
  · intro y member
    rcases Finset.mem_insert.mp member with rfl | member
    · rw [own.2]
      exact Finset.mem_insert_self _ _
    · rw [(kept y member).2.2]
      exact Finset.mem_insert_of_mem (represents.root_mem y member)
  · intro y member
    rcases Finset.mem_insert.mp member with rfl | member
    · rw [own.2]
      exact own.1
    · rw [(kept y member).2.2, (kept _ (represents.root_mem y member)).1]
      exact represents.parent_root y member
  · intro y member
    rcases Finset.mem_insert.mp member with rfl | member
    · exact ⟨y, Finset.mem_insert_self _ _, own.1, rfl, fun _ => own.2, fun different => absurd rfl different⟩
    · obtain ⟨above, inside, points, same, stops, grows⟩ := represents.parent y member
      refine ⟨above, Finset.mem_insert_of_mem inside, ?_, ?_, ?_, ?_⟩
      · rw [(kept y member).1, points]
      · rw [(kept above inside).2.2, (kept y member).2.2, same]
      · rw [(kept y member).2.2]
        exact stops
      · rw [(kept y member).2.1, (kept above inside).2.1]
        exact grows

/-- A member is its own root or has a smaller rank than its root. -/
theorem rank_lt_root (represents : sets.Represents members root) {x : α} (member : x ∈ members)
    (below : root x ≠ x) : sets.rank x < sets.rank (root x) := by
  obtain ⟨above, inside, -, same, stops, grows⟩ := represents.parent x member
  have step : sets.rank x < sets.rank above := grows fun stay => below (stops stay)
  rw [← same]
  by_cases top : root above = above
  · rw [top]
    exact step
  · exact step.trans (rank_lt_root represents inside top)
termination_by (members.filter fun y => sets.rank x < sets.rank y).card
decreasing_by exact card_above_lt inside step

/-- Letting a member point to its root keeps the roots. -/
theorem compress (represents : sets.Represents members root) {x : α} (member : x ∈ members) :
    DisjointSets.Represents { sets with parent := Function.update sets.parent x (some (root x)) } members root := by
  constructor
  · exact represents.root_mem
  · intro y inside
    by_cases same : root y = x
    · have top : root x = x := by
        rw [← same]
        exact represents.root_root inside
      rw [same]
      exact (Function.update_self _ _ _).trans (congrArg some top)
    · exact (Function.update_of_ne same _ _).trans (represents.parent_root y inside)
  · intro y inside
    by_cases same : y = x
    · subst same
      refine ⟨root y, represents.root_mem y member, Function.update_self _ _ _, represents.root_root member, id, ?_⟩
      exact represents.rank_lt_root member
    · obtain ⟨above, within, points, rest⟩ := represents.parent y inside
      exact ⟨above, within, (Function.update_of_ne same _ _).trans points, rest⟩

/-- A search with a step for each member of larger rank finds the root and keeps the roots. -/
theorem find_of_card (represents : sets.Represents members root) (fuel : ℕ) {x : α} (member : x ∈ members)
    (enough : (members.filter fun y => sets.rank x < sets.rank y).card < fuel) :
    ∃ next, find fuel sets x = some (next, root x) ∧ next.Represents members root := by
  induction fuel generalizing x with
  | zero => exact absurd enough (Nat.not_lt_zero _)
  | succ fuel ih =>
      obtain ⟨above, inside, points, same, stops, grows⟩ := represents.parent x member
      rw [find, points, Option.bind_some]
      by_cases top : above = x
      · rw [if_pos top, stops top]
        exact ⟨sets, rfl, represents⟩
      · obtain ⟨next, found, kept⟩ :=
          ih inside ((card_above_lt inside (grows top)).trans_le (Nat.le_of_lt_succ enough))
        rw [if_neg top, found, same]
        exact ⟨_, rfl, kept.compress member⟩

/-- A search with a step for each member finds the root and keeps the roots. -/
theorem find (represents : sets.Represents members root) {fuel : ℕ} (enough : members.card ≤ fuel) {x : α}
    (member : x ∈ members) :
    ∃ next, DisjointSets.find fuel sets x = some (next, root x) ∧ next.Represents members root := by
  refine represents.find_of_card fuel member (Nat.lt_of_lt_of_le (Finset.card_lt_card ?_) enough)
  refine Finset.filter_ssubset.mpr ⟨x, member, lt_irrefl _⟩

/-- A root that is put below another root joins the two sets. -/
theorem attach (represents : sets.Represents members root) {top low : α} (topMember : top ∈ members)
    (topRoot : root top = top) (lowRoot : root low = low) (different : low ≠ top)
    {rank : α → ℤ} (kept : ∀ z, z ≠ top → rank z = sets.rank z) (grows : sets.rank top ≤ rank top)
    (above : sets.rank low < rank top) :
    DisjointSets.Represents ⟨Function.update sets.parent low (some top), rank⟩ members
      (fun z => if root z = low then top else root z) := by
  constructor
  · intro z member
    split
    · exact topMember
    · exact represents.root_mem z member
  · intro z member
    dsimp only
    split
    · rw [Function.update_of_ne different.symm]
      exact topRoot ▸ represents.parent_root top topMember
    next other =>
      rw [Function.update_of_ne other]
      exact represents.parent_root z member
  · intro z member
    dsimp only
    by_cases isLow : z = low
    · subst isLow
      refine ⟨top, topMember, Function.update_self _ _ _, ?_, ?_, ?_⟩
      · rw [if_pos lowRoot, topRoot, if_neg different.symm]
      · exact fun same => absurd same.symm different
      · intro _
        rw [kept z different]
        exact above
    · obtain ⟨next, inside, points, same, stops, larger⟩ := represents.parent z member
      refine ⟨next, inside, ?_, ?_, ?_, ?_⟩
      · rw [Function.update_of_ne isLow, points]
      · rw [same]
      · intro stay
        rw [stops stay, if_neg isLow]
      · intro moves
        have less : sets.rank z < sets.rank next := larger moves
        have zTop : z ≠ top := by
          rintro rfl
          rw [topRoot.symm, represents.parent_root z member] at points
          exact moves ((Option.some.inj points).symm.trans topRoot)
        rw [kept z zTop]
        by_cases nextTop : next = top
        · rw [nextTop] at less ⊢
          exact less.trans_le grows
        · rw [kept next nextTop]
          exact less

/-- The linked sets have one of the two roots. -/
theorem link (represents : sets.Represents members root) {x y : α} (xMember : x ∈ members) (yMember : y ∈ members) :
    ∃ top, (top = root x ∨ top = root y) ∧ (DisjointSets.link sets (root x) (root y)).Represents members
      (fun z => if root z = root x ∨ root z = root y then top else root z) := by
  have xTop := represents.root_root xMember
  have yTop := represents.root_root yMember
  have xIn := represents.root_mem x xMember
  have yIn := represents.root_mem y yMember
  have joinY : (fun z => if root z = root x ∨ root z = root y then root x else root z) =
      fun z => if root z = root y then root x else root z := by
    funext z
    by_cases first : root z = root x
    · simp [first]
    · simp [first]
  have joinX : (fun z => if root z = root x ∨ root z = root y then root y else root z) =
      fun z => if root z = root x then root y else root z := by
    funext z
    by_cases second : root z = root y
    · simp [second]
    · simp [second]
  rw [DisjointSets.link]
  split
  next less =>
    refine ⟨root x, Or.inl rfl, ?_⟩
    rw [joinY]
    exact represents.attach xIn xTop yTop (fun same => by simp [same] at less) (fun _ _ => rfl) le_rfl less
  next notLess =>
    split
    next less =>
      refine ⟨root y, Or.inr rfl, ?_⟩
      rw [joinX]
      exact represents.attach yIn yTop xTop (fun same => by simp [same] at less) (fun _ _ => rfl) le_rfl less
    next notMore =>
      split
      next different =>
        refine ⟨root x, Or.inl rfl, ?_⟩
        rw [joinY]
        refine represents.attach xIn xTop yTop (Ne.symm different) ?_ ?_ ?_
        · intro z other
          exact Function.update_of_ne other _ _
        · rw [Function.update_self]
          omega
        · rw [Function.update_self]
          omega
      next same =>
        refine ⟨root x, Or.inl rfl, ?_⟩
        rw [joinY, ← Classical.not_not.mp same]
        convert represents using 2
        split
        next here => exact here.symm
        next => rfl

/-- A union joins the two sets under one of their roots. -/
theorem union (represents : sets.Represents members root) {fuel : ℕ} (enough : members.card ≤ fuel) {x y : α}
    (xMember : x ∈ members) (yMember : y ∈ members) :
    ∃ next top, DisjointSets.union fuel sets x y = some next ∧ (top = root x ∨ top = root y) ∧
      next.Represents members (fun z => if root z = root x ∨ root z = root y then top else root z) := by
  obtain ⟨first, foundX, keptX⟩ := represents.find enough xMember
  obtain ⟨second, foundY, keptY⟩ := keptX.find enough yMember
  obtain ⟨top, isRoot, linked⟩ := keptY.link xMember yMember
  refine ⟨_, top, ?_, isRoot, linked⟩
  simp only [DisjointSets.union, foundX, Option.bind_some, foundY, Option.map_some]

end Represents

end DisjointSets
