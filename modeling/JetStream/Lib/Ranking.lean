import Mathlib.Data.List.Basic
import Mathlib.Data.Nat.Find
import JetStream.Lib.Comparison

namespace Comparison

variable {β : Type} {compare : β → β → ℤ} {items : List β} {a b : β}

/-- In a sorted list smaller values stand in front of larger ones. -/
theorem Consistent.idxOf_lt [DecidableEq β] (consistent : Consistent compare)
    (sorted : items.Pairwise fun a b => compare a b ≤ 0) (left : a ∈ items) (right : b ∈ items) (less : compare a b < 0) :
    items.idxOf a < items.idxOf b := by
  by_contra notBefore
  have insideA := List.idxOf_lt_length_of_mem left
  have insideB := List.idxOf_lt_length_of_mem right
  rcases (not_lt.mp notBefore).lt_or_eq with behind | same
  · have order := List.pairwise_iff_getElem.mp sorted _ _ insideB insideA behind
    rw [List.getElem_idxOf, List.getElem_idxOf] at order
    have greater := (consistent.swap a b).mp less
    omega
  · obtain rfl := (List.idxOf_inj right).mp same
    have equal := consistent.refl b
    omega

section Blocks

variable {rank : β → ℕ} {bound : ℕ}

/-- A smaller rank does not compare as greater. -/
theorem compare_le_of_rank_le (consistent : Consistent compare)
    (ordered : ∀ a ∈ items, ∀ b ∈ items, compare a b < 0 → rank a < rank b) (left : a ∈ items) (right : b ∈ items)
    (before : rank a ≤ rank b) : compare a b ≤ 0 := by
  by_contra greater
  have less : compare b a < 0 := (consistent.swap b a).mpr (not_le.mp greater)
  exact absurd (ordered b right a left less) before.not_gt

/-- The ranks of a convex set are one block, and the block starts behind everything below the set. -/
theorem Consistent.exists_block (consistent : Consistent compare) (small : ∀ a ∈ items, rank a < bound)
    (ordered : ∀ a ∈ items, ∀ b ∈ items, compare a b < 0 → rank a < rank b) (inside : β → Prop)
    (convex : ∀ a ∈ items, ∀ b ∈ items, ∀ c ∈ items, inside a → inside c → compare a b ≤ 0 → compare b c ≤ 0 → inside b) :
    ∃ first last, (∀ b ∈ items, inside b ↔ first ≤ rank b ∧ rank b < last) ∧
      ∀ b ∈ items, (∀ a ∈ items, inside a → compare b a < 0) → rank b < first := by
  classical
  by_cases any : ∃ i, ∃ a ∈ items, inside a ∧ rank a = i
  · obtain ⟨a, memberA, insideA, placeA⟩ := Nat.find_spec any
    have some : ∃ c ∈ items, inside c ∧ rank c + 1 = rank a + 1 := ⟨a, memberA, insideA, rfl⟩
    obtain ⟨c, memberC, insideC, placeC⟩ :=
      Nat.findGreatest_spec (P := fun i => ∃ c ∈ items, inside c ∧ rank c + 1 = i) (small a memberA) some
    refine ⟨rank a, rank c + 1, fun b memberB => ⟨fun insideB => ⟨?_, ?_⟩, fun between => ?_⟩, ?_⟩
    · rw [placeA]
      exact Nat.find_min' any ⟨b, memberB, insideB, rfl⟩
    · rw [placeC]
      exact Nat.le_findGreatest (small b memberB) ⟨b, memberB, insideB, rfl⟩
    · exact convex a memberA b memberB c memberC insideA insideC
        (compare_le_of_rank_le consistent ordered memberA memberB between.1)
        (compare_le_of_rank_le consistent ordered memberB memberC (Nat.lt_succ_iff.mp between.2))
    · exact fun b memberB below => ordered b memberB a memberA (below a memberA insideA)
  · refine ⟨bound, bound, fun b memberB => ⟨fun insideB => absurd ⟨_, b, memberB, insideB, rfl⟩ any, fun between => ?_⟩,
      fun b memberB _ => small b memberB⟩
    exact absurd between.2 between.1.not_gt

end Blocks

end Comparison

section Ranks

variable {α : Type}

/-- Each item whose place is listed once is rewritten by its rank, and the others stay. -/
theorem getElem?_foldl_modify (write : ℕ → α → α) {places : List ℕ} (distinct : places.Nodup) (items : List α)
    (first walk : ℕ) :
    ((places.zipIdx first).foldl (fun items entry => items.modify entry.1 (write entry.2)) items)[walk]? =
      items[walk]?.map fun item => if walk ∈ places then write (first + places.idxOf walk) item else item := by
  induction places generalizing items first with
  | nil => simp
  | cons place places ih =>
      obtain ⟨fresh, distinct⟩ := List.nodup_cons.mp distinct
      rw [List.zipIdx_cons, List.foldl_cons, ih distinct, List.getElem?_modify]
      by_cases same : place = walk
      · subst same
        simp [fresh, Function.comp_def]
      · have next : first + 1 + places.idxOf walk = first + (places.idxOf walk + 1) := by omega
        simp [same, Ne.symm same, List.idxOf_cons_ne places same, next]

/-- The ranks of a list without repetitions are the numbers below its length. -/
theorem map_idxOf_self {items : List ℕ} (distinct : items.Nodup) :
    (items.map fun item => items.idxOf item) = List.range items.length := by
  apply List.ext_getElem
  · simp
  · intro i inside _
    rw [List.getElem_map, distinct.idxOf_getElem, List.getElem_range]

end Ranks
