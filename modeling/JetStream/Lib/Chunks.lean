import Mathlib.Data.List.Basic

/-- A chunk was made for some number of rows. -/
structure Chunk (β : Type) where
  size : ℕ
  rows : List β
  deriving DecidableEq

namespace Chunks

variable {α β : Type} (need : α → Bool) (bind : α → Option β)

/-- A chunk binds the next needed items, and running out of items or a failed binding is an error. -/
def fill : ℕ → List α → Option (List β × List α)
  | 0, rest => some ([], rest)
  | _ + 1, [] => none
  | count + 1, item :: rest =>
      if need item then do
        let value ← bind item
        let (values, rest) ← fill count rest
        some (value :: values, rest)
      else fill (count + 1) rest

/-- Chunks are filled until no item is left to count, and missing fuel is an error. -/
def fillAll (size : ℕ → Option ℕ) : ℕ → ℕ → List α → Option (List (Chunk β))
  | _, 0, _ => some []
  | 0, _ + 1, _ => none
  | fuel + 1, left + 1, rest => do
      let count ← size (left + 1)
      let (rows, rest) ← fill need bind count rest
      let chunks ← fillAll size fuel (left + 1 - count) rest
      some (⟨count, rows⟩ :: chunks)

section Fill

variable {need : α → Bool} {bind : α → Option β} {value : α → β}

/-- A chunk holds the next needed items in order and leaves the other ones. -/
theorem fill_eq {rest : List α} (bound : ∀ item ∈ rest, need item = true → bind item = some (value item)) {count : ℕ}
    (enough : count ≤ (rest.filter need).length) :
    ∃ after, after <:+ rest ∧ after.filter need = (rest.filter need).drop count ∧
      fill need bind count rest = some (((rest.filter need).take count).map value, after) := by
  induction rest generalizing count with
  | nil =>
      obtain rfl : count = 0 := Nat.le_zero.mp enough
      exact ⟨[], List.suffix_rfl, rfl, rfl⟩
  | cons item rest ih =>
      cases count with
      | zero => exact ⟨item :: rest, List.suffix_rfl, rfl, rfl⟩
      | succ count =>
          have later : ∀ other ∈ rest, need other = true → bind other = some (value other) :=
            fun other member => bound other (List.mem_cons_of_mem _ member)
          by_cases needed : need item = true
          · rw [List.filter_cons_of_pos needed] at enough ⊢
            obtain ⟨after, suffix, left, filled⟩ := ih later (Nat.le_of_succ_le_succ enough)
            refine ⟨after, suffix.trans (List.suffix_cons _ _), left, ?_⟩
            rw [fill, if_pos needed, bound item List.mem_cons_self needed, filled]
            rfl
          · rw [List.filter_cons_of_neg needed] at enough ⊢
            obtain ⟨after, suffix, left, filled⟩ := ih later enough
            refine ⟨after, suffix.trans (List.suffix_cons _ _), left, ?_⟩
            rw [fill, if_neg needed, filled]

/-- Chunks of positive sizes that never exceed what is left bind each needed item once and in order, and each chunk
has the number of rows that it was made for. -/
theorem fillAll_eq {size : ℕ → Option ℕ} {limit : ℕ}
    (sizes : ∀ left, 0 < left → left ≤ limit → ∃ count, size left = some count ∧ 0 < count ∧ count ≤ left)
    {rest : List α} (bound : ∀ item ∈ rest, need item = true → bind item = some (value item)) {fuel left : ℕ}
    (counted : left = (rest.filter need).length) (small : left ≤ limit) (fueled : left ≤ fuel) :
    ∃ chunks, fillAll need bind size fuel left rest = some chunks ∧
      chunks.flatMap Chunk.rows = (rest.filter need).map value ∧ ∀ chunk ∈ chunks, chunk.rows.length = chunk.size := by
  induction fuel generalizing left rest with
  | zero =>
      obtain rfl : left = 0 := Nat.le_zero.mp fueled
      rw [List.eq_nil_of_length_eq_zero counted.symm]
      exact ⟨[], rfl, rfl, List.forall_mem_nil _⟩
  | succ fuel ih =>
      cases left with
      | zero =>
          rw [List.eq_nil_of_length_eq_zero counted.symm]
          exact ⟨[], rfl, rfl, List.forall_mem_nil _⟩
      | succ left =>
          obtain ⟨count, sized, positive, atMost⟩ := sizes (left + 1) (Nat.succ_pos left) small
          obtain ⟨after, suffix, remaining, filled⟩ := fill_eq bound (counted ▸ atMost)
          have remains : left + 1 - count = (after.filter need).length := by
            rw [remaining, List.length_drop, ← counted]
          obtain ⟨chunks, done, flat, lengths⟩ :=
            ih (fun item member => bound item (suffix.subset member)) remains (by omega) (by omega)
          refine ⟨⟨count, ((rest.filter need).take count).map value⟩ :: chunks, ?_, ?_, ?_⟩
          · rw [fillAll, sized]
            simp only [Option.bind_eq_bind, Option.bind_some, filled, done]
          · rw [List.flatMap_cons, flat, remaining, ← List.map_append, List.take_append_drop]
          · refine List.forall_mem_cons.mpr ⟨?_, lengths⟩
            rw [List.length_map, List.length_take, ← counted, Nat.min_eq_left atMost]

end Fill

end Chunks
