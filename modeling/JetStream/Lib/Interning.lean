import Mathlib.Data.List.Nodup
import Mathlib.Data.Nat.Notation
import Mathlib.Logic.Function.Basic
import Mathlib.Order.Nat

namespace JetStream

section Keys

variable {K : Type} [BEq K] [LawfulBEq K]

/-- A key joins the others once. -/
def intern (keys : List K) (key : K) : List K := if key ∈ keys then keys else keys ++ [key]

/-- The keys are interned in the order in which they are asked for. -/
def internAll (keys requests : List K) : List K := requests.foldl intern keys

variable {keys : List K}

@[simp] theorem mem_intern {key other : K} : other ∈ intern keys key ↔ other ∈ keys ∨ other = key := by
  unfold intern
  split
  · rename_i known
    exact ⟨Or.inl, fun either => either.elim id fun same => same ▸ known⟩
  · simp

theorem nodup_intern (distinct : keys.Nodup) (key : K) : (intern keys key).Nodup := by
  unfold intern
  split
  · exact distinct
  · rename_i fresh
    exact List.nodup_append.mpr ⟨distinct, List.nodup_singleton _,
      fun other known same one alike => fresh (List.mem_singleton.mp one ▸ alike ▸ known)⟩

/-- A key keeps its position when others are interned. -/
theorem idxOf_intern {key : K} (known : key ∈ keys) (other : K) : (intern keys other).idxOf key = keys.idxOf key := by
  unfold intern
  split
  · rfl
  · exact List.idxOf_append_of_mem known

theorem mem_internAll {requests : List K} {key : K} : key ∈ internAll keys requests ↔ key ∈ keys ∨ key ∈ requests := by
  induction requests generalizing keys with
  | nil => simp [internAll]
  | cons request requests ih =>
      rw [internAll, List.foldl_cons, ← internAll, ih, mem_intern, List.mem_cons, or_assoc]

theorem idxOf_internAll {key : K} (known : key ∈ keys) (requests : List K) :
    (internAll keys requests).idxOf key = keys.idxOf key := by
  induction requests generalizing keys with
  | nil => rfl
  | cons request requests ih =>
      rw [internAll, List.foldl_cons, ← internAll, ih (mem_intern.mpr (Or.inl known)), idxOf_intern known]

end Keys

section Bins

variable {K B : Type} {bin : K → B} {keys : List K} {bins : B → List ℕ}

/-- Every bin chains the positions of its own keys. -/
def Chained (bin : K → B) (keys : List K) (bins : B → List ℕ) : Prop :=
  ∀ b i, i ∈ bins b ↔ ∃ key, keys[i]? = some key ∧ bin key = b

theorem chained_nil : Chained bin [] fun _ => [] := by
  simp [Chained]

/-- A new key is put at the head of its own chain. -/
theorem Chained.push [DecidableEq B] (chained : Chained bin keys bins) (key : K) :
    Chained bin (keys ++ [key]) (Function.update bins (bin key) (keys.length :: bins (bin key))) := by
  intro b i
  have added : (∃ other, (keys ++ [key])[i]? = some other ∧ bin other = b) ↔
      (i = keys.length ∧ bin key = b) ∨ ∃ other, keys[i]? = some other ∧ bin other = b := by
    rcases lt_trichotomy i keys.length with inside | rfl | outside
    · rw [List.getElem?_append_left inside]
      simp [inside.ne]
    · simp
    · have beyond : (keys ++ [key])[i]? = none := List.getElem?_eq_none (by simp; omega)
      simp [beyond, List.getElem?_eq_none outside.le, outside.ne']
  rw [added, ← chained b i]
  by_cases own : b = bin key
  · subst own
    simp
  · simp [Function.update_of_ne own, Ne.symm own]

/-- The walk along a chain finds the position of its key when the comparison can tell the keys of the bin apart. -/
theorem Chained.find_eq [BEq K] [LawfulBEq K] (chained : Chained bin keys bins) (distinct : keys.Nodup) {key : K}
    {same : ℕ → Bool} (exact : ∀ i other, keys[i]? = some other → (same i = true ↔ other = key)) :
    (bins (bin key)).find? same = if key ∈ keys then some (keys.idxOf key) else none := by
  split
  · rename_i known
    have inside := List.idxOf_lt_length_of_mem known
    have found : keys[keys.idxOf key]? = some key := by
      rw [List.getElem?_eq_getElem inside, List.getElem_idxOf inside]
    obtain ⟨i, walk⟩ : ∃ i, (bins (bin key)).find? same = some i := by
      rw [← Option.isSome_iff_exists, List.find?_isSome]
      exact ⟨_, (chained _ _).mpr ⟨key, found, rfl⟩, (exact _ _ found).mpr rfl⟩
    obtain ⟨other, here, -⟩ := (chained _ _).mp (List.mem_of_find?_eq_some walk)
    obtain rfl := (exact i other here).mp (List.find?_some walk)
    obtain ⟨bound, read⟩ := List.getElem?_eq_some_iff.mp here
    rw [walk, ← read, distinct.idxOf_getElem]
  · rename_i fresh
    rw [List.find?_eq_none]
    intro i member matched
    obtain ⟨other, here, -⟩ := (chained _ _).mp member
    obtain rfl := (exact i other here).mp matched
    exact fresh (List.mem_of_getElem? here)

end Bins

end JetStream
