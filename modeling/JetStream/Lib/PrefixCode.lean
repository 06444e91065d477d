import Mathlib.Data.Set.Basic

/-- No code word of a sequence can be read as another one, whatever follows. -/
def PrefixFree {A B : Type} (words : Set A) (encode : A → List B) : Prop :=
  ∀ a ∈ words, ∀ b ∈ words, ∀ s t, encode a ++ s = encode b ++ t → a = b

namespace PrefixFree

variable {A B : Type} {words : Set A} {encode : A → List B}

/-- Words at the front of a coded sequence are the first words of the sequence, and the rest codes the others. -/
theorem flatMap_append (free : PrefixFree words encode) (nonempty : ∀ a ∈ words, encode a ≠ []) {first all : List A}
    {rest : List B} (firstWords : ∀ a ∈ first, a ∈ words) (allWords : ∀ a ∈ all, a ∈ words)
    (same : first.flatMap encode ++ rest = all.flatMap encode) :
    ∃ others, all = first ++ others ∧ rest = others.flatMap encode := by
  induction first generalizing all with
  | nil => exact ⟨all, rfl, same⟩
  | cons a first ih =>
      obtain ⟨aWord, firstWords⟩ := List.forall_mem_cons.mp firstWords
      rw [List.flatMap_cons, List.append_assoc] at same
      cases all with
      | nil =>
          obtain ⟨empty, -⟩ := List.append_eq_nil_iff.mp same
          exact absurd empty (nonempty a aWord)
      | cons b all =>
          obtain ⟨bWord, otherWords⟩ := List.forall_mem_cons.mp allWords
          rw [List.flatMap_cons] at same
          obtain rfl := free a aWord b bWord _ _ same
          have after : first.flatMap encode ++ rest = all.flatMap encode := List.append_cancel_left same
          obtain ⟨others, rfl, coded⟩ := ih firstWords otherWords after
          exact ⟨others, rfl, coded⟩

end PrefixFree
