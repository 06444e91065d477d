import Mathlib.Algebra.BigOperators.Group.List.Basic
import Mathlib.Algebra.GroupWithZero.Nat
import Mathlib.Algebra.Order.BigOperators.Group.List
import Mathlib.Data.Set.Finite.Basic
import Mathlib.Logic.Relation
import Mathlib.Order.WellFounded

/-- A sweep takes any item that waits and acts on it, and what comes next then waits, also when it has been taken
before. The picks decide which item is taken in each turn, and without a result the sweep has not ended with them. -/
def sweep {A S : Type} [DecidableEq A] (next : A → List A) (act : S → A → S) : List ℕ → List A → S → Option S
  | _, [], state => some state
  | [], _ :: _, _ => none
  | pick :: picks, first :: rest, state =>
      let item := (first :: rest).getD (pick % (rest.length + 1)) first
      sweep next act picks ((next item).foldl (fun waiting other => waiting.insert other) ((first :: rest).erase item))
        (act state item)

namespace Sweep

variable {A S : Type} {next : A → List A}

/-- The second item comes next after the first one. -/
def Step (next : A → List A) (a b : A) : Prop := b ∈ next a

/-- Everything that comes after the item in any number of steps comes to an end. -/
def Ends (next : A → List A) (a : A) : Prop := Acc (fun b a => Step next a b) a

theorem exists_next_of_not_ends {a : A} (endless : ¬ Ends next a) : ∃ b ∈ next a, ¬ Ends next b := by
  by_contra every
  push Not at every
  exact endless (Acc.intro a every)

/-- An item weighs one more than what comes next after it. -/
noncomputable def weightOf (next : A → List A) (a : A) (ends : Ends next a) : ℕ :=
  Acc.rec (fun a _ weight => 1 + ((next a).attach.map fun b => weight b.1 b.2).sum) ends

open Classical in
noncomputable def weight (next : A → List A) (a : A) : ℕ := if ends : Ends next a then weightOf next a ends else 0

theorem weight_eq {a : A} (ends : Ends next a) : weight next a = 1 + ((next a).map (weight next)).sum := by
  have parts : ((next a).attach.map fun b => weightOf next b.1 (Acc.inv ends b.2)) = (next a).map (weight next) := by
    have each : ((next a).attach.map fun b => weightOf next b.1 (Acc.inv ends b.2)) =
        (next a).attach.map fun b => weight next b.1 := by
      refine List.map_congr_left fun b _ => ?_
      have endsNext : Ends next b.1 := Acc.inv ends b.2
      exact (dif_pos endsNext).symm
    exact each.trans List.attach_map_val
  rw [← parts, weight, dif_pos ends]
  cases ends
  rfl

/-- An item that ends is on no cycle, and neither is what comes after it. -/
theorem not_cycle_of_ends {a : A} (ends : Ends next a) : ¬ Relation.TransGen (Step next) a a := by
  have wide : Acc (Relation.TransGen fun b a => Step next a b) a := ends.transGen
  induction wide with
  | intro a _ ih =>
      intro cycle
      have back : Relation.TransGen (fun b a => Step next a b) a a := Relation.transGen_swap.mp cycle
      exact ih a back ends cycle

theorem ends_of_reached {a b : A} (ends : Ends next a) (reached : Relation.ReflTransGen (Step next) a b) :
    Ends next b := by
  induction reached with
  | refl => exact ends
  | tail _ step ih => exact ih.inv step

/-- When finitely many items come after it, an item ends exactly if none of them is on a cycle. -/
theorem ends_iff {a : A} (finite : {b | Relation.ReflTransGen (Step next) a b}.Finite) :
    Ends next a ↔ ∀ b, Relation.ReflTransGen (Step next) a b → ¬ Relation.TransGen (Step next) b b := by
  constructor
  · intro ends b reached
    exact not_cycle_of_ends (ends_of_reached ends reached)
  · intro acyclic
    let Later := {b // Relation.ReflTransGen (Step next) a b}
    have finiteLater : Finite Later := finite.to_subtype
    let after (c b : Later) : Prop := Relation.TransGen (Step next) b.1 c.1
    have transitive : IsTrans Later after := ⟨fun _ _ _ first second => second.trans first⟩
    have irreflexive : Std.Irrefl after := ⟨fun b => acyclic b.1 b.2⟩
    have wellFounded : WellFounded after := Finite.wellFounded_of_trans_of_irrefl after
    have every (b : Later) : Ends next b.1 := by
      induction b using wellFounded.induction with
      | _ b ih =>
          refine Acc.intro _ fun c step => ?_
          exact ih ⟨c, b.2.tail step⟩ (Relation.TransGen.single step)
    exact every ⟨a, Relation.ReflTransGen.refl⟩

theorem item_mem (first : A) (rest : List A) (pick : ℕ) :
    (first :: rest).getD (pick % (rest.length + 1)) first ∈ first :: rest := by
  have inside : pick % (rest.length + 1) < (first :: rest).length := Nat.mod_lt _ (Nat.succ_pos _)
  rw [List.getD_eq_getElem?_getD, List.getElem?_eq_getElem inside]
  exact List.getElem_mem inside

variable [DecidableEq A] {act : S → A → S}

theorem mem_insertAll {items waiting : List A} {a : A} :
    a ∈ items.foldl (fun waiting other => waiting.insert other) waiting ↔ a ∈ items ∨ a ∈ waiting := by
  induction items generalizing waiting with
  | nil => simp
  | cons item rest ih =>
      rw [List.foldl_cons, ih, List.mem_insert_iff, List.mem_cons]
      tauto

theorem weight_insertAll_le (next : A → List A) (items waiting : List A) :
    ((items.foldl (fun waiting other => waiting.insert other) waiting).map (weight next)).sum ≤
      (items.map (weight next)).sum + (waiting.map (weight next)).sum := by
  induction items generalizing waiting with
  | nil => simp
  | cons item rest ih =>
      refine (ih _).trans ?_
      have inserted : ((waiting.insert item).map (weight next)).sum ≤
          weight next item + (waiting.map (weight next)).sum := by
        by_cases member : item ∈ waiting
        · rw [List.insert_of_mem member]
          exact Nat.le_add_left _ _
        · rw [List.insert_of_not_mem member, List.map_cons, List.sum_cons]
      rw [List.map_cons, List.sum_cons]
      exact (Nat.add_le_add_left inserted _).trans (by omega)

/-- The sweep has taken what waited and whatever comes after it, and nothing else. -/
theorem sweep_eq_some {picks : List ℕ} {waiting : List A} {state final : S}
    (ended : sweep next act picks waiting state = some final) :
    ∃ visits : List A, final = visits.foldl act state ∧
      ∀ a, a ∈ visits ↔ ∃ w ∈ waiting, Relation.ReflTransGen (Step next) w a := by
  suffices spec : ∃ visits : List A, final = visits.foldl act state ∧ (∀ a ∈ waiting, a ∈ visits) ∧
      (∀ a ∈ visits, ∀ b ∈ next a, b ∈ visits) ∧
      ∀ a ∈ visits, ∃ w ∈ waiting, Relation.ReflTransGen (Step next) w a by
    obtain ⟨visits, folded, started, closed, reached⟩ := spec
    refine ⟨visits, folded, fun a => ⟨reached a, ?_⟩⟩
    rintro ⟨w, member, path⟩
    induction path with
    | refl => exact started w member
    | tail _ step ih => exact closed _ ih _ step
  induction picks generalizing waiting state with
  | nil =>
      cases waiting with
      | nil =>
          obtain rfl := Option.some.inj ended
          exact ⟨[], rfl, nofun, nofun, nofun⟩
      | cons first rest => cases ended
  | cons pick picks ih =>
      cases waiting with
      | nil =>
          obtain rfl := Option.some.inj ended
          exact ⟨[], rfl, nofun, nofun, nofun⟩
      | cons first rest =>
          rw [sweep] at ended
          have taken := item_mem first rest pick
          generalize (first :: rest).getD (pick % (rest.length + 1)) first = item at ended taken
          obtain ⟨visits, folded, started, closed, reached⟩ := ih ended
          refine ⟨item :: visits, folded, ?_, ?_, ?_⟩
          · intro a member
            by_cases same : a = item
            · exact same ▸ List.mem_cons_self
            · have waits : a ∈ (first :: rest).erase item := (List.mem_erase_of_ne same).mpr member
              exact List.mem_cons_of_mem _ (started a (mem_insertAll.mpr (Or.inr waits)))
          · intro a visited b step
            rcases List.mem_cons.mp visited with rfl | visited
            · exact List.mem_cons_of_mem _ (started b (mem_insertAll.mpr (Or.inl step)))
            · exact List.mem_cons_of_mem _ (closed a visited b step)
          · intro a visited
            rcases List.mem_cons.mp visited with rfl | visited
            · exact ⟨a, taken, Relation.ReflTransGen.refl⟩
            · obtain ⟨w, waits, path⟩ := reached a visited
              rcases mem_insertAll.mp waits with step | waits
              · exact ⟨item, taken, Relation.ReflTransGen.head step path⟩
              · exact ⟨w, List.mem_of_mem_erase waits, path⟩

/-- When everything that waits ends, so does the sweep, whatever is picked. -/
theorem sweep_ends (waiting : List A) (ends : ∀ a ∈ waiting, Ends next a) :
    ∃ bound : ℕ, ∀ (picks : List ℕ) (state : S), bound ≤ picks.length →
      (sweep next act picks waiting state).isSome := by
  suffices spec : ∀ (picks : List ℕ) (waiting : List A) (state : S), (∀ a ∈ waiting, Ends next a) →
      (waiting.map (weight next)).sum ≤ picks.length → (sweep next act picks waiting state).isSome from
    ⟨_, fun picks state long => spec picks waiting state ends long⟩
  intro picks
  induction picks with
  | nil =>
      intro waiting state ends short
      cases waiting with
      | nil => rfl
      | cons first rest =>
          have heavy := weight_eq (ends first List.mem_cons_self)
          rw [List.map_cons, List.sum_cons, heavy, List.length_nil] at short
          omega
  | cons pick picks ih =>
      intro waiting state ends long
      cases waiting with
      | nil => rfl
      | cons first rest =>
          rw [sweep]
          have taken := item_mem first rest pick
          generalize (first :: rest).getD (pick % (rest.length + 1)) first = item at taken
          have itemEnds := ends item taken
          refine ih _ _ ?_ ?_
          · intro a waits
            rcases mem_insertAll.mp waits with step | waits
            · exact itemEnds.inv step
            · exact ends a (List.mem_of_mem_erase waits)
          · have lighter := weight_insertAll_le next (next item) ((first :: rest).erase item)
            have whole := List.sum_map_erase (weight next) taken
            have heavy := weight_eq itemEnds
            rw [List.length_cons] at long
            omega

/-- When something that waits does not end, no picks make the sweep end. -/
theorem sweep_never {waiting : List A} {a : A} (waits : a ∈ waiting) (endless : ¬ Ends next a) (picks : List ℕ)
    (state : S) : sweep next act picks waiting state = none := by
  induction picks generalizing waiting a state with
  | nil =>
      cases waiting with
      | nil => cases waits
      | cons first rest => rfl
  | cons pick picks ih =>
      cases waiting with
      | nil => cases waits
      | cons first rest =>
          rw [sweep]
          generalize (first :: rest).getD (pick % (rest.length + 1)) first = item
          by_cases same : a = item
          · obtain ⟨b, step, endlessNext⟩ := exists_next_of_not_ends endless
            exact ih (mem_insertAll.mpr (Or.inl (same ▸ step))) endlessNext _
          · exact ih (mem_insertAll.mpr (Or.inr ((List.mem_erase_of_ne same).mpr waits))) endless _

end Sweep
