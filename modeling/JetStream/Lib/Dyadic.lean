import Mathlib.Algebra.BigOperators.Group.List.Basic
import Mathlib.Algebra.BigOperators.Ring.Finset
import Mathlib.Algebra.Order.BigOperators.Group.List
import Mathlib.Tactic.Ring

namespace Dyadic

/-- A block of a level has `base ^ level` values. -/
structure Block where
  level : ℕ
  index : ℕ
  deriving DecidableEq

variable {base : ℕ}

/-- A value lies in a block when it lies between the block's ends. -/
def Block.Covers (base : ℕ) (block : Block) (value : ℕ) : Prop :=
  block.index * base ^ block.level ≤ value ∧ value < (block.index + 1) * base ^ block.level

instance (block : Block) (value : ℕ) : Decidable (block.Covers base value) := inferInstanceAs (Decidable (_ ∧ _))

/-- Each level has exactly one block that covers a value. -/
theorem Block.covers_iff (positive : 0 < base) (block : Block) (value : ℕ) :
    block.Covers base value ↔ value / base ^ block.level = block.index := by
  have width : 0 < base ^ block.level := Nat.pow_pos positive
  rw [Covers, Nat.div_eq_iff width, Nat.add_mul, Nat.one_mul]
  omega

/-- This is how often the blocks cover a value. -/
def covering (base : ℕ) (blocks : List Block) (value : ℕ) : ℕ :=
  blocks.countP fun block => block.Covers base value

@[simp] theorem covering_nil (value : ℕ) : covering base [] value = 0 := rfl

theorem covering_append (first second : List Block) (value : ℕ) :
    covering base (first ++ second) value = covering base first value + covering base second value := List.countP_append

/-- Neighbouring blocks of a level run from the first index up to the last one, which is excluded. -/
def blocks (level first last : ℕ) : List Block := (List.range' first (last - first)).map (Block.mk level)

theorem covering_blocks (positive : 0 < base) (level first last value : ℕ) :
    covering base (blocks level first last) value =
      if first ≤ value / base ^ level ∧ value / base ^ level < last then 1 else 0 := by
  have found : covering base (blocks level first last) value =
      (List.range' first (last - first)).count (value / base ^ level) := by
    rw [covering, blocks, List.countP_map, List.count_eq_countP]
    apply List.countP_congr
    intro index _
    simp only [Function.comp_apply, decide_eq_true_eq, beq_iff_eq, Block.covers_iff positive]
    exact eq_comm
  rw [found, List.count_range_1']
  apply if_congr _ rfl rfl
  omega

/-- Two unaligned ends and the blocks of the next level between them cover what the whole range covers. -/
theorem covering_trim (positive : 0 < base) {level lower upper start finish value : ℕ}
    (above : lower ≤ start * base) (middle : start ≤ finish) (below : finish * base ≤ upper + 1) :
    covering base (blocks level lower (start * base)) value +
        covering base (blocks level (finish * base) (upper + 1)) value +
        covering base (blocks (level + 1) start finish) value =
      covering base (blocks level lower (upper + 1)) value := by
  simp only [covering_blocks positive, pow_succ, ← Nat.div_div_eq_div_mul]
  generalize value / base ^ level = index
  have first : start ≤ index / base ↔ start * base ≤ index := Nat.le_div_iff_mul_le positive
  have last : index / base < finish ↔ index < finish * base := Nat.div_lt_iff_lt_mul positive
  have between : start * base ≤ finish * base := Nat.mul_le_mul_right base middle
  simp only [first, last]
  split_ifs <;> omega

section Trimmed

variable {level lower upper : ℕ} {list : List Block}

/-- A range is trimmed to whole blocks of the next level as long as there are some, and the last range is taken whole. -/
inductive Trimmed (base : ℕ) : ℕ → ℕ → ℕ → List Block → Prop
  | last {level lower upper : ℕ} (ordered : lower ≤ upper) (short : upper / base ≤ (lower + base - 1) / base) :
      Trimmed base level lower upper (blocks level lower (upper + 1))
  | trim {level lower upper : ℕ} {inner : List Block} (long : (lower + base - 1) / base < upper / base)
      (goesOn : Trimmed base (level + 1) ((lower + base - 1) / base) (upper / base - 1) inner) :
      Trimmed base level lower upper (blocks level lower ((lower + base - 1) / base * base) ++
        blocks level (upper / base * base) (upper + 1) ++ inner)

theorem le_ceil_mul (positive : 0 < base) (lower : ℕ) : lower ≤ (lower + base - 1) / base * base := by
  have rounded := Nat.lt_div_mul_add (a := lower + base - 1) positive
  omega

/-- A trimmed range covers what the whole range covers. -/
theorem Trimmed.covering_eq (positive : 0 < base) (trimmed : Trimmed base level lower upper list) (value : ℕ) :
    covering base list value = covering base (blocks level lower (upper + 1)) value := by
  induction trimmed with
  | last => rfl
  | @trim level lower upper inner long goesOn ih =>
      have last : upper / base - 1 + 1 = upper / base := Nat.sub_add_cancel (Nat.zero_lt_of_lt long)
      have fits : upper / base * base ≤ upper + 1 := (Nat.div_mul_le_self upper base).trans (Nat.le_succ upper)
      rw [covering_append, covering_append, ih, last]
      exact covering_trim positive (le_ceil_mul positive lower) long.le fits

theorem mem_blocks {first last : ℕ} {block : Block} :
    block ∈ blocks level first last ↔ block.level = level ∧ first ≤ block.index ∧ block.index < last := by
  rw [blocks, List.mem_map]
  constructor
  · rintro ⟨index, member, rfl⟩
    have range := List.mem_range'_1.mp member
    dsimp only
    exact ⟨rfl, by omega, by omega⟩
  · rintro ⟨rfl, above, below⟩
    exact ⟨block.index, List.mem_range'_1.mpr (by omega), rfl⟩

/-- A range with this excluded end, and no shorter one, is left with a block after so many trims. -/
def reach (base : ℕ) : ℕ → ℕ → ℕ
  | 0, lower => lower + 1
  | trims + 1, lower => base * reach base trims ((lower + base - 1) / base) + 1

theorem lt_reach (positive : 0 < base) (trims lower : ℕ) : lower < reach base trims lower := by
  induction trims generalizing lower with
  | zero => exact Nat.lt_succ_self lower
  | succ trims ih =>
      have inner := Nat.mul_le_mul_right base (ih ((lower + base - 1) / base)).le
      rw [reach, Nat.mul_comm]
      exact Nat.lt_succ_of_le ((le_ceil_mul positive lower).trans inner)

/-- A trimmed range has blocks of a level exactly when it reaches that far. -/
theorem Trimmed.exists_level_iff (positive : 0 < base) (trimmed : Trimmed base level lower upper list) (trims : ℕ) :
    (∃ block ∈ list, level + trims ≤ block.level) ↔ reach base trims lower ≤ upper + 1 := by
  induction trimmed generalizing trims with
  | @last level lower upper ordered short =>
      cases trims with
      | zero =>
          refine iff_of_true ⟨⟨level, lower⟩, mem_blocks.mpr ⟨rfl, le_rfl, Nat.lt_succ_of_le ordered⟩, le_rfl⟩ ?_
          exact Nat.succ_le_succ ordered
      | succ trims =>
          apply iff_of_false
          · rintro ⟨block, member, higher⟩
            rw [(mem_blocks.mp member).1] at higher
            omega
          · rw [reach, Nat.succ_le_succ_iff, Nat.mul_comm base (reach _ _ _), ← Nat.le_div_iff_mul_le positive, not_le]
            exact short.trans_lt (lt_reach positive trims _)
  | @trim level lower upper inner long goesOn ih =>
      have fits := Nat.div_mul_le_self upper base
      cases trims with
      | zero =>
          have ends : (⟨level, upper / base * base⟩ : Block) ∈ blocks level (upper / base * base) (upper + 1) :=
            mem_blocks.mpr ⟨rfl, le_rfl, Nat.lt_succ_of_le fits⟩
          refine iff_of_true ⟨_, List.mem_append_left _ (List.mem_append_right _ ends), le_rfl⟩ ?_
          have below := (le_ceil_mul positive lower).trans ((Nat.mul_le_mul_right base long.le).trans fits)
          rw [reach]
          omega
      | succ trims =>
          have last : upper / base - 1 + 1 = upper / base := Nat.sub_add_cancel (Nat.zero_lt_of_lt long)
          rw [reach, Nat.succ_le_succ_iff, Nat.mul_comm base (reach _ _ _), ← Nat.le_div_iff_mul_le positive, ← last,
            ← ih trims]
          constructor
          · rintro ⟨block, member, higher⟩
            rcases List.mem_append.mp member with ends | member
            · have same : block.level = level := by
                rcases List.mem_append.mp ends with first | second
                · exact (mem_blocks.mp first).1
                · exact (mem_blocks.mp second).1
              omega
            · exact ⟨block, member, by omega⟩
          · rintro ⟨block, member, higher⟩
            exact ⟨block, List.mem_append_right _ member, by omega⟩

/-- The end is rounded up to whole blocks of the level, goes on for one of them and leaves room for all the ends that
are trimmed off. -/
theorem reach_eq (positive : 0 < base) (trims lower : ℕ) : reach base trims lower =
    (lower + base ^ trims - 1) / base ^ trims * base ^ trims + base ^ trims + ∑ i ∈ Finset.range trims, base ^ i := by
  induction trims generalizing lower with
  | zero => simp [reach]
  | succ trims ih =>
      have width := Nat.pow_pos (n := trims) positive
      have rounded : ((lower + base - 1) / base + base ^ trims - 1) / base ^ trims =
          (lower + base ^ (trims + 1) - 1) / base ^ (trims + 1) := by
        have moved : (lower + base - 1) / base + base ^ trims - 1 =
            (lower + base - 1 + base * (base ^ trims - 1)) / base := by
          rw [Nat.add_mul_div_left _ _ positive, Nat.add_sub_assoc width]
        have product : base * (base ^ trims - 1) + base = base ^ (trims + 1) := by
          rw [pow_succ, Nat.mul_comm (base ^ trims), ← Nat.mul_succ, Nat.succ_eq_add_one, Nat.sub_add_cancel width]
        rw [moved, Nat.div_div_eq_div_mul, ← pow_succ']
        congr 1
        omega
      rw [reach, ih, rounded, Finset.sum_range_succ', pow_succ, Nat.mul_add, Nat.mul_add, Finset.mul_sum]
      simp only [pow_succ', pow_zero]
      ring

end Trimmed

section Weight

variable {α : Type}

/-- This is the weight of the items that satisfy the predicate. -/
def weight (stream : List (α × ℕ)) (inside : α → Bool) : ℕ :=
  (stream.map fun item => if inside item.1 then item.2 else 0).sum

theorem weight_append_singleton (stream : List (α × ℕ)) (item : α × ℕ) (inside : α → Bool) :
    weight (stream ++ [item]) inside = weight stream inside + if inside item.1 then item.2 else 0 := by
  simp [weight]

/-- A predicate that holds of fewer items has at most the weight. -/
theorem weight_le {stream : List (α × ℕ)} {first second : α → Bool}
    (fewer : ∀ item ∈ stream, first item.1 = true → second item.1 = true) :
    weight stream first ≤ weight stream second := by
  apply List.sum_le_sum
  intro item member
  split_ifs with holds other
  · exact le_rfl
  · exact absurd (fewer item member holds) other
  · exact Nat.zero_le _
  · exact le_rfl

/-- The weights of all blocks count each item as often as the blocks cover it. -/
theorem sum_weight (value : α → ℕ) (stream : List (α × ℕ)) (blocks : List Block) :
    (blocks.map fun block => weight stream fun item => block.Covers base (value item)).sum =
      (stream.map fun item => item.2 * covering base blocks (value item.1)).sum := by
  induction blocks with
  | nil => simp
  | cons block blocks ih =>
      rw [List.map_cons, List.sum_cons, ih, weight, ← List.sum_map_add]
      congr 1
      apply List.map_congr_left
      intro item _
      simp only [covering, List.countP_cons, decide_eq_true_eq]
      split_ifs <;> ring

end Weight

end Dyadic
