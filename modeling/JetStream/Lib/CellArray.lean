import Mathlib.Data.List.GetD
import Mathlib.Data.List.Nodup
import Mathlib.Data.Nat.Notation

namespace CellArray

variable {α : Type}

/-- The writes go to one position after another. -/
def setAll (f : ℕ → α) (positions : List ℕ) (cells : List α) : List α :=
  positions.foldl (fun current position => current.set position (f position)) cells

/-- The update is applied at one position after another. -/
def modifyAll (f : α → α) (positions : List ℕ) (cells : List α) : List α :=
  positions.foldl (fun current position => current.modify position f) cells

/-- The positions of a row-major array are visited row by row. -/
def positions (rows width : ℕ) : List ℕ :=
  (List.range rows).flatMap fun i => (List.range width).map fun j => i * width + j

@[simp] theorem length_setAll (f : ℕ → α) (positions : List ℕ) (cells : List α) :
    (setAll f positions cells).length = cells.length := by
  induction positions generalizing cells with
  | nil => rfl
  | cons position rest ih =>
      change (setAll f rest (cells.set position (f position))).length = cells.length
      rw [ih, List.length_set]

@[simp] theorem length_modifyAll (f : α → α) (positions : List ℕ) (cells : List α) :
    (modifyAll f positions cells).length = cells.length := by
  induction positions generalizing cells with
  | nil => rfl
  | cons position rest ih =>
      change (modifyAll f rest (cells.modify position f)).length = cells.length
      rw [ih, List.length_modify]

/-- A written cell holds its new value and every other cell is kept. -/
theorem getElem?_setAll (f : ℕ → α) (positions : List ℕ) (cells : List α) (p : ℕ) (inside : p < cells.length) :
    (setAll f positions cells)[p]? = if p ∈ positions then some (f p) else cells[p]? := by
  induction positions generalizing cells with
  | nil => simp [setAll]
  | cons position rest ih =>
      change (setAll f rest (cells.set position (f position)))[p]? = _
      rw [ih _ (by simpa using inside), List.getElem?_set]
      by_cases later : p ∈ rest
      · simp [later]
      · by_cases here : position = p
        · simp [later, here, inside]
        · simp [later, here, Ne.symm here]

/-- An update at distinct positions is applied once to each of their cells. -/
theorem getElem?_modifyAll (f : α → α) (positions : List ℕ) (cells : List α) (p : ℕ)
    (distinct : positions.Nodup) :
    (modifyAll f positions cells)[p]? = if p ∈ positions then cells[p]?.map f else cells[p]? := by
  induction positions generalizing cells with
  | nil => simp [modifyAll]
  | cons position rest ih =>
      obtain ⟨fresh, restDistinct⟩ := List.nodup_cons.mp distinct
      change (modifyAll f rest (cells.modify position f))[p]? = _
      rw [ih _ restDistinct, List.getElem?_modify]
      by_cases here : position = p
      · subst here
        simp [fresh]
      · simp [here, Ne.symm here]

/-- A row and a column determine a position. -/
theorem position_inj {width i j k l : ℕ} (left : j < width) (right : l < width)
    (same : i * width + j = k * width + l) : i = k ∧ j = l := by
  have rows := congrArg (· / width) same
  have columns := congrArg (· % width) same
  simp only [Nat.mul_comm _ width, Nat.mul_add_mod, Nat.mod_eq_of_lt left, Nat.mod_eq_of_lt right] at columns
  simp only [Nat.mul_comm _ width, Nat.mul_add_div (Nat.zero_lt_of_lt left), Nat.div_eq_of_lt left,
    Nat.div_eq_of_lt right, Nat.add_zero] at rows
  exact ⟨rows, columns⟩

theorem position_lt {rows width i j : ℕ} (row : i < rows) (column : j < width) :
    i * width + j < rows * width := by
  calc i * width + j < i * width + width := Nat.add_lt_add_left column _
    _ = (i + 1) * width := (Nat.succ_mul i width).symm
    _ ≤ rows * width := Nat.mul_le_mul_right width row

theorem mem_positions {rows width i j : ℕ} (column : j < width) :
    i * width + j ∈ positions rows width ↔ i < rows := by
  simp only [positions, List.mem_flatMap, List.mem_range, List.mem_map]
  constructor
  · rintro ⟨k, inside, l, small, same⟩
    obtain ⟨rfl, -⟩ := position_inj small column same
    exact inside
  · intro inside
    exact ⟨i, inside, j, column, rfl⟩

end CellArray
