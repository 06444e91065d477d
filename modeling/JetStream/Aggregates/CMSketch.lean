import Mathlib.Algebra.BigOperators.Group.List.Basic
import Mathlib.Data.List.Induction
import Mathlib.Logic.Function.Iterate
import JetStream.Lib.CellArray
import JetStream.Machine

namespace JetStream

/-- One hash function multiplies by `a` and adds `b`. -/
structure HashT where
  a : ℤ
  b : ℤ
  deriving DecidableEq, Repr

/-- The sketch stores its rows one after another, and a merge may use fewer rows than are stored. -/
structure CMSketch where
  matrix : List ℕ
  hashes : List HashT
  width : ℕ
  depth : ℕ
  totalCount : ℕ
  positive : 0 < width
  rows : depth ≤ hashes.length
  cells : matrix.length = hashes.length * width
  deriving DecidableEq

namespace CMSketch

def widthBitmask (sketch : CMSketch) : ℕ := sketch.width - 1

def cell (sketch : CMSketch) (i j : ℕ) : ℕ := sketch.matrix.getD (i * sketch.width + j) 0

section Environment

variable (draws : ℤ → ℕ → ℤ) (wideShift : ℕ → ℕ → ℕ)

/-- The shift distance depends on the hashed value, and a distance over 63 has no defined result. -/
def shiftRight (value distance : ℕ) : ℕ := if distance < 64 then value >>> distance else wideShift value distance

/-- The hash is computed in 64 bits and masked to a column. -/
def hash (sketch : CMSketch) (hashid : ℕ) (val : ℤ) : ℕ :=
  let function := sketch.hashes.getD hashid ⟨0, 0⟩
  let r := toSizeT (function.a * toSizeT val + function.b)
  shiftRight wideShift r ((31 + r) % 2 ^ 64) &&& sketch.widthBitmask

/-- An item adds its value to one cell in each row. -/
def addItemH (sketch : CMSketch) (data newVal : ℤ) : CMSketch :=
  { sketch with
    totalCount := addInt sketch.totalCount newVal
    matrix := CellArray.modifyAll (addInt · newVal)
      ((List.range sketch.depth).map fun i => i * sketch.width + sketch.hash wideShift i data) sketch.matrix
    cells := by rw [CellArray.length_modifyAll]; exact sketch.cells }

/-- Each row takes two draws from the generator of the seed. -/
def drawHashes (d : ℕ) (randSeed : ℤ) : List HashT :=
  (List.range d).map fun i => ⟨draws randSeed (2 * i), draws randSeed (2 * i + 1)⟩

/-- The width is a power of two and its exponent is asserted to lie between 3 and 11. -/
def init (w d : ℕ) (randSeed : ℤ) : Option CMSketch :=
  if 2 < w ∧ w < 12 then some {
    width := 1 <<< w
    depth := d
    totalCount := 0
    matrix := List.replicate ((1 <<< w) * d) 0
    hashes := drawHashes draws d randSeed
    positive := by rw [Nat.one_shiftLeft]; exact Nat.two_pow_pos w
    rows := by simp [drawHashes]
    cells := by simp [drawHashes, Nat.mul_comm] }
  else none

end Environment

/-- Two sketches are compatible when they agree on the width and on the hash functions of their common rows. -/
def canAccept (sketch rhs : CMSketch) : Bool :=
  decide (sketch.width = rhs.width) &&
    (List.range (toInt32 (min sketch.depth rhs.depth)).toNat).all fun i =>
      decide (rhs.hashes.getD i ⟨0, 0⟩ = sketch.hashes.getD i ⟨0, 0⟩)

/-- The merge overwrites the common rows with those of the other sketch and adds the totals. -/
def mergeIn (sketch rhs : CMSketch) : Bool × CMSketch :=
  if sketch.canAccept rhs then
    (true, { sketch with
      depth := min sketch.depth rhs.depth
      matrix := CellArray.setAll (fun position => rhs.matrix.getD position 0)
        (CellArray.positions (min sketch.depth rhs.depth) sketch.width) sketch.matrix
      totalCount := addCount sketch.totalCount rhs.totalCount
      rows := (Nat.min_le_left _ _).trans sketch.rows
      cells := by rw [CellArray.length_setAll]; exact sketch.cells })
  else (false, sketch)

section Environment

variable (draws : ℤ → ℕ → ℤ) (wideShift : ℕ → ℕ → ℕ)

/-- This is the sketch that a stream of items gives. -/
def build (w d : ℕ) (randSeed : ℤ) (stream : List (ℤ × ℤ)) : Option CMSketch :=
  (init draws w d randSeed).map fun empty =>
    stream.foldl (fun sketch item => sketch.addItemH wideShift item.1 item.2) empty

/-- A build ends with its last item. -/
theorem build_append_singleton (w d : ℕ) (randSeed : ℤ) (stream : List (ℤ × ℤ)) (item : ℤ × ℤ) :
    build draws wideShift w d randSeed (stream ++ [item]) =
      (build draws wideShift w d randSeed stream).map fun sketch => sketch.addItemH wideShift item.1 item.2 := by
  simp [build, Function.comp_def]

theorem hash_lt (sketch : CMSketch) (i : ℕ) (val : ℤ) : sketch.hash wideShift i val < sketch.width := by
  have positive := sketch.positive
  have masked : sketch.hash wideShift i val ≤ sketch.widthBitmask := Nat.and_le_right
  unfold widthBitmask at masked
  omega

/-- The hash depends only on the width and on the hash function of the row. -/
theorem hash_congr {first second : CMSketch} {i : ℕ} (width : first.width = second.width)
    (function : first.hashes.getD i ⟨0, 0⟩ = second.hashes.getD i ⟨0, 0⟩) (val : ℤ) :
    first.hash wideShift i val = second.hash wideShift i val := by
  simp only [hash, widthBitmask, width, function]

section RowHash

variable (rowHash : ℕ → ℤ → ℕ)

/-- This is `add_item_h` with any hash function for each row. -/
def addItemBy (sketch : CMSketch) (data newVal : ℤ) : CMSketch :=
  { sketch with
    totalCount := addInt sketch.totalCount newVal
    matrix := CellArray.modifyAll (addInt · newVal)
      ((List.range sketch.depth).map fun i => i * sketch.width + rowHash i data) sketch.matrix
    cells := by rw [CellArray.length_modifyAll]; exact sketch.cells }

/-- An item changes the cell of its hash in every row. -/
theorem addItemBy_cell (sketch : CMSketch) (data newVal : ℤ) {i j : ℕ} (inRow : ∀ k, rowHash k data < sketch.width)
    (row : i < sketch.depth) (column : j < sketch.width) :
    (sketch.addItemBy rowHash data newVal).cell i j =
      if rowHash i data = j then addInt (sketch.cell i j) newVal else sketch.cell i j := by
  have distinct : ((List.range sketch.depth).map fun k => k * sketch.width + rowHash k data).Nodup := by
    apply List.Nodup.map_on _ List.nodup_range
    intro k _ l _ same
    exact (CellArray.position_inj (inRow k) (inRow l) same).1
  have member : i * sketch.width + j ∈ ((List.range sketch.depth).map fun k =>
      k * sketch.width + rowHash k data) ↔ rowHash i data = j := by
    rw [List.mem_map]
    constructor
    · rintro ⟨k, _, same⟩
      obtain ⟨rfl, found⟩ := CellArray.position_inj (inRow k) column same
      exact found
    · intro found
      exact ⟨i, List.mem_range.mpr row, by rw [found]⟩
  have inside : i * sketch.width + j < sketch.matrix.length := by
    rw [sketch.cells]
    exact CellArray.position_lt (row.trans_le sketch.rows) column
  simp only [cell, addItemBy, List.getD_eq_getElem?_getD]
  rw [CellArray.getElem?_modifyAll _ _ _ _ distinct, List.getElem?_eq_getElem inside]
  by_cases found : rowHash i data = j
  · rw [if_pos (member.mpr found), if_pos found]
    rfl
  · rw [if_neg (mt member.mp found), if_neg found]

end RowHash

theorem addItemH_cell (sketch : CMSketch) (data newVal : ℤ) {i j : ℕ} (row : i < sketch.depth)
    (column : j < sketch.width) :
    (sketch.addItemH wideShift data newVal).cell i j =
      if sketch.hash wideShift i data = j then addInt (sketch.cell i j) newVal else sketch.cell i j :=
  sketch.addItemBy_cell (sketch.hash wideShift) data newVal (fun k => sketch.hash_lt wideShift k data) row column

/-- The score sums the values of the items that hash to one column of a row. -/
def score (sketch : CMSketch) (i j : ℕ) (stream : List (ℤ × ℤ)) : ℤ :=
  (stream.map fun item => if sketch.hash wideShift i item.1 = j then item.2 else 0).sum

/-- A sketch counts a stream when its total and all cells of its rows are the sums of the stream's values. -/
structure Counts (sketch : CMSketch) (stream : List (ℤ × ℤ)) : Prop where
  total : sketch.totalCount = toUInt32 (stream.map Prod.snd).sum
  cell : ∀ i j, i < sketch.depth → j < sketch.width →
    sketch.cell i j = toUInt32 (sketch.score wideShift i j stream)

/-- One more item extends the counted stream. -/
theorem Counts.addItemH {sketch : CMSketch} {stream : List (ℤ × ℤ)} (counts : sketch.Counts wideShift stream)
    (item : ℤ × ℤ) : (sketch.addItemH wideShift item.1 item.2).Counts wideShift (stream ++ [item]) where
  total := by
    change addInt sketch.totalCount item.2 = _
    rw [counts.total, addInt_toUInt32]
    simp
  cell := by
    intro i j row column
    have extended : (sketch.addItemH wideShift item.1 item.2).score wideShift i j (stream ++ [item]) =
        sketch.score wideShift i j stream + if sketch.hash wideShift i item.1 = j then item.2 else 0 := by
      simp only [score, List.map_append, List.sum_append, List.map_singleton, List.sum_singleton]
      rfl
    rw [sketch.addItemH_cell wideShift item.1 item.2 row column, extended, counts.cell i j row column]
    by_cases found : sketch.hash wideShift i item.1 = j
    · rw [if_pos found, if_pos found, addInt_toUInt32]
    · rw [if_neg found, if_neg found, add_zero]

/-- A built sketch has the requested shape and counts its stream. -/
theorem build_eq_some {w d : ℕ} {randSeed : ℤ} {stream : List (ℤ × ℤ)} {sketch : CMSketch}
    (built : build draws wideShift w d randSeed stream = some sketch) :
    (2 < w ∧ w < 12) ∧ sketch.width = 2 ^ w ∧ sketch.depth = d ∧
      sketch.hashes = drawHashes draws d randSeed ∧ sketch.Counts wideShift stream := by
  induction stream using List.reverseRecOn generalizing sketch with
  | nil =>
      obtain ⟨empty, started, rfl⟩ := Option.map_eq_some_iff.mp built
      rw [init, Option.ite_none_right_eq_some] at started
      obtain ⟨range, same⟩ := started
      obtain rfl := Option.some.inj same
      refine ⟨range, Nat.one_shiftLeft w, rfl, rfl, ⟨rfl, ?_⟩⟩
      intro i j _ _
      exact (List.getD_eq_getElem?_getD).trans (List.getElem?_getD_replicate_default_eq 0 _ _)
  | append_singleton stream item ih =>
      rw [build_append_singleton] at built
      obtain ⟨before, earlier, rfl⟩ := Option.map_eq_some_iff.mp built
      obtain ⟨range, width, depth, hashes, counts⟩ := ih earlier
      exact ⟨range, width, depth, hashes, counts.addItemH wideShift item⟩

theorem build_isSome {w : ℕ} (range : 2 < w ∧ w < 12) (d : ℕ) (randSeed : ℤ) (stream : List (ℤ × ℤ)) :
    (build draws wideShift w d randSeed stream).isSome := by
  simp [build, init, range]

end Environment

end CMSketch

end JetStream
