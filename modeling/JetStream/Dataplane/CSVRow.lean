import JetStream.Lib.TextStream
import Mathlib.Data.List.Basic

namespace JetStream

/-- The row holds the cells of one line. -/
structure CSVRow where
  data : List (List Char)
  deriving DecidableEq

namespace CSVRow

/-- The cell keeps its text when the last read leaves it as it was. -/
def readCells (lineStream : TextStream Char) (cell : List Char) (data : List (List Char)) :
    TextStream Char × List Char × List (List Char) :=
  if (lineStream.getline ',' cell).1.fail then
    ((lineStream.getline ',' cell).1, (lineStream.getline ',' cell).2, data)
  else
    readCells (lineStream.getline ',' cell).1 (lineStream.getline ',' cell).2 (data ++ [(lineStream.getline ',' cell).2])
termination_by lineStream.rest.length
decreasing_by exact TextStream.length_getline_lt ‹_›

/-- The old cells are cleared, and a line that ends with a comma has an empty cell behind it. -/
def readNextRow (_ : CSVRow) (str : TextStream Char) : CSVRow × TextStream Char :=
  let (str, line) := str.getline '\n' []
  let (lineStream, cell, data) := readCells (.ofText line) [] []
  (⟨if lineStream.fail && cell.isEmpty then data ++ [[]] else data⟩, str)

section Loop

variable {lineStream next : TextStream Char} {cell taken : List Char} {data : List (List Char)}

theorem readCells_of_fail (read : lineStream.getline ',' cell = (next, taken)) (failed : next.fail = true) :
    readCells lineStream cell data = (next, taken, data) := by
  rw [readCells, read, if_pos failed]

theorem readCells_of_read (read : lineStream.getline ',' cell = (next, taken)) (succeeded : next.fail = false) :
    readCells lineStream cell data = readCells next taken (data ++ [taken]) := by
  rw [readCells, read, succeeded, if_neg Bool.false_ne_true]

/-- The loop ends behind the last cell, which it has when it is not empty. -/
theorem readCells_of_not_mem {text : List Char} (absent : ',' ∉ text) (cell : List Char) (data : List (List Char)) :
    readCells (.ofText text) cell data = (⟨[], true, true⟩, text, if text.isEmpty then data else data ++ [text]) := by
  have read := @TextStream.getline_of_not_mem Char _ ',' cell text absent
  cases empty : text.isEmpty with
  | true =>
      rw [empty] at read
      exact readCells_of_fail read rfl
  | false =>
      rw [empty] at read
      rw [readCells_of_read read rfl, readCells_of_fail (TextStream.getline_not_good rfl) rfl, if_neg Bool.false_ne_true]

/-- The loop splits a text at its commas, and an empty last cell is left to the check behind it. -/
theorem readCells_ofText (text cell : List Char) (data : List (List Char)) :
    ∃ last cells, readCells (.ofText text) cell data = (⟨[], true, true⟩, last, cells) ∧
      (if last.isEmpty then cells ++ [[]] else cells) = data ++ text.splitOn ',' := by
  induction length : text.length using Nat.strongRecOn generalizing text cell data with
  | ind size ih =>
      by_cases present : ',' ∈ text
      · obtain ⟨taken, left, rfl, absent⟩ := List.eq_append_cons_of_mem present
        have shorter : left.length < size := by
          rw [← length, List.length_append, List.length_cons]
          omega
        obtain ⟨last, cells, ran, split⟩ := ih left.length shorter left taken (data ++ [taken]) rfl
        refine ⟨last, cells, ?_, ?_⟩
        · rw [readCells_of_read (TextStream.getline_append_cons absent) rfl, ran]
        · rw [split, List.splitOn_append_cons_self_of_not_mem absent, List.append_assoc, List.singleton_append]
      · refine ⟨text, _, readCells_of_not_mem present cell data, ?_⟩
        rw [List.splitOn_eq_singleton present]
        cases empty : text.isEmpty with
        | true => rw [List.isEmpty_iff.mp empty, if_pos rfl, if_pos rfl]
        | false => rw [if_neg Bool.false_ne_true, if_neg Bool.false_ne_true]

end Loop

/-- A row is the line of the stream, split at its commas. -/
theorem readNextRow_eq (row : CSVRow) (str : TextStream Char) :
    row.readNextRow str = (⟨(str.getline '\n' []).2.splitOn ','⟩, (str.getline '\n' []).1) := by
  obtain ⟨last, cells, ran, split⟩ := readCells_ofText (str.getline '\n' []).2 [] []
  simp only [readNextRow, ran, Bool.true_and, split, List.nil_append]

theorem not_mem_intercalate {c separator : Char} {cells : List (List Char)} (different : c ≠ separator)
    (absent : ∀ cell ∈ cells, c ∉ cell) : c ∉ [separator].intercalate cells := by
  induction cells with
  | nil => exact List.not_mem_nil
  | cons cell cells ih =>
      obtain ⟨here, others⟩ := List.forall_mem_cons.mp absent
      cases cells with
      | nil => rwa [List.intercalate_singleton]
      | cons =>
          rw [List.intercalate_cons_cons, List.mem_append, List.mem_append, List.mem_singleton]
          rintro ((inside | same) | inside)
          · exact here inside
          · exact different same
          · exact ih others inside

/-- A line of cells is read back, whether the stream ends behind it or goes on with the next line. -/
theorem readNextRow_intercalate (row : CSVRow) {cells : List (List Char)} (nonempty : cells ≠ [])
    (free : ∀ cell ∈ cells, ',' ∉ cell ∧ '\n' ∉ cell) {rest : List Char} (ends : rest = [] ∨ ∃ more, rest = '\n' :: more) :
    (row.readNextRow (.ofText ([','].intercalate cells ++ rest))).1 = ⟨cells⟩ := by
  have line : '\n' ∉ [','].intercalate cells :=
    not_mem_intercalate (by decide) fun cell member => (free cell member).2
  have cut : ((TextStream.ofText ([','].intercalate cells ++ rest)).getline '\n' []).2 = [','].intercalate cells := by
    rcases ends with rfl | ⟨more, rfl⟩
    · rw [List.append_nil, TextStream.getline_of_not_mem line]
    · rw [TextStream.getline_append_cons line]
  rw [readNextRow_eq, cut, List.splitOn_intercalate ',' (fun cell member => (free cell member).1) nonempty]

/-- A row with an empty first and an empty last cell is read back. -/
theorem readNextRow_intercalate_empty_ends : (readNextRow ⟨[]⟩ (.ofText ([','].intercalate [[], ['7', '2'], []] ++ []))).1 =
    ⟨[[], ['7', '2'], []]⟩ := by
  refine readNextRow_intercalate ⟨[]⟩ (List.cons_ne_nil _ _) ?_ (Or.inl rfl)
  simp

end CSVRow

end JetStream
