import JetStream.Cube.MysqlCube
import JetStream.Dataplane.TimeSubscriber
import JetStream.Lib.Grouping
import Mathlib.Algebra.Group.Pi.Basic
import Mathlib.Algebra.Group.Prod
import Mathlib.Algebra.Group.WithOne.Defs

namespace JetStream

/-- These aggregates are rolled up with the sum or the minimum of their columns. -/
inductive RollupAggregate where
  | count
  | avg
  | minInt
  | minDouble
  | minTime

/-- An average has a column for its sum and one for its count. -/
def RollupAggregate.Columns (D : Type) : RollupAggregate → Type
  | .count => ℤ
  | .avg => ℤ × ℤ
  | .minInt => ℤ
  | .minDouble => D
  | .minTime => ℤ

/-- `SUM` adds a column of the group. -/
def sumOf (first : ℤ) (rest : List ℤ) : ℤ := rest.foldl (· + ·) first

/-- `MIN` takes the smallest value of a column of the group. -/
def minOf {A : Type} [LinearOrder A] (first : A) (rest : List A) : A := rest.foldl min first

/-- The select clause of an aggregate combines the columns of a group, which has at least one row. -/
def RollupAggregate.selectClauseForRollup {D : Type} [LinearOrder D] :
    (aggregate : RollupAggregate) → aggregate.Columns D → List (aggregate.Columns D) → aggregate.Columns D
  | .count => sumOf
  | .avg => fun (first : ℤ × ℤ) (rest : List (ℤ × ℤ)) =>
      (sumOf first.1 (rest.map Prod.fst), sumOf first.2 (rest.map Prod.snd))
  | .minInt => @minOf ℤ _
  | .minDouble => @minOf D _
  | .minTime => @minOf ℤ _

namespace RollupAggregate

variable {D : Type} [LinearOrder D] {aggregate : RollupAggregate}

/-- Two rows are combined column by column. -/
def combine : (aggregate : RollupAggregate) → aggregate.Columns D → aggregate.Columns D → aggregate.Columns D
  | .count => fun (first second : ℤ) => first + second
  | .avg => fun (first second : ℤ × ℤ) => first + second
  | .minInt => @min ℤ _
  | .minDouble => @min D _
  | .minTime => @min ℤ _

/-- Groups are totals in this semigroup. -/
instance : AddCommSemigroup (aggregate.Columns D) where
  add := aggregate.combine
  add_assoc first second third := by
    cases aggregate with
    | count => exact Int.add_assoc first second third
    | avg => exact add_assoc (G := ℤ × ℤ) first second third
    | minInt => exact min_assoc (α := ℤ) first second third
    | minDouble => exact min_assoc (α := D) first second third
    | minTime => exact min_assoc (α := ℤ) first second third
  add_comm first second := by
    cases aggregate with
    | count => exact Int.add_comm first second
    | avg => exact add_comm (G := ℤ × ℤ) first second
    | minInt => exact min_comm (α := ℤ) first second
    | minDouble => exact min_comm (α := D) first second
    | minTime => exact min_comm (α := ℤ) first second

theorem selectClauseForRollup_cons (first second : aggregate.Columns D) (rest : List (aggregate.Columns D)) :
    aggregate.selectClauseForRollup first (second :: rest) =
      aggregate.selectClauseForRollup (first + second) rest := by
  cases aggregate <;> rfl

theorem selectClauseForRollup_nil (first : aggregate.Columns D) : aggregate.selectClauseForRollup first [] = first := by
  cases aggregate <;> rfl

end RollupAggregate

namespace DimensionType

/-- A level beyond the leaf is cut to it. -/
def secsInLevel (unsafeLevel : ℕ) : ℕ :=
  dtcSecsPerLevel.get ⟨min unsafeLevel timeContainment.leafLevel, Nat.lt_succ_of_le (Nat.min_le_right _ _)⟩

/-- A time is moved to the start of its period, and `DIV` drops the fraction. -/
def startTimeForGroup (level : ℕ) : DimensionValue → DimensionValue
  | .int start => .int (start.tdiv (secsInLevel level) * secsInLevel level)
  | value => value

/-- The rolled-up cell holds this value of a flat dimension. -/
def getDefaultValue : DimensionType → DimensionValue
  | .string => .string ['0']
  | .double => .double 0
  | .int32 | .time | .timeContainment => .int 0

/-- The clause selects the value and the level of the rolled-up cell. -/
def getSelectClauseForRollup (type : DimensionType) (level : ℕ) (value : DimensionValue) : DimensionValue × ℕ :=
  match type with
  | .timeContainment =>
      if min level timeContainment.leafLevel = 0 then (.int 0, 0)
      else (startTimeForGroup level value, min level timeContainment.leafLevel)
  | .string | .int32 | .double | .time => (if level = 0 then type.getDefaultValue else value, level)

/-- An empty clause groups by nothing. -/
def getGroupbyClauseForRollup (type : DimensionType) (level : ℕ) (value : DimensionValue) : Option DimensionValue :=
  match type with
  | .timeContainment => some (startTimeForGroup level value)
  | .string | .int32 | .double | .time => if level = 0 then none else some value

end DimensionType

section Rollup

variable {n m : ℕ} {D : Type} {aggregates : Fin m → RollupAggregate}

/-- A row has a value and a level in each dimension, and the columns of each aggregate. -/
structure RollupRow (n : ℕ) (D : Type) (aggregates : Fin m → RollupAggregate) where
  cell : Fin n → DimensionValue × ℕ
  columns : (j : Fin m) → (aggregates j).Columns D

/-- A table that is rolled up has a row. -/
structure RollupTable (n : ℕ) (D : Type) (aggregates : Fin m → RollupAggregate) where
  rows : List (RollupRow n D aggregates)
  rows_ne : rows ≠ []

variable [LinearOrder D] (dimensions : Fin n → DimensionType) (levels : Fin n → ℕ)

/-- The query groups by the clauses of the dimensions above level zero. -/
def groupbyClause (cell : Fin n → DimensionValue × ℕ) : Fin n → Option DimensionValue := fun i =>
  if 0 < levels i then (dimensions i).getGroupbyClauseForRollup (levels i) (cell i).1 else none

def selectClause (cell : Fin n → DimensionValue × ℕ) : Fin n → DimensionValue × ℕ := fun i =>
  (dimensions i).getSelectClauseForRollup (levels i) (cell i).1

/-- The query gives one row for a group, with the cell of any of its rows. -/
def selectGroup (group : List (RollupRow n D aggregates)) : Option (RollupRow n D aggregates) :=
  match group with
  | [] => none
  | first :: rest => some ⟨selectClause dimensions levels first.cell, fun j =>
      (aggregates j).selectClauseForRollup (first.columns j) (rest.map fun row => row.columns j)⟩

/-- These are the rows of the query that `get_rollup_sql` builds. -/
def rollupRows (rows : List (RollupRow n D aggregates)) : List (RollupRow n D aggregates) :=
  (rows.map fun row => groupbyClause dimensions levels row.cell).dedup.filterMap fun key =>
    selectGroup dimensions levels (rows.filter fun row => groupbyClause dimensions levels row.cell = key)

end Rollup

namespace DimensionType

/-- Equal groups are selected as equal values, and no others. -/
theorem getSelectClauseForRollup_eq_iff (type : DimensionType) (level : ℕ) (first second : DimensionValue) :
    type.getSelectClauseForRollup level first = type.getSelectClauseForRollup level second ↔
      (0 < level → type.getGroupbyClauseForRollup level first = type.getGroupbyClauseForRollup level second) := by
  rcases Nat.eq_zero_or_pos level with rfl | positive
  · cases type <;> simp [getSelectClauseForRollup]
  · have leaf : min level timeContainment.leafLevel ≠ 0 := by
      simp only [leafLevel]
      omega
    cases type <;> simp [getSelectClauseForRollup, getGroupbyClauseForRollup, positive, positive.ne', leaf]

/-- The period of a level is made of whole periods of each finer level. -/
theorem secsInLevel_dvd {coarse fine : ℕ} (positive : 0 < coarse) (le : coarse ≤ fine) :
    secsInLevel fine ∣ secsInLevel coarse := by
  have nested : ∀ i j : Fin dtcSecsPerLevel.length, 0 < i.val → i ≤ j →
      dtcSecsPerLevel.get j ∣ dtcSecsPerLevel.get i := by decide
  apply nested
  · exact lt_min positive (by decide)
  · exact min_le_min_right _ le

theorem secsInLevel_pos (level : ℕ) : 0 < secsInLevel level := by
  have positive : ∀ i : Fin dtcSecsPerLevel.length, 0 < dtcSecsPerLevel.get i := by decide
  exact positive _

/-- Dividing twice is dividing by the product. -/
theorem tdiv_tdiv_natCast (start : ℤ) (first second : ℕ) :
    (start.tdiv first).tdiv second = start.tdiv (first * second : ℕ) := by
  have natural (count : ℕ) : ((count : ℤ).tdiv first).tdiv second = (count : ℤ).tdiv (first * second : ℕ) := by
    rw [Int.natCast_tdiv_eq_ediv, Int.natCast_tdiv_eq_ediv, ← Int.natCast_ediv, ← Int.natCast_ediv,
      Int.natCast_tdiv_eq_ediv, ← Int.natCast_ediv, Nat.div_div_eq_div_mul]
  obtain ⟨count, rfl | rfl⟩ := start.eq_nat_or_neg
  · exact natural count
  · rw [Int.neg_tdiv, Int.neg_tdiv, natural, Int.neg_tdiv]

/-- Moving a time to the start of a fine period first does not change the start of the coarse one. -/
theorem startTimeForGroup_startTimeForGroup {coarse fine : ℕ} (positive : 0 < coarse) (le : coarse ≤ fine)
    (value : DimensionValue) :
    startTimeForGroup coarse (startTimeForGroup fine value) = startTimeForGroup coarse value := by
  cases value with
  | int start =>
      obtain ⟨count, periods⟩ := secsInLevel_dvd positive le
      have finePositive : (0 : ℤ) < secsInLevel fine := by exact_mod_cast secsInLevel_pos fine
      have same : (start.tdiv (secsInLevel fine) * secsInLevel fine).tdiv (secsInLevel coarse) =
          start.tdiv (secsInLevel coarse) := by
        rw [periods, ← tdiv_tdiv_natCast, ← tdiv_tdiv_natCast, Int.mul_tdiv_cancel _ finePositive.ne']
      simp only [startTimeForGroup, same]
  | string text | double number => rfl

theorem getSelectClauseForRollup_select {coarse fine : ℕ} (le : coarse ≤ fine) (type : DimensionType)
    (value : DimensionValue) :
    type.getSelectClauseForRollup coarse (type.getSelectClauseForRollup fine value).1 =
      type.getSelectClauseForRollup coarse value := by
  rcases Nat.eq_zero_or_pos coarse with rfl | positive
  · cases type <;> simp [getSelectClauseForRollup]
  · have leaf : min fine timeContainment.leafLevel ≠ 0 := by
      simp only [leafLevel]
      omega
    have finer : fine ≠ 0 := by omega
    cases type with
    | timeContainment =>
        simp only [getSelectClauseForRollup, if_neg leaf, startTimeForGroup_startTimeForGroup positive le]
    | string | int32 | double | time => simp only [getSelectClauseForRollup, if_neg finer]

end DimensionType

section Rollup

open Grouping

variable {n m : ℕ} {D : Type} {aggregates : Fin m → RollupAggregate} {dimensions : Fin n → DimensionType}
  {levels : Fin n → ℕ}

/-- Rows are grouped by what is selected of their cells. -/
theorem selectClause_eq_iff {first second : Fin n → DimensionValue × ℕ} :
    selectClause dimensions levels first = selectClause dimensions levels second ↔
      groupbyClause dimensions levels first = groupbyClause dimensions levels second := by
  rw [funext_iff, funext_iff]
  refine forall_congr' fun i => ?_
  rw [selectClause, selectClause, DimensionType.getSelectClauseForRollup_eq_iff, groupbyClause, groupbyClause]
  by_cases positive : 0 < levels i <;> simp [positive]

theorem selectClause_selectClause {coarse fine : Fin n → ℕ} (le : ∀ i, coarse i ≤ fine i)
    (cell : Fin n → DimensionValue × ℕ) :
    selectClause dimensions coarse (selectClause dimensions fine cell) = selectClause dimensions coarse cell :=
  funext fun i => (dimensions i).getSelectClauseForRollup_select (le i) (cell i).1

variable [LinearOrder D] {rows : List (RollupRow n D aggregates)}

/-- The columns of a group are the total of its rows. -/
theorem coe_columns (first : (j : Fin m) → (aggregates j).Columns D) (rest : List (RollupRow n D aggregates)) :
    (WithZero.coe fun j => (aggregates j).selectClauseForRollup (first j) (rest.map fun row => row.columns j)) =
      WithZero.coe first + (rest.map fun row => WithZero.coe row.columns).sum := by
  induction rest generalizing first with
  | nil => simp only [List.map_nil, RollupAggregate.selectClauseForRollup_nil, List.sum_nil, add_zero]
  | cons row rest ih =>
      simp only [List.map_cons, RollupAggregate.selectClauseForRollup_cons, List.sum_cons]
      rw [← add_assoc, ← WithZero.coe_add, ← ih]
      rfl

variable (dimensions levels) in
/-- The group of a row gives the cell that is selected from it, with the total of the rows that share that cell. -/
theorem selectGroup_spec {leaf : RollupRow n D aggregates} (member : leaf ∈ rows) :
    ∃ row, selectGroup dimensions levels (rows.filter fun row =>
        groupbyClause dimensions levels row.cell = groupbyClause dimensions levels leaf.cell) = some row ∧
      row.cell = selectClause dimensions levels leaf.cell ∧
      WithZero.coe row.columns = groupTotal (fun row => selectClause dimensions levels row.cell)
        (fun row : RollupRow n D aggregates => WithZero.coe row.columns) rows row.cell := by
  have shared (row : RollupRow n D aggregates) : groupbyClause dimensions levels row.cell =
      groupbyClause dimensions levels leaf.cell ↔ selectClause dimensions levels row.cell =
        selectClause dimensions levels leaf.cell := selectClause_eq_iff.symm
  simp only [shared]
  have present : leaf ∈ rows.filter fun row =>
      selectClause dimensions levels row.cell = selectClause dimensions levels leaf.cell :=
    List.mem_filter.mpr ⟨member, decide_eq_true rfl⟩
  cases group : rows.filter fun row =>
      selectClause dimensions levels row.cell = selectClause dimensions levels leaf.cell with
  | nil =>
      rw [group] at present
      cases present
  | cons first rest =>
      have inside : first ∈ rows.filter fun row =>
          selectClause dimensions levels row.cell = selectClause dimensions levels leaf.cell := by simp [group]
      have same := of_decide_eq_true (List.mem_filter.mp inside).2
      refine ⟨_, rfl, same, ?_⟩
      rw [coe_columns first.columns rest, groupTotal]
      simp only [same, group, List.map_cons, List.sum_cons]

/-- The query gives a row for each selected cell, with the total of the rows from which that cell is selected. -/
theorem mem_rollupRows_iff {row : RollupRow n D aggregates} :
    row ∈ rollupRows dimensions levels rows ↔ (∃ leaf ∈ rows, selectClause dimensions levels leaf.cell = row.cell) ∧
      WithZero.coe row.columns = groupTotal (fun leaf => selectClause dimensions levels leaf.cell)
        (fun leaf : RollupRow n D aggregates => WithZero.coe leaf.columns) rows row.cell := by
  simp only [rollupRows, List.mem_filterMap, List.mem_dedup, List.mem_map]
  constructor
  · rintro ⟨key, ⟨leaf, member, rfl⟩, selected⟩
    obtain ⟨other, found, cell, total⟩ := selectGroup_spec dimensions levels member
    obtain rfl := Option.some.inj (found.symm.trans selected)
    exact ⟨⟨leaf, member, cell.symm⟩, total⟩
  · rintro ⟨⟨leaf, member, cell⟩, total⟩
    obtain ⟨other, found, otherCell, otherTotal⟩ :=
      selectGroup_spec dimensions levels member
    refine ⟨_, ⟨leaf, member, rfl⟩, found.trans (congrArg some ?_)⟩
    have sameCell : other.cell = row.cell := otherCell.trans cell
    have sameColumns : other.columns = row.columns := by
      rw [sameCell] at otherTotal
      exact WithZero.coe_injective (otherTotal.trans total.symm)
    obtain ⟨cell, columns⟩ := other
    obtain ⟨cell', columns'⟩ := row
    cases sameCell
    cases sameColumns
    rfl

theorem rollupRows_cell_inj {first second : RollupRow n D aggregates}
    (firstMember : first ∈ rollupRows dimensions levels rows) (secondMember : second ∈ rollupRows dimensions levels rows)
    (same : first.cell = second.cell) : first = second := by
  obtain ⟨-, firstTotal⟩ := mem_rollupRows_iff.mp firstMember
  obtain ⟨-, secondTotal⟩ := mem_rollupRows_iff.mp secondMember
  obtain ⟨cell, columns⟩ := first
  obtain ⟨cell', columns'⟩ := second
  cases same
  have sameColumns : columns = columns' := WithZero.coe_injective (firstTotal.trans secondTotal.symm)
  rw [sameColumns]

variable (dimensions levels) in
/-- Each cell has one row in the result. -/
theorem rollupRows_nodup (rows : List (RollupRow n D aggregates)) : (rollupRows dimensions levels rows).Nodup := by
  refine (List.nodup_dedup _).filterMap fun key key' row found found' => ?_
  have recover {key : Fin n → Option DimensionValue}
      (found : selectGroup dimensions levels (rows.filter fun row =>
        groupbyClause dimensions levels row.cell = key) = some row) :
      ∃ leaf : RollupRow n D aggregates, groupbyClause dimensions levels leaf.cell = key ∧
        selectClause dimensions levels leaf.cell = row.cell := by
    cases group : rows.filter fun row => groupbyClause dimensions levels row.cell = key with
    | nil => simp [group, selectGroup] at found
    | cons first rest =>
        have inside : first ∈ rows.filter fun row => groupbyClause dimensions levels row.cell = key := by simp [group]
        rw [group] at found
        obtain rfl := Option.some.inj found
        exact ⟨first, of_decide_eq_true (List.mem_filter.mp inside).2, rfl⟩
  obtain ⟨leaf, rfl, cell⟩ := recover found
  obtain ⟨leaf', rfl, cell'⟩ := recover found'
  exact selectClause_eq_iff.mp (cell.trans cell'.symm)

theorem rollupRows_cells_nodup (rows : List (RollupRow n D aggregates)) :
    ((rollupRows dimensions levels rows).map RollupRow.cell).Nodup :=
  (rollupRows_nodup dimensions levels rows).map_on fun _ first _ second same => rollupRows_cell_inj first second same

/-- The total over the rows of a finer result is the total over the rows of the table. -/
theorem groupTotal_rollupRows {coarse fine : Fin n → ℕ} (le : ∀ i, coarse i ≤ fine i)
    (rows : List (RollupRow n D aggregates)) (cell : Fin n → DimensionValue × ℕ) :
    groupTotal (fun row => selectClause dimensions coarse row.cell)
        (fun row : RollupRow n D aggregates => WithZero.coe row.columns) (rollupRows dimensions fine rows) cell =
      groupTotal (fun row => selectClause dimensions coarse row.cell)
        (fun row : RollupRow n D aggregates => WithZero.coe row.columns) rows cell := by
  let total := groupTotal (fun row => selectClause dimensions fine row.cell)
    (fun row : RollupRow n D aggregates => WithZero.coe row.columns) rows
  have covered (leaf : RollupRow n D aggregates) (member : leaf ∈ rows) :
      selectClause dimensions fine leaf.cell ∈ ((rollupRows dimensions fine rows).map RollupRow.cell).toFinset := by
    obtain ⟨row, found, same, -⟩ := selectGroup_spec dimensions fine member
    rw [List.mem_toFinset, List.mem_map]
    refine ⟨row, List.mem_filterMap.mpr ⟨_, ?_, found⟩, same⟩
    exact List.mem_dedup.mpr (List.mem_map.mpr ⟨leaf, member, rfl⟩)
  calc
    _ = groupTotal (fun row => selectClause dimensions coarse row.cell) (fun row => total row.cell)
          (rollupRows dimensions fine rows) cell :=
        groupTotal_congr (fun _ _ => rfl) (fun row member => (mem_rollupRows_iff.mp member).2) cell
    _ = ∑ middle ∈ ((rollupRows dimensions fine rows).map RollupRow.cell).toFinset
          with selectClause dimensions coarse middle = cell, total middle :=
        groupTotal_coarser _ (rollupRows_cells_nodup rows) cell
    _ = groupTotal (fun row => selectClause dimensions coarse (selectClause dimensions fine row.cell))
          (fun row : RollupRow n D aggregates => WithZero.coe row.columns) rows cell :=
        sum_groupTotal _ covered cell
    _ = _ := groupTotal_congr (fun row _ => selectClause_selectClause le row.cell) (fun _ _ => rfl) cell

variable (dimensions levels) in
/-- A query over a table with rows gives a row. -/
theorem rollupRows_ne (rows_ne : rows ≠ []) : rollupRows dimensions levels rows ≠ [] := by
  obtain ⟨leaf, member⟩ := List.exists_mem_of_ne_nil rows rows_ne
  obtain ⟨row, found, -⟩ := selectGroup_spec dimensions levels member
  apply List.ne_nil_of_mem (a := row)
  exact List.mem_filterMap.mpr ⟨_, List.mem_dedup.mpr (List.mem_map.mpr ⟨leaf, member, rfl⟩), found⟩

/-- The result of the query is a table again. -/
def RollupTable.rollup (dimensions : Fin n → DimensionType) (levels : Fin n → ℕ) (table : RollupTable n D aggregates) :
    RollupTable n D aggregates :=
  ⟨rollupRows dimensions levels table.rows, rollupRows_ne dimensions levels table.rows_ne⟩

/-- Without a clause to group by, the result is a single cell. -/
theorem length_rollup_zero (zero : ∀ i, levels i = 0) (table : RollupTable n D aggregates) :
    (table.rollup dimensions levels).rows.length = 1 := by
  have same (first : RollupRow n D aggregates) (firstMember : first ∈ rollupRows dimensions levels table.rows)
      (second : RollupRow n D aggregates) (secondMember : second ∈ rollupRows dimensions levels table.rows) :
      first = second := by
    obtain ⟨⟨leaf, -, cell⟩, -⟩ := mem_rollupRows_iff.mp firstMember
    obtain ⟨⟨leaf', -, cell'⟩, -⟩ := mem_rollupRows_iff.mp secondMember
    apply rollupRows_cell_inj firstMember secondMember
    rw [← cell, ← cell', selectClause_eq_iff]
    funext i
    simp [groupbyClause, zero]
  have distinct := rollupRows_nodup dimensions levels table.rows
  have some_row := rollupRows_ne dimensions levels table.rows_ne
  change (rollupRows dimensions levels table.rows).length = 1
  cases listed : rollupRows dimensions levels table.rows with
  | nil => exact absurd listed some_row
  | cons first rest =>
      cases rest with
      | nil => rfl
      | cons second rest =>
          rw [listed] at same distinct
          have equal := same first List.mem_cons_self second (List.mem_cons_of_mem _ List.mem_cons_self)
          rw [equal] at distinct
          exact absurd List.mem_cons_self (List.nodup_cons.mp distinct).1

/-- Rolling a table up to fine levels, and the result in any order up to coarser ones, gives the rows of rolling the
table up to the coarser levels, which is a single row when these are zero. -/
theorem rollup_rollup_perm {coarse fine : Fin n → ℕ} (le : ∀ i, coarse i ≤ fine i)
    {table middle : RollupTable n D aggregates} (arranged : middle.rows.Perm (table.rollup dimensions fine).rows) :
    (middle.rollup dimensions coarse).rows.Perm (table.rollup dimensions coarse).rows ∧
      ((∀ i, coarse i = 0) → (table.rollup dimensions coarse).rows.length = 1) := by
  refine ⟨?_, fun zero => length_rollup_zero zero table⟩
  refine (List.perm_ext_iff_of_nodup (rollupRows_nodup _ _ _) (rollupRows_nodup _ _ _)).mpr fun row => ?_
  rw [mem_rollupRows_iff, mem_rollupRows_iff, groupTotal_perm arranged]
  refine and_congr ?_ (by rw [RollupTable.rollup, groupTotal_rollupRows le])
  constructor
  · rintro ⟨finer, member, cell⟩
    obtain ⟨⟨leaf, inside, selected⟩, -⟩ := mem_rollupRows_iff.mp (arranged.mem_iff.mp member)
    exact ⟨leaf, inside, by rw [← cell, ← selected, selectClause_selectClause le]⟩
  · rintro ⟨leaf, inside, cell⟩
    obtain ⟨finer, found, selected, -⟩ := selectGroup_spec dimensions fine inside
    refine ⟨finer, arranged.mem_iff.mpr (List.mem_filterMap.mpr ⟨_, ?_, found⟩), ?_⟩
    · exact List.mem_dedup.mpr (List.mem_map.mpr ⟨leaf, inside, rfl⟩)
    · rw [selected, selectClause_selectClause le, cell]

/-- Two seconds of one minute and one of the next are counted in one cell when the time is rolled up to the root. -/
theorem rollup_rollup_perm_root :
    let table : RollupTable 1 ℚ fun _ : Fin 1 => .count :=
      ⟨[⟨fun _ => (.int 61, 9), fun _ => (2 : ℤ)⟩, ⟨fun _ => (.int 62, 9), fun _ => (3 : ℤ)⟩,
        ⟨fun _ => (.int 125, 9), fun _ => (4 : ℤ)⟩], by simp⟩
    (((table.rollup (fun _ => .timeContainment) fun _ => 5).rollup (fun _ => .timeContainment) fun _ => 0).rows.Perm
        (table.rollup (fun _ => .timeContainment) fun _ => 0).rows) ∧
      ((∀ _ : Fin 1, 0 = 0) → (table.rollup (fun _ => .timeContainment) fun _ => 0).rows.length = 1) := by
  intro table
  exact rollup_rollup_perm (fun _ => Nat.zero_le 5) (.refl _)

end Rollup

end JetStream
