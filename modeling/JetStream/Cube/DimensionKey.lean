import JetStream.Lib.Printing
import JetStream.Cube.Tuple

namespace JetStream

/-- These are the dimension types of a cube schema. -/
inductive DimensionType where
  | string
  | int32
  | double
  | time
  | timeContainment
  deriving DecidableEq, Repr

/-- A dimension reads one element of each tuple. -/
structure Dimension where
  type : DimensionType
  tupleIndex : ℕ
  deriving DecidableEq, Repr

/-- A dimension value is a string, a whole number or a finite double. -/
inductive DimensionValue where
  | string (value : List Char)
  | int (value : ℤ)
  | double (value : ℚ)
  deriving DecidableEq

namespace Dimension

/-- The value of a tuple in a dimension, with strings cut at the 254 bytes that the key uses. -/
def value (dimension : Dimension) (t : Tuple ℚ) : Option DimensionValue := do
  let e ← t.e[dimension.tupleIndex]?
  match dimension.type with
  | .string => e.sVal.map fun s => .string (s.take 254)
  | .int32 => e.iVal.map .int
  | .double => e.dVal.map .double
  | .time => e.tVal.map .int
  | .timeContainment => e.tVal.map .int

/-- A missing element or a missing value of the dimension's type is fatal. -/
def getKey (dimension : Dimension) (t : Tuple ℚ) : Option (List Char) := do
  let e ← t.e[dimension.tupleIndex]?
  match dimension.type with
  | .string => e.sVal.map fun s => if 254 < s.length then s.take 254 else s
  | .int32 => e.iVal.map Printing.decimal
  | .double => e.dVal.map Printing.general
  | .time => e.tVal.map Printing.decimal
  | .timeContainment => e.tVal.map Printing.decimal

end Dimension

/-- Each dimension adds its value and its level, both followed by a bar. -/
def getDimensionKey : List Dimension → Tuple ℚ → List ℕ → Option (List Char)
  | [], _, _ => some []
  | _ :: _, _, [] => none
  | dimension :: dimensions, t, level :: levels => do
      let value ← dimension.getKey t
      let rest ← getDimensionKey dimensions t levels
      some (value ++ '|' :: Nat.toDigits 10 level ++ '|' :: rest)

/-- A tuple conforms to a schema when it has a value in every dimension and one level for each. -/
structure Conforms (dimensions : List Dimension) (t : Tuple ℚ) (levels : List ℕ) : Prop where
  values : ∀ dimension ∈ dimensions, (dimension.value t).isSome
  levels : levels.length = dimensions.length

/-- A schema is faithful when equal keys mean equal values and equal levels. -/
def Faithful (dimensions : List Dimension) : Prop :=
  ∀ (t t' : Tuple ℚ) (levels levels' : List ℕ), Conforms dimensions t levels → Conforms dimensions t' levels' →
    (getDimensionKey dimensions t levels = getDimensionKey dimensions t' levels' ↔
      (∀ dimension ∈ dimensions, dimension.value t = dimension.value t') ∧ levels = levels')

/-- The printed form of a value is what the dimension adds to the key. -/
def DimensionValue.print : DimensionValue → List Char
  | .string value => value
  | .int value => Printing.decimal value
  | .double value => Printing.general value

theorem Dimension.getKey_eq (dimension : Dimension) (t : Tuple ℚ) :
    dimension.getKey t = (dimension.value t).map DimensionValue.print := by
  have cut : ∀ s : List Char, (if 254 < s.length then s.take 254 else s) = s.take 254 := by
    intro s
    split
    · rfl
    · rw [List.take_of_length_le (by omega)]
  cases element : t.e[dimension.tupleIndex]? with
  | none => simp [getKey, value, element]
  | some e =>
      cases kind : dimension.type with
      | string => simp [getKey, value, element, kind, cut, Function.comp_def, DimensionValue.print]
      | int32 => simp [getKey, value, element, kind, Function.comp_def, DimensionValue.print]
      | double => simp [getKey, value, element, kind, Function.comp_def, DimensionValue.print]
      | time => simp [getKey, value, element, kind, Function.comp_def, DimensionValue.print]
      | timeContainment => simp [getKey, value, element, kind, Function.comp_def, DimensionValue.print]

/-- The fields of a key alternate values and levels. -/
def keyFields : List DimensionValue → List ℕ → List (List Char)
  | value :: values, level :: levels => value.print :: Nat.toDigits 10 level :: keyFields values levels
  | _, _ => []

/-- The key of a conforming tuple delimits its fields. -/
theorem getDimensionKey_eq {dimensions : List Dimension} {t : Tuple ℚ} {levels : List ℕ}
    (conforms : Conforms dimensions t levels) :
    ∃ values : List DimensionValue, dimensions.map (fun dimension => dimension.value t) = values.map some ∧
      getDimensionKey dimensions t levels = some (Printing.delimited '|' (keyFields values levels)) := by
  obtain ⟨present, length⟩ := conforms
  induction dimensions generalizing levels with
  | nil =>
      rw [List.eq_nil_of_length_eq_zero length]
      exact ⟨[], rfl, rfl⟩
  | cons dimension dimensions ih =>
      obtain ⟨value, found⟩ := Option.isSome_iff_exists.mp (present dimension List.mem_cons_self)
      cases levels with
      | nil => cases length
      | cons level levels =>
          obtain ⟨values, every, key⟩ := ih (fun other member => present other (List.mem_cons_of_mem _ member))
            (Nat.succ.inj length)
          refine ⟨value :: values, by rw [List.map_cons, List.map_cons, found, every], ?_⟩
          rw [getDimensionKey, dimension.getKey_eq, found, key]
          simp [keyFields, Printing.delimited]

/-- These are the bars inside a printed value. -/
def DimensionValue.bars (value : DimensionValue) : ℕ := value.print.count '|'

theorem keyFields_bars {values : List DimensionValue} {levels : List ℕ} (length : levels.length = values.length) :
    (keyFields values levels).map (List.count '|') =
      (values.map DimensionValue.bars).flatMap fun bars => [bars, 0] := by
  induction values generalizing levels with
  | nil => rw [List.eq_nil_of_length_eq_zero length]; rfl
  | cons value values ih =>
      cases levels with
      | nil => cases length
      | cons level levels =>
          have digits : (Nat.toDigits 10 level).count '|' = 0 :=
            List.count_eq_zero.mpr (Printing.not_mem_toDigits rfl level)
          rw [keyFields, List.map_cons, List.map_cons, ih (Nat.succ.inj length), digits]
          rfl

/-- Equal fields have equal printed values and equal levels. -/
theorem keyFields_inj {values values' : List DimensionValue} {levels levels' : List ℕ}
    (length : levels.length = values.length) (length' : levels'.length = values'.length)
    (same : keyFields values levels = keyFields values' levels') :
    values.map DimensionValue.print = values'.map DimensionValue.print ∧ levels = levels' := by
  induction values generalizing levels values' levels' with
  | nil =>
      obtain rfl := List.eq_nil_of_length_eq_zero length
      cases values' with
      | nil => exact ⟨rfl, (List.eq_nil_of_length_eq_zero length').symm⟩
      | cons value' values' =>
          cases levels' with
          | nil => cases length'
          | cons level' levels' => cases same
  | cons value values ih =>
      cases levels with
      | nil => cases length
      | cons level levels =>
          cases values' with
          | nil => cases same
          | cons value' values' =>
              cases levels' with
              | nil => cases length'
              | cons level' levels' =>
                  rw [keyFields, keyFields, List.cons.injEq, List.cons.injEq] at same
                  obtain ⟨printed, digits, rest⟩ := same
                  obtain ⟨prints, rfl⟩ := ih (Nat.succ.inj length) (Nat.succ.inj length') rest
                  rw [List.map_cons, List.map_cons, printed, prints, Printing.toDigits_inj digits]
                  exact ⟨rfl, rfl⟩

/-- No dimension is a double and all string dimensions read one element. -/
def Separable (dimensions : List Dimension) : Prop :=
  (∀ dimension ∈ dimensions, dimension.type ≠ .double) ∧
    ∀ first ∈ dimensions, ∀ second ∈ dimensions, first.type = .string → second.type = .string →
      first.tupleIndex = second.tupleIndex

/-- The type of a dimension decides the kind of its values. -/
theorem Dimension.value_cases {dimension : Dimension} {t : Tuple ℚ} {value : DimensionValue}
    (found : dimension.value t = some value) :
    (dimension.type = .string ∧ ∃ s, value = .string s) ∨ (dimension.type = .double ∧ ∃ d, value = .double d) ∨
      (dimension.type ≠ .string ∧ ∃ i, value = .int i) := by
  obtain ⟨e, -, read⟩ := Option.bind_eq_some_iff.mp found
  cases kind : dimension.type with
  | string =>
      simp only [kind, Option.map_eq_some_iff] at read
      obtain ⟨s, -, rfl⟩ := read
      exact Or.inl ⟨rfl, _, rfl⟩
  | double =>
      simp only [kind, Option.map_eq_some_iff] at read
      obtain ⟨d, -, rfl⟩ := read
      exact Or.inr (Or.inl ⟨rfl, _, rfl⟩)
  | int32 | time | timeContainment =>
      simp only [kind, Option.map_eq_some_iff] at read
      obtain ⟨i, -, rfl⟩ := read
      exact Or.inr (Or.inr ⟨by decide, _, rfl⟩)

/-- In a dimension without doubles the printed form determines the value. -/
theorem Dimension.value_of_print {dimension : Dimension} (precise : dimension.type ≠ .double) {t t' : Tuple ℚ}
    {first second : DimensionValue} (left : dimension.value t = some first)
    (right : dimension.value t' = some second) (printed : first.print = second.print) : first = second := by
  rcases dimension.value_cases left with ⟨kind, s, rfl⟩ | ⟨kind, -⟩ | ⟨kind, i, rfl⟩
  · rcases dimension.value_cases right with ⟨-, s', rfl⟩ | ⟨kind', -⟩ | ⟨kind', -⟩
    · exact congrArg DimensionValue.string printed
    · exact absurd kind' precise
    · exact absurd kind kind'
  · exact absurd kind precise
  · rcases dimension.value_cases right with ⟨kind', -⟩ | ⟨kind', -⟩ | ⟨-, i', rfl⟩
    · exact absurd kind' kind
    · exact absurd kind' precise
    · exact congrArg DimensionValue.int (Printing.decimal_inj printed)

/-- Only strings print bars. -/
theorem Dimension.bars_eq_zero {dimension : Dimension} (number : dimension.type ≠ .string)
    (precise : dimension.type ≠ .double) {t : Tuple ℚ} {value : DimensionValue}
    (found : dimension.value t = some value) : value.bars = 0 := by
  rcases dimension.value_cases found with ⟨kind, -⟩ | ⟨kind, -⟩ | ⟨-, i, rfl⟩
  · exact absurd kind number
  · exact absurd kind precise
  · exact Printing.count_decimal rfl (by decide) i

section Sufficiency

variable {dimensions : List Dimension} {t t' : Tuple ℚ} {values values' : List DimensionValue}

/-- The bars of all values are those of the one string that is read. -/
theorem Separable.exists_bars (separable : Separable dimensions)
    (every : dimensions.map (fun dimension => dimension.value t) = values.map some) :
    ∃ c, values.map DimensionValue.bars =
      dimensions.map fun dimension => if dimension.type = .string then c else 0 := by
  obtain ⟨precise, shared⟩ := separable
  have common : ∃ c, ∀ dimension ∈ dimensions, ∀ value, dimension.value t = some value →
      value.bars = if dimension.type = .string then c else 0 := by
    by_cases any : ∃ dimension ∈ dimensions, dimension.type = .string
    · obtain ⟨source, inside, kind⟩ := any
      refine ⟨((source.value t).getD (.int 0)).bars, ?_⟩
      intro dimension member value found
      by_cases text : dimension.type = .string
      · have same : dimension = source := by
          cases dimension
          cases source
          congr
          · exact text.trans kind.symm
          · exact shared _ member _ inside text kind
        rw [if_pos text, ← same, found]
        rfl
      · rw [if_neg text]
        exact dimension.bars_eq_zero text (precise dimension member) found
    · refine ⟨0, ?_⟩
      intro dimension member value found
      have text : dimension.type ≠ .string := fun kind => any ⟨dimension, member, kind⟩
      rw [if_neg text]
      exact dimension.bars_eq_zero text (precise dimension member) found
  obtain ⟨c, count⟩ := common
  refine ⟨c, ?_⟩
  clear precise shared
  induction dimensions generalizing values with
  | nil =>
      rw [List.map_eq_nil_iff.mp every.symm]
      rfl
  | cons dimension dimensions ih =>
      cases values with
      | nil => cases every
      | cons value values =>
          rw [List.map_cons, List.map_cons, List.cons.injEq] at every
          rw [List.map_cons, List.map_cons, count dimension List.mem_cons_self value every.1,
            ih every.2 fun other member => count other (List.mem_cons_of_mem _ member)]

theorem values_eq_of_print (precise : ∀ dimension ∈ dimensions, dimension.type ≠ .double)
    (every : dimensions.map (fun dimension => dimension.value t) = values.map some)
    (every' : dimensions.map (fun dimension => dimension.value t') = values'.map some)
    (printed : values.map DimensionValue.print = values'.map DimensionValue.print) : values = values' := by
  induction dimensions generalizing values values' with
  | nil => rw [List.map_eq_nil_iff.mp every.symm, List.map_eq_nil_iff.mp every'.symm]
  | cons dimension dimensions ih =>
      cases values with
      | nil => cases every
      | cons value values =>
          cases values' with
          | nil => cases every'
          | cons value' values' =>
              rw [List.map_cons, List.map_cons, List.cons.injEq] at every every' printed
              have first := dimension.value_of_print (precise dimension List.mem_cons_self) every.1 every'.1 printed.1
              have rest := ih (fun other member => precise other (List.mem_cons_of_mem _ member)) every.2 every'.2
                printed.2
              rw [first, rest]

theorem sum_map_ite (p : Dimension → Prop) [DecidablePred p] (dimensions : List Dimension) (c : ℕ) :
    (dimensions.map fun dimension => if p dimension then c else 0).sum =
      dimensions.countP (fun dimension => decide (p dimension)) * c := by
  induction dimensions with
  | nil => simp
  | cons dimension dimensions ih =>
      by_cases holds : p dimension
      · simp only [List.map_cons, holds, if_true, List.sum_cons, ih, decide_true, List.countP_cons_of_pos,
          Nat.succ_mul]
        omega
      · simp [holds, ih]

/-- A separable schema is faithful. -/
theorem Separable.faithful (separable : Separable dimensions) : Faithful dimensions := by
  intro t t' levels levels' conforms conforms'
  obtain ⟨values, every, key⟩ := getDimensionKey_eq conforms
  obtain ⟨values', every', key'⟩ := getDimensionKey_eq conforms'
  have size : values.length = dimensions.length := by simpa using (congrArg List.length every).symm
  have size' : values'.length = dimensions.length := by simpa using (congrArg List.length every').symm
  have length : levels.length = values.length := conforms.levels.trans size.symm
  have length' : levels'.length = values'.length := conforms'.levels.trans size'.symm
  rw [key, key', Option.some_inj]
  constructor
  · intro same
    obtain ⟨c, bars⟩ := separable.exists_bars every
    obtain ⟨c', bars'⟩ := separable.exists_bars every'
    have total : (values.map DimensionValue.bars).sum = (values'.map DimensionValue.bars).sum := by
      have counts := congrArg (List.count '|') same
      have flat : ∀ list : List ℕ, (list.flatMap fun bars => [bars, 0]).sum = list.sum := by
        intro list
        induction list with
        | nil => rfl
        | cons bars rest ih => simp [ih]
      have fields : (keyFields values levels).length = (keyFields values' levels').length := by
        rw [← List.length_map (List.count '|'), ← List.length_map (List.count '|'), keyFields_bars length,
          keyFields_bars length']
        simp [Function.comp_def, size, size']
      rw [Printing.count_delimited, Printing.count_delimited, keyFields_bars length, keyFields_bars length', flat,
        flat, fields] at counts
      omega
    have agree : values.map DimensionValue.bars = values'.map DimensionValue.bars := by
      rw [bars, bars', sum_map_ite, sum_map_ite] at total
      rw [bars, bars']
      rcases Nat.eq_zero_or_pos (dimensions.countP fun (dimension : Dimension) =>
        decide (dimension.type = .string)) with none_ | some_
      · apply List.map_congr_left
        intro dimension member
        have other := List.countP_eq_zero.mp none_ dimension member
        rw [decide_eq_true_eq] at other
        rw [if_neg other, if_neg other]
      · rw [Nat.eq_of_mul_eq_mul_left some_ total]
    have counts : (keyFields values levels).map (List.count '|') =
        (keyFields values' levels').map (List.count '|') := by
      rw [keyFields_bars length, keyFields_bars length', agree]
    obtain ⟨printed, rfl⟩ := keyFields_inj length length' (Printing.delimited_inj counts same)
    obtain rfl := values_eq_of_print separable.1 every every' printed
    refine ⟨?_, rfl⟩
    intro dimension member
    exact List.map_inj_left.mp (every.trans every'.symm) dimension member
  · rintro ⟨values_, rfl⟩
    have same : values.map some = values'.map some := by
      rw [← every, ← every']
      exact List.map_congr_left values_
    rw [List.map_injective_iff.mpr (Option.some_injective _) same]

end Sufficiency

section Necessity

/-- Every value of this tuple prints as ones between bars. -/
def ones (size : ℕ) (bars : ℕ → ℕ) (d : ℚ) : Tuple ℚ where
  e := (List.range size).map fun i =>
    { sVal := some (Printing.repeated '|' '1' (bars i)), iVal := some 1, dVal := some d, tVal := some 1 }

/-- These are the bars that a dimension prints for a tuple of ones. -/
def onesBars (bars : ℕ → ℕ) (dimension : Dimension) : ℕ :=
  if dimension.type = .string then bars dimension.tupleIndex else 0

variable {dimensions : List Dimension} {size : ℕ} {bars bars' : ℕ → ℕ} {d d' : ℚ}

theorem length_repeated (delimiter token : Char) (n : ℕ) : (Printing.repeated delimiter token n).length = 2 * n + 1 := by
  simp [Printing.repeated, Nat.mul_comm]

/-- A string of ones is not cut when it has at most 126 bars. -/
theorem value_ones {dimension : Dimension} (inside : dimension.tupleIndex < size)
    (short : bars dimension.tupleIndex ≤ 126) :
    dimension.value (ones size bars d) = some (match dimension.type with
      | .string => .string (Printing.repeated '|' '1' (bars dimension.tupleIndex))
      | .double => .double d
      | .int32 | .time | .timeContainment => .int 1) := by
  have element : (ones size bars d).e[dimension.tupleIndex]? = some
      { sVal := some (Printing.repeated '|' '1' (bars dimension.tupleIndex)), iVal := some 1, dVal := some d,
        tVal := some 1 } := by
    simp [ones, inside]
  have whole : (Printing.repeated '|' '1' (bars dimension.tupleIndex)).take 254 =
      Printing.repeated '|' '1' (bars dimension.tupleIndex) :=
    List.take_of_length_le (by rw [length_repeated]; omega)
  cases kind : dimension.type <;> simp [Dimension.value, element, kind, whole]

theorem getKey_ones {dimension : Dimension} (inside : dimension.tupleIndex < size)
    (short : bars dimension.tupleIndex ≤ 126) (near : Printing.general d = ['1']) :
    dimension.getKey (ones size bars d) = some (Printing.repeated '|' '1' (onesBars bars dimension)) := by
  have one : Printing.decimal 1 = ['1'] := by decide
  rw [dimension.getKey_eq, value_ones inside short, onesBars]
  cases kind : dimension.type <;> simp [DimensionValue.print, Printing.repeated, near, one]

/-- The key of a tuple of ones depends only on the number of its bars. -/
theorem getDimensionKey_ones (inside : ∀ dimension ∈ dimensions, dimension.tupleIndex < size)
    (short : ∀ i, bars i ≤ 126) (near : Printing.general d = ['1']) :
    getDimensionKey dimensions (ones size bars d) (List.replicate dimensions.length 1) =
      some (List.replicate ((dimensions.map (onesBars bars)).sum + 2 * dimensions.length) ['1', '|']).flatten := by
  have fields : getDimensionKey dimensions (ones size bars d) (List.replicate dimensions.length 1) =
      some (Printing.delimited '|' ((dimensions.flatMap fun dimension => [onesBars bars dimension, 0]).map
        (Printing.repeated '|' '1'))) := by
    induction dimensions with
    | nil => rfl
    | cons dimension dimensions ih =>
        have rest := ih fun other member => inside other (List.mem_cons_of_mem _ member)
        have digit : Nat.toDigits 10 1 = ['1'] := by decide
        rw [List.length_cons, List.replicate_succ, getDimensionKey, rest,
          getKey_ones (inside dimension List.mem_cons_self) (short _) near]
        simp [Printing.delimited, Printing.repeated, digit]
  have total : ((dimensions.flatMap fun dimension => [onesBars bars dimension, 0]).map (· + 1)).sum =
      (dimensions.map (onesBars bars)).sum + 2 * dimensions.length := by
    clear fields inside
    induction dimensions with
    | nil => rfl
    | cons dimension dimensions ih =>
        simp only [List.flatMap_cons, List.map_append, List.sum_append, ih, List.map_cons, List.map_nil, List.sum_cons,
          List.sum_nil, List.length_cons]
        omega
  rw [fields, Printing.delimited_repeated, total]

theorem conforms_ones (inside : ∀ dimension ∈ dimensions, dimension.tupleIndex < size) (short : ∀ i, bars i ≤ 126) :
    Conforms dimensions (ones size bars d) (List.replicate dimensions.length 1) where
  values := by
    intro dimension member
    rw [value_ones (inside dimension member) (short _)]
    rfl
  levels := List.length_replicate

/-- Two tuples of ones with as many bars must have equal values in a faithful schema. -/
theorem Faithful.value_ones_eq (faithful : Faithful dimensions)
    (inside : ∀ dimension ∈ dimensions, dimension.tupleIndex < size)
    (short : ∀ i, bars i ≤ 126) (short' : ∀ i, bars' i ≤ 126)
    (near : Printing.general d = ['1']) (near' : Printing.general d' = ['1'])
    (total : (dimensions.map (onesBars bars)).sum = (dimensions.map (onesBars bars')).sum) :
    ∀ dimension ∈ dimensions, dimension.value (ones size bars d) = dimension.value (ones size bars' d') := by
  have law := faithful (ones size bars d) (ones size bars' d') _ _ (conforms_ones inside short)
    (conforms_ones inside short')
  rw [getDimensionKey_ones inside short near, getDimensionKey_ones inside short' near', total] at law
  exact (law.mp rfl).1

theorem tupleIndex_lt {dimension : Dimension} (member : dimension ∈ dimensions) :
    dimension.tupleIndex < (dimensions.map Dimension.tupleIndex).sum + 1 :=
  Nat.lt_succ_of_le (List.single_le_sum (fun _ _ => Nat.zero_le _) _ (List.mem_map_of_mem member))

/-- Two doubles that print alike make a double dimension unfaithful. -/
theorem Faithful.no_double (faithful : Faithful dimensions) :
    ∀ dimension ∈ dimensions, dimension.type ≠ .double := by
  intro dimension member kind
  have first : Printing.general (1 + 1 / 2 ^ 30) = ['1'] := Printing.general_near_one (by norm_num) (by norm_num)
  have second : Printing.general (1 + 1 / 2 ^ 31) = ['1'] := Printing.general_near_one (by norm_num) (by norm_num)
  have same := faithful.value_ones_eq (fun _ => tupleIndex_lt) (fun _ => Nat.zero_le _) (fun _ => Nat.zero_le _)
    first second rfl dimension member
  rw [value_ones (tupleIndex_lt member) (Nat.zero_le _), value_ones (tupleIndex_lt member) (Nat.zero_le _), kind]
    at same
  norm_num at same

/-- This many string dimensions read an element. -/
def stringReads (dimensions : List Dimension) (i : ℕ) : ℕ :=
  dimensions.countP fun (dimension : Dimension) => decide (dimension.type = .string ∧ dimension.tupleIndex = i)

/-- The bars of two strings can be traded when they are read from different elements. -/
theorem Faithful.one_string (faithful : Faithful dimensions) (small : ∀ i, stringReads dimensions i ≤ 126) :
    ∀ first ∈ dimensions, ∀ second ∈ dimensions, first.type = .string → second.type = .string →
      first.tupleIndex = second.tupleIndex := by
  intro first left second right text text'
  by_contra different
  have positive : 0 < stringReads dimensions second.tupleIndex :=
    List.countP_pos_iff.mpr ⟨second, right, by simp [text']⟩
  have total : ∀ i c, (dimensions.map (onesBars fun k => if k = i then c else 0)).sum = stringReads dimensions i * c := by
    intro i c
    have split : onesBars (fun k => if k = i then c else 0) =
        fun dimension : Dimension => if dimension.type = .string ∧ dimension.tupleIndex = i then c else 0 := by
      funext dimension
      by_cases kind : dimension.type = .string
      · simp [onesBars, kind]
      · simp [onesBars, kind]
    rw [split, sum_map_ite, stringReads]
  have one : Printing.general 1 = ['1'] := Printing.general_near_one le_rfl (by norm_num)
  have short : ∀ k, (if k = first.tupleIndex then stringReads dimensions second.tupleIndex else 0) ≤ 126 := by
    intro k
    split
    · exact small _
    · exact Nat.zero_le _
  have short' : ∀ k, (if k = second.tupleIndex then stringReads dimensions first.tupleIndex else 0) ≤ 126 := by
    intro k
    split
    · exact small _
    · exact Nat.zero_le _
  have same := faithful.value_ones_eq (fun _ => tupleIndex_lt) short short' one one
    (by rw [total, total, Nat.mul_comm]) first left
  rw [value_ones (tupleIndex_lt left) (short _), value_ones (tupleIndex_lt left) (short' _), text] at same
  dsimp only at same
  rw [if_pos rfl, if_neg different, Option.some_inj, DimensionValue.string.injEq] at same
  have lengths := congrArg List.length same
  rw [length_repeated, length_repeated] at lengths
  omega

end Necessity

/-- Every schema whose dimensions print no double and read one string is faithful, and no other schema is while each
element is read by at most 126 string dimensions. -/
theorem getDimensionKey_faithful_iff (dimensions : List Dimension) :
    (Separable dimensions → Faithful dimensions) ∧
      ((∀ i, stringReads dimensions i ≤ 126) → Faithful dimensions → Separable dimensions) := by
  refine ⟨Separable.faithful, ?_⟩
  intro small faithful
  exact ⟨faithful.no_double, faithful.one_string small⟩

/-- The law applies to a schema with a string, a number and a time, and to a schema with two strings. -/
theorem getDimensionKey_faithful_example :
    Faithful [⟨.string, 0⟩, ⟨.int32, 1⟩, ⟨.time, 2⟩] ∧ ¬ Faithful [⟨.string, 0⟩, ⟨.string, 1⟩] := by
  constructor
  · exact (getDimensionKey_faithful_iff _).1 ⟨by decide, by decide⟩
  · intro faithful
    have small : ∀ i, stringReads [⟨.string, 0⟩, ⟨.string, 1⟩] i ≤ 126 :=
      fun i => List.countP_le_length.trans (by decide)
    exact absurd ((getDimensionKey_faithful_iff _).2 small faithful).2 (by decide)

/-- Two tuples have one key although the second string begins with what the first one gives up. -/
theorem getDimensionKey_collision :
    let dimensions : List Dimension := [⟨.string, 0⟩, ⟨.string, 1⟩]
    let t : Tuple ℚ := ⟨[{ sVal := some ['a', '|', '1', '|', 'b'] }, { sVal := some ['c'] }]⟩
    let t' : Tuple ℚ := ⟨[{ sVal := some ['a'] }, { sVal := some ['b', '|', '1', '|', 'c'] }]⟩
    Conforms dimensions t [1, 1] ∧ Conforms dimensions t' [1, 1] ∧
      getDimensionKey dimensions t [1, 1] = getDimensionKey dimensions t' [1, 1] ∧
      ¬ ∀ dimension ∈ dimensions, dimension.value t = dimension.value t' := by
  refine ⟨⟨by decide, rfl⟩, ⟨by decide, rfl⟩, by decide, by decide⟩

end JetStream
