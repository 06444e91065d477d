import Mathlib.Data.Int.Notation
import Mathlib.Data.Nat.Notation
import Mathlib.Data.List.Basic

namespace JetStream

/-- The type codes of the columns, where a configuration may hold others. -/
inductive TypeCode where
  | int
  | double
  | string
  | time
  | blob
  | histogram
  | sketch
  | sample
  | other (code : String)
  deriving DecidableEq, Repr

/-- A column has a type code and a name. -/
structure Field where
  code : TypeCode
  name : String
  deriving DecidableEq, Repr

abbrev Schema := List Field

/-- A variable for a schema holds an empty tuple, a list of columns, or nothing. -/
inductive PySchema where
  | unit
  | columns (fields : Schema)
  | none
  deriving DecidableEq, Repr

/-- These values are put into the texts of exceptions. -/
inductive PyValue where
  | int (value : ℤ)
  | str (text : String)
  | code (value : TypeCode)
  | field (value : Field)
  | schema (value : PySchema)
  deriving DecidableEq, Repr

/-- A schema error has a format and its arguments, and the other exceptions come from the language itself. -/
inductive PyError where
  | schemaError (format : String) (arguments : List PyValue)
  | indexError
  | keyError
  | valueError
  | typeError
  deriving DecidableEq, Repr

/-- A negative index counts from the end. -/
def pyIndex (size : ℕ) (index : ℤ) : Option ℕ :=
  if 0 ≤ index then (if index < size then some index.toNat else none)
  else if -size ≤ index then some (index + size).toNat else none

/-- The bound of a slice is clipped to the list. -/
def sliceBound (size : ℕ) (bound : ℤ) : ℕ := if 0 ≤ bound then bound.toNat else (bound + size).toNat

/-- A read outside the list raises an exception. -/
def pyGet (inSchema : Schema) (index : ℤ) : Except PyError Field :=
  match (pyIndex inSchema.length index).bind (inSchema[·]?) with
  | some field => .ok field
  | none => .error .indexError

/-- A write replaces one column. -/
def pySet (inSchema : Schema) (index : ℤ) (field : Field) : Schema :=
  match pyIndex inSchema.length index with
  | some position => inSchema.set position field
  | none => inSchema

def summaryTypes : List TypeCode := [.histogram, .sketch, .sample]

def validateTimestamp (type : String) (inSchema : Schema) : Except PyError Schema :=
  if type = "s" then .ok (inSchema ++ [⟨.time, "timestamp(s)"⟩])
  else if type = "ms" then .ok (inSchema ++ [⟨.double, "timestamp(ms)"⟩])
  else if type = "us" then .ok (inSchema ++ [⟨.double, "timestamp(us)"⟩])
  else .error (.schemaError ("Needed time granularity specifier, got: " ++ type) [])

/-- The column of a summary operator must exist and have one of the given types. -/
def checkColumn (allowed : List TypeCode) (missing : PyError) (wrong : Field → PyError) (fld : ℤ) (inSchema : Schema) :
    Except PyError Field :=
  if (inSchema.length : ℤ) ≤ fld then .error missing
  else (pyGet inSchema fld).bind fun field => if field.code ∈ allowed then .ok field else .error (wrong field)

/-- The quantile and the count take the same columns and raise the same errors. -/
def checkSummary (fld : ℤ) (inSchema : Schema) : Except PyError Field :=
  checkColumn summaryTypes (.schemaError "not enough fields in quantile input" [])
    (fun field => .schemaError "Can only take quantile of a summary; instead got %s" [.code field.code]) fld inSchema

def validateQuantile (fld : ℤ) (q : String) (inSchema : Schema) : Except PyError Schema :=
  (checkSummary fld inSchema).map fun field => pySet inSchema fld ⟨.int, q ++ "-quantile of " ++ field.name⟩

def validateS2Count (fld : ℤ) (inSchema : Schema) : Except PyError Schema :=
  (checkSummary fld inSchema).map fun field => inSchema ++ [⟨.int, "count(" ++ field.name ++ ")"⟩]

def validateToSummary (fld : ℤ) (inSchema : Schema) : Except PyError Schema :=
  (checkColumn [.int]
    (.schemaError "not enough fields in ToSummary input; needed %d got %d" [.int (fld + 1), .int inSchema.length])
    (fun field => .schemaError "Can only put ints into summaries, for now; got %s" [.field field]) fld inSchema).map
    fun field => pySet inSchema fld ⟨.histogram, "summary of " ++ field.name⟩

/-- The slice before the column is joined with the slice behind it. -/
def validateProjection (field : ℤ) (inSchema : Schema) : Except PyError Schema :=
  .ok (inSchema.take (sliceBound inSchema.length field) ++ inSchema.drop (sliceBound inSchema.length (field + 1)))

/-- The slices around a column that exists leave out that column, except for the index `-1`. -/
theorem slices_eq_eraseIdx {inSchema : Schema} {field : ℤ} {position : ℕ}
    (found : pyIndex inSchema.length field = some position) (other : field ≠ -1) :
    inSchema.take (sliceBound inSchema.length field) ++ inSchema.drop (sliceBound inSchema.length (field + 1)) =
      inSchema.eraseIdx position := by
  unfold pyIndex at found
  rw [List.eraseIdx_eq_take_drop_succ]
  unfold sliceBound
  split_ifs at found with positive below above
  · have same := Option.some.inj found
    rw [if_pos positive, if_pos (by omega)]
    congr 2
    omega
  · have same := Option.some.inj found
    rw [if_neg positive, if_neg (by omega)]
    congr 2
    omega

/-- The slices around a column that does not exist, or around the index `-1`, leave out no column. -/
theorem length_le_slices {inSchema : Schema} {field : ℤ}
    (missing : pyIndex inSchema.length field = none ∨ field = -1) :
    inSchema.length ≤ (inSchema.take (sliceBound inSchema.length field) ++
      inSchema.drop (sliceBound inSchema.length (field + 1))).length := by
  rw [List.length_append, List.length_take, List.length_drop]
  rcases missing with none_ | last
  · unfold pyIndex at none_
    unfold sliceBound
    split_ifs at none_ ⊢ <;> omega
  · rw [last]
    unfold sliceBound
    simp

theorem exists_of_map_eq_ok {ε α β : Type} {f : α → β} {result : Except ε α} {out : β} (mapped : result.map f = .ok out) :
    ∃ value, result = .ok value ∧ f value = out := by
  cases result with
  | error e => cases mapped
  | ok value => exact ⟨value, rfl, Except.ok.inj mapped⟩

/-- An index below the size is a position, and a negative one counts from the end. -/
theorem pyIndex_eq_some {size position : ℕ} {index : ℤ} (found : pyIndex size index = some position) :
    position < size ∧ (0 ≤ index ∧ index = position ∨ index < 0 ∧ index + size = position) := by
  unfold pyIndex at found
  split_ifs at found with positive below above
  · have same := Option.some.inj found
    omega
  · have same := Option.some.inj found
    omega

/-- An accepted column is one of the schema's and has an allowed type. -/
theorem checkColumn_eq_ok {allowed : List TypeCode} {missing : PyError} {wrong : Field → PyError} {fld : ℤ}
    {inSchema : Schema} {field : Field} (accepted : checkColumn allowed missing wrong fld inSchema = .ok field) :
    ∃ position, pyIndex inSchema.length fld = some position ∧ inSchema[position]? = some field ∧ field.code ∈ allowed := by
  unfold checkColumn at accepted
  split_ifs at accepted
  unfold pyGet at accepted
  split at accepted
  · rename_i column found
    obtain ⟨position, index, read⟩ := Option.bind_eq_some_iff.mp found
    rw [Except.bind] at accepted
    split_ifs at accepted with member
    obtain rfl := Except.ok.inj accepted
    exact ⟨position, index, read, member⟩
  · cases accepted

end JetStream
