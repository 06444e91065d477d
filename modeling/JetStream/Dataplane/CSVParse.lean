import JetStream.Cube.Tuple
import JetStream.Query.OperatorSchemas
import JetStream.Utils.ReadInts
import Mathlib.Data.List.Dedup
import Mathlib.Data.List.Sort

namespace JetStream

/-- The characters of a types string stand for these type codes. -/
def charCode : Char → TypeCode
  | 'S' => .string
  | 'D' => .double
  | 'I' => .int
  | t => .other (String.singleton t)

/-- A negative index counts from the end of the types. -/
def pyTypeAt (types : List Char) (field : ℤ) : Except PyError Field :=
  match (pyIndex types.length field).bind (types[·]?) with
  | some t => .ok ⟨charCode t, ""⟩
  | none => .error .indexError

/-- The columns of the result are read through the list of indices, in its order. -/
def validateCSVParse (types fieldsToKeep : List Char) : Schema → Except PyError Schema
  | [] => .error .indexError
  | first :: _ =>
      if first.code ≠ .string then
        .error (.schemaError "CSVParse currently requires a string as the first element of an input tuple" [])
      else if types.any (· ∉ ['S', 'D', 'I']) then
        .error (.schemaError "CSVParse currently only accepts string, double, and 32-bit integer types" [])
      else if fieldsToKeep = ['a', 'l', 'l'] then .ok (types.map fun t => ⟨charCode t, ""⟩)
      else
        match (pySplit fieldsToKeep).mapM pyInt with
        | some fields => fields.mapM (pyTypeAt types)
        | none => .error (.schemaError "Needed field indices. invalid literal for int() with base 10: '%s'"
            [.str (String.ofList (((pySplit fieldsToKeep).find? (pyInt · = none)).getD []))])

/-- A tuple has a version besides its elements. -/
structure VersionedTuple extends Tuple Float64 where
  version : ℕ
  deriving DecidableEq

/-- The operator keeps a mark for each position. -/
structure CSVParse where
  types : List Char
  keepFields : List Bool
  nFields : ℤ
  discardOffSize : Bool
  deriving DecidableEq

namespace CSVParse

/-- An index that is too high is refused, and a negative one is written in front of the marks, which is not defined. -/
def markFields (nFields : ℤ) : List ℤ → List Bool → Option (Except String (List Bool))
  | [], keepFields => some (.ok keepFields)
  | fldToKeep :: rest, keepFields =>
      if nFields ≤ fldToKeep then
        some (.error s!"{nFields} types given; {fldToKeep} is too high for field index.")
      else if fldToKeep < 0 then none
      else markFields nFields rest (keepFields.set fldToKeep.toNat true)

/-- The length of the types is stored as an `int`, and the stream never fails on an integer that it gives. -/
def configure (types keep discardOffSize : List Char) : Option (Except String CSVParse) :=
  let nFields := toInt32 types.length
  let op (keepFields : List Bool) : CSVParse :=
    ⟨types, keepFields, nFields, discardOffSize ≠ ['f', 'a', 'l', 's', 'e']⟩
  if keep = ['a', 'l', 'l'] then some (.ok (op (List.replicate nFields.toNat true)))
  else (markFields nFields (istreamRange keep) (List.replicate nFields.toNat false)).map fun marked => marked.map op

/-- A number that is not read leaves its value undefined, and another type code ends the process. -/
def parseWithTypes (s : List Char) : Char → Option (Element Float64)
  | 'I' => (readInt s).map fun parsed => { iVal := some parsed.1 }
  | 'D' => (readDouble s).map fun d => { dVal := some d }
  | 'S' => some { sVal := some s }
  | _ => none

/-- A field that has a type is parsed when it is kept, and the counter is an `int`. -/
def parseFields (op : CSVParse) : ℕ → List (List Char) → List (Element Float64) → Option (List (Element Float64))
  | _, [], elements => some elements
  | i, csvField :: rest, elements =>
      (if op.nFields ≤ i then (if op.discardOffSize then some elements else none)
      else (op.keepFields[i]?).bind fun keep =>
        if keep then (op.types[i]?).bind fun t => (parseWithTypes csvField t).map fun e => elements ++ [e]
        else some elements).bind fun elements =>
          if i = intMax then none else op.parseFields (i + 1) rest elements

/-- The tokenizer gives the fields of a line and whether an error ends them, in which case the tuple is passed on as it
is. -/
def processOne (csvParser : List Char → List (List Char) × Bool) (op : CSVParse) (t : VersionedTuple) :
    Option (Option VersionedTuple) :=
  (t.e[0]?).bind fun e =>
    match e.sVal with
    | none => some none
    | some line =>
        (op.parseFields 0 (csvParser line).1 []).map fun elements =>
          if (csvParser line).2 then some t
          else if op.discardOffSize = false ∨ (csvParser line).1.length = op.nFields then
            some ⟨⟨elements⟩, t.version⟩
          else none

/-- An element that holds exactly one value is a column of the type of that value. -/
def columnCode (e : Element Float64) : Option TypeCode :=
  match e.sVal, e.iVal, e.dVal, e.tVal with
  | some _, none, none, none => some .string
  | none, some _, none, none => some .int
  | none, none, some _, none => some .double
  | none, none, none, some _ => some .time
  | _, _, _, _ => none

/-- A line with a field for each type whose kept fields can be parsed gives a tuple with the columns of the schema. -/
def Agrees (csvParser : List Char → List (List Char) × Bool) (types keep discardOffSize : List Char) (schema : Schema) :
    Prop :=
  ∃ op, configure types keep discardOffSize = some (.ok op) ∧
    ∀ (t : VersionedTuple) (e : Element Float64) (line : List Char) (fields : List (List Char)), t.e[0]? = some e →
      e.sVal = some line → csvParser line = (fields, false) → fields.length = types.length →
      (∀ (i : ℕ) (field : List Char) (c : Char), fields[i]? = some field → op.keepFields[i]? = some true →
        types[i]? = some c → (parseWithTypes field c).isSome) →
      ∃ out, processOne csvParser op t = some (some out) ∧
        out.e.map columnCode = schema.map fun column => some column.code

section Fields

variable {op : CSVParse} {n : ℕ} {keeps : ℕ → Bool}

theorem columnCode_parseWithTypes {s : List Char} {c : Char} {e : Element Float64}
    (parsed : parseWithTypes s c = some e) : columnCode e = some (charCode c) := by
  unfold parseWithTypes at parsed
  split at parsed
  · obtain ⟨_, -, rfl⟩ := Option.map_eq_some_iff.mp parsed
    rfl
  · obtain ⟨_, -, rfl⟩ := Option.map_eq_some_iff.mp parsed
    rfl
  · obtain rfl := Option.some.inj parsed
    rfl
  · cases parsed

/-- The kept fields give their columns in the order of their positions. -/
theorem parseFields_eq (length : op.types.length = n) (size : op.nFields = n) (small : n ≤ intMax)
    (marks : op.keepFields = (List.range n).map keeps) {i : ℕ} {fields : List (List Char)}
    (counted : i + fields.length = n) (elements : List (Element Float64))
    (parses : ∀ (j : ℕ) (field : List Char) (c : Char), fields[j]? = some field → op.keepFields[i + j]? = some true →
      op.types[i + j]? = some c → (parseWithTypes field c).isSome) :
    ∃ out, op.parseFields i fields elements = some out ∧ out.map columnCode = elements.map columnCode ++
      ((List.range' i fields.length).filter keeps).map fun j => op.types[j]?.map charCode := by
  induction fields generalizing i elements with
  | nil => exact ⟨elements, rfl, by simp⟩
  | cons field rest ih =>
      rw [List.length_cons] at counted
      have inside : i < n := by omega
      have mark : op.keepFields[i]? = some (keeps i) := by
        rw [marks, List.getElem?_map, List.getElem?_range inside, Option.map_some]
      obtain ⟨c, found⟩ : ∃ c, op.types[i]? = some c := ⟨_, List.getElem?_eq_getElem (by omega)⟩
      have later (j : ℕ) (other : List Char) (d : Char) (here : rest[j]? = some other)
          (kept : op.keepFields[i + 1 + j]? = some true) (typed : op.types[i + 1 + j]? = some d) :
          (parseWithTypes other d).isSome := by
        rw [show i + 1 + j = i + (j + 1) by omega] at kept typed
        exact parses (j + 1) other d here kept typed
      have below : ¬ op.nFields ≤ i := by omega
      have notLast : i ≠ intMax := by omega
      rw [List.length_cons, List.range'_succ]
      by_cases keep : keeps i = true
      · obtain ⟨e, parsed⟩ := Option.isSome_iff_exists.mp (parses 0 field c rfl (mark.trans (congrArg some keep)) found)
        obtain ⟨out, ran, columns⟩ := ih (by omega) (elements ++ [e]) later
        refine ⟨out, ?_, ?_⟩
        · rw [parseFields, if_neg below, mark, Option.bind_some, if_pos keep, found, Option.bind_some, parsed,
            Option.map_some, Option.bind_some, if_neg notLast, ran]
        · rw [columns, List.filter_cons_of_pos keep, List.map_append, List.map_singleton,
            columnCode_parseWithTypes parsed, List.map_cons, found, List.append_assoc]
          rfl
      · obtain ⟨out, ran, columns⟩ := ih (by omega) elements later
        refine ⟨out, ?_, ?_⟩
        · rw [parseFields, if_neg below, mark, Option.bind_some, if_neg keep, Option.bind_some, if_neg notLast, ran]
        · rw [columns, List.filter_cons_of_neg keep]

/-- The counter overflows on a line with more fields than an `int` can count. -/
theorem parseFields_overflow {i : ℕ} (low : i ≤ intMax) {fields : List (List Char)} (many : intMax < i + fields.length)
    (elements : List (Element Float64)) : op.parseFields i fields elements = none := by
  induction fields generalizing i elements with
  | nil =>
      rw [List.length_nil] at many
      omega
  | cons field rest ih =>
      rw [List.length_cons] at many
      rw [parseFields, Option.bind_eq_none_iff]
      intro next _
      by_cases last : i = intMax
      · rw [if_pos last]
      · rw [if_neg last]
        exact ih (by omega) (by omega) next

/-- Marking the listed positions adds them to the marks. -/
theorem markFields_eq {fields done : List ℤ} (nonneg : ∀ f ∈ fields, 0 ≤ f) (inside : ∀ f ∈ fields, f < n) :
    markFields n fields ((List.range n).map fun i : ℕ => decide ((i : ℤ) ∈ done)) =
      some (.ok ((List.range n).map fun i : ℕ => decide ((i : ℤ) ∈ done ++ fields))) := by
  induction fields generalizing done with
  | nil => rw [markFields, List.append_nil]
  | cons f rest ih =>
      have low := nonneg f List.mem_cons_self
      have marked : ((List.range n).map fun i : ℕ => decide ((i : ℤ) ∈ done)).set f.toNat true =
          (List.range n).map fun i : ℕ => decide ((i : ℤ) ∈ done ++ [f]) := by
        apply List.ext_getElem (by simp)
        intro i _ _
        by_cases here : f.toNat = i
        · have same : (i : ℤ) = f := by omega
          simp [here, same]
        · have other : (i : ℤ) ≠ f := by omega
          simp [List.getElem_set_ne here, other]
      rw [markFields, if_neg (by have := inside f List.mem_cons_self; omega), if_neg (by omega), marked,
        ih (fun other member => nonneg other (List.mem_cons_of_mem _ member))
          (fun other member => inside other (List.mem_cons_of_mem _ member)), List.append_assoc, List.singleton_append]

theorem markFields_negative {fields : List ℤ} (inside : ∀ f ∈ fields, f < n) {f : ℤ} (member : f ∈ fields)
    (negative : f < 0) (keepFields : List Bool) : markFields n fields keepFields = none := by
  induction fields generalizing keepFields with
  | nil => cases member
  | cons first rest ih =>
      rw [markFields, if_neg (by have := inside first List.mem_cons_self; omega)]
      by_cases here : first < 0
      · rw [if_pos here]
      · rw [if_neg here]
        have later : f ∈ rest := (List.mem_cons.mp member).resolve_left (by rintro rfl; exact here negative)
        exact ih (fun other member => inside other (List.mem_cons_of_mem _ member)) later _

end Fields

section Order

variable {types : List Char} {fields : List ℤ} {n : ℕ}

theorem charCode_injective : Function.Injective charCode := by
  intro first second same
  unfold charCode at same
  split at same <;> split at same <;> simp_all

/-- The listed positions are not negative and not repeated, and sorting them selects the same types. -/
def KeepsInOrder (types : List Char) (fields : List ℤ) : Prop :=
  (∀ f ∈ fields, 0 ≤ f) ∧ fields.Nodup ∧
    (fields.insertionSort (· ≤ ·)).map (fun f => types[f.toNat]?) = fields.map fun f => types[f.toNat]?

/-- The marked positions are the sorted list. -/
theorem filter_range_eq (nonneg : ∀ f ∈ fields, 0 ≤ f) (inside : ∀ f ∈ fields, f < n) (distinct : fields.Nodup) :
    (List.range n).filter (fun i : ℕ => decide ((i : ℤ) ∈ fields)) =
      (fields.insertionSort (· ≤ ·)).map Int.toNat := by
  have ordered := List.pairwise_insertionSort (· ≤ ·) fields
  have single := (List.perm_insertionSort (· ≤ ·) fields).nodup_iff.mpr distinct
  have increasing : ((fields.insertionSort (· ≤ ·)).map Int.toNat).SortedLT := by
    rw [List.sortedLT_iff_pairwise, List.pairwise_map]
    refine (ordered.and single).imp_of_mem fun {f g} first _ both => ?_
    have low := nonneg f ((List.mem_insertionSort _).mp first)
    have := lt_of_le_of_ne both.1 both.2
    omega
  refine List.SortedLT.eq_of_mem_iff ?_ increasing fun i => ?_
  · rw [List.sortedLT_iff_pairwise]
    exact List.pairwise_lt_range.filter _
  · rw [List.mem_filter, List.mem_range, decide_eq_true_eq, List.mem_map]
    constructor
    · rintro ⟨-, listed⟩
      exact ⟨i, (List.mem_insertionSort _).mpr listed, Int.toNat_natCast i⟩
    · rintro ⟨f, sorted, rfl⟩
      have listed := (List.mem_insertionSort _).mp sorted
      have low := nonneg f listed
      have high := inside f listed
      rw [Int.toNat_of_nonneg low]
      exact ⟨by omega, listed⟩

/-- The types at the marked positions are those that the list selects exactly when it keeps their order. -/
theorem types_eq_iff (nonneg : ∀ f ∈ fields, 0 ≤ f) (inside : ∀ f ∈ fields, f < n) :
    ((List.range n).filter fun i : ℕ => decide ((i : ℤ) ∈ fields)).map (types[·]?) =
        fields.map (fun f => types[f.toNat]?) ↔ KeepsInOrder types fields := by
  constructor
  · intro same
    have sizes : ((List.range n).filter fun i : ℕ => decide ((i : ℤ) ∈ fields)).length = fields.length := by
      simpa using congrArg List.length same
    have marked : (((List.range n).filter fun i : ℕ => decide ((i : ℤ) ∈ fields)).map fun i : ℕ => (i : ℤ)).Perm
        fields.dedup := by
      refine (List.perm_ext_iff_of_nodup ?_ (List.nodup_dedup _)).mpr fun f => ?_
      · exact ((List.nodup_range).filter _).map Nat.cast_injective
      · rw [List.mem_dedup, List.mem_map]
        constructor
        · rintro ⟨i, member, rfl⟩
          exact of_decide_eq_true (List.mem_filter.mp member).2
        · intro listed
          have low := nonneg f listed
          have high := inside f listed
          refine ⟨f.toNat, List.mem_filter.mpr ⟨List.mem_range.mpr (by omega), ?_⟩, Int.toNat_of_nonneg low⟩
          rwa [Int.toNat_of_nonneg low, decide_eq_true_eq]
    have distinct : fields.Nodup := by
      rw [← List.dedup_eq_self]
      refine (List.dedup_sublist fields).eq_of_length ?_
      rw [← marked.length_eq, List.length_map, sizes]
    refine ⟨nonneg, distinct, ?_⟩
    rw [← same, filter_range_eq nonneg inside distinct, List.map_map]
    rfl
  · rintro ⟨-, distinct, same⟩
    rw [filter_range_eq nonneg inside distinct, List.map_map, ← same]
    rfl

end Order

section Accepted

variable {csvParser : List Char → List (List Char) × Bool} {types keep discardOffSize : List Char} {inSchema schema : Schema}

/-- Fields of digits are split at the commas between them. -/
def SplitsPlain (csvParser : List Char → List (List Char) × Bool) : Prop :=
  ∀ fields : List (List Char), (∀ field ∈ fields, field ≠ [] ∧ ∀ c ∈ field, c.isDigit = true) →
    csvParser ([','].intercalate fields) = (fields, false)

theorem pyTypeAt_ok {f : ℤ} {column : Field} (read : pyTypeAt types f = .ok column) :
    -types.length ≤ f ∧ f < types.length ∧ (0 ≤ f → some column.code = types[f.toNat]?.map charCode) := by
  unfold pyTypeAt at read
  split at read
  · rename_i t found
    obtain rfl := Except.ok.inj read
    obtain ⟨position, index, here⟩ := Option.bind_eq_some_iff.mp found
    unfold pyIndex at index
    by_cases nonneg : 0 ≤ f
    · rw [if_pos nonneg] at index
      by_cases inside : f < types.length
      · rw [if_pos inside] at index
        obtain rfl := Option.some.inj index
        exact ⟨by omega, inside, fun _ => by rw [here, Option.map_some]⟩
      · rw [if_neg inside] at index
        cases index
    · rw [if_neg nonneg] at index
      by_cases inside : -(types.length : ℤ) ≤ f
      · exact ⟨inside, by omega, fun low => absurd low nonneg⟩
      · rw [if_neg inside] at index
        cases index
  · cases read

/-- An accepted list of positions reads a type for each of them. -/
theorem mapM_pyTypeAt {fields : List ℤ} (read : fields.mapM (pyTypeAt types) = .ok schema) :
    (∀ f ∈ fields, -types.length ≤ f ∧ f < types.length) ∧ ((∀ f ∈ fields, 0 ≤ f) →
      schema.map (fun column => some column.code) = fields.map fun f => types[f.toNat]?.map charCode) := by
  induction fields generalizing schema with
  | nil =>
      obtain rfl : [] = schema := Except.ok.inj read
      simp
  | cons f rest ih =>
      rw [List.mapM_cons] at read
      cases column : pyTypeAt types f with
      | error error => simp [column, bind, Except.bind] at read
      | ok first =>
          cases later : rest.mapM (pyTypeAt types) with
          | error error => simp [column, later, bind, Except.bind] at read
          | ok columns =>
              simp only [column, later, bind, Except.bind, pure, Except.pure, Except.ok.injEq] at read
              subst read
              obtain ⟨inside, codes⟩ := ih later
              obtain ⟨low, high, code⟩ := pyTypeAt_ok column
              refine ⟨List.forall_mem_cons.mpr ⟨⟨low, high⟩, inside⟩, fun nonneg => ?_⟩
              obtain ⟨here, rest⟩ := List.forall_mem_cons.mp nonneg
              rw [List.map_cons, List.map_cons, codes rest, code here]

/-- An accepted configuration has known types, and it keeps all fields or a list of positions that exist. -/
theorem validateCSVParse_ok (valid : validateCSVParse types keep inSchema = .ok schema) :
    (∀ c ∈ types, c ∈ ['S', 'D', 'I']) ∧
      ((keep = ['a', 'l', 'l'] ∧ schema = types.map fun t => ⟨charCode t, ""⟩) ∨
        (keep ≠ ['a', 'l', 'l'] ∧ ∃ fields, (pySplit keep).mapM pyInt = some fields ∧
          fields.mapM (pyTypeAt types) = .ok schema)) := by
  unfold validateCSVParse at valid
  split at valid
  · cases valid
  · split_ifs at valid with wrong unknown every
    · refine ⟨fun c member => ?_, Or.inl ⟨every, (Except.ok.inj valid).symm⟩⟩
      by_contra other
      exact unknown (List.any_eq_true.mpr ⟨c, member, decide_eq_true other⟩)
    · refine ⟨fun c member => ?_, Or.inr ⟨every, ?_⟩⟩
      · by_contra other
        exact unknown (List.any_eq_true.mpr ⟨c, member, decide_eq_true other⟩)
      · split at valid
        · rename_i fields read
          exact ⟨fields, read, valid⟩
        · cases valid

/-- A zero can be parsed as every type. -/
theorem parseWithTypes_zero {c : Char} (known : c ∈ ['S', 'D', 'I']) : (parseWithTypes ['0'] c).isSome := by
  simp only [List.mem_cons, List.not_mem_nil, or_false] at known
  rcases known with rfl | rfl | rfl <;> decide +kernel

/-- A line of zeros has a field for each type. -/
theorem exists_zeros (splits : SplitsPlain csvParser) (known : ∀ c ∈ types, c ∈ ['S', 'D', 'I']) (op : CSVParse) :
    ∃ (t : VersionedTuple) (e : Element Float64) (line : List Char) (fields : List (List Char)), t.e[0]? = some e ∧
      e.sVal = some line ∧ csvParser line = (fields, false) ∧ fields.length = types.length ∧
      ∀ (i : ℕ) (field : List Char) (c : Char), fields[i]? = some field → op.keepFields[i]? = some true →
        types[i]? = some c → (parseWithTypes field c).isSome := by
  refine ⟨⟨⟨[{ sVal := some ([','].intercalate (List.replicate types.length ['0'])) }]⟩, 0⟩, _, _, _, rfl, rfl,
    splits (List.replicate types.length ['0']) fun field member => ?_, List.length_replicate, ?_⟩
  · obtain rfl := List.eq_of_mem_replicate member
    refine ⟨List.cons_ne_nil _ _, fun c zero => ?_⟩
    rw [List.mem_singleton.mp zero]
    decide
  · intro i field c here _ typed
    obtain rfl := List.eq_of_mem_replicate (List.mem_of_getElem? here)
    exact parseWithTypes_zero (known c (List.mem_of_getElem? typed))

theorem processOne_eq {op : CSVParse} {t : VersionedTuple} {e : Element Float64} {line : List Char}
    {fields : List (List Char)} (first : t.e[0]? = some e) (text : e.sVal = some line)
    (tokens : csvParser line = (fields, false)) (size : (fields.length : ℤ) = op.nFields) :
    processOne csvParser op t = (op.parseFields 0 fields []).map fun elements => some ⟨⟨elements⟩, t.version⟩ := by
  simp only [processOne, first, Option.bind_some, text, tokens, size, or_true, if_true, Bool.false_eq_true, if_false]

/-- The operator agrees with a schema exactly when the marked positions have its types. -/
theorem agrees_iff_columns (splits : SplitsPlain csvParser) (known : ∀ c ∈ types, c ∈ ['S', 'D', 'I'])
    (small : types.length ≤ intMax) {keeps : ℕ → Bool} {discard : Bool}
    (configured : configure types keep discardOffSize =
      some (.ok ⟨types, (List.range types.length).map keeps, types.length, discard⟩)) :
    Agrees csvParser types keep discardOffSize schema ↔
      ((List.range types.length).filter keeps).map (fun i => types[i]?.map charCode) =
        schema.map fun column => some column.code := by
  have columns {t : VersionedTuple} {e : Element Float64} {line : List Char} {fields : List (List Char)}
      (first : t.e[0]? = some e) (text : e.sVal = some line) (tokens : csvParser line = (fields, false))
      (size : fields.length = types.length)
      (parses : ∀ (i : ℕ) (field : List Char) (c : Char), fields[i]? = some field →
        ((List.range types.length).map keeps)[i]? = some true → types[i]? = some c → (parseWithTypes field c).isSome) :
      ∃ out, processOne csvParser ⟨types, (List.range types.length).map keeps, types.length, discard⟩ t =
          some (some out) ∧
        out.e.map columnCode = ((List.range types.length).filter keeps).map fun i => types[i]?.map charCode := by
    obtain ⟨out, ran, codes⟩ := @parseFields_eq ⟨types, (List.range types.length).map keeps, types.length, discard⟩
      types.length keeps rfl rfl small rfl 0 fields (by omega) [] (by simpa using parses)
    refine ⟨⟨⟨out⟩, t.version⟩, ?_, ?_⟩
    · rw [processOne_eq first text tokens (by rw [size]), ran, Option.map_some]
    · rw [codes, size, List.map_nil, List.nil_append, ← List.range_eq_range']
  constructor
  · rintro ⟨op, same, agree⟩
    obtain rfl := Except.ok.inj (Option.some.inj (configured.symm.trans same))
    obtain ⟨t, e, line, fields, first, text, tokens, size, parses⟩ := exists_zeros splits known
      ⟨types, (List.range types.length).map keeps, types.length, discard⟩
    obtain ⟨out, ran, codes⟩ := columns first text tokens size parses
    obtain ⟨other, again, agreed⟩ := agree t e line fields first text tokens size parses
    obtain rfl := Option.some.inj (Option.some.inj (ran.symm.trans again))
    exact codes.symm.trans agreed
  · intro same
    refine ⟨_, configured, fun t e line fields first text tokens size parses => ?_⟩
    obtain ⟨out, ran, codes⟩ := columns first text tokens size parses
    exact ⟨out, ran, codes.trans same⟩

/-- A line with more fields than an `int` can count has no result. -/
theorem not_agrees_of_overflow (splits : SplitsPlain csvParser) (known : ∀ c ∈ types, c ∈ ['S', 'D', 'I'])
    (many : intMax < types.length) : ¬ Agrees csvParser types keep discardOffSize schema := by
  rintro ⟨op, -, agree⟩
  obtain ⟨t, e, line, fields, first, text, tokens, size, parses⟩ := exists_zeros splits known op
  obtain ⟨out, ran, -⟩ := agree t e line fields first text tokens size parses
  have overflow := @parseFields_overflow op 0 (Nat.zero_le _) fields (by omega) []
  simp [processOne, first, text, tokens, overflow] at ran

theorem configure_all (small : types.length ≤ intMax) :
    configure types ['a', 'l', 'l'] discardOffSize = some (.ok ⟨types, (List.range types.length).map fun _ => true,
      types.length, discardOffSize ≠ ['f', 'a', 'l', 's', 'e']⟩) := by
  have size : toInt32 types.length = types.length := toInt32_eq (by unfold intMax at small; omega)
  have marks : List.replicate types.length true = (List.range types.length).map fun _ => true := by
    rw [List.map_const', List.length_range]
  rw [configure, if_pos rfl]
  dsimp only
  rw [size, Int.toNat_natCast, marks]

/-- A list of positions that exist is marked, and a negative one among them has no defined result. -/
theorem configure_fields (small : types.length ≤ intMax) (other : keep ≠ ['a', 'l', 'l']) {fields : List ℤ}
    (listed : (pySplit keep).mapM pyInt = some fields)
    (inside : ∀ f ∈ fields, -types.length ≤ f ∧ f < types.length) :
    configure types keep discardOffSize = if ∀ f ∈ fields, 0 ≤ f then
      some (.ok ⟨types, (List.range types.length).map fun i : ℕ => decide ((i : ℤ) ∈ fields), types.length,
        discardOffSize ≠ ['f', 'a', 'l', 's', 'e']⟩) else none := by
  have size : toInt32 types.length = types.length := toInt32_eq (by unfold intMax at small; omega)
  have read : istreamRange keep = fields := istreamRange_eq listed fun f member => by
    have := inside f member
    omega
  have marks : List.replicate types.length false =
      (List.range types.length).map fun i : ℕ => decide ((i : ℤ) ∈ ([] : List ℤ)) := by
    simp [List.map_const']
  rw [configure, if_neg other, size, read, Int.toNat_natCast, marks]
  split
  · rename_i nonneg
    rw [markFields_eq nonneg fun f member => (inside f member).2]
    rfl
  · rename_i negative
    obtain ⟨f, member, low⟩ : ∃ f ∈ fields, f < 0 := by simpa using negative
    rw [markFields_negative (fun f member => (inside f member).2) member low]
    rfl

/-- The operator gives the columns that the query expects exactly when its positions are counted by an `int`, and all of
them are kept or the list of the kept ones keeps their order. -/
theorem agrees_iff (splits : SplitsPlain csvParser) (valid : validateCSVParse types keep inSchema = .ok schema) :
    Agrees csvParser types keep discardOffSize schema ↔ types.length ≤ intMax ∧
      (keep = ['a', 'l', 'l'] ∨ ∃ fields, (pySplit keep).mapM pyInt = some fields ∧ KeepsInOrder types fields) := by
  obtain ⟨known, kept⟩ := validateCSVParse_ok valid
  rcases Nat.lt_or_ge intMax types.length with many | small
  · exact iff_of_false (not_agrees_of_overflow splits known many) fun both => absurd both.1 (by omega)
  · rcases kept with ⟨rfl, rfl⟩ | ⟨other, fields, listed, read⟩
    · rw [agrees_iff_columns splits known small (configure_all small)]
      refine iff_of_true ?_ ⟨small, Or.inl rfl⟩
      rw [List.filter_true]
      refine List.ext_getElem (by simp) fun i inside _ => ?_
      have position : i < types.length := by simpa using inside
      simp [List.getElem?_eq_getElem position]
    · obtain ⟨inside, codes⟩ := mapM_pyTypeAt read
      have configured := @configure_fields types keep discardOffSize small other fields listed inside
      by_cases nonneg : ∀ f ∈ fields, 0 ≤ f
      · rw [if_pos nonneg] at configured
        rw [agrees_iff_columns splits known small configured, codes nonneg]
        have pulled : ((List.range types.length).filter fun i : ℕ => decide ((i : ℤ) ∈ fields)).map
              (fun i => types[i]?.map charCode) = fields.map (fun f => types[f.toNat]?.map charCode) ↔
            KeepsInOrder types fields := by
          rw [← types_eq_iff nonneg fun f member => (inside f member).2,
            ← (Option.map_injective charCode_injective).list_map.eq_iff, List.map_map, List.map_map]
          rfl
        rw [pulled]
        constructor
        · exact fun order => ⟨small, Or.inr ⟨fields, listed, order⟩⟩
        · rintro ⟨-, every | ⟨found, again, order⟩⟩
          · exact absurd every other
          · obtain rfl := Option.some.inj (listed.symm.trans again)
            exact order
      · rw [if_neg nonneg] at configured
        refine iff_of_false ?_ ?_
        · rintro ⟨op, same, -⟩
          cases configured.symm.trans same
        · rintro ⟨-, every | ⟨found, again, order⟩⟩
          · exact other every
          · obtain rfl := Option.some.inj (listed.symm.trans again)
            exact nonneg order.1

end Accepted

section Instances

/-- A line of plain fields is split at its commas. -/
def plainParser (line : List Char) : List (List Char) × Bool := (if line = [] then [] else line.splitOn ',', false)

theorem plainParser_splitsPlain : SplitsPlain plainParser := by
  intro fields plain
  cases fields with
  | nil => rfl
  | cons field rest =>
      have nonempty : [','].intercalate (field :: rest) ≠ [] := by
        obtain ⟨c, text, rfl⟩ := List.exists_cons_of_ne_nil (plain field List.mem_cons_self).1
        cases rest <;> simp [List.intercalate]
      have apart : ∀ text ∈ field :: rest, ',' ∉ text := by
        intro text member comma
        exact absurd ((plain text member).2 ',' comma) (by decide)
      rw [plainParser, if_neg nonempty, List.splitOn_intercalate ',' apart (List.cons_ne_nil _ _)]

theorem agrees_iff_kept :
    validateCSVParse ['S', 'I', 'D'] ['0', ' ', '2'] [⟨.string, ""⟩] = .ok [⟨.string, ""⟩, ⟨.double, ""⟩] ∧
      (Agrees plainParser ['S', 'I', 'D'] ['0', ' ', '2'] [] [⟨.string, ""⟩, ⟨.double, ""⟩] ↔ 3 ≤ intMax ∧
        (['0', ' ', '2'] = ['a', 'l', 'l'] ∨ ∃ fields, (pySplit ['0', ' ', '2']).mapM pyInt = some fields ∧
          KeepsInOrder ['S', 'I', 'D'] fields)) :=
  ⟨by decide, agrees_iff plainParser_splitsPlain (by decide : validateCSVParse ['S', 'I', 'D'] ['0', ' ', '2']
    [⟨.string, ""⟩] = .ok [⟨.string, ""⟩, ⟨.double, ""⟩])⟩

/-- The query expects the second field in front of the first one, and the operator gives them in the order of the line. -/
theorem not_agrees_reversed :
    validateCSVParse ['S', 'I'] ['1', ' ', '0'] [⟨.string, ""⟩] = .ok [⟨.int, ""⟩, ⟨.string, ""⟩] ∧
      configure ['S', 'I'] ['1', ' ', '0'] [] = some (.ok ⟨['S', 'I'], [true, true], 2, true⟩) ∧
      processOne plainParser ⟨['S', 'I'], [true, true], 2, true⟩ ⟨⟨[{ sVal := some ['a', ',', '7'] }]⟩, 0⟩ =
        some (some ⟨⟨[{ sVal := some ['a'] }, { iVal := some 7 }]⟩, 0⟩) ∧
      ¬ Agrees plainParser ['S', 'I'] ['1', ' ', '0'] [] [⟨.int, ""⟩, ⟨.string, ""⟩] := by
  have ran : processOne plainParser ⟨['S', 'I'], [true, true], 2, true⟩ ⟨⟨[{ sVal := some ['a', ',', '7'] }]⟩, 0⟩ =
      some (some ⟨⟨[{ sVal := some ['a'] }, { iVal := some 7 }]⟩, 0⟩) := by
    decide
  have configures : configure ['S', 'I'] ['1', ' ', '0'] [] = some (.ok ⟨['S', 'I'], [true, true], 2, true⟩) := by
    decide
  refine ⟨by decide, configures, ran, ?_⟩
  rintro ⟨op, configured, agree⟩
  obtain rfl := Except.ok.inj (Option.some.inj (configures.symm.trans configured))
  have parses (i : ℕ) (field : List Char) (c : Char) (here : [['a'], ['7']][i]? = some field)
      (_ : [true, true][i]? = some true) (typed : ['S', 'I'][i]? = some c) : (parseWithTypes field c).isSome := by
    match i with
    | 0 =>
        obtain rfl := Option.some.inj here
        obtain rfl := Option.some.inj typed
        decide
    | 1 =>
        obtain rfl := Option.some.inj here
        obtain rfl := Option.some.inj typed
        decide
    | i + 2 => cases here
  obtain ⟨out, again, columns⟩ := agree ⟨⟨[{ sVal := some ['a', ',', '7'] }]⟩, 0⟩ _ ['a', ',', '7'] [['a'], ['7']] rfl
    rfl (by decide) rfl parses
  obtain rfl := Option.some.inj (Option.some.inj (ran.symm.trans again))
  exact absurd columns (by decide)

end Instances

end CSVParse

end JetStream
