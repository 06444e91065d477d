import JetStream.Cube.Tuple
import JetStream.Utils.ReadNumber
import JetStream.Aggregates.Quantile
import JetStream.Query.OperatorSchemas

namespace JetStream

/-- An element of a message may also hold a blob or a summary. -/
structure WireElement extends Element Float64 where
  blob : Option (List UInt8) := none
  summary : Option JSSummary := none
  deriving DecidableEq

/-- The operators read the clock, a random generator, and memory that a constructor leaves uninitialized. -/
structure OperatorEnv where
  getSec : ℕ
  getUsec : ℕ
  gen : ℕ → ℕ → ℕ
  totalSeen : ℕ
  draws : ℤ → ℕ → ℤ
  randSeed : ℤ
  wideShift : ℕ → ℕ → ℕ

inductive TimeType where
  | S
  | MS
  | US
  deriving DecidableEq, Repr

/-- These are the configured operators of the dataplane. -/
inductive ElementOperator where
  | timestamp (type : TimeType)
  | projection (fieldId : ℕ)
  | toSummary (field sSize : ℕ)
  | quantile (field : ℕ) (q : Float64)
  | summaryToCount (field : ℕ)
  deriving DecidableEq

/-- These are the operators of a query with the configuration that the client gives. -/
inductive TypedOperator where
  | timestamp (type : String)
  | projection (field : ℤ)
  | toSummary (field : ℤ) (size : Option ℤ)
  | quantile (field : ℤ) (q : String)
  | summaryToCount (field : ℤ)

namespace TypedOperator

/-- This is the type rule of each operator. -/
def outSchema : TypedOperator → Schema → Except PyError Schema
  | timestamp type => validateTimestamp type
  | projection field => validateProjection field
  | toSummary field _ => validateToSummary field
  | quantile field q => validateQuantile field q
  | summaryToCount field => validateS2Count field

/-- A configuration that the dataplane cannot read is refused. -/
def configure : TypedOperator → Option ElementOperator
  | timestamp type =>
      if type = "s" then some (.timestamp .S)
      else if type = "ms" then some (.timestamp .MS)
      else if type = "us" then some (.timestamp .US)
      else none
  | projection field => (readUnsigned field).map .projection
  | toSummary field size =>
      (readUnsigned field).bind fun field => (size.bind readUnsigned).map fun sSize => .toSummary field sSize
  | quantile field q =>
      (readDouble q.toList).bind fun q =>
        if q ≤ .ofInt 0 ∨ .ofInt 1 ≤ q then none else (readUnsigned field).map fun field => .quantile field q
  | summaryToCount field => (readUnsigned field).map .summaryToCount

end TypedOperator

/-- Two elements of a message trade places. -/
def swapElements (elems : List WireElement) (i j : ℕ) : List WireElement :=
  match elems[i]?, elems[j]? with
  | some first, some second => (elems.set i second).set j first
  | _, _ => elems

/-- The summary's estimator gives the quantile, and the result is missing when a check of the code fails. -/
def summaryQuantile (env : OperatorEnv) (q : Float64) (s : JSSummary) : Option ℤ :=
  match s.histo, s.sample, s.sketch with
  | some histo, _, _ => (LogHistogram.fillIn histo).bind (·.quantile q)
  | none, some sample, _ => (ReservoirSample.fillIn env.gen env.totalSeen sample).quantile q
  | none, none, some sketch => (CMMultiSketch.fillIn env.draws env.randSeed sketch).bind fun est =>
      est.quantile (fun level => (est.panes level).hash env.wideShift) q
  | none, none, none => sortedQuantile s.items q

/-- The summary's estimator gives the number of values that it has seen. -/
def summaryCount (env : OperatorEnv) (s : JSSummary) : Option ℕ :=
  match s.histo, s.sample, s.sketch with
  | some histo, _, _ => (LogHistogram.fillIn histo).map (·.popSeen)
  | none, some sample, _ => some (ReservoirSample.fillIn env.gen env.totalSeen sample).popSeen
  | none, none, some sketch => (CMMultiSketch.fillIn env.draws env.randSeed sketch).map (·.popSeen)
  | none, none, none => if s.items ≠ [] then some s.items.length else none

namespace ElementOperator

/-- The operator aborts, drops its tuple, or passes the changed tuple on. -/
def processOne (env : OperatorEnv) : ElementOperator → List WireElement → Option (Option (List WireElement))
  | timestamp type, t =>
      some (some (t ++ [match type with
        | .S => { iVal := some (toInt32 env.getSec) }
        | .MS => { dVal := some (.ofInt (env.getUsec / 1000 : ℕ)) }
        | .US => { dVal := some (.ofInt env.getUsec) }]))
  | projection fieldId, t =>
      if t = [] then none
      else some (some (((List.range' fieldId (t.length - 1 - fieldId)).foldl
        (fun elems i => swapElements elems i (i + 1)) t).dropLast))
  | toSummary field sSize, t =>
      match t[field]? with
      | none => some none
      | some e =>
          match e.iVal with
          | none => some none
          | some ival =>
              if 0 ≤ ival then
                let s := e.summary.getD {}
                some (some (t.set field { e with
                  iVal := none
                  summary := some { s with items := s.items ++ [ival], futureHistSize := some (toInt32 sSize) } }))
              else some (some t)
  | quantile field q, t =>
      (t[field]?).bind fun e => e.summary.bind fun s => (summaryQuantile env q s).map fun result =>
        some (t.set field { e with iVal := some result, summary := none })
  | summaryToCount field, t =>
      (t[field]?).bind fun e => e.summary.bind fun s => (summaryCount env s).map fun result =>
        some (t ++ [{ iVal := some (toInt32 result) }])

end ElementOperator

/-- An element holds a value of one type and nothing else, and a histogram may still be a list of items. -/
def WireElement.Holds (e : WireElement) : TypeCode → Prop
  | .int => ∃ value, e = { iVal := some value }
  | .double => ∃ value, e = { dVal := some value }
  | .string => ∃ value, e = { sVal := some value }
  | .time => ∃ value, e = { tVal := some value }
  | .blob => ∃ value, e = { blob := some value }
  | .histogram => ∃ s : JSSummary, e = { summary := some s } ∧ s.sample = none ∧ s.sketch = none ∧
      (s.histo.isSome ∨ s.items ≠ [])
  | .sketch => ∃ s : JSSummary, e = { summary := some s } ∧ s.histo = none ∧ s.sample = none ∧ s.sketch.isSome
  | .sample => ∃ s : JSSummary, e = { summary := some s } ∧ s.histo = none ∧ s.sample.isSome ∧ s.sketch = none
  | .other _ => False

/-- A tuple conforms to a schema element by element. -/
def ConformsTo (t : List WireElement) (schema : Schema) : Prop :=
  List.Forall₂ WireElement.Holds t (schema.map Field.code)

/-- The operator does not abort, and a tuple that it emits conforms to the schema. -/
def ElementOperator.Sound (env : OperatorEnv) (op : ElementOperator) (t : List WireElement) (schema : Schema) : Prop :=
  ∃ result, op.processOne env t = some result ∧ ∀ emitted ∈ result, ConformsTo emitted schema

/-- The repeated fields of a message have an `int` as their size. -/
structure MessageSized (t : List WireElement) : Prop where
  elements : t.length ≤ intMax
  items : ∀ e ∈ t, ∀ s ∈ e.summary, s.items.length ≤ intMax
  sampled : ∀ e ∈ t, ∀ s ∈ e.summary, ∀ sample ∈ s.sample, sample.items.length ≤ intMax

/-- An element holds values of one type only. -/
theorem WireElement.Holds.unique {e : WireElement} {first second : TypeCode} (one : e.Holds first) (other : e.Holds second) :
    first = second := by
  cases first <;> cases second <;> simp only [Holds] at one other <;> grind

/-- A tuple conforms to a schema exactly when both have the same size and agree at every position. -/
theorem conformsTo_iff {t : List WireElement} {schema : Schema} :
    ConformsTo t schema ↔ t.length = schema.length ∧
      ∀ (i : ℕ) (e : WireElement) (field : Field), t[i]? = some e → schema[i]? = some field → e.Holds field.code := by
  unfold ConformsTo
  rw [List.forall₂_map_right_iff, List.forall₂_iff_get]
  apply and_congr_right
  intro length
  constructor
  · intro holds i e field there typed
    obtain ⟨inside, rfl⟩ := List.getElem?_eq_some_iff.mp there
    obtain ⟨within, rfl⟩ := List.getElem?_eq_some_iff.mp typed
    exact holds i inside within
  · intro holds i inside within
    exact holds i _ _ (List.getElem?_eq_getElem inside) (List.getElem?_eq_getElem within)

namespace ConformsTo

variable {t : List WireElement} {schema : Schema}

theorem length (conforms : ConformsTo t schema) : t.length = schema.length := (conformsTo_iff.mp conforms).1

/-- Each column has an element that holds its type. -/
theorem exists_get (conforms : ConformsTo t schema) {i : ℕ} {field : Field} (typed : schema[i]? = some field) :
    ∃ e, t[i]? = some e ∧ e.Holds field.code := by
  obtain ⟨inside, -⟩ := List.getElem?_eq_some_iff.mp typed
  have there := List.getElem?_eq_getElem (conforms.length.symm ▸ inside)
  exact ⟨_, there, (conformsTo_iff.mp conforms).2 i _ _ there typed⟩

/-- A conforming tuple conforms exactly to the schemas with the same types. -/
theorem iff_map_eq (conforms : ConformsTo t schema) (other : Schema) :
    ConformsTo t other ↔ other.map Field.code = schema.map Field.code := by
  constructor
  · intro both
    apply List.ext_getElem
    · rw [List.length_map, List.length_map, ← both.length, conforms.length]
    · intro i inside within
      rw [List.length_map] at inside within
      have there := List.getElem?_eq_getElem (conforms.length.symm ▸ within)
      rw [List.getElem_map, List.getElem_map]
      exact ((conformsTo_iff.mp both).2 i _ _ there (List.getElem?_eq_getElem inside)).unique
        ((conformsTo_iff.mp conforms).2 i _ _ there (List.getElem?_eq_getElem within))
  · intro same
    unfold ConformsTo
    rw [same]
    exact conforms

theorem append_iff (conforms : ConformsTo t schema) (e : WireElement) (field : Field) :
    ConformsTo (t ++ [e]) (schema ++ [field]) ↔ e.Holds field.code := by
  constructor
  · intro both
    apply (conformsTo_iff.mp both).2 t.length e field
    · exact List.getElem?_concat_length
    · rw [conforms.length]
      exact List.getElem?_concat_length
  · intro holds
    unfold ConformsTo at conforms ⊢
    rw [List.map_append]
    exact List.rel_append conforms (List.Forall₂.cons holds List.Forall₂.nil)

theorem set (conforms : ConformsTo t schema) (i : ℕ) {e : WireElement} {field : Field} (holds : e.Holds field.code) :
    ConformsTo (t.set i e) (schema.set i field) := by
  rw [conformsTo_iff] at conforms ⊢
  refine ⟨by rw [List.length_set, List.length_set, conforms.1], ?_⟩
  intro j other column there typed
  rw [List.getElem?_set] at there typed
  split_ifs at there typed with same
  · obtain rfl := Option.some.inj there
    obtain rfl := Option.some.inj typed
    exact holds
  · exact conforms.2 j other column there typed

theorem eraseIdx (conforms : ConformsTo t schema) (i : ℕ) : ConformsTo (t.eraseIdx i) (schema.eraseIdx i) := by
  rw [conformsTo_iff] at conforms ⊢
  refine ⟨by rw [List.length_eraseIdx, List.length_eraseIdx, conforms.1], ?_⟩
  intro j e field there typed
  rw [List.getElem?_eraseIdx] at there typed
  split_ifs at there typed
  · exact conforms.2 j e field there typed
  · exact conforms.2 (j + 1) e field there typed

end ConformsTo

/-- A swap of neighbours moves an element one place to the right. -/
theorem swapElements_append (front : List WireElement) (e next : WireElement) (rest : List WireElement) :
    swapElements (front ++ e :: next :: rest) front.length (front.length + 1) = front ++ next :: e :: rest := by
  unfold swapElements
  simp

/-- The loop moves an element to the end. -/
theorem foldl_swapElements (front : List WireElement) (e : WireElement) (rest : List WireElement) :
    (List.range' front.length rest.length).foldl (fun elems i => swapElements elems i (i + 1)) (front ++ e :: rest) =
      front ++ rest ++ [e] := by
  induction rest generalizing front with
  | nil => simp
  | cons next rest ih =>
      have moved := ih (front ++ [next])
      rw [List.length_append, List.length_singleton] at moved
      rw [List.length_cons, List.range'_succ, List.foldl_cons, swapElements_append]
      simpa using moved

/-- The projection removes the element at the index, or the last one for an index beyond the end. -/
theorem processOne_projection (env : OperatorEnv) (fieldId : ℕ) {t : List WireElement} (some_ : t ≠ []) :
    (ElementOperator.projection fieldId).processOne env t = some (some (t.eraseIdx (min fieldId (t.length - 1)))) := by
  have positive : 0 < t.length := List.length_pos_iff.mpr some_
  simp only [ElementOperator.processOne, if_neg some_]
  congr 2
  by_cases inside : fieldId < t.length
  · have split : t = t.take fieldId ++ t[fieldId] :: t.drop (fieldId + 1) := by simp
    have front : (t.take fieldId).length = fieldId := List.length_take_of_le inside.le
    have loop := foldl_swapElements (t.take fieldId) t[fieldId] (t.drop (fieldId + 1))
    rw [← split, front, List.length_drop] at loop
    have count : t.length - 1 - fieldId = t.length - (fieldId + 1) := by omega
    rw [count, loop, List.dropLast_concat, Nat.min_eq_left (by omega), List.eraseIdx_eq_take_drop_succ]
  · have none_ : t.length - 1 - fieldId = 0 := by omega
    rw [none_, List.range'_zero, List.foldl_nil, Nat.min_eq_right (by omega), List.dropLast_eq_eraseIdx]
    omega

namespace JSSummary

/-- The message that an estimator is built from is well-formed and holds enough for a quantile. -/
def QuantileReady (q : Float64) (s : JSSummary) : Prop :=
  match s.histo, s.sample, s.sketch with
  | some histo, _, _ => histo.Decodable ∧ LogHistogram.ReachesSum histo.counts q
  | none, some sample, _ => sample.items ≠ [] ∧ sample.maxItems ≠ 0
  | none, none, some sketch => CMMultiSketch.Decodable sketch
  | none, none, none => s.items ≠ []

/-- The message that an estimator is built from is well-formed. -/
def CountReady (s : JSSummary) : Prop :=
  match s.histo, s.sample, s.sketch with
  | some histo, _, _ => histo.Decodable
  | none, some _, _ => True
  | none, none, some sketch => CMMultiSketch.Decodable sketch
  | none, none, none => s.items ≠ []

end JSSummary

/-- The quantile operator has a result exactly for the summaries that are ready. -/
theorem summaryQuantile_isSome_iff (env : OperatorEnv) {q : Float64} {s : JSSummary} (fraction : IsFraction q)
    (items : s.items.length ≤ intMax) (sampled : ∀ sample ∈ s.sample, sample.items.length ≤ intMax) :
    (summaryQuantile env q s).isSome ↔ s.QuantileReady q := by
  unfold summaryQuantile JSSummary.QuantileReady
  cases histo : s.histo with
  | some message => exact message.quantile_isSome_iff q
  | none =>
      cases sample : s.sample with
      | some message => exact ReservoirSample.quantile_fillIn_isSome_iff _ _ fraction (sampled message sample)
      | none =>
          cases sketch : s.sketch with
          | none => exact sortedQuantile_isSome_iff fraction items
          | some message =>
              dsimp only
              rw [← CMMultiSketch.fillIn_isSome_iff env.draws env.randSeed]
              cases CMMultiSketch.fillIn env.draws env.randSeed message with
              | none => simp only [Option.bind_none, Option.isSome_none]
              | some est =>
                  rw [Option.bind_some]
                  exact iff_of_true (est.quantile_isSome q) rfl

theorem summaryCount_isSome_iff (env : OperatorEnv) (s : JSSummary) : (summaryCount env s).isSome ↔ s.CountReady := by
  unfold summaryCount JSSummary.CountReady
  cases s.histo with
  | some message =>
      dsimp only
      rw [Option.isSome_map, message.fillIn_isSome_iff]
  | none =>
      cases s.sample with
      | some message => exact iff_of_true rfl trivial
      | none =>
          cases s.sketch with
          | none =>
              dsimp only
              split_ifs with empty
              · exact iff_of_true rfl empty
              · exact iff_of_false Bool.false_ne_true empty
          | some message =>
              dsimp only
              rw [Option.isSome_map, CMMultiSketch.fillIn_isSome_iff]

/-- A double that was read and lies strictly between the refused bounds is a fraction. -/
theorem isFraction_of_readDouble {text : List Char} {q : Float64} (read : readDouble text = some q)
    (between : ¬ (q ≤ .ofInt 0 ∨ .ofInt 1 ≤ q)) : IsFraction q := by
  obtain ⟨numerator, denominator, defined, same, sign, units, finite⟩ := readDouble_eq_some read
  rw [not_or] at between
  refine ⟨numerator, denominator, defined, same, ?_, ?_⟩
  · rw [finite, Float64.ofInt_zero] at between ⊢
    exact Float64.finite_lt_of_not_le between.1
  · rw [finite, Float64.ofInt_one] at between ⊢
    exact Float64.finite_lt_of_not_le between.2

theorem eq_toUInt32_of_readUnsigned {value : ℤ} {index : ℕ} (read : readUnsigned value = some index) :
    index = toUInt32 value := by
  rw [readUnsigned, Option.ite_none_right_eq_some] at read
  exact (Option.some.inj read.2).symm

namespace TypedOperator

/-- This is the condition under which the dataplane keeps the promise of the type rule. -/
def Meets (schema : Schema) (t : List WireElement) : TypedOperator → Prop
  | timestamp type => type ≠ "s"
  | projection field => schema ≠ [] ∧ (0 ≤ field ∧ field < schema.length ∨ -schema.length ≤ field ∧ field ≤ -2 ∧
      (schema.map Field.code).eraseIdx (field + schema.length).toNat = (schema.map Field.code).dropLast)
  | toSummary field _ => 0 ≤ field → ∀ e ∈ t[field.toNat]?, ∀ value ∈ e.iVal, 0 ≤ value
  | quantile field q => 0 ≤ field ∧ ∀ e ∈ t[field.toNat]?, ∀ s ∈ e.summary, ∀ fraction ∈ readDouble q.toList,
      s.QuantileReady fraction
  | summaryToCount field => 0 ≤ field ∧ ∀ e ∈ t[field.toNat]?, ∀ s ∈ e.summary, s.CountReady

variable {env : OperatorEnv} {inSchema : Schema} {schema : Schema} {configured : ElementOperator} {t : List WireElement}

theorem timestamp_sound_iff {type : String} (accepted : (timestamp type).outSchema inSchema = .ok schema)
    (set : (timestamp type).configure = some configured) (conforms : ConformsTo t inSchema) :
    configured.Sound env t schema ↔ (timestamp type).Meets inSchema t := by
  simp only [outSchema, validateTimestamp] at accepted
  simp only [configure] at set
  unfold Meets
  split_ifs at accepted set with seconds millis micros
  all_goals
    obtain rfl := Except.ok.inj accepted
    obtain rfl := Option.some.inj set
    simp only [ElementOperator.Sound, ElementOperator.processOne, Option.some.injEq, exists_eq_left',
      Option.mem_some_iff, forall_eq', conforms.append_iff, WireElement.Holds, ne_eq, seconds]
  · simp
  · simp
  · simp

/-- The slices of a schema have the types that the dataplane leaves, for the columns from the start and for those from
the end whose removal leaves the same types as that of the last one. -/
theorem slices_codes_iff {field : ℤ} (some_ : inSchema ≠ []) (size : inSchema.length ≤ intMax) :
    (inSchema.take (sliceBound inSchema.length field) ++
        inSchema.drop (sliceBound inSchema.length (field + 1))).map Field.code =
      (inSchema.eraseIdx (min (toUInt32 field) (inSchema.length - 1))).map Field.code ↔
    0 ≤ field ∧ field < inSchema.length ∨ -inSchema.length ≤ field ∧ field ≤ -2 ∧
      (inSchema.map Field.code).eraseIdx (field + inSchema.length).toNat = (inSchema.map Field.code).dropLast := by
  have positive : 0 < inSchema.length := List.length_pos_iff.mpr some_
  unfold toUInt32
  unfold intMax at size
  by_cases missing : pyIndex inSchema.length field = none ∨ field = -1
  · apply iff_of_false
    · intro same
      have longer := length_le_slices missing
      have sizes := congrArg List.length same
      rw [List.length_map, List.length_map, List.length_eraseIdx, if_pos (by omega)] at sizes
      omega
    · unfold pyIndex at missing
      split_ifs at missing <;> simp at missing <;> omega
  · rw [not_or] at missing
    obtain ⟨position, found⟩ := Option.ne_none_iff_exists'.mp missing.1
    rw [slices_eq_eraseIdx found missing.2]
    obtain ⟨inside, ⟨front, same⟩ | ⟨behind, same⟩⟩ := pyIndex_eq_some found
    · have index : min (field % 2 ^ 32).toNat (inSchema.length - 1) = position := by omega
      rw [index]
      exact iff_of_true rfl (Or.inl ⟨front, by omega⟩)
    · have index : min (field % 2 ^ 32).toNat (inSchema.length - 1) = inSchema.length - 1 := by omega
      have fromEnd : (field + inSchema.length).toNat = position := by omega
      have last : inSchema.length - 1 + 1 = (inSchema.map Field.code).length := by
        rw [List.length_map]
        omega
      rw [index, fromEnd, List.dropLast_eq_eraseIdx last, ← List.eraseIdx_map, ← List.eraseIdx_map]
      have other := missing.2
      constructor
      · intro types
        exact Or.inr ⟨by omega, by omega, types⟩
      · intro either
        rcases either with first | second
        · omega
        · exact second.2.2

/-- A projected tuple conforms exactly when the slices of the schema leave the types of the projected columns. -/
theorem projection_sound_iff {field : ℤ} (accepted : (projection field).outSchema inSchema = .ok schema)
    (set : (projection field).configure = some configured) (conforms : ConformsTo t inSchema)
    (sized : t.length ≤ intMax) :
    configured.Sound env t schema ↔ (projection field).Meets inSchema t := by
  obtain rfl := Except.ok.inj accepted
  obtain ⟨fieldId, read, rfl⟩ := Option.map_eq_some_iff.mp set
  obtain rfl := eq_toUInt32_of_readUnsigned read
  have length := conforms.length
  by_cases empty : t = []
  · have none_ : inSchema = [] := List.length_eq_zero_iff.mp (by rw [← length, empty]; rfl)
    apply iff_of_false
    · simp [ElementOperator.Sound, ElementOperator.processOne, empty]
    · exact fun both => both.1 none_
  · have some_ : inSchema ≠ [] := fun none_ => empty (List.length_eq_zero_iff.mp (by rw [length, none_]; rfl))
    have kept := (conforms.eraseIdx (min (toUInt32 field) (t.length - 1))).iff_map_eq (inSchema.take
      (sliceBound inSchema.length field) ++ inSchema.drop (sliceBound inSchema.length (field + 1)))
    rw [length] at kept sized
    unfold ElementOperator.Sound
    simp only [processOne_projection env _ empty, Option.some.injEq, exists_eq_left', Option.mem_some_iff, forall_eq',
      length]
    rw [kept, slices_codes_iff some_ sized]
    exact (and_iff_right some_).symm

/-- An accepted column from the start is an element of the tuple, and one from the end lies beyond the tuple. -/
theorem column_cases {field : ℤ} {column : Field} {allowed : List TypeCode} {missing : PyError} {wrong : Field → PyError}
    (accepted : checkColumn allowed missing wrong field inSchema = .ok column) (conforms : ConformsTo t inSchema)
    (sized : t.length ≤ intMax) :
    column.code ∈ allowed ∧
      ((0 ≤ field ∧ toUInt32 field = field.toNat ∧ pyIndex inSchema.length field = some field.toNat ∧
        inSchema[field.toNat]? = some column ∧ ∃ e, t[field.toNat]? = some e ∧ e.Holds column.code) ∨
      (field < 0 ∧ t[toUInt32 field]? = none)) := by
  obtain ⟨position, found, typed, member⟩ := checkColumn_eq_ok accepted
  have length := conforms.length
  refine ⟨member, ?_⟩
  unfold intMax at sized
  obtain ⟨inside, ⟨front, same⟩ | ⟨behind, same⟩⟩ := pyIndex_eq_some found
  · obtain rfl : field.toNat = position := by omega
    refine Or.inl ⟨front, ?_, found, typed, conforms.exists_get typed⟩
    unfold toUInt32
    omega
  · refine Or.inr ⟨behind, List.getElem?_eq_none ?_⟩
    unfold toUInt32
    omega

theorem toSummary_sound_iff {field : ℤ} {size : Option ℤ} (accepted : (toSummary field size).outSchema inSchema = .ok schema)
    (set : (toSummary field size).configure = some configured) (conforms : ConformsTo t inSchema)
    (sized : t.length ≤ intMax) :
    configured.Sound env t schema ↔ (toSummary field size).Meets inSchema t := by
  obtain ⟨column, checked, rfl⟩ := exists_of_map_eq_ok accepted
  obtain ⟨index, read, rest⟩ := Option.bind_eq_some_iff.mp set
  obtain ⟨sSize, -, rfl⟩ := Option.map_eq_some_iff.mp rest
  obtain rfl := eq_toUInt32_of_readUnsigned read
  obtain ⟨member, ⟨front, index, found, typed, e, there, holds⟩ | ⟨behind, beyond⟩⟩ := column_cases checked conforms sized
  · rw [List.mem_singleton] at member
    rw [member] at holds
    obtain ⟨value, rfl⟩ := holds
    have needs : (toSummary field size).Meets inSchema t ↔ 0 ≤ value := by
      simp [Meets, front, there]
    have written : pySet inSchema field ⟨.histogram, "summary of " ++ column.name⟩ =
        inSchema.set field.toNat ⟨.histogram, "summary of " ++ column.name⟩ := by
      rw [pySet, found]
    rw [needs, written]
    unfold ElementOperator.Sound
    simp only [ElementOperator.processOne, index, there]
    by_cases positive : 0 ≤ value
    · rw [if_pos positive]
      refine iff_of_true ⟨_, rfl, ?_⟩ positive
      intro emitted same
      obtain rfl := Option.some.inj same
      exact conforms.set _ ⟨_, rfl, rfl, rfl, Or.inr (by simp)⟩
    · rw [if_neg positive]
      refine iff_of_false ?_ positive
      intro sound
      obtain ⟨result, same, emits⟩ := sound
      obtain rfl := Option.some.inj same
      have inside : field.toNat < inSchema.length := (pyIndex_eq_some found).1
      obtain ⟨e, other, holds⟩ := (emits t rfl).exists_get (List.getElem?_set_self inside)
      obtain rfl := Option.some.inj (there.symm.trans other)
      obtain ⟨s, wrong, -⟩ := holds
      cases wrong
  · unfold ElementOperator.Sound Meets
    simp only [ElementOperator.processOne, beyond]
    exact iff_of_true ⟨none, rfl, by simp⟩ fun front => absurd front (by omega)

/-- An accepted summary column from the start holds a summary. -/
theorem summary_cases {field : ℤ} {column : Field} (checked : checkSummary field inSchema = .ok column)
    (conforms : ConformsTo t inSchema) (sized : MessageSized t) :
    (0 ≤ field ∧ toUInt32 field = field.toNat ∧ pyIndex inSchema.length field = some field.toNat ∧
      ∃ s : JSSummary, t[field.toNat]? = some { summary := some s } ∧ s.items.length ≤ intMax ∧
        ∀ sample ∈ s.sample, sample.items.length ≤ intMax) ∨
    (field < 0 ∧ t[toUInt32 field]? = none) := by
  obtain ⟨member, ⟨front, index, found, typed, e, there, holds⟩ | beyond⟩ := column_cases checked conforms sized.elements
  · refine Or.inl ⟨front, index, found, ?_⟩
    have summary : ∃ s : JSSummary, e = { summary := some s } := by
      simp only [summaryTypes, List.mem_cons, List.not_mem_nil, or_false] at member
      rcases member with kind | kind | kind <;> rw [kind] at holds <;> exact ⟨holds.choose, holds.choose_spec.1⟩
    obtain ⟨s, rfl⟩ := summary
    have inside := List.mem_of_getElem? there
    exact ⟨s, there, sized.items _ inside s rfl, sized.sampled _ inside s rfl⟩
  · exact Or.inr beyond

theorem quantile_sound_iff {field : ℤ} {q : String} (accepted : (quantile field q).outSchema inSchema = .ok schema)
    (set : (quantile field q).configure = some configured) (conforms : ConformsTo t inSchema) (sized : MessageSized t) :
    configured.Sound env t schema ↔ (quantile field q).Meets inSchema t := by
  obtain ⟨column, checked, rfl⟩ := exists_of_map_eq_ok accepted
  obtain ⟨fraction, parsed, rest⟩ := Option.bind_eq_some_iff.mp set
  rw [Option.ite_none_left_eq_some] at rest
  obtain ⟨index, read, rfl⟩ := Option.map_eq_some_iff.mp rest.2
  obtain rfl := eq_toUInt32_of_readUnsigned read
  have isFraction := isFraction_of_readDouble parsed rest.1
  rcases summary_cases checked conforms sized with ⟨front, index, found, s, there, items, sampled⟩ | ⟨behind, beyond⟩
  · have needs : (quantile field q).Meets inSchema t ↔ s.QuantileReady fraction := by
      simp [Meets, front, there, parsed]
    rw [needs, ← summaryQuantile_isSome_iff env isFraction items sampled, pySet, found]
    unfold ElementOperator.Sound
    simp only [ElementOperator.processOne, index, there, Option.bind_some]
    cases summaryQuantile env fraction s with
    | none => simp
    | some result =>
        refine iff_of_true ⟨_, rfl, ?_⟩ rfl
        intro emitted same
        obtain rfl := Option.some.inj same
        exact conforms.set _ ⟨result, rfl⟩
  · unfold ElementOperator.Sound
    simp only [ElementOperator.processOne, beyond, Option.bind_none]
    refine iff_of_false (by simp) fun both => ?_
    have front := both.1
    omega

theorem summaryToCount_sound_iff {field : ℤ} (accepted : (summaryToCount field).outSchema inSchema = .ok schema)
    (set : (summaryToCount field).configure = some configured) (conforms : ConformsTo t inSchema)
    (sized : MessageSized t) :
    configured.Sound env t schema ↔ (summaryToCount field).Meets inSchema t := by
  obtain ⟨column, checked, rfl⟩ := exists_of_map_eq_ok accepted
  obtain ⟨index, read, rfl⟩ := Option.map_eq_some_iff.mp set
  obtain rfl := eq_toUInt32_of_readUnsigned read
  rcases summary_cases checked conforms sized with ⟨front, index, found, s, there, -, -⟩ | ⟨behind, beyond⟩
  · have needs : (summaryToCount field).Meets inSchema t ↔ s.CountReady := by
      simp [Meets, front, there]
    rw [needs, ← summaryCount_isSome_iff env]
    unfold ElementOperator.Sound
    simp only [ElementOperator.processOne, index, there, Option.bind_some]
    cases summaryCount env s with
    | none => simp
    | some result =>
        refine iff_of_true ⟨_, rfl, ?_⟩ rfl
        intro emitted same
        obtain rfl := Option.some.inj same
        exact (conforms.append_iff _ _).mpr ⟨_, rfl⟩
  · unfold ElementOperator.Sound
    simp only [ElementOperator.processOne, beyond, Option.bind_none]
    refine iff_of_false (by simp) fun both => ?_
    have front := both.1
    omega

/-- For a configuration that both sides accept and a tuple of the input schema, the operator keeps the promise of its
type rule exactly under its condition. -/
theorem sound_iff_meets (env : OperatorEnv) {op : TypedOperator} (accepted : op.outSchema inSchema = .ok schema)
    (set : op.configure = some configured) (conforms : ConformsTo t inSchema) (sized : MessageSized t) :
    configured.Sound env t schema ↔ op.Meets inSchema t := by
  cases op with
  | timestamp type => exact timestamp_sound_iff accepted set conforms
  | projection field => exact projection_sound_iff accepted set conforms sized.elements
  | toSummary field size => exact toSummary_sound_iff accepted set conforms sized.elements
  | quantile field q => exact quantile_sound_iff accepted set conforms sized
  | summaryToCount field => exact summaryToCount_sound_iff accepted set conforms sized

/-- In this environment the clock stands at zero. -/
def stillEnv : OperatorEnv := ⟨0, 0, fun _ _ => 0, 0, fun _ _ => 0, 0, fun _ _ => 0⟩

/-- This histogram has two values. -/
def smallHistogram : JSHistogram := ⟨[1, 1], 2⟩

def histogramTuple : List WireElement := [{ summary := some { histo := some smallHistogram } }]

theorem histogramTuple_conforms : ConformsTo histogramTuple [⟨.histogram, "latency"⟩] :=
  List.Forall₂.cons ⟨_, rfl, rfl, rfl, Or.inl rfl⟩ List.Forall₂.nil

theorem histogramTuple_sized : MessageSized histogramTuple where
  elements := by decide
  items := by
    intro e member s summary
    obtain rfl := List.mem_singleton.mp member
    obtain rfl := Option.some.inj summary
    decide
  sampled := by
    intro e member s summary sample found
    obtain rfl := List.mem_singleton.mp member
    obtain rfl := Option.some.inj summary
    cases found

theorem readDouble_half : readDouble "0.5".toList = some (.ofRatio 1 2) := by decide +kernel

/-- The median of the small histogram is an `int`. -/
theorem sound_iff_meets_median :
    (quantile 0 "0.5").outSchema [⟨.histogram, "latency"⟩] = .ok [⟨.int, "0.5-quantile of latency"⟩] ∧
      (quantile 0 "0.5").configure = some (.quantile 0 (.ofRatio 1 2)) ∧
      (ElementOperator.quantile 0 (.ofRatio 1 2)).Sound stillEnv histogramTuple [⟨.int, "0.5-quantile of latency"⟩] := by
  have accepted : (quantile 0 "0.5").outSchema [⟨.histogram, "latency"⟩] = .ok [⟨.int, "0.5-quantile of latency"⟩] := by
    decide +kernel
  have set : (quantile 0 "0.5").configure = some (.quantile 0 (.ofRatio 1 2)) := by decide +kernel
  refine ⟨accepted, set, ?_⟩
  rw [sound_iff_meets stillEnv accepted set histogramTuple_conforms histogramTuple_sized]
  have fraction : IsFraction (.ofRatio 1 2) := isFraction_of_readDouble readDouble_half (by decide +kernel)
  refine ⟨le_rfl, ?_⟩
  intro e there s summary q read
  obtain rfl := Option.some.inj there
  obtain rfl := Option.some.inj summary
  obtain rfl := Option.some.inj (readDouble_half.symm.trans read)
  exact ⟨by unfold JSHistogram.Decodable; decide, LogHistogram.reachesSum_of_small fraction (by decide) (by decide)⟩

/-- A timestamp in seconds is announced as a time and emitted as an `int`. -/
theorem timestamp_unsound_seconds :
    ¬ ∀ (env : OperatorEnv) (op : TypedOperator) (inSchema schema : Schema) (configured : ElementOperator)
      (t : List WireElement), op.outSchema inSchema = .ok schema → op.configure = some configured →
      ConformsTo t inSchema → MessageSized t → configured.Sound env t schema := by
  intro sound
  obtain ⟨result, ran, emits⟩ := sound stillEnv (timestamp "s") [⟨.histogram, "latency"⟩]
    [⟨.histogram, "latency"⟩, ⟨.time, "timestamp(s)"⟩] (.timestamp .S) histogramTuple rfl rfl histogramTuple_conforms
    histogramTuple_sized
  obtain rfl := Option.some.inj ran
  have emitted := emits _ rfl
  have holds := (histogramTuple_conforms.append_iff _ ⟨.time, "timestamp(s)"⟩).mp emitted
  obtain ⟨value, wrong⟩ := holds
  cases wrong

end TypedOperator

end JetStream
