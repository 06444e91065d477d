import Mathlib.Algebra.BigOperators.Group.List.Basic
import JetStream.Lib.Printing
import JetStream.Cube.Aggregate

namespace JetStream

namespace Aggregate

variable {D : Type} [Zero D] [Add D] [LinearOrder D] {aggregate : Aggregate} {update : Tuple D}

/-- A merge changes only the aggregate's own elements. -/
theorem effect_of_not_mem {old : ℕ → Element D} {j : ℕ} (other : j ∉ aggregate.tupleIndexes) :
    aggregate.effect update old j = old j := by
  cases aggregate with
  | avg sum number distinct =>
      simp only [tupleIndexes, List.mem_cons, List.not_mem_nil, or_false, not_or] at other
      simp only [effect]
      rw [Function.update_of_ne other.2, Function.update_of_ne other.1]
  | count index | minInt index | minDouble index | minTime index | string index =>
      simp only [tupleIndexes, List.mem_singleton] at other
      exact Function.update_of_ne other _ _

/-- A merge reads only the aggregate's own elements. -/
theorem effect_congr {old old' : ℕ → Element D} (same : ∀ j ∈ aggregate.tupleIndexes, old j = old' j) :
    ∀ j ∈ aggregate.tupleIndexes, aggregate.effect update old j = aggregate.effect update old' j := by
  intro j member
  cases aggregate with
  | avg sum number distinct =>
      have first := same sum (by simp [tupleIndexes])
      have second := same number (by simp [tupleIndexes])
      simp only [tupleIndexes, List.mem_cons, List.not_mem_nil, or_false] at member
      rcases member with rfl | rfl
      · simp only [effect, Function.update_of_ne distinct, Function.update_self, first]
      · simp only [effect, Function.update_self, second]
  | count index | minInt index | minDouble index | minTime index | string index =>
      obtain rfl := List.mem_singleton.mp member
      simp only [effect, Function.update_self, same _ (List.mem_singleton.mpr rfl)]

/-- The effect of a sequence on one element is the sequence of effects on it. -/
theorem foldl_effect_apply {i : ℕ} {g : Tuple D → Element D → Element D}
    (apply_ : ∀ update old, aggregate.effect update old i = g update (old i)) (updates : List (Tuple D))
    (old : ℕ → Element D) :
    updates.foldl (fun current update => aggregate.effect update current) old i =
      updates.foldl (fun e update => g update e) (old i) := by
  induction updates generalizing old with
  | nil => rfl
  | cons update rest ih => rw [List.foldl_cons, ih, apply_, List.foldl_cons]

theorem foldl_effect_congr (updates : List (Tuple D)) {old old' : ℕ → Element D}
    (same : ∀ j ∈ aggregate.tupleIndexes, old j = old' j) :
    ∀ j ∈ aggregate.tupleIndexes, updates.foldl (fun current update => aggregate.effect update current) old j =
      updates.foldl (fun current update => aggregate.effect update current) old' j := by
  induction updates generalizing old old' with
  | nil => exact same
  | cons update rest ih => exact ih (effect_congr same)

end Aggregate

section Cube

variable {D : Type} [Zero D] [Add D] [LinearOrder D] {round : D → ℤ} {aggregates : List Aggregate}

/-- No other aggregate of the cube reads an element of this one. -/
def OwnElements (aggregates : List Aggregate) (aggregate : Aggregate) : Prop :=
  ∃ before after, aggregates = before ++ aggregate :: after ∧
    ∀ other ∈ before ++ after, ∀ i ∈ aggregate.tupleIndexes, i ∉ other.tupleIndexes

omit [Zero D] [Add D] [LinearOrder D] in
theorem OwnElements.mem {aggregate : Aggregate} (own : OwnElements aggregates aggregate) : aggregate ∈ aggregates := by
  obtain ⟨before, after, rfl, -⟩ := own
  exact List.mem_append_right _ List.mem_cons_self

/-- Merging a tuple applies the effects of all aggregates in turn. -/
theorem mergeTupleInto_spec (into update : Tuple D)
    (accepted : ∀ aggregate ∈ aggregates, aggregate.Accepts round update) :
    ∃ merged, mergeTupleInto aggregates into update = some merged ∧
      merged.elem = aggregates.foldl (fun elem aggregate => aggregate.effect update elem) into.elem ∧
      (∀ aggregate ∈ aggregates, ∀ i ∈ aggregate.tupleIndexes, i < merged.e.length) ∧
      into.e.length ≤ merged.e.length := by
  induction aggregates generalizing into with
  | nil => exact ⟨into, rfl, rfl, by simp, le_rfl⟩
  | cons aggregate rest ih =>
      obtain ⟨first, done, elements, present, grown⟩ :=
        aggregate.mergeTupleInto_spec round into update (accepted aggregate List.mem_cons_self)
      obtain ⟨merged, restDone, restElements, restPresent, restGrown⟩ := ih first fun other member =>
        accepted other (List.mem_cons_of_mem _ member)
      refine ⟨merged, ?_, ?_, ?_, grown.trans restGrown⟩
      · rw [mergeTupleInto, List.foldlM_cons, done]
        exact restDone
      · rw [restElements, elements, List.foldl_cons]
      · intro other member i index
        rcases List.mem_cons.mp member with rfl | later
        · exact (present i index).trans_le restGrown
        · exact restPresent other later i index

/-- Aggregates leave the elements of others alone. -/
theorem foldl_effect_of_not_mem {update : Tuple D} {i : ℕ}
    (outside : ∀ aggregate ∈ aggregates, i ∉ aggregate.tupleIndexes) (old : ℕ → Element D) :
    aggregates.foldl (fun elem aggregate => aggregate.effect update elem) old i = old i := by
  induction aggregates generalizing old with
  | nil => rfl
  | cons aggregate rest ih =>
      rw [List.foldl_cons, ih fun other member => outside other (List.mem_cons_of_mem _ member),
        Aggregate.effect_of_not_mem (outside aggregate List.mem_cons_self)]

/-- On elements of its own, an aggregate merges as if it were alone. -/
theorem OwnElements.foldl_effect {aggregate : Aggregate} (own : OwnElements aggregates aggregate) (update : Tuple D)
    (old : ℕ → Element D) :
    ∀ i ∈ aggregate.tupleIndexes, aggregates.foldl (fun elem aggregate => aggregate.effect update elem) old i =
      aggregate.effect update old i := by
  obtain ⟨before, after, rfl, apart⟩ := own
  intro i index
  rw [List.foldl_append, List.foldl_cons,
    foldl_effect_of_not_mem fun other member => apart other (List.mem_append_right _ member) i index]
  apply Aggregate.effect_congr _ i index
  intro j inside
  exact foldl_effect_of_not_mem (fun other member => apart other (List.mem_append_left _ member) j inside) old

/-- Coalescing applies the effects of all updates in order. -/
theorem coalesce_spec (first : Tuple D) (updates : List (Tuple D))
    (accepted : ∀ aggregate ∈ aggregates, ∀ update ∈ updates, aggregate.Accepts round update) :
    ∃ merged, coalesce aggregates first updates = some merged ∧ first.e.length ≤ merged.e.length ∧
      ∀ aggregate, OwnElements aggregates aggregate → ∀ i ∈ aggregate.tupleIndexes,
        merged.elem i = updates.foldl (fun current update => aggregate.effect update current) first.elem i ∧
        (updates ≠ [] → i < merged.e.length) := by
  induction updates generalizing first with
  | nil => exact ⟨first, rfl, le_rfl, fun _ _ _ _ => ⟨rfl, fun absent => absurd rfl absent⟩⟩
  | cons update rest ih =>
      obtain ⟨next, done, elements, present, grown⟩ := mergeTupleInto_spec first update fun aggregate member =>
        accepted aggregate member update List.mem_cons_self
      obtain ⟨merged, restDone, restGrown, restOwn⟩ := ih next fun aggregate member other inside =>
        accepted aggregate member other (List.mem_cons_of_mem _ inside)
      refine ⟨merged, ?_, grown.trans restGrown, ?_⟩
      · rw [coalesce, List.foldlM_cons, done]
        exact restDone
      · intro aggregate own i index
        have here : ∀ j ∈ aggregate.tupleIndexes, next.elem j = aggregate.effect update first.elem j := by
          intro j inside
          rw [elements, own.foldl_effect update first.elem j inside]
        rw [(restOwn aggregate own i index).1, Aggregate.foldl_effect_congr rest here i index]
        exact ⟨rfl, fun _ => (present aggregate own.mem i index).trans_le restGrown⟩

end Cube

namespace Aggregate

variable {D : Type} [Zero D] [Add D] [LinearOrder D] (round : D → ℤ)

/-- This is the row of an accepted tuple. -/
def row : Aggregate → Tuple D → List (CellValue D)
  | .count index, t => [.int (countOf index t)]
  | .avg sum number _, t => [.int ((sumValue round (t.elem sum)).getD 0), .int (countOf number t)]
  | .minInt index, t => [.int ((t.elem index).iVal.getD 0)]
  | .minDouble index, t => [.double ((t.elem index).dVal.getD 0)]
  | .minTime index, t => [.time ((t.elem index).tVal.getD 0)]
  | .string index, t => [.string ((t.elem index).sVal.getD [])]

omit [Add D] [LinearOrder D] in
theorem setValueForInsertTuple_eq {aggregate : Aggregate} {t : Tuple D} (accepted : aggregate.Accepts round t) :
    aggregate.setValueForInsertTuple round t = some (aggregate.row round t) := by
  cases aggregate with
  | count index =>
      by_cases given : index < t.e.length
      · cases value : (t.elem index).iVal with
        | none => simp [Accepts, setValueForInsertTuple, given, value] at accepted
        | some number => simp [setValueForInsertTuple, row, countOf, given, value]
      · simp [setValueForInsertTuple, row, countOf, given]
  | avg sum number distinct =>
      have present := present_of_avg round accepted
      by_cases given : number < t.e.length
      · cases items : (t.elem number).iVal with
        | none => simp [Accepts, setValueForInsertTuple, given, present, items] at accepted
        | some items_ =>
            cases total : sumValue round (t.elem sum) with
            | none => simp [Accepts, setValueForInsertTuple, given, present, items, total] at accepted
            | some total_ => simp [setValueForInsertTuple, row, countOf, given, present, items, total]
      · cases total : sumValue round (t.elem sum) with
        | none => simp [Accepts, setValueForInsertTuple, given, total] at accepted
        | some total_ => simp [setValueForInsertTuple, row, countOf, given, present, total]
  | minInt index | minDouble index | minTime index | string index =>
      rw [Accepts, setValueForInsertTuple] at accepted
      have present := present_of_simpleValue accepted
      simp [setValueForInsertTuple, simpleValue, row, present]

omit [Add D] in
/-- Inserting accepted tuples one at a time combines their rows. -/
theorem insertEach_eq {aggregate : Aggregate} {first : Tuple D} {updates : List (Tuple D)}
    (accepted : aggregate.Accepts round first) (every : ∀ update ∈ updates, aggregate.Accepts round update) :
    insertEach round aggregate first updates =
      some ((updates.map (aggregate.row round)).foldl aggregate.updateOnInsert (aggregate.row round first)) := by
  rw [insertEach, setValueForInsertTuple_eq round accepted, Option.bind_some]
  generalize aggregate.row round first = stored
  induction updates generalizing stored with
  | nil => rfl
  | cons update rest ih =>
      rw [List.foldlM_cons, setValueForInsertTuple_eq round (every update List.mem_cons_self)]
      exact ih (fun other member => every other (List.mem_cons_of_mem _ member)) _

/-- This is the row that the elements of an accepted tuple give. -/
def rowOfElements : Aggregate → (ℕ → Element D) → List (CellValue D)
  | .count index, elem => [.int ((elem index).iVal.getD 1)]
  | .avg sum number _, elem => [.int ((sumValue round (elem sum)).getD 0), .int ((elem number).iVal.getD 1)]
  | .minInt index, elem => [.int ((elem index).iVal.getD 0)]
  | .minDouble index, elem => [.double ((elem index).dVal.getD 0)]
  | .minTime index, elem => [.time ((elem index).tVal.getD 0)]
  | .string index, elem => [.string ((elem index).sVal.getD [])]

omit [Zero D] [Add D] [LinearOrder D] in
/-- A count that is neither given nor missing is not accepted. -/
theorem countOf_eq {index : ℕ} {t : Tuple D} (given : index < t.e.length → (t.elem index).iVal.isSome) :
    countOf index t = (t.elem index).iVal.getD 1 := by
  rw [countOf]
  by_cases present : index < t.e.length
  · obtain ⟨value, found⟩ := Option.isSome_iff_exists.mp (given present)
    rw [if_pos present, found]
    rfl
  · rw [if_neg present, Tuple.elem, List.getElem?_eq_none (Nat.le_of_not_lt present)]
    rfl

omit [Add D] [LinearOrder D] in
theorem row_eq_rowOfElements {aggregate : Aggregate} {t : Tuple D} (accepted : aggregate.Accepts round t) :
    aggregate.row round t = aggregate.rowOfElements round t.elem := by
  cases aggregate with
  | count index =>
      rw [row, rowOfElements, countOf_eq]
      intro present
      by_contra missing
      rw [Option.not_isSome_iff_eq_none] at missing
      simp [Accepts, setValueForInsertTuple, present, missing] at accepted
  | avg sum number distinct =>
      rw [row, rowOfElements, countOf_eq]
      intro present
      by_contra missing
      rw [Option.not_isSome_iff_eq_none] at missing
      simp [Accepts, setValueForInsertTuple, present, missing] at accepted
  | minInt index | minDouble index | minTime index | string index => rfl

omit [Zero D] [Add D] [LinearOrder D] in
/-- The row reads only the aggregate's own elements. -/
theorem rowOfElements_congr [Zero D] {aggregate : Aggregate} {elem elem' : ℕ → Element D}
    (same : ∀ i ∈ aggregate.tupleIndexes, elem i = elem' i) :
    aggregate.rowOfElements round elem = aggregate.rowOfElements round elem' := by
  cases aggregate with
  | avg sum number distinct =>
      rw [rowOfElements, rowOfElements, same sum (by simp [tupleIndexes]), same number (by simp [tupleIndexes])]
  | count index | minInt index | minDouble index | minTime index | string index =>
      rw [rowOfElements, rowOfElements, same index List.mem_cons_self]

theorem combine_eq_min {α : Type} [LinearOrder α] (a b : α) : combine a b = min a b := by
  rw [combine]
  split
  · rename_i less
    exact (min_eq_left less.le).symm
  · rename_i order
    exact (min_eq_right (le_of_not_gt order)).symm

/-- Except for averages, merging a tuple has the same effect on the row as inserting it. -/
theorem rowOfElements_effect {aggregate : Aggregate} (simple : ∀ sum number distinct, aggregate ≠ .avg sum number distinct)
    (old : ℕ → Element D) (update : Tuple D) :
    aggregate.rowOfElements round (aggregate.effect update old) =
      aggregate.updateOnInsert (aggregate.rowOfElements round old) (aggregate.row round update) := by
  cases aggregate with
  | avg sum number distinct => exact absurd rfl (simple sum number distinct)
  | count index =>
      have one : (addToCount (countOf index update) (defaultCount (old index))).iVal =
          some ((old index).iVal.getD 1 + countOf index update) := by
        cases value : (old index).iVal with
        | none => simp [addToCount, defaultCount, value]
        | some number => simp [addToCount, defaultCount, value]
      simp only [rowOfElements, effect, Function.update_self, one, row, updateOnInsert, Option.getD_some]
  | minInt index =>
      simp only [rowOfElements, effect, Function.update_self, mergeMinInt, row, updateOnInsert, Option.getD_some,
        combine_eq_min]
  | minDouble index =>
      simp only [rowOfElements, effect, Function.update_self, mergeMinDouble, row, updateOnInsert, Option.getD_some,
        combine_eq_min]
  | minTime index =>
      simp only [rowOfElements, effect, Function.update_self, mergeMinTime, row, updateOnInsert, Option.getD_some,
        combine_eq_min]
  | string index =>
      simp only [rowOfElements, effect, Function.update_self, mergeString, row, updateOnInsert, Option.getD_some]

/-- Except for averages, the coalesced row is the row of the single insertions. -/
theorem rowOfElements_foldl {aggregate : Aggregate} (simple : ∀ sum number distinct, aggregate ≠ .avg sum number distinct)
    (old : ℕ → Element D) (updates : List (Tuple D)) :
    aggregate.rowOfElements round (updates.foldl (fun current update => aggregate.effect update current) old) =
      (updates.map (aggregate.row round)).foldl aggregate.updateOnInsert (aggregate.rowOfElements round old) := by
  induction updates generalizing old with
  | nil => rfl
  | cons update rest ih =>
      rw [List.foldl_cons, ih, rowOfElements_effect round simple, List.map_cons, List.foldl_cons]

omit [LinearOrder D] in
/-- An integer sum adds the integer fields of the updates. -/
theorem foldl_mergeSum_int (updates : List (Element D)) {e : Element D} {x : ℤ} (whole : e.iVal = some x) :
    (updates.foldl mergeSum e).iVal = some (x + (updates.map fun u => u.iVal.getD 0).sum) := by
  induction updates generalizing e x with
  | nil => simp [whole]
  | cons u rest ih =>
      have step : (mergeSum e u).iVal = some (x + u.iVal.getD 0) := by simp [mergeSum, whole]
      rw [List.foldl_cons, ih step, List.map_cons, List.sum_cons, add_assoc]

omit [LinearOrder D] in
/-- A sum without an integer adds the double fields of the updates. -/
theorem foldl_mergeSum_double (updates : List (Element D)) {e : Element D} {d : D} (whole : e.iVal = none)
    (value : e.dVal = some d) :
    (updates.foldl mergeSum e).iVal = none ∧
      (updates.foldl mergeSum e).dVal = some (updates.foldl (fun total u => total + u.dVal.getD 0) d) := by
  induction updates generalizing e d with
  | nil => exact ⟨whole, value⟩
  | cons u rest ih =>
      have step : (mergeSum e u).iVal = none ∧ (mergeSum e u).dVal = some (d + u.dVal.getD 0) := by
        simp [mergeSum, whole, value]
      exact ih step.1 step.2

section Average

variable (sum number : ℕ) (distinct : sum ≠ number)

/-- These are the sums that the updates would insert without having an integer field. -/
def doubleSums (updates : List (Tuple D)) : List ℤ :=
  (updates.filter fun u => (u.elem sum).iVal.isNone).map fun u => (sumValue round (u.elem sum)).getD 0

/-- An integer sum ignores the double sums, and a double sum ignores the integer fields and is rounded once. -/
def SumsAgree (first : Tuple D) (updates : List (Tuple D)) : Prop :=
  match (first.elem sum).iVal with
  | some _ => (doubleSums round sum updates).sum = 0
  | none =>
      round (updates.foldl (fun total u => total + (u.elem sum).dVal.getD 0) ((first.elem sum).dVal.getD 0)) =
        round ((first.elem sum).dVal.getD 0) + (updates.map fun u => (sumValue round (u.elem sum)).getD 0).sum

omit [Zero D] [Add D] [LinearOrder D] in
/-- The inserted sums are the integer fields and the double sums. -/
theorem sum_sumValue (updates : List (Tuple D)) :
    (updates.map fun u => (sumValue round (u.elem sum)).getD 0).sum =
      (updates.map fun u => (u.elem sum).iVal.getD 0).sum + (doubleSums round sum updates).sum := by
  induction updates with
  | nil => rfl
  | cons u rest ih =>
      rw [List.map_cons, List.sum_cons, ih, List.map_cons, List.sum_cons]
      cases value : (u.elem sum).iVal with
      | none => simp [doubleSums, value, add_left_comm]
      | some x => simp [doubleSums, value, sumValue, add_assoc]

/-- The count is the sum of all counts. -/
theorem count_foldl (old : ℕ → Element D) (updates : List (Tuple D)) :
    (updates.foldl (fun current update => (avg sum number distinct).effect update current) old number).iVal.getD 1 =
      (old number).iVal.getD 1 + (updates.map (countOf number)).sum := by
  induction updates generalizing old with
  | nil => simp
  | cons u rest ih =>
      have step : ((avg sum number distinct).effect u old number).iVal.getD 1 =
          (old number).iVal.getD 1 + countOf number u := by
        cases value : (old number).iVal with
        | none => simp [effect, addToCount, defaultCount, value]
        | some x => simp [effect, addToCount, defaultCount, value]
      rw [List.foldl_cons, ih, step, List.map_cons, List.sum_cons, add_assoc]

/-- The sum element takes the updates' sum elements in turn. -/
theorem sum_foldl (old : ℕ → Element D) (updates : List (Tuple D)) :
    updates.foldl (fun current update => (avg sum number distinct).effect update current) old sum =
      (updates.map fun u => u.elem sum).foldl mergeSum (old sum) := by
  rw [List.foldl_map]
  apply foldl_effect_apply
  intro update current
  simp only [effect, Function.update_of_ne distinct, Function.update_self]

omit [Add D] in
/-- Single insertions add the sums and the counts. -/
theorem updateOnInsert_foldl (updates : List (Tuple D)) (total items : ℤ) :
    (updates.map ((avg sum number distinct).row round)).foldl (avg sum number distinct).updateOnInsert
        [.int total, .int items] =
      [.int (total + (updates.map fun u => (sumValue round (u.elem sum)).getD 0).sum),
        .int (items + (updates.map (countOf number)).sum)] := by
  induction updates generalizing total items with
  | nil => simp
  | cons u rest ih =>
      rw [List.map_cons, List.foldl_cons, row, updateOnInsert, ih]
      simp [add_assoc]

/-- The coalesced average is the average of the single insertions exactly when the sums agree. -/
theorem rowOfElements_avg_iff {first : Tuple D} (accepted : (avg sum number distinct).Accepts round first)
    (updates : List (Tuple D)) :
    (avg sum number distinct).rowOfElements round
        (updates.foldl (fun current update => (avg sum number distinct).effect update current) first.elem) =
      (updates.map ((avg sum number distinct).row round)).foldl (avg sum number distinct).updateOnInsert
        ((avg sum number distinct).rowOfElements round first.elem) ↔ SumsAgree round sum first updates := by
  have total : (sumValue round (first.elem sum)).isSome := by
    by_contra missing
    rw [Option.not_isSome_iff_eq_none] at missing
    by_cases given : number < first.e.length
    · simp [Accepts, setValueForInsertTuple, given, missing] at accepted
    · simp [Accepts, setValueForInsertTuple, given, missing] at accepted
  rw [rowOfElements, rowOfElements, updateOnInsert_foldl, sum_foldl, count_foldl]
  simp only [List.cons.injEq, CellValue.int.injEq, and_true, SumsAgree]
  cases whole : (first.elem sum).iVal with
  | some x =>
      rw [sumValue, foldl_mergeSum_int _ whole, sumValue, whole]
      simp only [Option.getD_some, List.map_map, Function.comp_def]
      rw [sum_sumValue]
      constructor
      · intro same
        omega
      · intro zero
        rw [zero, add_zero]
  | none =>
      cases value : (first.elem sum).dVal with
      | none => simp [sumValue, whole, value] at total
      | some d =>
          obtain ⟨absent, summed⟩ := foldl_mergeSum_double (updates.map fun u => u.elem sum) whole value
          rw [sumValue, absent, summed, sumValue, whole, value, List.foldl_map]
          rfl

end Average

/-- Coalescing agrees with single insertions unless an average mixes encodings or rounds differently. -/
def Agrees : Aggregate → Tuple D → List (Tuple D) → Prop
  | .avg sum _ _, first, updates => SumsAgree round sum first updates
  | .count _, _, _ | .minInt _, _, _ | .minDouble _, _, _ | .minTime _, _, _ | .string _, _, _ => True

/-- A tuple that has been merged into is accepted. -/
theorem accepts_effect {aggregate : Aggregate} {t : Tuple D} (update : Tuple D) (old : ℕ → Element D)
    (present : ∀ i ∈ aggregate.tupleIndexes, i < t.e.length)
    (elements : ∀ i ∈ aggregate.tupleIndexes, t.elem i = aggregate.effect update old i) :
    aggregate.Accepts round t := by
  cases aggregate with
  | count index =>
      have inside := present index List.mem_cons_self
      have value := elements index List.mem_cons_self
      simp [Accepts, setValueForInsertTuple, inside, value, effect, addToCount]
  | avg sum number distinct =>
      have sumInside := present sum (by simp [tupleIndexes])
      have countInside := present number (by simp [tupleIndexes])
      have sumValue_ := elements sum (by simp [tupleIndexes])
      have countValue := elements number (by simp [tupleIndexes])
      simp only [effect, Function.update_of_ne distinct, Function.update_self] at sumValue_ countValue
      cases whole : (old sum).iVal with
      | none => simp [Accepts, setValueForInsertTuple, sumInside, countInside, sumValue_, countValue, addToCount,
          mergeSum, sumValue, whole]
      | some x => simp [Accepts, setValueForInsertTuple, sumInside, countInside, sumValue_, countValue, addToCount,
          mergeSum, sumValue, whole]
  | minInt index | minDouble index | minTime index | string index =>
      have inside := present index List.mem_cons_self
      simp [Accepts, setValueForInsertTuple, simpleValue, inside]

theorem rowOfElements_iff {aggregate : Aggregate} {first : Tuple D} (accepted : aggregate.Accepts round first)
    (updates : List (Tuple D)) :
    aggregate.rowOfElements round
        (updates.foldl (fun current update => aggregate.effect update current) first.elem) =
      (updates.map (aggregate.row round)).foldl aggregate.updateOnInsert
        (aggregate.rowOfElements round first.elem) ↔ aggregate.Agrees round first updates := by
  cases aggregate with
  | avg sum number distinct => exact rowOfElements_avg_iff round sum number distinct accepted updates
  | count index | minInt index | minDouble index | minTime index | string index =>
      exact iff_true_intro (rowOfElements_foldl round (fun _ _ _ same => by cases same) first.elem updates)

end Aggregate

section Refinement

variable {D : Type} [Zero D] [Add D] [LinearOrder D] (round : D → ℤ) {aggregates : List Aggregate}

/-- The coalesced tuple is accepted, and its row is that of the effects of all updates. -/
theorem coalesce_row (first : Tuple D) (updates : List (Tuple D))
    (accepted : ∀ aggregate ∈ aggregates, ∀ t ∈ first :: updates, aggregate.Accepts round t) :
    ∃ merged, coalesce aggregates first updates = some merged ∧
      ∀ aggregate, OwnElements aggregates aggregate → aggregate.setValueForInsertTuple round merged =
        some (aggregate.rowOfElements round
          (updates.foldl (fun current update => aggregate.effect update current) first.elem)) := by
  obtain ⟨merged, done, -, effects⟩ := coalesce_spec first updates fun aggregate member update inside =>
    accepted aggregate member update (List.mem_cons_of_mem _ inside)
  refine ⟨merged, done, ?_⟩
  intro aggregate own
  have accepts : aggregate.Accepts round merged := by
    rcases List.eq_nil_or_concat updates with rfl | ⟨earlier, last, rfl⟩
    · obtain rfl := Option.some.inj done
      exact accepted aggregate own.mem first List.mem_cons_self
    · apply Aggregate.accepts_effect round last
        (earlier.foldl (fun current update => aggregate.effect update current) first.elem)
        fun i index => (effects aggregate own i index).2 (by simp)
      intro i index
      rw [(effects aggregate own i index).1, List.concat_eq_append, List.foldl_append]
      rfl
  have elements : ∀ i ∈ aggregate.tupleIndexes, merged.elem i =
      updates.foldl (fun current update => aggregate.effect update current) first.elem i :=
    fun i index => (effects aggregate own i index).1
  rw [Aggregate.setValueForInsertTuple_eq round accepts, Aggregate.row_eq_rowOfElements round accepts,
    Aggregate.rowOfElements_congr round elements]

end Refinement

/-- Folding a sequence and inserting the result stores the values of inserting the tuples one at a time exactly for
the aggregates whose sums agree, which is every count, minimum and string with elements of its own. -/
theorem coalesce_refines_iff {D : Type} [Zero D] [Add D] [LinearOrder D] (round : D → ℤ)
    (aggregates : List Aggregate) (first : Tuple D) (updates : List (Tuple D))
    (accepted : ∀ aggregate ∈ aggregates, ∀ t ∈ first :: updates, aggregate.Accepts round t) :
    ∃ merged, coalesce aggregates first updates = some merged ∧
      ∀ aggregate, OwnElements aggregates aggregate →
        ((∃ row, aggregate.setValueForInsertTuple round merged = some row ∧
          insertEach round aggregate first updates = some row) ↔ aggregate.Agrees round first updates) := by
  obtain ⟨merged, done, rows⟩ := coalesce_row round first updates accepted
  refine ⟨merged, done, ?_⟩
  intro aggregate own
  have begins := accepted aggregate own.mem first List.mem_cons_self
  have each := Aggregate.insertEach_eq round begins fun update inside =>
    accepted aggregate own.mem update (List.mem_cons_of_mem _ inside)
  rw [← Aggregate.rowOfElements_iff round begins, rows aggregate own, each,
    Aggregate.row_eq_rowOfElements round begins]
  constructor
  · rintro ⟨row, coalesced, inserted⟩
    exact Option.some.inj (coalesced.trans inserted.symm)
  · intro same
    exact ⟨_, rfl, congrArg some same.symm⟩

/-- The law applies to a count without an element and an average of integers. -/
theorem coalesce_refines_example :
    ∃ merged : Tuple ℚ, coalesce [.count 2, .avg 0 1 (by decide)]
        ⟨[{ iVal := some 5 }, { iVal := some 1 }]⟩ [⟨[{ iVal := some 6 }]⟩] = some merged ∧
      (∃ row, (Aggregate.count 2).setValueForInsertTuple Printing.roundHalfEven merged = some row ∧
        insertEach Printing.roundHalfEven (.count 2) ⟨[{ iVal := some 5 }, { iVal := some 1 }]⟩
          [⟨[{ iVal := some 6 }]⟩] = some row) ∧
      ∃ row, (Aggregate.avg 0 1 (by decide)).setValueForInsertTuple Printing.roundHalfEven merged = some row ∧
        insertEach Printing.roundHalfEven (.avg 0 1 (by decide)) ⟨[{ iVal := some 5 }, { iVal := some 1 }]⟩
          [⟨[{ iVal := some 6 }]⟩] = some row := by
  have counts : OwnElements [.count 2, .avg 0 1 (by decide)] (.count 2) :=
    ⟨[], [.avg 0 1 (by decide)], rfl, by simp [Aggregate.tupleIndexes]⟩
  have averages : OwnElements [.count 2, .avg 0 1 (by decide)] (.avg 0 1 (by decide)) :=
    ⟨[.count 2], [], rfl, by simp [Aggregate.tupleIndexes]⟩
  obtain ⟨merged, done, law⟩ := coalesce_refines_iff Printing.roundHalfEven [.count 2, .avg 0 1 (by decide)]
    ⟨[{ iVal := some 5 }, { iVal := some 1 }]⟩ [⟨[{ iVal := some 6 }]⟩]
    (by simp [Aggregate.Accepts, Aggregate.setValueForInsertTuple, Aggregate.sumValue, Tuple.elem])
  refine ⟨merged, done, (law _ counts).mpr trivial, (law _ averages).mpr ?_⟩
  simp [Aggregate.Agrees, Aggregate.SumsAgree, Aggregate.doubleSums, Tuple.elem]

/-- A double added to an integer sum is lost. -/
theorem coalesce_loses_double :
    ∃ merged : Tuple ℚ,
      coalesce [.avg 0 1 (by decide)] ⟨[{ iVal := some 1 }]⟩ [⟨[{ dVal := some (2 : ℚ) }]⟩] = some merged ∧
      (Aggregate.avg 0 1 (by decide)).setValueForInsertTuple Printing.roundHalfEven merged =
        some [.int 1, .int 2] ∧
      insertEach Printing.roundHalfEven (.avg 0 1 (by decide)) ⟨[{ iVal := some 1 }]⟩
        [⟨[{ dVal := some (2 : ℚ) }]⟩] = some [.int 3, .int 2] := by
  have rounded : Printing.roundHalfEven 2 = 2 := by simp [Printing.roundHalfEven]
  refine ⟨⟨[{ iVal := some 1 }, { iVal := some 2 }]⟩, rfl, rfl, ?_⟩
  change some [CellValue.int (1 + Printing.roundHalfEven 2), CellValue.int (1 + 1)] = _
  rw [rounded]
  rfl

end JetStream
