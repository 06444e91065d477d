import Mathlib.Algebra.Order.Ring.Int
import Mathlib.Logic.Function.Basic
import JetStream.Cube.Tuple

namespace JetStream

/-- A cell value is what one column of the cube's table stores. -/
inductive CellValue (D : Type) where
  | int (value : ℤ)
  | double (value : D)
  | time (value : ℤ)
  | string (value : List Char)
  deriving DecidableEq

/-- An aggregate knows which tuple elements it reads, and an average has separate ones for sum and count. -/
inductive Aggregate where
  | count (index : ℕ)
  | avg (sum number : ℕ) (distinct : sum ≠ number)
  | minInt (index : ℕ)
  | minDouble (index : ℕ)
  | minTime (index : ℕ)
  | string (index : ℕ)

namespace Tuple

variable {D : Type}

/-- Missing elements are added with no value. -/
def extend (t : Tuple D) (index : ℕ) : Tuple D := ⟨t.e ++ List.replicate (index + 1 - t.e.length) ({} : Element D)⟩

def modifyE (t : Tuple D) (index : ℕ) (f : Element D → Element D) : Tuple D := ⟨t.e.modify index f⟩

/-- A missing element reads as one without values. -/
def elem (t : Tuple D) (index : ℕ) : Element D := t.e[index]?.getD {}

@[simp] theorem elem_extend (t : Tuple D) (index : ℕ) : (t.extend index).elem = t.elem := by
  funext j
  by_cases inside : j < t.e.length
  · simp [elem, extend, List.getElem?_append_left inside]
  · rw [elem, elem, extend, List.getElem?_append_right (Nat.le_of_not_lt inside),
      List.getElem?_eq_none (Nat.le_of_not_lt inside), List.getElem?_replicate]
    split <;> rfl

theorem length_extend (t : Tuple D) (index : ℕ) : (t.extend index).e.length = max t.e.length (index + 1) := by
  simp only [extend, List.length_append, List.length_replicate]
  omega

@[simp] theorem length_modifyE (t : Tuple D) (index : ℕ) (f : Element D → Element D) :
    (t.modifyE index f).e.length = t.e.length := by
  simp [modifyE]

theorem elem_modifyE {t : Tuple D} {index : ℕ} (inside : index < t.e.length) (f : Element D → Element D) :
    (t.modifyE index f).elem = Function.update t.elem index (f (t.elem index)) := by
  funext j
  by_cases here : j = index
  · subst here
    simp [elem, modifyE, List.getElem?_eq_getElem inside]
  · rw [Function.update_of_ne here]
    simp [elem, modifyE, Ne.symm here]

end Tuple

namespace Aggregate

def tupleIndexes : Aggregate → List ℕ
  | .count index => [index]
  | .avg sum number _ => [sum, number]
  | .minInt index => [index]
  | .minDouble index => [index]
  | .minTime index => [index]
  | .string index => [index]

variable {D : Type}

/-- A count that is not given stands for one item. -/
def defaultCount (e : Element D) : Element D := if e.iVal.isSome then e else { e with iVal := some 1 }

def insertDefaultValuesForFullTuple : Aggregate → Tuple D → Tuple D
  | .count index, t => t.modifyE index defaultCount
  | .avg _ number _, t => t.modifyE number defaultCount
  | .minInt _, t | .minDouble _, t | .minTime _, t | .string _, t => t

def makeFullTuple (aggregate : Aggregate) (t : Tuple D) : Tuple D :=
  aggregate.insertDefaultValuesForFullTuple (aggregate.tupleIndexes.foldl Tuple.extend t)

/-- An update without a count element counts as one item. -/
def countOf (index : ℕ) (t : Tuple D) : ℤ :=
  if index < t.e.length then (t.elem index).iVal.getD 0 else 1

variable [Zero D] [Add D]

/-- The sum of the destination decides which field of the update is added. -/
def mergeSum (into update : Element D) : Element D :=
  if into.iVal.isSome then { into with iVal := some (into.iVal.getD 0 + update.iVal.getD 0) }
  else { into with dVal := some (into.dVal.getD 0 + update.dVal.getD 0) }

def addToCount (amount : ℤ) (e : Element D) : Element D := { e with iVal := some (e.iVal.getD 0 + amount) }

variable [LinearOrder D]

/-- The smaller value is kept, and the second of two equal ones. -/
def combine {α : Type} [LinearOrder α] (a b : α) : α := if a < b then a else b

/-- A simple aggregate combines one element, and reading an element that the update does not have is fatal. -/
def mergeSimple (index : ℕ) (f : Element D → Element D → Element D) (into update : Tuple D) : Option (Tuple D) :=
  if index < update.e.length then some (into.modifyE index (f · (update.elem index))) else none

def mergeMinInt (into update : Element D) : Element D :=
  { into with iVal := some (combine (into.iVal.getD 0) (update.iVal.getD 0)) }

def mergeMinDouble (into update : Element D) : Element D :=
  { into with dVal := some (combine (into.dVal.getD 0) (update.dVal.getD 0)) }

def mergeMinTime (into update : Element D) : Element D :=
  { into with tVal := some (combine (into.tVal.getD 0) (update.tVal.getD 0)) }

def mergeString (into update : Element D) : Element D := { into with sVal := some (update.sVal.getD []) }

def mergeFullTupleInto : Aggregate → Tuple D → Tuple D → Option (Tuple D)
  | .count index, into, update => some (into.modifyE index (addToCount (countOf index update)))
  | .avg sum number _, into, update =>
      (mergeSimple sum mergeSum into update).map (Tuple.modifyE · number (addToCount (countOf number update)))
  | .minInt index, into, update => mergeSimple index mergeMinInt into update
  | .minDouble index, into, update => mergeSimple index mergeMinDouble into update
  | .minTime index, into, update => mergeSimple index mergeMinTime into update
  | .string index, into, update => mergeSimple index mergeString into update

def mergeTupleInto (aggregate : Aggregate) (into update : Tuple D) : Option (Tuple D) :=
  aggregate.mergeFullTupleInto (aggregate.makeFullTuple into) update

variable (round : D → ℤ)

/-- A sum is sent as an integer when it has one, and a double is rounded by the integer column. -/
def sumValue (e : Element D) : Option ℤ :=
  match e.iVal, e.dVal with
  | some value, _ => some value
  | none, some value => some (round value)
  | none, none => none

def simpleValue (index : ℕ) (value : Element D → CellValue D) (t : Tuple D) : Option (List (CellValue D)) :=
  if index < t.e.length then some [value (t.elem index)] else none

/-- The inserted row has one value for each column, and a tuple without the expected values is fatal. -/
def setValueForInsertTuple : Aggregate → Tuple D → Option (List (CellValue D))
  | .count index, t =>
      if index < t.e.length then (t.elem index).iVal.map fun value => [.int value] else some [.int 1]
  | .avg sum number _, t =>
      if number < t.e.length then
        if sum < t.e.length then do
          let items ← (t.elem number).iVal
          let total ← sumValue round (t.elem sum)
          some [.int total, .int items]
        else none
      else if sum < t.e.length then (sumValue round (t.elem sum)).map fun total => [.int total, .int 1]
      else none
  | .minInt index, t => simpleValue index (fun e => .int (e.iVal.getD 0)) t
  | .minDouble index, t => simpleValue index (fun e => .double (e.dVal.getD 0)) t
  | .minTime index, t => simpleValue index (fun e => .time (e.tVal.getD 0)) t
  | .string index, t => simpleValue index (fun e => .string (e.sVal.getD [])) t

/-- The update clause combines the stored columns with the inserted ones. -/
def updateOnInsert : Aggregate → List (CellValue D) → List (CellValue D) → List (CellValue D)
  | .count _, [.int old], [.int new] => [.int (old + new)]
  | .avg _ _ _, [.int oldSum, .int oldCount], [.int newSum, .int newCount] =>
      [.int (oldSum + newSum), .int (oldCount + newCount)]
  | .minInt _, [.int old], [.int new] => [.int (min old new)]
  | .minDouble _, [.double old], [.double new] => [.double (min old new)]
  | .minTime _, [.time old], [.time new] => [.time (min old new)]
  | .string _, [.string _], [.string new] => [.string new]
  | _, row, _ => row

/-- A tuple is accepted when inserting it is not fatal. -/
def Accepts (aggregate : Aggregate) (t : Tuple D) : Prop := (aggregate.setValueForInsertTuple round t).isSome

/-- This is what a merge does to the elements of its destination. -/
def effect (aggregate : Aggregate) (update : Tuple D) (old : ℕ → Element D) : ℕ → Element D :=
  match aggregate with
  | .count index => Function.update old index (addToCount (countOf index update) (defaultCount (old index)))
  | .avg sum number _ => Function.update (Function.update old sum (mergeSum (old sum) (update.elem sum))) number
      (addToCount (countOf number update) (defaultCount (old number)))
  | .minInt index => Function.update old index (mergeMinInt (old index) (update.elem index))
  | .minDouble index => Function.update old index (mergeMinDouble (old index) (update.elem index))
  | .minTime index => Function.update old index (mergeMinTime (old index) (update.elem index))
  | .string index => Function.update old index (mergeString (old index) (update.elem index))

omit [Zero D] [Add D] [LinearOrder D] in
theorem mergeSimple_spec {index : ℕ} {f : Element D → Element D → Element D} {into update : Tuple D}
    (inside : index < into.e.length) (present : index < update.e.length) :
    ∃ merged, mergeSimple index f into update = some merged ∧
      merged.elem = Function.update into.elem index (f (into.elem index) (update.elem index)) ∧
      merged.e.length = into.e.length :=
  ⟨_, if_pos present, Tuple.elem_modifyE inside _, Tuple.length_modifyE _ _ _⟩

omit [Zero D] [Add D] [LinearOrder D] in
/-- An accepted tuple of a simple aggregate has the aggregate's element. -/
theorem present_of_simpleValue {index : ℕ} {value : Element D → CellValue D} {t : Tuple D}
    (accepted : (simpleValue index value t).isSome) : index < t.e.length := by
  by_contra absent
  simp [simpleValue, absent] at accepted

omit [Add D] [LinearOrder D] in
theorem present_of_avg {sum number : ℕ} {distinct : sum ≠ number} {t : Tuple D}
    (accepted : (avg sum number distinct).Accepts round t) : sum < t.e.length := by
  by_contra absent
  by_cases given : number < t.e.length
  · simp [Accepts, setValueForInsertTuple, given, absent] at accepted
  · simp [Accepts, setValueForInsertTuple, given, absent] at accepted

omit [Zero D] [Add D] [LinearOrder D] in
/-- A simple aggregate extends its destination and combines one element. -/
theorem mergeSimple_extend_spec {index : ℕ} {f : Element D → Element D → Element D} (into : Tuple D)
    {update : Tuple D} (present : index < update.e.length) :
    ∃ merged, mergeSimple index f (into.extend index) update = some merged ∧
      merged.elem = Function.update into.elem index (f (into.elem index) (update.elem index)) ∧
      (∀ i ∈ [index], i < merged.e.length) ∧ into.e.length ≤ merged.e.length := by
  have length := into.length_extend index
  obtain ⟨merged, done, elements, size⟩ := mergeSimple_spec (f := f) (show index < (into.extend index).e.length by omega)
    present
  rw [Tuple.elem_extend] at elements
  refine ⟨merged, done, elements, ?_, by omega⟩
  intro i member
  rw [List.mem_singleton.mp member]
  omega

/-- Merging an accepted tuple has the stated effect and leaves the aggregate's elements present. -/
theorem mergeTupleInto_spec (aggregate : Aggregate) (into update : Tuple D)
    (accepted : aggregate.Accepts round update) :
    ∃ merged, aggregate.mergeTupleInto into update = some merged ∧
      merged.elem = aggregate.effect update into.elem ∧
      (∀ i ∈ aggregate.tupleIndexes, i < merged.e.length) ∧ into.e.length ≤ merged.e.length := by
  cases aggregate with
  | count index =>
      have length := into.length_extend index
      refine ⟨_, rfl, ?_, ?_, ?_⟩
      · change (((into.extend index).modifyE index defaultCount).modifyE index _).elem = _
        rw [Tuple.elem_modifyE (by rw [Tuple.length_modifyE]; omega), Tuple.elem_modifyE (by omega),
          Tuple.elem_extend, Function.update_idem, Function.update_self]
        rfl
      · intro i member
        rw [List.mem_singleton.mp member, Tuple.length_modifyE]
        change index < ((into.extend index).modifyE index defaultCount).e.length
        rw [Tuple.length_modifyE]
        omega
      · rw [Tuple.length_modifyE]
        change into.e.length ≤ ((into.extend index).modifyE index defaultCount).e.length
        rw [Tuple.length_modifyE]
        omega
  | avg sum number distinct =>
      have present := present_of_avg round accepted
      let full := ((into.extend sum).extend number).modifyE number defaultCount
      have length : full.e.length = max (max into.e.length (sum + 1)) (number + 1) := by
        rw [Tuple.length_modifyE, Tuple.length_extend, Tuple.length_extend]
      have elements : full.elem = Function.update into.elem number (defaultCount (into.elem number)) := by
        rw [Tuple.elem_modifyE (by rw [Tuple.length_extend]; omega), Tuple.elem_extend, Tuple.elem_extend]
      obtain ⟨summed, done, summedElements, size⟩ := mergeSimple_spec (f := mergeSum)
        (show sum < full.e.length by omega) present
      refine ⟨summed.modifyE number (addToCount (countOf number update)), ?_, ?_, ?_, ?_⟩
      · change (mergeSimple sum mergeSum full update).map _ = _
        rw [done]
        rfl
      · rw [Tuple.elem_modifyE (by omega), summedElements, elements, Function.update_of_ne distinct.symm,
          Function.update_self, Function.update_of_ne distinct, Function.update_comm distinct.symm,
          Function.update_idem]
        rfl
      · intro i member
        rw [Tuple.length_modifyE, size, length]
        simp only [tupleIndexes, List.mem_cons, List.not_mem_nil, or_false] at member
        omega
      · rw [Tuple.length_modifyE, size, length]
        omega
  | minInt index | minDouble index | minTime index | string index =>
      rw [Accepts, setValueForInsertTuple] at accepted
      exact mergeSimple_extend_spec into (present_of_simpleValue accepted)

end Aggregate

section Cube

variable {D : Type} [Zero D] [Add D] [LinearOrder D]

/-- The cube merges a tuple with each of its aggregates in turn. -/
def mergeTupleInto (aggregates : List Aggregate) (into update : Tuple D) : Option (Tuple D) :=
  aggregates.foldlM (fun current aggregate => aggregate.mergeTupleInto current update) into

/-- The batch folds a sequence of tuples into its first one. -/
def coalesce (aggregates : List Aggregate) (first : Tuple D) (updates : List (Tuple D)) : Option (Tuple D) :=
  updates.foldlM (fun into update => mergeTupleInto aggregates into update) first

/-- Inserting tuples one at a time updates the row of the first one. -/
def insertEach (round : D → ℤ) (aggregate : Aggregate) (first : Tuple D) (updates : List (Tuple D)) :
    Option (List (CellValue D)) :=
  (aggregate.setValueForInsertTuple round first).bind fun row => updates.foldlM (fun stored update =>
    (aggregate.setValueForInsertTuple round update).map (aggregate.updateOnInsert stored)) row

end Cube

end JetStream
