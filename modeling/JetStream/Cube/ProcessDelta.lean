import JetStream.Cube.Coalescing
import JetStream.Cube.MysqlCube

namespace JetStream

namespace Aggregate

variable {D : Type} [Sub D] (ofInt : ℤ → D) (truncate : D → ℤ)

/-- The old sum is read as a double, and an integer is converted. -/
def oldSum (e : Element D) : D :=
  match e.dVal with
  | some value => value
  | none => ofInt (e.iVal.getD 0)

/-- The old sum is taken from the double of the new one, or from its integer when there is no double. -/
def subtractSum (old new : Element D) : Element D :=
  match new.dVal with
  | some value => { new with dVal := some (value - oldSum ofInt old) }
  | none => { new with iVal := some (new.iVal.getD 0 - truncate (oldSum ofInt old)) }

def subtractCount (amount : ℤ) (e : Element D) : Element D := { e with iVal := some (e.iVal.getD 0 - amount) }

/-- A count without an element stands for one item, but an old count above one is fatal then, and reading a missing
element of an average is not defined. -/
def updateFromDelta (aggregate : Aggregate) (newV oldV : Tuple D) : Option (Tuple D) :=
  match aggregate with
  | .count index =>
      if index < newV.e.length then some (newV.modifyE index (subtractCount (countOf index oldV)))
      else if 1 < countOf index oldV then none
      else some ((newV.extend index).modifyE index fun e => { e with iVal := some (1 - countOf index oldV) })
  | .avg sum number _ =>
      if (sum < oldV.e.length ∧ sum < newV.e.length) ∧ number < oldV.e.length ∧ number < newV.e.length then
        some ((newV.modifyE sum (subtractSum ofInt truncate (oldV.elem sum))).modifyE number
          (subtractCount ((oldV.elem number).iVal.getD 0)))
      else none
  | .minInt _ | .minDouble _ | .minTime _ | .string _ => some newV

end Aggregate

section Cube

variable {D : Type} [Zero D] [Sub D] [LinearOrder D] (ofInt : ℤ → D) (truncate round : D → ℤ)

/-- The aggregates rewrite the new tuple in turn. -/
def updateFromDelta (aggregates : List Aggregate) (newV oldV : Tuple D) : Option (Tuple D) :=
  aggregates.foldlM (fun newV aggregate => aggregate.updateFromDelta ofInt truncate newV oldV) newV

/-- A tuple for a stored cell is combined with the columns of each aggregate. -/
def saveColumns (aggregates : List Aggregate) (stored : List (List (CellValue D))) (t : Tuple D) :
    Option (List (List (CellValue D))) :=
  (aggregates.mapM fun aggregate : Aggregate => aggregate.setValueForInsertTuple round t).map fun row =>
    (aggregates.zip (stored.zip row)).map fun (aggregate, old, new) => aggregate.updateOnInsert old new

/-- The rewritten tuple is saved like any other. -/
def processDelta (aggregates : List Aggregate) (stored : List (List (CellValue D))) (oldV newV : Tuple D) :
    Option (List (List (CellValue D))) :=
  (updateFromDelta ofInt truncate aggregates newV oldV).bind (saveColumns round aggregates stored)

end Cube

namespace Aggregate

variable {D : Type}

/-- A count adds its element to a tuple that is too short for it. -/
def sizeAfter : Aggregate → ℕ → ℕ
  | .count index, size => max size (index + 1)
  | .avg _ _ _, size | .minInt _, size | .minDouble _, size | .minTime _, size | .string _, size => size

/-- The property holds of each aggregate and the length of the tuple when its turn comes. -/
def EveryTurn (P : Aggregate → ℕ → Prop) : List Aggregate → ℕ → Prop
  | [], _ => True
  | aggregate :: rest, size => P aggregate size ∧ EveryTurn P rest (aggregate.sizeAfter size)

theorem le_sizeAfter (aggregate : Aggregate) (size : ℕ) : size ≤ aggregate.sizeAfter size := by
  cases aggregate with
  | count index => exact le_max_left _ _
  | avg _ _ _ | minInt _ | minDouble _ | minTime _ | string _ => exact le_rfl

/-- A property follows at every turn from another one, as the tuple never gets shorter. -/
theorem EveryTurn.imp {P Q : Aggregate → ℕ → Prop} {aggregates : List Aggregate} {size : ℕ}
    (turns : EveryTurn P aggregates size)
    (step : ∀ aggregate ∈ aggregates, ∀ later, size ≤ later → P aggregate later → Q aggregate later) :
    EveryTurn Q aggregates size := by
  induction aggregates generalizing size with
  | nil => trivial
  | cons aggregate rest ih =>
      refine ⟨step aggregate List.mem_cons_self size le_rfl turns.1, ih turns.2 fun other member later grown => ?_⟩
      exact step other (List.mem_cons_of_mem _ member) later ((aggregate.le_sizeAfter size).trans grown)

/-- The columns of a total are numbers that a delta can be added to. -/
def IsTotal : Aggregate → Prop
  | .count _ | .avg _ _ _ => True
  | .minInt _ | .minDouble _ | .minTime _ | .string _ => False

/-- A total shares no element with another aggregate. -/
def Apart (first second : Aggregate) : Prop :=
  ∀ i ∈ first.tupleIndexes, i ∈ second.tupleIndexes → ¬ first.IsTotal ∧ ¬ second.IsTotal

theorem elem_of_missing {t : Tuple D} {index : ℕ} (missing : ¬ index < t.e.length) : t.elem index = {} := by
  rw [Tuple.elem, List.getElem?_eq_none (Nat.le_of_not_lt missing)]
  rfl

theorem countOf_given {t : Tuple D} {index : ℕ} (given : index < t.e.length) :
    countOf index t = (t.elem index).iVal.getD 0 := if_pos given

theorem countOf_missing {t : Tuple D} {index : ℕ} (missing : ¬ index < t.e.length) : countOf index t = 1 := if_neg missing

/-- The two tuples have the elements that the aggregate needs to rewrite the new one. -/
def Emits : Aggregate → Tuple D → ℕ → Prop
  | .count index, oldV, size => index < size ∨ countOf index oldV ≤ 1
  | .avg _ number _, oldV, size => number < oldV.e.length ∧ number < size
  | .minInt _, _, _ | .minDouble _, _, _ | .minTime _, _, _ | .string _, _, _ => True

section Turn

variable [Sub D] (ofInt : ℤ → D) (truncate : D → ℤ)

/-- This is what an aggregate does to the elements of a tuple of this length. -/
def deltaEffect (aggregate : Aggregate) (oldV : Tuple D) (size : ℕ) (elem : ℕ → Element D) : ℕ → Element D :=
  match aggregate with
  | .count index => Function.update elem index
      (if index < size then subtractCount (countOf index oldV) (elem index)
      else { elem index with iVal := some (1 - countOf index oldV) })
  | .avg sum number _ => Function.update (Function.update elem sum (subtractSum ofInt truncate (oldV.elem sum) (elem sum)))
      number (subtractCount ((oldV.elem number).iVal.getD 0) (elem number))
  | .minInt _ | .minDouble _ | .minTime _ | .string _ => elem

/-- An average finds its sum in a tuple of this length. -/
def HasSum : Aggregate → ℕ → Prop
  | .avg sum _ _, size => sum < size
  | .count _, _ | .minInt _, _ | .minDouble _, _ | .minTime _, _ | .string _, _ => True

omit [Sub D] in
theorem HasSum.mono {aggregate : Aggregate} {size larger : ℕ} (sum : aggregate.HasSum size) (grows : size ≤ larger) :
    aggregate.HasSum larger := by
  cases aggregate with
  | avg index number distinct => exact sum.trans_le grows
  | count _ | minInt _ | minDouble _ | minTime _ | string _ => trivial

/-- An aggregate that emits rewrites its own elements. -/
theorem updateFromDelta_spec {aggregate : Aggregate} {newV oldV : Tuple D} (oldSum : aggregate.HasSum oldV.e.length)
    (newSum : aggregate.HasSum newV.e.length) (emits : aggregate.Emits oldV newV.e.length) :
    ∃ delta, aggregate.updateFromDelta ofInt truncate newV oldV = some delta ∧
      delta.e.length = aggregate.sizeAfter newV.e.length ∧
      delta.elem = aggregate.deltaEffect ofInt truncate oldV newV.e.length newV.elem := by
  cases aggregate with
  | count index =>
      by_cases given : index < newV.e.length
      · refine ⟨_, if_pos given, ?_, ?_⟩
        · rw [Tuple.length_modifyE, sizeAfter, max_eq_left given]
        · rw [Tuple.elem_modifyE given, deltaEffect, if_pos given]
      · have few : ¬ 1 < countOf index oldV := not_lt.mpr (emits.resolve_left given)
        have length := newV.length_extend index
        refine ⟨_, (if_neg given).trans (if_neg few), ?_, ?_⟩
        · rw [Tuple.length_modifyE, length, sizeAfter]
        · rw [Tuple.elem_modifyE (by omega), Tuple.elem_extend, deltaEffect, if_neg given]
  | avg sum number distinct =>
      refine ⟨_, if_pos ⟨⟨oldSum, newSum⟩, emits⟩, ?_, ?_⟩
      · rw [Tuple.length_modifyE, Tuple.length_modifyE, sizeAfter]
      · rw [Tuple.elem_modifyE (by rw [Tuple.length_modifyE]; exact emits.2), Tuple.elem_modifyE newSum,
          Function.update_of_ne distinct.symm, deltaEffect]
  | minInt index | minDouble index | minTime index | string index => exact ⟨newV, rfl, rfl, rfl⟩

theorem updateFromDelta_eq_none {aggregate : Aggregate} {newV oldV : Tuple D}
    (silent : ¬ aggregate.Emits oldV newV.e.length) : aggregate.updateFromDelta ofInt truncate newV oldV = none := by
  cases aggregate with
  | count index =>
      rw [Emits, not_or, not_le] at silent
      exact (if_neg silent.1).trans (if_pos silent.2)
  | avg sum number distinct => exact if_neg fun given => silent given.2
  | minInt index | minDouble index | minTime index | string index => exact absurd trivial silent

/-- Only totals rewrite elements, and only their own. -/
theorem deltaEffect_of_not_mem {aggregate : Aggregate} {oldV : Tuple D} {size : ℕ} {elem : ℕ → Element D} {j : ℕ}
    (other : aggregate.IsTotal → j ∉ aggregate.tupleIndexes) :
    aggregate.deltaEffect ofInt truncate oldV size elem j = elem j := by
  cases aggregate with
  | count index => exact Function.update_of_ne (by simpa [tupleIndexes] using other trivial) _ _
  | avg sum number distinct =>
      replace other := other trivial
      simp only [tupleIndexes, List.mem_cons, List.not_mem_nil, or_false, not_or] at other
      rw [deltaEffect, Function.update_of_ne other.2, Function.update_of_ne other.1]
  | minInt index | minDouble index | minTime index | string index => rfl

/-- An aggregate reads only its own elements. -/
theorem deltaEffect_congr {aggregate : Aggregate} {oldV : Tuple D} {size : ℕ} {elem elem' : ℕ → Element D}
    (same : ∀ i ∈ aggregate.tupleIndexes, elem i = elem' i) :
    ∀ i ∈ aggregate.tupleIndexes, aggregate.deltaEffect ofInt truncate oldV size elem i =
      aggregate.deltaEffect ofInt truncate oldV size elem' i := by
  intro i member
  cases aggregate with
  | count index =>
      obtain rfl := List.mem_singleton.mp member
      simp only [deltaEffect, Function.update_self, same _ member]
  | avg sum number distinct =>
      have first := same sum (by simp [tupleIndexes])
      have second := same number (by simp [tupleIndexes])
      simp only [tupleIndexes, List.mem_cons, List.not_mem_nil, or_false] at member
      rcases member with rfl | rfl
      · simp only [deltaEffect, Function.update_of_ne distinct, Function.update_self, first]
      · simp only [deltaEffect, Function.update_self, second]
  | minInt index | minDouble index | minTime index | string index => exact same i member

end Turn

end Aggregate

section Cube

open Aggregate

variable {D : Type} [Sub D] (ofInt : ℤ → D) (truncate : D → ℤ) {aggregates : List Aggregate} {newV oldV : Tuple D}

/-- When every aggregate emits, each finds its elements as they were in the new tuple, and later ones leave its own
elements alone. -/
theorem updateFromDelta_spec (apart : aggregates.Pairwise Apart)
    (sums : ∀ aggregate ∈ aggregates, aggregate.HasSum oldV.e.length ∧ aggregate.HasSum newV.e.length)
    (emits : EveryTurn (fun aggregate => aggregate.Emits oldV) aggregates newV.e.length) :
    ∃ delta, updateFromDelta ofInt truncate aggregates newV oldV = some delta ∧ newV.e.length ≤ delta.e.length ∧
      (∀ j, (∀ aggregate ∈ aggregates, aggregate.IsTotal → j ∉ aggregate.tupleIndexes) →
        delta.elem j = newV.elem j) ∧
      EveryTurn (fun aggregate size => aggregate.sizeAfter size ≤ delta.e.length ∧ ∀ i ∈ aggregate.tupleIndexes,
        delta.elem i = aggregate.deltaEffect ofInt truncate oldV size newV.elem i) aggregates newV.e.length := by
  induction aggregates generalizing newV with
  | nil => exact ⟨newV, rfl, le_rfl, fun _ _ => rfl, trivial⟩
  | cons aggregate rest ih =>
      obtain ⟨here, later⟩ := List.pairwise_cons.mp apart
      obtain ⟨oldSum, newSum⟩ := sums aggregate List.mem_cons_self
      obtain ⟨next, done, length, elements⟩ := Aggregate.updateFromDelta_spec ofInt truncate oldSum newSum emits.1
      have grows : newV.e.length ≤ next.e.length := length ▸ aggregate.le_sizeAfter _
      have untouched (other : Aggregate) (member : other ∈ rest) (j : ℕ) (index : j ∈ other.tupleIndexes) :
          next.elem j = newV.elem j := by
        rw [elements]
        exact deltaEffect_of_not_mem ofInt truncate fun total own => here other member j own index |>.1 total
      obtain ⟨delta, restDone, restGrows, kept, turns⟩ := @ih next later
        (fun other member => ⟨(sums other (List.mem_cons_of_mem _ member)).1,
          (sums other (List.mem_cons_of_mem _ member)).2.mono grows⟩) (by rw [length]; exact emits.2)
      refine ⟨delta, ?_, grows.trans restGrows, ?_, ⟨length ▸ restGrows, ?_⟩, ?_⟩
      · rw [updateFromDelta, List.foldlM_cons, done]
        exact restDone
      · intro j outside
        rw [kept j fun other member => outside other (List.mem_cons_of_mem _ member), elements]
        exact deltaEffect_of_not_mem ofInt truncate (outside aggregate List.mem_cons_self)
      · intro i index
        rw [← elements]
        exact kept i fun other member total shared => (here other member i index shared).2 total
      · rw [length] at turns
        refine turns.imp fun other member size _ turn => ⟨turn.1, fun i index => ?_⟩
        rw [turn.2 i index]
        exact deltaEffect_congr ofInt truncate (untouched other member) i index

theorem updateFromDelta_eq_none
    (sums : ∀ aggregate ∈ aggregates, aggregate.HasSum oldV.e.length ∧ aggregate.HasSum newV.e.length)
    (silent : ¬ EveryTurn (fun aggregate => aggregate.Emits oldV) aggregates newV.e.length) :
    updateFromDelta ofInt truncate aggregates newV oldV = none := by
  induction aggregates generalizing newV with
  | nil => exact absurd trivial silent
  | cons aggregate rest ih =>
      rw [updateFromDelta, List.foldlM_cons]
      by_cases emits : aggregate.Emits oldV newV.e.length
      · obtain ⟨oldSum, newSum⟩ := sums aggregate List.mem_cons_self
        obtain ⟨next, done, length, -⟩ := Aggregate.updateFromDelta_spec ofInt truncate oldSum newSum emits
        have grows : newV.e.length ≤ next.e.length := length ▸ aggregate.le_sizeAfter _
        rw [done]
        refine @ih next (fun other member => ?_) fun turns => silent ⟨emits, length ▸ turns⟩
        have both := sums other (List.mem_cons_of_mem _ member)
        exact ⟨both.1, both.2.mono grows⟩
      · rw [Aggregate.updateFromDelta_eq_none ofInt truncate emits]
        rfl

end Cube

namespace Aggregate

variable {D : Type} [Zero D] [Sub D] [LinearOrder D] (ofInt : ℤ → D) (truncate round : D → ℤ)

/-- This is what the tuple's element adds to the stored sum. -/
def storedSum (e : Element D) : ℤ := (sumValue round e).getD 0

/-- This is the row of the rewritten tuple. -/
def deltaRow (oldV newV : Tuple D) : Aggregate → ℕ → List (CellValue D)
  | .count index, size =>
      [.int ((if index < size then (newV.elem index).iVal.getD 0 else 1) - countOf index oldV)]
  | .avg sum number _, _ =>
      [.int (storedSum round (subtractSum ofInt truncate (oldV.elem sum) (newV.elem sum))),
        .int ((newV.elem number).iVal.getD 0 - (oldV.elem number).iVal.getD 0)]
  | .minInt index, _ => [.int ((newV.elem index).iVal.getD 0)]
  | .minDouble index, _ => [.double ((newV.elem index).dVal.getD 0)]
  | .minTime index, _ => [.time ((newV.elem index).tVal.getD 0)]
  | .string index, _ => [.string ((newV.elem index).sVal.getD [])]

/-- The old contribution to a total is replaced by the new one, and other columns take the new value. -/
def replaced (oldV newV : Tuple D) : Aggregate → List (CellValue D) → List (CellValue D)
  | .count index, [.int items] => [.int (items - countOf index oldV + countOf index newV)]
  | .avg sum number _, [.int total, .int items] =>
      [.int (total - storedSum round (oldV.elem sum) + storedSum round (newV.elem sum)),
        .int (items - countOf number oldV + countOf number newV)]
  | aggregate, stored => aggregate.updateOnInsert stored (aggregate.row round newV)

/-- The columns of a total hold numbers. -/
def Holds : Aggregate → List (CellValue D) → Prop
  | .count _, stored => ∃ items, stored = [.int items]
  | .avg _ _ _, stored => ∃ total items, stored = [.int total, .int items]
  | .minInt _, _ | .minDouble _, _ | .minTime _, _ | .string _, _ => True

/-- The new sum reaches the column through the encoding from which the old sum was taken. -/
def SumReplaces (old new : Element D) : Prop :=
  match new.iVal, new.dVal with
  | some _, some _ => storedSum round old = 0
  | some _, none => truncate (oldSum ofInt old) = storedSum round old
  | none, some value => round (value - oldSum ofInt old) = round value - storedSum round old
  | none, none => True

/-- A missing count stands for one item as long as no other aggregate has added its element, and an average needs
both counts. -/
def Replaces (oldV newV : Tuple D) : Aggregate → ℕ → Prop
  | .count index, size => index < newV.e.length ∨ size ≤ index ∧ countOf index oldV ≤ 1
  | .avg sum number _, _ =>
      number < oldV.e.length ∧ number < newV.e.length ∧
        SumReplaces ofInt truncate round (oldV.elem sum) (newV.elem sum)
  | .minInt _, _ | .minDouble _, _ | .minTime _, _ | .string _, _ => True

omit [Sub D] [LinearOrder D] in
theorem isSome_sumValue_of_accepts {sum number : ℕ} {distinct : sum ≠ number} {t : Tuple D}
    (accepted : (avg sum number distinct).Accepts round t) : (sumValue round (t.elem sum)).isSome := by
  by_contra missing
  rw [Option.not_isSome_iff_eq_none] at missing
  by_cases given : number < t.e.length <;> simp [Accepts, setValueForInsertTuple, given, missing] at accepted

omit [Zero D] [LinearOrder D] in
theorem isSome_sumValue_subtractSum (old : Element D) {new : Element D} (given : (sumValue round new).isSome) :
    (sumValue round (subtractSum ofInt truncate old new)).isSome := by
  cases whole : new.iVal <;> cases double : new.dVal <;> simp_all [subtractSum, sumValue]

omit [Sub D] [LinearOrder D] in
theorem hasSum_of_accepts {aggregate : Aggregate} {t : Tuple D} (accepted : aggregate.Accepts round t) :
    aggregate.HasSum t.e.length := by
  cases aggregate with
  | avg sum number distinct => exact present_of_avg round accepted
  | count _ | minInt _ | minDouble _ | minTime _ | string _ => trivial

omit [Zero D] [LinearOrder D] in
theorem Replaces.emits {aggregate : Aggregate} {oldV newV : Tuple D} {size : ℕ} (grown : newV.e.length ≤ size)
    (replaces : Replaces ofInt truncate round oldV newV aggregate size) : aggregate.Emits oldV size := by
  cases aggregate with
  | count index => exact replaces.imp (fun given => given.trans_le grown) And.right
  | avg sum number distinct => exact ⟨replaces.1, replaces.2.1.trans_le grown⟩
  | minInt _ | minDouble _ | minTime _ | string _ => trivial

omit [Zero D] [LinearOrder D] in
/-- The rewritten sum is inserted as the difference exactly when the encodings fit. -/
theorem storedSum_subtractSum_iff {old new : Element D} (given : (sumValue round new).isSome) :
    storedSum round (subtractSum ofInt truncate old new) = storedSum round new - storedSum round old ↔
      SumReplaces ofInt truncate round old new := by
  rw [SumReplaces]
  cases whole : new.iVal with
  | some i =>
      cases double : new.dVal with
      | some d =>
          simp only [storedSum, subtractSum, double, sumValue, whole, Option.getD_some]
          omega
      | none =>
          simp only [storedSum, subtractSum, double, sumValue, whole, Option.getD_some]
          omega
  | none =>
      cases double : new.dVal with
      | some d => simp only [storedSum, subtractSum, double, sumValue, whole, Option.getD_some]
      | none => simp [sumValue, whole, double] at given

variable {oldV newV delta : Tuple D} {aggregate : Aggregate} {size : ℕ}

omit [LinearOrder D] in
/-- The rewritten tuple is accepted, and it has the row of the differences. -/
theorem setValueForInsertTuple_delta (accepted : aggregate.Accepts round newV) (emits : aggregate.Emits oldV size)
    (longer : newV.e.length ≤ delta.e.length) (fits : aggregate.sizeAfter size ≤ delta.e.length)
    (elements : ∀ i ∈ aggregate.tupleIndexes,
      delta.elem i = aggregate.deltaEffect ofInt truncate oldV size newV.elem i) :
    aggregate.setValueForInsertTuple round delta = some (deltaRow ofInt truncate round oldV newV aggregate size) := by
  cases aggregate with
  | count index =>
      have inside : index < delta.e.length := (le_max_right _ _).trans fits
      have here := elements index List.mem_cons_self
      simp only [deltaEffect, Function.update_self] at here
      rw [setValueForInsertTuple, if_pos inside, here, deltaRow]
      by_cases given : index < size <;> simp [given, subtractCount]
  | avg sum number distinct =>
      have sumInside := (present_of_avg round accepted).trans_le longer
      have numberInside : number < delta.e.length := emits.2.trans_le fits
      have total := elements sum (by simp [tupleIndexes])
      have items := elements number (by simp [tupleIndexes])
      simp only [deltaEffect, Function.update_of_ne distinct, Function.update_self] at total items
      have some_sum : (sumValue round (newV.elem sum)).isSome := isSome_sumValue_of_accepts round accepted
      obtain ⟨value, found⟩ := Option.isSome_iff_exists.mp
        (isSome_sumValue_subtractSum ofInt truncate round (oldV.elem sum) some_sum)
      simp [setValueForInsertTuple, numberInside, sumInside, total, items, deltaRow, storedSum, found, subtractCount]
  | minInt index | minDouble index | minTime index | string index =>
      rw [Accepts, setValueForInsertTuple] at accepted
      have inside := (present_of_simpleValue accepted).trans_le longer
      have same : delta.elem index = newV.elem index := elements index List.mem_cons_self
      simp [setValueForInsertTuple, simpleValue, inside, same, deltaRow]

/-- The saved columns replace the old contribution exactly when the delta is encoded as it is read. -/
theorem updateOnInsert_deltaRow_iff {stored : List (CellValue D)} (acceptedOld : aggregate.Accepts round oldV)
    (acceptedNew : aggregate.Accepts round newV) (emits : aggregate.Emits oldV size) (longer : newV.e.length ≤ size)
    (holds : aggregate.Holds stored) :
    aggregate.updateOnInsert stored (deltaRow ofInt truncate round oldV newV aggregate size) =
        replaced round oldV newV aggregate stored ↔
      Replaces ofInt truncate round oldV newV aggregate size := by
  cases aggregate with
  | count index =>
      obtain ⟨items, rfl⟩ := holds
      simp only [deltaRow, updateOnInsert, replaced, Replaces, List.cons.injEq, CellValue.int.injEq, and_true]
      by_cases given : index < newV.e.length
      · rw [if_pos (given.trans_le longer), countOf_given given]
        omega
      · rw [elem_of_missing given, countOf_missing given]
        by_cases added : index < size
        · rw [if_pos added]
          simp only [Option.getD_none]
          omega
        · have few := emits.resolve_left added
          rw [if_neg added]
          omega
  | avg sum number distinct =>
      obtain ⟨total, items, rfl⟩ := holds
      have some_sum : (sumValue round (newV.elem sum)).isSome := isSome_sumValue_of_accepts round acceptedNew
      simp only [deltaRow, updateOnInsert, replaced, Replaces, List.cons.injEq, CellValue.int.injEq, and_true]
      rw [← storedSum_subtractSum_iff ofInt truncate round some_sum, countOf_given emits.1]
      by_cases given : number < newV.e.length
      · rw [countOf_given given]
        have oldGiven := emits.1
        omega
      · rw [elem_of_missing given, countOf_missing given]
        simp only [Option.getD_none]
        omega
  | minInt index | minDouble index | minTime index | string index =>
      exact iff_true_intro (by cases stored <;> rfl)

end Aggregate

section Cube

open Aggregate

variable {D : Type} [Zero D] [Sub D] [LinearOrder D] (ofInt : ℤ → D) (truncate round : D → ℤ)
  {aggregates : List Aggregate} {oldV newV delta : Tuple D}

/-- Every count and average of the cell replaces the old contribution by the new one. -/
def replacedColumns (aggregates : List Aggregate) (stored : List (List (CellValue D))) (oldV newV : Tuple D) :
    List (List (CellValue D)) :=
  (aggregates.zip stored).map fun (aggregate, columns) => replaced round oldV newV aggregate columns

/-- The rewritten tuple is saved, column by column. -/
theorem saveColumns_delta_iff {stored : List (List (CellValue D))} (holds : List.Forall₂ Aggregate.Holds aggregates stored)
    (acceptedOld : ∀ aggregate ∈ aggregates, aggregate.Accepts round oldV)
    (acceptedNew : ∀ aggregate ∈ aggregates, aggregate.Accepts round newV) {size : ℕ} (grown : newV.e.length ≤ size)
    (longer : newV.e.length ≤ delta.e.length)
    (emits : EveryTurn (fun aggregate => aggregate.Emits oldV) aggregates size)
    (turns : EveryTurn (fun aggregate size => aggregate.sizeAfter size ≤ delta.e.length ∧
      ∀ i ∈ aggregate.tupleIndexes, delta.elem i = aggregate.deltaEffect ofInt truncate oldV size newV.elem i)
      aggregates size) :
    saveColumns round aggregates stored delta = some (replacedColumns round aggregates stored oldV newV) ↔
      EveryTurn (Replaces ofInt truncate round oldV newV) aggregates size := by
  induction holds generalizing size with
  | nil => simp [saveColumns, replacedColumns, EveryTurn]
  | @cons aggregate columns rest others here _ ih =>
      have inserted := setValueForInsertTuple_delta ofInt truncate round (acceptedNew aggregate List.mem_cons_self)
        emits.1 longer turns.1.1 turns.1.2
      have first := updateOnInsert_deltaRow_iff ofInt truncate round (acceptedOld aggregate List.mem_cons_self)
        (acceptedNew aggregate List.mem_cons_self) emits.1 grown here
      have later := ih (fun other member => acceptedOld other (List.mem_cons_of_mem _ member))
        (fun other member => acceptedNew other (List.mem_cons_of_mem _ member))
        (grown.trans (aggregate.le_sizeAfter size)) emits.2 turns.2
      rw [EveryTurn, ← first, ← later, saveColumns, saveColumns, List.mapM_cons, inserted]
      cases rows : rest.mapM fun aggregate => aggregate.setValueForInsertTuple round delta with
      | none => simp
      | some row => simp [replacedColumns]

/-- For a cube whose counts and averages have elements of their own, processing a delta replaces the old contribution
to every total by the new one exactly when each of them finds the elements and the encodings that it expects. -/
theorem processDelta_replaces_iff {stored : List (List (CellValue D))} (apart : aggregates.Pairwise Apart)
    (holds : List.Forall₂ Aggregate.Holds aggregates stored)
    (acceptedOld : ∀ aggregate ∈ aggregates, aggregate.Accepts round oldV)
    (acceptedNew : ∀ aggregate ∈ aggregates, aggregate.Accepts round newV) :
    processDelta ofInt truncate round aggregates stored oldV newV =
        some (replacedColumns round aggregates stored oldV newV) ↔
      EveryTurn (Replaces ofInt truncate round oldV newV) aggregates newV.e.length := by
  have sums (aggregate : Aggregate) (member : aggregate ∈ aggregates) :
      aggregate.HasSum oldV.e.length ∧ aggregate.HasSum newV.e.length :=
    ⟨hasSum_of_accepts round (acceptedOld aggregate member), hasSum_of_accepts round (acceptedNew aggregate member)⟩
  by_cases emits : EveryTurn (fun aggregate => aggregate.Emits oldV) aggregates newV.e.length
  · obtain ⟨delta, rewritten, longer, -, turns⟩ := updateFromDelta_spec ofInt truncate apart sums emits
    rw [processDelta, rewritten, Option.bind_some]
    exact saveColumns_delta_iff ofInt truncate round holds acceptedOld acceptedNew le_rfl longer emits turns
  · rw [processDelta, updateFromDelta_eq_none ofInt truncate sums emits]
    refine iff_of_false (by simp) fun turns => emits (turns.imp fun aggregate _ size grown replaces => ?_)
    exact replaces.emits ofInt truncate round grown

/-- A conversion to `int` drops the fraction. -/
def truncateRat (value : ℚ) : ℤ := value.num.tdiv value.den

/-- A source tuple without the count is replaced by one with a larger sum. -/
theorem processDelta_replaces_source :
    processDelta (Int.cast : ℤ → ℚ) truncateRat Printing.roundHalfEven [.count 2, .avg 0 1 (by decide)]
        [[.int 4], [.int 9, .int 3]] ⟨[{ iVal := some 5 }, { iVal := some 1 }]⟩
        ⟨[{ iVal := some 7 }, { iVal := some 2 }]⟩ =
      some (replacedColumns Printing.roundHalfEven [.count 2, .avg 0 1 (by decide)] [[.int 4], [.int 9, .int 3]]
        ⟨[{ iVal := some 5 }, { iVal := some 1 }]⟩ ⟨[{ iVal := some 7 }, { iVal := some 2 }]⟩) := by
  refine (processDelta_replaces_iff _ _ _ ?_ ?_ ?_ ?_).mpr ?_
  · simp [Apart, tupleIndexes]
  · exact .cons ⟨4, rfl⟩ (.cons ⟨9, 3, rfl⟩ .nil)
  · simp [Accepts, setValueForInsertTuple, sumValue, Tuple.elem]
  · simp [Accepts, setValueForInsertTuple, sumValue, Tuple.elem]
  · simp [EveryTurn, Replaces, SumReplaces, Tuple.elem, oldSum, storedSum, sumValue, countOf, truncateRat]

/-- A tuple that was read back from the cube has both encodings of the sum, and its whole sum is added again. -/
theorem processDelta_adds_populated_sum :
    processDelta (Int.cast : ℤ → ℚ) truncateRat Printing.roundHalfEven [.avg 0 1 (by decide)] [[.int 5, .int 1]]
        ⟨[{ iVal := some 5 }, { iVal := some 1 }]⟩ ⟨(avg 0 1 (by decide)).elements [.int 7, .int 2]⟩ =
      some [[.int 12, .int 2]] ∧
    replacedColumns Printing.roundHalfEven [.avg 0 1 (by decide)] [[.int 5, .int 1]]
        ⟨[{ iVal := some 5 }, { iVal := some 1 }]⟩ ⟨(avg 0 1 (by decide)).elements [.int 7, .int 2]⟩ =
      [[.int 7, .int 2]] := by
  constructor
  · rfl
  · rfl

end Cube

end JetStream
