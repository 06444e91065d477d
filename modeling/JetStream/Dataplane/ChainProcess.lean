import Mathlib.Data.List.ReduceOption
import Mathlib.Data.Nat.Notation

namespace JetStream

/-- A member after the source works on each tuple, and may drop it, or filters the tuples. -/
inductive DataMember (T : Type) where
  | each (processOne : T → Option T)
  | filter (shouldEmit : T → Bool)

namespace DataMember

variable {T : Type}

def isFilter : DataMember T → Bool
  | .each _ => false
  | .filter _ => true

/-- This is what the member makes of one tuple. -/
def apply : DataMember T → T → Option T
  | .each processOne, tuple => processOne tuple
  | .filter shouldEmit, tuple => if shouldEmit tuple then some tuple else none

/-- A dropped tuple leaves a null in its place, and nulls are passed over. -/
def eachProcess (processOne : T → Option T) (tuples : List (Option T)) : List (Option T) :=
  tuples.map fun tuple => tuple.bind processOne

/-- The loop moves the emitted tuples to the front, and fails where it would dereference a null. -/
def filterLoop (shouldEmit : T → Bool) : ℕ → ℕ → ℕ → List (Option T) → Option (ℕ × List (Option T))
  | 0, _, outIdx, tuples => some (outIdx, tuples)
  | remaining + 1, i, outIdx, tuples =>
      match tuples[i]? with
      | some (some tuple) =>
          if shouldEmit tuple then filterLoop shouldEmit remaining (i + 1) (outIdx + 1) (tuples.set outIdx (some tuple))
          else filterLoop shouldEmit remaining (i + 1) outIdx tuples
      | _ => none

/-- The vector is cut behind the last emitted tuple. -/
def filterProcess (shouldEmit : T → Bool) (tuples : List (Option T)) : Option (List (Option T)) :=
  (filterLoop shouldEmit tuples.length 0 0 tuples).map fun (outIdx, tuples) => tuples.take outIdx

def process : DataMember T → List (Option T) → Option (List (Option T))
  | .each processOne, tuples => some (eachProcess processOne tuples)
  | .filter shouldEmit, tuples => filterProcess shouldEmit tuples

/-- The chain hands the same vector to one member after the other. -/
def processAll (members : List (DataMember T)) (tuples : List (Option T)) : Option (List (Option T)) :=
  members.foldlM (fun tuples member => member.process tuples) tuples

/-- The members' partial functions are applied one after the other. -/
def compose : List (DataMember T) → T → Option T
  | [], tuple => some tuple
  | member :: members, tuple => (member.apply tuple).bind (compose members)

/-- These members still come when the tuple has become null. -/
def afterNull : List (DataMember T) → Option T → Option (List (DataMember T))
  | members, none => some members
  | [], some _ => none
  | .each processOne :: members, some tuple => afterNull members (processOne tuple)
  | .filter shouldEmit :: members, some tuple => if shouldEmit tuple then afterNull members (some tuple) else none

/-- No filter comes after a member that has dropped a tuple of the vector. -/
def NoFilterAfterNull (members : List (DataMember T)) (tuples : List (Option T)) : Prop :=
  ∀ tuple ∈ tuples, ∀ rest ∈ afterNull members tuple, ∀ member ∈ rest, member.isFilter = false

theorem getElem?_after (kept passed : List (Option T)) (tuple : Option T) (rest : List (Option T)) :
    (kept ++ passed ++ tuple :: rest)[kept.length + passed.length]? = some tuple := by
  rw [← List.length_append]
  simp

/-- The write of an emitted tuple goes behind the kept ones and reaches none that is still to come. -/
theorem set_kept (kept passed : List (Option T)) (tuple : Option T) (rest : List (Option T)) :
    ∃ passed', passed'.length = passed.length ∧
      (kept ++ passed ++ tuple :: rest).set kept.length tuple = kept ++ [tuple] ++ passed' ++ rest := by
  cases passed with
  | nil => exact ⟨[], rfl, by simp⟩
  | cons first passed => exact ⟨passed ++ [tuple], by simp, by simp⟩

/-- The loop leaves what it has kept before the tuples that are still to come. -/
theorem filterLoop_some (shouldEmit : T → Bool) (tuples : List T) (kept passed : List (Option T)) :
    ∃ passed', filterLoop shouldEmit tuples.length (kept.length + passed.length) kept.length
        (kept ++ passed ++ tuples.map some) =
      some (kept.length + (tuples.filter shouldEmit).length,
        kept ++ (tuples.filter shouldEmit).map some ++ passed') := by
  induction tuples generalizing kept passed with
  | nil => exact ⟨passed, by simp [filterLoop]⟩
  | cons tuple tuples ih =>
      rw [List.map_cons, List.length_cons, filterLoop, getElem?_after]
      dsimp only
      by_cases emitted : shouldEmit tuple
      · obtain ⟨passed', length, written⟩ := set_kept kept passed (some tuple) (tuples.map some)
        obtain ⟨passed'', looped⟩ := ih (kept ++ [some tuple]) passed'
        have place : (kept ++ [some tuple]).length + passed'.length = kept.length + passed.length + 1 := by
          rw [List.length_append, length, List.length_singleton, Nat.add_right_comm]
        refine ⟨passed'', ?_⟩
        rw [if_pos emitted, written, List.filter_cons_of_pos emitted]
        rw [place, List.length_append, List.length_singleton] at looped
        rw [looped]
        simp [Nat.add_assoc, Nat.add_comm 1]
      · obtain ⟨passed', looped⟩ := ih kept (passed ++ [some tuple])
        refine ⟨passed', ?_⟩
        rw [if_neg emitted, List.filter_cons_of_neg emitted]
        rw [List.length_append, List.length_singleton, ← Nat.add_assoc, ← List.append_assoc] at looped
        rw [← looped]
        simp

/-- The loop fails at the first null. -/
theorem filterLoop_null (shouldEmit : T → Bool) (tuples : List (Option T)) (null : none ∈ tuples)
    (kept passed : List (Option T)) :
    filterLoop shouldEmit tuples.length (kept.length + passed.length) kept.length (kept ++ passed ++ tuples) = none := by
  induction tuples generalizing kept passed with
  | nil => cases null
  | cons tuple tuples ih =>
      rw [List.length_cons, filterLoop, getElem?_after]
      cases tuple with
      | none => rfl
      | some tuple =>
          have later : none ∈ tuples := by simpa using null
          dsimp only
          by_cases emitted : shouldEmit tuple
          · obtain ⟨passed', length, written⟩ := set_kept kept passed (some tuple) tuples
            have looped := ih later (kept ++ [some tuple]) passed'
            rw [List.length_append, List.length_singleton, length, Nat.add_right_comm] at looped
            rw [if_pos emitted, written, looped]
          · have looped := ih later kept (passed ++ [some tuple])
            rw [List.length_append, List.length_singleton, ← Nat.add_assoc, ← List.append_assoc] at looped
            rw [if_neg emitted]
            rw [List.append_assoc, List.singleton_append] at looped
            exact looped

theorem filterProcess_some (shouldEmit : T → Bool) (tuples : List T) :
    filterProcess shouldEmit (tuples.map some) = some ((tuples.filter shouldEmit).map some) := by
  obtain ⟨passed, looped⟩ := filterLoop_some shouldEmit tuples [] []
  simp only [List.length_nil, Nat.zero_add, List.nil_append] at looped
  rw [filterProcess, List.length_map, looped]
  simp

theorem filterProcess_null (shouldEmit : T → Bool) {tuples : List (Option T)} (null : none ∈ tuples) :
    filterProcess shouldEmit tuples = none := by
  have looped := filterLoop_null shouldEmit tuples null [] []
  simp only [List.length_nil, Nat.zero_add, List.nil_append] at looped
  rw [filterProcess, looped, Option.map_none]

theorem eq_map_some_of_not_null {tuples : List (Option T)} (full : none ∉ tuples) :
    tuples = tuples.reduceOption.map some := by
  induction tuples with
  | nil => rfl
  | cons tuple tuples ih =>
      rw [List.mem_cons, not_or] at full
      cases tuple with
      | none => exact absurd rfl full.1
      | some tuple => rw [List.reduceOption_cons_of_some, List.map_cons, ← ih full.2]

theorem reduceOption_map_some (tuples : List T) : (tuples.map some).reduceOption = tuples := by
  simp [List.reduceOption]

theorem eachProcess_reduceOption (processOne : T → Option T) (tuples : List (Option T)) :
    (eachProcess processOne tuples).reduceOption = tuples.reduceOption.filterMap processOne := by
  unfold eachProcess List.reduceOption
  rw [List.filterMap_map, List.filterMap_filterMap]
  rfl

theorem filterMap_compose_cons (member : DataMember T) (members : List (DataMember T)) (tuples : List T) :
    tuples.filterMap (compose (member :: members)) = (tuples.filterMap member.apply).filterMap (compose members) :=
  List.filterMap_filterMap.symm

theorem filterMap_apply_filter (shouldEmit : T → Bool) (tuples : List T) :
    tuples.filterMap (apply (.filter shouldEmit)) = tuples.filter shouldEmit := by
  rw [← List.filterMap_eq_filter]
  rfl

theorem afterNull_none (members : List (DataMember T)) : afterNull members none = some members := by
  cases members <;> rfl

/-- A dropped tuple meets the members after the one that dropped it. -/
theorem noFilterAfterNull_each (processOne : T → Option T) (members : List (DataMember T))
    (tuples : List (Option T)) :
    NoFilterAfterNull (.each processOne :: members) tuples ↔
      NoFilterAfterNull members (eachProcess processOne tuples) := by
  unfold NoFilterAfterNull eachProcess
  rw [List.forall_mem_map]
  apply forall₂_congr
  intro tuple _
  cases tuple with
  | none => simp [afterNull_none, isFilter]
  | some tuple => rfl

theorem noFilterAfterNull_filter (shouldEmit : T → Bool) (members : List (DataMember T)) (tuples : List T) :
    NoFilterAfterNull (.filter shouldEmit :: members) (tuples.map some) ↔
      NoFilterAfterNull members ((tuples.filter shouldEmit).map some) := by
  unfold NoFilterAfterNull
  rw [List.forall_mem_map, List.forall_mem_map]
  simp only [List.mem_filter, afterNull]
  constructor
  · intro none tuple present rest found
    exact none tuple present.1 rest (by rwa [if_pos present.2])
  · intro none tuple present rest found
    by_cases emitted : shouldEmit tuple
    · rw [if_pos emitted] at found
      exact none tuple ⟨present, emitted⟩ rest found
    · rw [if_neg emitted] at found
      cases found

theorem not_noFilterAfterNull (shouldEmit : T → Bool) (members : List (DataMember T)) {tuples : List (Option T)}
    (null : none ∈ tuples) : ¬ NoFilterAfterNull (.filter shouldEmit :: members) tuples := by
  intro noFilter
  have isEach := noFilter none null _ (afterNull_none _) _ List.mem_cons_self
  cases isEach

/-- The chain runs through with the composed results exactly when no filter comes after a dropped tuple. -/
theorem chain_composes_iff (members : List (DataMember T)) (tuples : List (Option T)) :
    (∃ result, processAll members tuples = some result ∧
        result.reduceOption = tuples.reduceOption.filterMap (compose members)) ↔
      NoFilterAfterNull members tuples := by
  induction members generalizing tuples with
  | nil =>
      apply iff_of_true
      · refine ⟨tuples, rfl, ?_⟩
        rw [show compose ([] : List (DataMember T)) = some from rfl, List.filterMap_some]
      · intro tuple present rest found member isMember
        cases tuple with
        | none =>
            obtain rfl := Option.some.inj found
            cases isMember
        | some tuple => cases found
  | cons member members ih =>
      rw [filterMap_compose_cons, processAll, List.foldlM_cons]
      cases member with
      | each processOne =>
          rw [noFilterAfterNull_each, ← ih, eachProcess_reduceOption]
          rfl
      | filter shouldEmit =>
          by_cases null : none ∈ tuples
          · apply iff_of_false _ (not_noFilterAfterNull shouldEmit members null)
            intro found
            obtain ⟨result, processed, -⟩ := found
            rw [process, filterProcess_null shouldEmit null] at processed
            cases processed
          · rw [eq_map_some_of_not_null null, noFilterAfterNull_filter, ← ih, process, filterProcess_some,
              filterMap_apply_filter, reduceOption_map_some, reduceOption_map_some]
            rfl

/-- A parser that drops odd numbers may come after a filter, but not before it. -/
def halves : DataMember ℕ := .each fun number => if number % 2 = 0 then some (number / 2) else none

def small : DataMember ℕ := .filter fun number => number < 10

/-- The filter dereferences the tuple that the member before it has dropped. -/
theorem chain_fails_halves_small : processAll [halves, small] [some 4, some 3] = none := by decide

end DataMember

end JetStream
