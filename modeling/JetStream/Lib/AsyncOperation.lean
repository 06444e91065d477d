import Mathlib.Data.List.Basic

/-- An asynchronous operation is not started, under way, completed with a handler that waits to run, or handled. -/
inductive AsyncOp (R : Type) where
  | idle
  | pending
  | queued (result : R)
  | handled (result : R)
  deriving DecidableEq

namespace AsyncOp

variable {R : Type}

/-- An operation under way completes, and its handler is queued with the result. -/
def complete (op : AsyncOp R) (result : R) : Option (AsyncOp R) :=
  match op with
  | .pending => some (.queued result)
  | _ => none

/-- A completed operation cannot be cancelled any more. -/
def cancel (op : AsyncOp R) (aborted : R) : AsyncOp R :=
  match op with
  | .pending => .queued aborted
  | op => op

/-- The handler runs once, with the result. -/
def handle (op : AsyncOp R) : Option (R × AsyncOp R) :=
  match op with
  | .queued result => some (result, .handled result)
  | _ => none

/-- The handler of the operation has not run yet. -/
def unfinished : AsyncOp R → Bool
  | .pending => true
  | .queued _ => true
  | _ => false

/-- A completed operation has a result. -/
def result? : AsyncOp R → Option R
  | .queued result => some result
  | .handled result => some result
  | _ => none

theorem queued_ne_pending (result : R) : queued result ≠ pending := by simp

theorem handled_ne_pending (result : R) : handled result ≠ pending := by simp

theorem pending_ne_handled (result : R) : (pending : AsyncOp R) ≠ handled result := by simp

theorem queued_ne_handled (first second : R) : queued first ≠ handled second := by simp

@[simp] theorem cancel_pending (aborted : R) : (pending : AsyncOp R).cancel aborted = .queued aborted := rfl

@[simp] theorem cancel_queued (result aborted : R) : (queued result).cancel aborted = .queued result := rfl

@[simp] theorem cancel_handled (result aborted : R) : (handled result).cancel aborted = .handled result := rfl

theorem complete_eq_some {op next : AsyncOp R} {result : R} :
    op.complete result = some next ↔ op = .pending ∧ next = .queued result := by
  cases op <;> simp [complete, eq_comm]

theorem handle_eq_some {op next : AsyncOp R} {result : R} :
    op.handle = some (result, next) ↔ op = .queued result ∧ next = .handled result := by
  cases op with
  | queued other =>
      simp only [handle, Option.some.injEq, Prod.mk.injEq, queued.injEq]
      constructor
      · rintro ⟨rfl, rfl⟩
        exact ⟨rfl, rfl⟩
      · rintro ⟨rfl, rfl⟩
        exact ⟨rfl, rfl⟩
  | _ => simp [handle]

section OneByOne

variable {results : List R} {current : Option (AsyncOp R)}

/-- Only the current operation is not handled. -/
theorem current_of_unfinished {number : ℕ} {op : AsyncOp R}
    (read : (results.map handled ++ current.toList)[number]? = some op) (unfinished : ∀ result, op ≠ handled result) :
    number = results.length ∧ current = some op := by
  by_cases old : number < results.length
  · rw [List.getElem?_append_left (by rwa [List.length_map]), List.getElem?_map] at read
    obtain ⟨result, -, rfl⟩ := Option.map_eq_some_iff.mp read
    exact absurd rfl (unfinished result)
  · rw [List.getElem?_append_right (by rw [List.length_map]; omega), List.length_map] at read
    cases current with
    | none => cases read
    | some last =>
        have zero : number - results.length = 0 := Nat.lt_one_iff.mp (List.getElem?_eq_some_iff.mp read).1
        rw [zero] at read
        exact ⟨by omega, read⟩

theorem set_current (results : List R) (old op : AsyncOp R) :
    (results.map handled ++ [old]).set results.length op = results.map handled ++ [op] := by
  rw [List.set_append_right _ _ (Nat.le_of_eq (List.length_map _)), List.length_map, Nat.sub_self]
  rfl

/-- The current operation joins the handled ones. -/
theorem handled_append (results : List R) (result : R) :
    results.map handled ++ [handled result] =
      (results ++ [result]).map handled ++ (none : Option (AsyncOp R)).toList := by
  rw [List.map_append, Option.toList_none, List.append_nil]
  rfl

/-- A cancellation changes the current operation only. -/
theorem map_cancel (results : List R) (current : Option (AsyncOp R)) (aborted : R) :
    (results.map handled ++ current.toList).map (·.cancel aborted) =
      results.map handled ++ (current.map (·.cancel aborted)).toList := by
  have kept : (results.map handled).map (·.cancel aborted) = results.map handled := by
    rw [List.map_map]
    rfl
  rw [List.map_append, kept]
  cases current <;> rfl

theorem filter_unfinished (results : List R) (current : Option (AsyncOp R)) :
    (results.map handled ++ current.toList).filter unfinished = current.toList.filter unfinished := by
  have finished : (results.map handled).filter unfinished = [] := by
    rw [List.filter_eq_nil_iff]
    intro op member
    obtain ⟨result, -, rfl⟩ := List.mem_map.mp member
    exact Bool.false_ne_true
  rw [List.filter_append, finished, List.nil_append]

/-- At most one operation is not handled. -/
theorem length_filter_unfinished (results : List R) (current : Option (AsyncOp R)) :
    ((results.map handled ++ current.toList).filter unfinished).length ≤ 1 := by
  rw [filter_unfinished]
  refine Nat.le_trans (List.length_filter_le _ _) ?_
  cases current <;> simp

end OneByOne

end AsyncOp
