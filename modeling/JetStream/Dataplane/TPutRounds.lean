import Mathlib.Algebra.Order.Group.Multiset
import Mathlib.Tactic.Abel
import JetStream.Lib.FamilySum
import JetStream.Dataplane.TPut

namespace JetStream

variable {K : Type} {n : ℕ}

section Rounds

variable {msg : DataplaneMessage K} {number responses : ℕ} {downstream : Fin n → List (DataplaneMessage K)}
  {upstream : Fin n → List (Reply K)}

/-- Every predecessor has been asked the same, and the answers that have not been counted are on their way. -/
structure Round (msg : DataplaneMessage K) (number responses : ℕ) (downstream : Fin n → List (DataplaneMessage K))
    (upstream : Fin n → List (Reply K)) : Prop where
  asks : ∀ p, ∀ other ∈ downstream p, other = msg
  answers : ∀ p, ∀ reply ∈ upstream p, reply.round = number
  bounded : responses < 2 ^ 32
  counted : n < 2 ^ 32 → responses + ∑ p, ((downstream p).length + (upstream p).length) = n

/-- Nothing is on its way. -/
def Quiet (downstream : Fin n → List (DataplaneMessage K)) (upstream : Fin n → List (Reply K)) : Prop :=
  ∀ p, downstream p = [] ∧ upstream p = []

/-- A message to every predecessor starts a round. -/
theorem Quiet.round (quiet : Quiet downstream upstream) :
    Round msg number 0 (fun p => downstream p ++ [msg]) upstream where
  asks := by
    intro p other member
    simpa [(quiet p).1] using member
  answers := by
    intro p reply member
    rw [(quiet p).2] at member
    exact absurd member List.not_mem_nil
  bounded := by decide
  counted := by
    intro _
    simp [fun p => (quiet p).1, fun p => (quiet p).2]

/-- The answer takes the place of the message. -/
theorem Round.handle {p : Fin n} {rest : List (DataplaneMessage K)}
    (gathering : Round msg number responses downstream upstream) (front : downstream p = msg :: rest) {reply : Reply K}
    (numbered : reply.round = number) :
    Round msg number responses (Function.update downstream p rest)
      (Function.update upstream p (upstream p ++ [reply])) where
  asks := by
    apply (Function.forall_update_iff downstream fun _ messages => ∀ other ∈ messages, other = msg).mpr
    refine ⟨?_, fun q _ => gathering.asks q⟩
    intro other member
    apply gathering.asks p
    rw [front]
    exact List.mem_cons_of_mem _ member
  answers := by
    apply (Function.forall_update_iff upstream fun _ replies => ∀ answer ∈ replies, answer.round = number).mpr
    refine ⟨?_, fun q _ => gathering.answers q⟩
    intro answer member
    rw [List.mem_append, List.mem_singleton] at member
    rcases member with earlier | rfl
    · exact gathering.answers p answer earlier
    · exact numbered
  bounded := gathering.bounded
  counted := by
    intro fits
    rw [sum_update_members (fun _ (messages : List (DataplaneMessage K)) (replies : List (Reply K)) =>
      messages.length + replies.length) downstream upstream]
    · exact gathering.counted fits
    · rw [front, List.length_append, List.length_singleton, List.length_cons]
      omega

variable {p : Fin n} {reply : Reply K} {rest : List (Reply K)}

/-- A part of an answer leaves its end to come. -/
theorem Round.part (gathering : Round msg number responses downstream upstream) (front : upstream p = reply :: rest)
    (size : ℕ) :
    Round msg number responses downstream
      (Function.update upstream p ({ reply with tuples := reply.tuples.drop size } :: rest)) where
  asks := gathering.asks
  answers := by
    have earlier := gathering.answers p
    rw [front, List.forall_mem_cons] at earlier
    apply (Function.forall_update_iff upstream fun _ replies => ∀ answer ∈ replies, answer.round = number).mpr
    exact ⟨List.forall_mem_cons.mpr earlier, fun q _ => gathering.answers q⟩
  bounded := gathering.bounded
  counted := by
    intro fits
    have sum := sum_update_member
      (fun q (replies : List (Reply K)) => (downstream q).length + replies.length) upstream p
      ({ reply with tuples := reply.tuples.drop size } :: rest)
    have counted := gathering.counted fits
    rw [front, List.length_cons, List.length_cons] at sum
    omega

/-- The end of an answer leaves one fewer to come. -/
theorem Round.sum_whole (gathering : Round msg number responses downstream upstream)
    (front : upstream p = reply :: rest) (fits : n < 2 ^ 32) :
    responses + 1 + ∑ q, ((downstream q).length + (Function.update upstream p rest q).length) = n := by
  have sum := sum_update_member
    (fun q (replies : List (Reply K)) => (downstream q).length + replies.length) upstream p rest
  have counted := gathering.counted fits
  rw [front, List.length_cons] at sum
  omega

/-- After the last answer nothing is on its way. -/
theorem Round.last (gathering : Round msg number responses downstream upstream) (front : upstream p = reply :: rest)
    (all : (responses + 1) % 2 ^ 32 = n) : n < 2 ^ 32 ∧ Quiet downstream (Function.update upstream p rest) := by
  have fits : n < 2 ^ 32 := by
    rw [← all]
    exact Nat.mod_lt _ (by decide)
  have sum := gathering.sum_whole front fits
  have small : responses + 1 < 2 ^ 32 := by omega
  rw [Nat.mod_eq_of_lt small] at all
  have zero : ∑ q, ((downstream q).length + (Function.update upstream p rest q).length) = 0 := by omega
  rw [Finset.sum_eq_zero_iff] at zero
  refine ⟨fits, fun q => ?_⟩
  have none := zero q (Finset.mem_univ q)
  exact ⟨List.eq_nil_of_length_eq_zero (by omega), List.eq_nil_of_length_eq_zero (by omega)⟩

/-- An answer before the last is counted. -/
theorem Round.more (gathering : Round msg number responses downstream upstream) (front : upstream p = reply :: rest) :
    Round msg number ((responses + 1) % 2 ^ 32) downstream (Function.update upstream p rest) where
  asks := gathering.asks
  answers := by
    have earlier := gathering.answers p
    rw [front, List.forall_mem_cons] at earlier
    apply (Function.forall_update_iff upstream fun _ replies => ∀ answer ∈ replies, answer.round = number).mpr
    exact ⟨earlier.2, fun q _ => gathering.answers q⟩
  bounded := Nat.mod_lt _ (by decide)
  counted := by
    intro fits
    have sum := gathering.sum_whole front fits
    rw [Nat.mod_eq_of_lt (by omega)]
    exact sum

end Rounds

/-- A key without reports has no candidate. -/
def candidateOf (key : K) (reported : Multiset ℕ) : Option (CandidateItem K) :=
  if reported = 0 then none else some ⟨reported.sum, reported.card, key⟩

/-- A key without reports has no cell. -/
def cellOf (reported : Multiset ℕ) : Option ℕ := if reported = 0 then none else some reported.sum

theorem reported_ne_zero (reported : Multiset ℕ) (total : ℕ) : reported + {total} ≠ 0 := by
  intro empty
  have card := congrArg Multiset.card empty
  simp at card

theorem candidateOf_add (key : K) (reported : Multiset ℕ) (total : ℕ) :
    candidateOf key (reported + {total}) = some ⟨reported.sum + total, reported.card + 1, key⟩ := by
  rw [candidateOf, if_neg (reported_ne_zero reported total), Multiset.sum_add, Multiset.card_add,
    Multiset.sum_singleton, Multiset.card_singleton, Nat.cast_add]

theorem cellOf_add (reported : Multiset ℕ) (total : ℕ) :
    cellOf (reported + {total}) = some (reported.sum + total) := by
  rw [cellOf, if_neg (reported_ne_zero reported total), Multiset.sum_add, Multiset.sum_singleton]

variable [LinearOrder K]

/-- These totals have been reported for a key. -/
def reports (key : K) (rows : List (K × ℕ)) : Multiset ℕ :=
  ((rows.filter fun row => row.1 = key).map fun row => ({row.2} : Multiset ℕ)).sum

@[simp] theorem reports_nil (key : K) : reports key [] = 0 := rfl

@[simp] theorem reports_append (key : K) (first second : List (K × ℕ)) :
    reports key (first ++ second) = reports key first + reports key second := by
  simp [reports]

/-- A report starts a candidate or joins it. -/
def withReport (row : K × ℕ) : Option (CandidateItem K) → CandidateItem K
  | none => ⟨row.2, 1, row.1⟩
  | some c => { c with val := c.val + row.2, responses := c.responses + 1 }

theorem get?_foldl_addCandidate {candidates : OrderedMap K (CandidateItem K)} {got : K → Multiset ℕ}
    (tracks : ∀ key, candidates.get? key = candidateOf key (got key)) (tuples : List (K × ℕ)) (key : K) :
    (tuples.foldl addCandidate candidates).get? key = candidateOf key (got key + reports key tuples) := by
  have combined : (addCandidate : OrderedMap K (CandidateItem K) → K × ℕ → _) = fun map row =>
      map.set row.1 (withReport row (map.get? row.1)) := by
    funext map row
    rw [addCandidate]
    cases map.get? row.1 with
    | none => rfl
    | some c => rfl
  rw [combined]
  apply OrderedMap.get?_foldl_set Prod.fst (fun row => {row.2}) withReport candidateOf _ tracks
  intro row reported
  rw [candidateOf_add]
  by_cases unseen : reported = 0
  · simp [candidateOf, withReport, unseen]
  · simp [candidateOf, withReport, unseen]

theorem get?_foldl_addToCube {cube : OrderedMap K ℕ} {got : K → Multiset ℕ}
    (tracks : ∀ key, cube.get? key = cellOf (got key)) (tuples : List (K × ℕ)) (key : K) :
    (tuples.foldl addToCube cube).get? key = cellOf (got key + reports key tuples) := by
  apply OrderedMap.get?_foldl_set Prod.fst (fun row => {row.2}) (fun row found => found.getD 0 + row.2)
    (fun _ => cellOf) _ tracks
  intro row reported
  rw [cellOf_add]
  by_cases unseen : reported = 0
  · simp [cellOf, unseen]
  · simp [cellOf, unseen]

section Gathers

variable {sources : Fin n → SourceCube K} {msg : DataplaneMessage K} {downstream : Fin n → List (DataplaneMessage K)}
  {upstream : Fin n → List (Reply K)} {got : K → Multiset ℕ}

/-- These totals are still to be sent for the messages on their way. -/
def asked (source : SourceCube K) (key : K) (messages : List (DataplaneMessage K)) : Multiset ℕ :=
  reports key (messages.flatMap fun msg => (metaFromDownstream source msg).tuples)

/-- These totals are on their way. -/
def coming (key : K) (replies : List (Reply K)) : Multiset ℕ := reports key (replies.flatMap Reply.tuples)

/-- What has arrived and what is still to come make up the answers of all predecessors. -/
def Gathers (sources : Fin n → SourceCube K) (msg : DataplaneMessage K) (got : K → Multiset ℕ)
    (downstream : Fin n → List (DataplaneMessage K)) (upstream : Fin n → List (Reply K)) : Prop :=
  ∀ key, got key + ∑ p, (asked (sources p) key (downstream p) + coming key (upstream p)) =
    ∑ p, reports key (metaFromDownstream (sources p) msg).tuples

theorem Quiet.gathers (quiet : Quiet downstream upstream) :
    Gathers sources msg (fun _ => 0) (fun p => downstream p ++ [msg]) upstream := by
  intro key
  simp [asked, coming, fun p => (quiet p).1, fun p => (quiet p).2]

/-- When nothing is on its way, everything has arrived. -/
theorem Gathers.all (gathers : Gathers sources msg got downstream upstream)
    (quiet : Quiet downstream upstream) (key : K) :
    got key = ∑ p, reports key (metaFromDownstream (sources p) msg).tuples := by
  rw [← gathers key]
  simp [asked, coming, fun p => (quiet p).1, fun p => (quiet p).2]

theorem Gathers.handle {p : Fin n} {rest : List (DataplaneMessage K)}
    (gathers : Gathers sources msg got downstream upstream) (front : downstream p = msg :: rest) :
    Gathers sources msg got (Function.update downstream p rest)
      (Function.update upstream p (upstream p ++ [metaFromDownstream (sources p) msg])) := by
  intro key
  rw [← gathers key, sum_update_members (fun q messages replies =>
    asked (sources q) key messages + coming key replies) downstream upstream]
  rw [front]
  simp only [asked, coming, List.flatMap_append, List.flatMap_cons, List.flatMap_nil, reports_append, List.append_nil]
  abel

/-- Rows that arrive are no longer to come. -/
theorem Gathers.arrive {p : Fin n} (gathers : Gathers sources msg got downstream upstream)
    {left : List (Reply K)} {tuples : List (K × ℕ)}
    (taken : ∀ key, coming key (upstream p) = reports key tuples + coming key left) :
    Gathers sources msg (fun key => got key + reports key tuples) downstream (Function.update upstream p left) := by
  intro key
  rw [← gathers key, add_assoc]
  congr 1
  have sum := sum_update_member
    (fun q (replies : List (Reply K)) => asked (sources q) key (downstream q) + coming key replies) upstream p left
  rw [taken key] at sum
  apply add_right_cancel (b := asked (sources p) key (downstream p) + coming key left)
  rw [← sum]
  abel

end Gathers

end JetStream
