import Mathlib.Data.List.Induction
import Mathlib.Data.List.Nodup
import Mathlib.Data.List.Perm.Basic
import JetStream.Cube.TupleBatch

namespace JetStream

variable {K V : Type}

theorem contributions_append (first second : List (TupleProcessingInfo K V)) :
    contributions (first ++ second) = contributions first ++ contributions second := List.flatMap_append

theorem contributions_cons (tpi : TupleProcessingInfo K V) (rest : List (TupleProcessingInfo K V)) :
    contributions (tpi :: rest) = contributions [tpi] ++ contributions rest :=
  contributions_append [tpi] rest

theorem contributions_merge (tpi : TupleProcessingInfo K V) (input : V) :
    contributions [tpi.mergeTupleInto input] = contributions [tpi] ++ [(tpi.key, input)] := by
  simp [contributions, TupleProcessingInfo.mergeTupleInto]

theorem contributions_perm {first second : List (TupleProcessingInfo K V)} (perm : first.Perm second) :
    (contributions first).Perm (contributions second) := perm.flatMap_right _

theorem staysBatched_append {ops : List (BatchOp K V)} {op : BatchOp K V} :
    StaysBatched (ops ++ [op]) ↔ StaysBatched ops ∧
      ∀ earlier ∈ ops, earlier.key = op.key → earlier.canBatch = true → op.canBatch = true := by
  rw [StaysBatched, List.pairwise_append]
  simp [StaysBatched]

/-- The flush reads one stored tuple for each entry of the lookup. -/
theorem mapM_store {store : List (TupleProcessingInfo K V)} {entries : List (K × ℕ)}
    (stored : ∀ entry ∈ entries, ∃ tpi, store[entry.2]? = some tpi ∧ tpi.key = entry.1) :
    ∃ tuples, (entries.mapM fun entry => store[entry.2]?) = some tuples ∧
      tuples.map TupleProcessingInfo.key = entries.map Prod.fst ∧
      ∀ tpi, tpi ∈ tuples ↔ ∃ entry ∈ entries, store[entry.2]? = some tpi := by
  induction entries with
  | nil => exact ⟨[], rfl, rfl, by simp⟩
  | cons entry rest ih =>
      obtain ⟨tuples, read, keys, members⟩ := ih fun other member => stored other (List.mem_cons_of_mem _ member)
      obtain ⟨tpi, here, same⟩ := stored entry List.mem_cons_self
      refine ⟨tpi :: tuples, by rw [List.mapM_cons, here, read]; rfl, by simp [same, keys], ?_⟩
      intro other
      simp [members, here, eq_comm]

variable [LinearOrder K]

namespace Ledger

/-- Each pending key is listed once. -/
def KeysDistinct (ledger : Ledger K V) : Prop := (ledger.pending.map TupleProcessingInfo.key).Nodup

theorem keys_merge (pending : List (TupleProcessingInfo K V)) (op : BatchOp K V) :
    (pending.map fun other => if other.key = op.key then other.mergeTupleInto op.input else other).map
      TupleProcessingInfo.key = pending.map TupleProcessingInfo.key := by
  rw [List.map_map]
  apply List.map_congr_left
  intro other _
  rw [Function.comp_apply, apply_ite TupleProcessingInfo.key, TupleProcessingInfo.mergeTupleInto, ite_self]

/-- Tuples of other keys stay as they are. -/
theorem merge_absent {part : List (TupleProcessingInfo K V)} {op : BatchOp K V}
    (absent : ∀ other ∈ part, other.key ≠ op.key) :
    (part.map fun other => if other.key = op.key then other.mergeTupleInto op.input else other) = part := by
  conv_rhs => rw [← List.map_id part]
  apply List.map_congr_left
  intro other member
  rw [if_neg (absent other member), id_eq]

/-- A key is pending after its own tuple exactly when that tuple is batched. -/
theorem pending_process (ledger : Ledger K V) (op : BatchOp K V) (key : K) :
    key ∈ (ledger.process op).pending.map TupleProcessingInfo.key ↔
      if key = op.key then op.canBatch = true else key ∈ ledger.pending.map TupleProcessingInfo.key := by
  rw [process]
  cases search : ledger.pending.find? fun tpi => tpi.key = op.key with
  | none =>
      have absent : op.key ∉ ledger.pending.map TupleProcessingInfo.key := by
        intro member
        obtain ⟨tpi, pending, same⟩ := List.mem_map.mp member
        exact List.find?_eq_none.mp search tpi pending (by simpa using same)
      cases flag : op.canBatch with
      | false =>
          by_cases same : key = op.key
          · simpa [same] using absent
          · simp [same]
      | true =>
          by_cases same : key = op.key
          · simp [same]
          · simp [same]
  | some tpi =>
      have present : op.key ∈ ledger.pending.map TupleProcessingInfo.key :=
        List.mem_map.mpr ⟨tpi, List.mem_of_find?_eq_some search, by simpa using List.find?_some search⟩
      cases flag : op.canBatch with
      | false =>
          by_cases same : key = op.key
          · simp [same]
          · simp only [Bool.false_eq_true, if_false, if_neg same, List.mem_map, List.mem_filter, decide_eq_true_eq]
            constructor
            · rintro ⟨other, ⟨member, -⟩, found⟩
              exact ⟨other, member, found⟩
            · rintro ⟨other, member, found⟩
              exact ⟨other, ⟨member, by rwa [found]⟩, found⟩
      | true =>
          simp only [if_true]
          rw [keys_merge]
          by_cases same : key = op.key
          · rw [if_pos same, same]
            exact iff_of_true present trivial
          · rw [if_neg same]

theorem keysDistinct_process {ledger : Ledger K V} (distinct : ledger.KeysDistinct) (op : BatchOp K V) :
    (ledger.process op).KeysDistinct := by
  rw [KeysDistinct, process]
  cases search : ledger.pending.find? fun tpi => tpi.key = op.key with
  | none =>
      cases flag : op.canBatch with
      | false => exact distinct
      | true =>
          simp only [if_true, List.map_append, List.map_cons, List.map_nil]
          apply distinct.append (List.nodup_singleton _)
          rw [List.disjoint_singleton]
          intro member
          obtain ⟨tpi, pending, same⟩ := List.mem_map.mp member
          exact List.find?_eq_none.mp search tpi pending (by simpa using same)
  | some tpi =>
      cases flag : op.canBatch with
      | false => exact distinct.sublist (List.filter_sublist.map _)
      | true =>
          simp only [if_true]
          rwa [keys_merge]

/-- The pending tuple of a key splits the list into parts without that key. -/
theorem KeysDistinct.split {ledger : Ledger K V} (distinct : ledger.KeysDistinct) {op : BatchOp K V}
    {tpi : TupleProcessingInfo K V} (search : ledger.pending.find? (fun tpi => tpi.key = op.key) = some tpi) :
    ∃ before after, ledger.pending = before ++ tpi :: after ∧ tpi.key = op.key ∧
      (∀ other ∈ before, other.key ≠ op.key) ∧ ∀ other ∈ after, other.key ≠ op.key := by
  obtain ⟨found, before, after, pending, earlier⟩ := List.find?_eq_some_iff_append.mp search
  have same : tpi.key = op.key := by simpa using found
  refine ⟨before, after, pending, same, ?_, ?_⟩
  · intro other member
    simpa using earlier other member
  · intro other member here
    rw [KeysDistinct, pending, List.map_append, List.map_cons] at distinct
    apply (List.nodup_cons.mp distinct.of_append_right).1
    exact List.mem_map.mpr ⟨other, member, here.trans same.symm⟩

end Ledger

/-- Each step of the ledger accounts for its input once. -/
theorem Ledger.contributions_process {ledger : Ledger K V} (distinct : ledger.KeysDistinct) (op : BatchOp K V) :
    (contributions ((ledger.process op).saved ++ (ledger.process op).pending)).Perm
      (contributions (ledger.saved ++ ledger.pending) ++ [(op.key, op.input)]) := by
  rw [process]
  cases search : ledger.pending.find? fun tpi => tpi.key = op.key with
  | none =>
      have single : contributions [⟨op.key, [op.input]⟩] = [(op.key, op.input)] := rfl
      cases flag : op.canBatch with
      | false =>
          simp only [Bool.false_eq_true, if_false, contributions_append, single, List.append_assoc]
          exact List.perm_append_comm.append_left _
      | true => simp only [if_true, contributions_append, single, List.append_assoc, List.Perm.refl]
  | some tpi =>
      obtain ⟨before, after, pending, same, earlier, later⟩ := distinct.split search
      have merged : contributions [tpi.mergeTupleInto op.input] = contributions [tpi] ++ [(op.key, op.input)] := by
        rw [contributions_merge, same]
      cases flag : op.canBatch with
      | false =>
          have rest : (ledger.pending.filter fun other => other.key ≠ op.key) = before ++ after := by
            rw [pending, List.filter_append, List.filter_cons_of_neg (by simpa using same),
              List.filter_eq_self.mpr (by simpa using earlier), List.filter_eq_self.mpr (by simpa using later)]
          simp only [Bool.false_eq_true, if_false]
          rw [rest, pending]
          simp only [contributions_append, merged, contributions_cons tpi after, List.append_assoc]
          apply List.Perm.append_left
          have moved : ([(op.key, op.input)] ++ (contributions before ++ contributions after)).Perm
              (contributions before ++ (contributions after ++ [(op.key, op.input)])) := by
            rw [← List.append_assoc (contributions before)]
            exact List.perm_append_comm
          exact (moved.append_left _).trans (List.perm_append_comm_assoc _ _ _)
      | true =>
          have rest : (ledger.pending.map fun other =>
              if other.key = op.key then other.mergeTupleInto op.input else other) =
                before ++ tpi.mergeTupleInto op.input :: after := by
            rw [pending, List.map_append, List.map_cons, if_pos same, merge_absent earlier, merge_absent later]
          simp only [if_true]
          rw [rest, pending]
          simp only [contributions_append, contributions_cons (tpi.mergeTupleInto op.input) after, merged,
            contributions_cons tpi after, List.append_assoc]
          exact ((List.perm_append_comm.append_left _).append_left _).append_left _

/-- The run of the ledger keeps its keys distinct and accounts for every input once. -/
theorem Ledger.contributions_run (ops : List (BatchOp K V)) :
    (Ledger.run ops).KeysDistinct ∧ (contributions ((Ledger.run ops).saved ++ (Ledger.run ops).pending)).Perm
      (ops.map fun op => (op.key, op.input)) := by
  induction ops using List.reverseRecOn with
  | nil => exact ⟨List.nodup_nil, List.Perm.refl _⟩
  | append_singleton ops op ih =>
      rw [Ledger.run, List.foldl_append, List.map_append]
      exact ⟨keysDistinct_process ih.1 op, (contributions_process ih.1 op).trans (ih.2.append_right _)⟩

/-- As long as keys stay batched, the pending keys are those that have been batched. -/
theorem Ledger.pending_iff {ops : List (BatchOp K V)} (stays : StaysBatched ops) (key : K) :
    key ∈ (Ledger.run ops).pending.map TupleProcessingInfo.key ↔ ∃ op ∈ ops, op.key = key ∧ op.canBatch = true := by
  induction ops using List.reverseRecOn with
  | nil => simp [Ledger.run]
  | append_singleton ops op ih =>
      obtain ⟨before, last⟩ := staysBatched_append.mp stays
      rw [Ledger.run, List.foldl_append, List.foldl_cons, List.foldl_nil, pending_process]
      by_cases same : key = op.key
      · rw [if_pos same]
        constructor
        · intro flag
          exact ⟨op, List.mem_append_right _ (List.mem_singleton_self op), same.symm, flag⟩
        · rintro ⟨other, member, found, flag⟩
          rcases List.mem_append.mp member with earlier | now
          · exact last other earlier (found.trans same) flag
          · rw [← List.mem_singleton.mp now]
            exact flag
      · rw [if_neg same]
        constructor
        · intro pending
          obtain ⟨other, member, found, flag⟩ := (ih before).mp pending
          exact ⟨other, List.mem_append_left _ member, found, flag⟩
        · rintro ⟨other, member, found, flag⟩
          rcases List.mem_append.mp member with earlier | now
          · exact (ih before).mpr ⟨other, earlier, found, flag⟩
          · rw [List.mem_singleton.mp now] at found
            exact absurd found.symm same

theorem BatchState.run_append (ops : List (BatchOp K V)) (op : BatchOp K V) :
    BatchState.run (ops ++ [op]) = (BatchState.run ops).bind fun state => state.doProcess op := by
  rw [BatchState.run, List.foldlM_append]
  simp [BatchState.run]

/-- As long as keys stay batched, the batch mirrors the ledger. -/
theorem mirrors_run {ops : List (BatchOp K V)} (stays : StaysBatched ops) :
    ∃ state, BatchState.run ops = some state ∧ Mirrors state (Ledger.run ops) := by
  induction ops using List.reverseRecOn with
  | nil => exact ⟨BatchState.new, rfl, mirrors_new⟩
  | append_singleton ops op ih =>
      obtain ⟨before, last⟩ := staysBatched_append.mp stays
      obtain ⟨state, ran, mirrors⟩ := ih before
      rw [BatchState.run_append, ran, Option.bind_some, Ledger.run, List.foldl_append]
      by_cases known : ∃ tpi ∈ (Ledger.run ops).pending, tpi.key = op.key
      · obtain ⟨tpi, member, same⟩ := known
        have pending : op.key ∈ (Ledger.run ops).pending.map TupleProcessingInfo.key :=
          List.mem_map.mpr ⟨tpi, member, same⟩
        obtain ⟨earlier, listed, found, flag⟩ := (Ledger.pending_iff before op.key).mp pending
        exact mirrors.update member same (last earlier listed found flag)
      · exact mirrors.insert known

/-- A batch that is aligned after every step has kept every batched key batched. -/
theorem staysBatched_of_aligned {ops : List (BatchOp K V)}
    (aligned : ∀ n ≤ ops.length, ∃ state, BatchState.run (ops.take n) = some state ∧
      Aligned state.batch (Ledger.run (ops.take n)).pending) : StaysBatched ops := by
  induction ops using List.reverseRecOn with
  | nil => exact List.Pairwise.nil
  | append_singleton ops op ih =>
      have before : StaysBatched ops := by
        apply ih
        intro n inside
        have step := aligned n (by simp; omega)
        rwa [List.take_append_of_le_length inside] at step
      rw [staysBatched_append]
      refine ⟨before, ?_⟩
      intro earlier member same flag
      by_contra unbatched
      obtain ⟨state, ran, mirrors⟩ := mirrors_run before
      have pending := (Ledger.pending_iff before op.key).mpr ⟨earlier, member, same, flag⟩
      obtain ⟨tpi, listed, found⟩ := List.mem_map.mp pending
      obtain ⟨next, step, broken⟩ := mirrors.unbatch listed found (Bool.not_eq_true _ ▸ unbatched)
      obtain ⟨final, finalRan, finalAligned⟩ := aligned (ops ++ [op]).length le_rfl
      rw [List.take_length, BatchState.run_append, ran, Option.bind_some, step, Option.some_inj] at finalRan
      rw [List.take_length, Ledger.run, List.foldl_append, ← finalRan] at finalAligned
      exact broken finalAligned

/-- The flush of a batch that mirrors the ledger saves each pending tuple once. -/
theorem Mirrors.flush {state : BatchState K V} {ledger : Ledger K V} (mirrors : Mirrors state ledger)
    (distinct : ledger.KeysDistinct) :
    ∃ flushed, state.flush = some flushed ∧ flushed.saved.Perm (ledger.saved ++ ledger.pending) := by
  have stored : ∀ entry ∈ state.batch.lookup.entries,
      ∃ tpi, ledger.pending[entry.2]? = some tpi ∧ tpi.key = entry.1 := by
    intro entry member
    exact (mirrors.lookup entry.1 entry.2).mp ((OrderedMap.mem_entries_iff _).mp member)
  obtain ⟨tuples, read, keys, members⟩ := mapM_store stored
  have ordered : tuples.Nodup := by
    apply List.Nodup.of_map TupleProcessingInfo.key
    rw [keys]
    exact (List.pairwise_map.mpr state.batch.lookup.sorted).imp fun less => less.ne
  have perm : tuples.Perm ledger.pending := by
    rw [List.perm_ext_iff_of_nodup ordered (List.Nodup.of_map _ distinct)]
    intro tpi
    rw [members, List.mem_iff_getElem?]
    constructor
    · rintro ⟨entry, -, found⟩
      exact ⟨entry.2, found⟩
    · rintro ⟨pos, found⟩
      have entry := (mirrors.lookup tpi.key pos).mpr ⟨tpi, found, rfl⟩
      exact ⟨(tpi.key, pos), (OrderedMap.mem_entries_iff _).mpr entry, found⟩
  refine ⟨⟨TupleBatch.new, state.saved ++ tuples⟩, ?_, ?_⟩
  · rw [BatchState.flush, mirrors.holes, mirrors.store]
    simp [read]
  · rw [mirrors.saved]
    exact perm.append_left _

/-- As long as keys stay batched, the flush accounts for every input once. -/
theorem flush_run {ops : List (BatchOp K V)} (stays : StaysBatched ops) :
    ∃ state flushed, BatchState.run ops = some state ∧ state.flush = some flushed ∧
      (contributions flushed.saved).Perm (ops.map fun op => (op.key, op.input)) := by
  obtain ⟨state, ran, mirrors⟩ := mirrors_run stays
  obtain ⟨distinct, accounted⟩ := Ledger.contributions_run ops
  obtain ⟨flushed, saved, perm⟩ := mirrors.flush distinct
  exact ⟨state, flushed, ran, saved, (contributions_perm perm).trans accounted⟩

/-- The batch is exactly-once precisely when no batched key meets a tuple that may not be batched. -/
theorem tupleBatch_exactlyOnce_iff (ops : List (BatchOp K V)) : ExactlyOnce ops ↔ StaysBatched ops := by
  constructor
  · intro exactlyOnce
    exact staysBatched_of_aligned exactlyOnce.1
  · intro stays
    constructor
    · intro n _
      obtain ⟨state, ran, mirrors⟩ := mirrors_run (stays.sublist (List.take_sublist n ops))
      exact ⟨state, ran, mirrors.aligned⟩
    · exact flush_run stays

/-- The second tuple of a batched key is saved with the first, and the flush then reads past the store. -/
theorem tupleBatch_unbatched_update :
    ¬ ExactlyOnce [(⟨0, 5, true⟩ : BatchOp ℕ ℕ), ⟨0, 6, false⟩] := by
  rintro ⟨-, state, flushed, ran, saved, -⟩
  obtain rfl := Option.some.inj ran
  cases saved

end JetStream
