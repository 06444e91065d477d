import JetStream.Aggregates.JSSummary

namespace JetStream

/-- The reservoir never holds more items than its capacity. -/
@[ext] structure ReservoirSample where
  sampleOfData : List ℤ
  isSorted : Bool
  maxSize : ℕ
  totalSeen : ℕ
  room : sampleOfData.length ≤ maxSize
  deriving DecidableEq

namespace ReservoirSample

/-- A full reservoir replaces the drawn position when it lies inside the sample. -/
def addOne (draw : ℕ → ℕ) (sample : ReservoirSample) (v : ℤ) : ReservoirSample :=
  if fits : sample.sampleOfData.length < sample.maxSize then
    { sample with
      sampleOfData := sample.sampleOfData ++ [v]
      totalSeen := (sample.totalSeen + 1) % 2 ^ 64
      room := by simpa using fits }
  else
    let replaced := draw ((sample.totalSeen + (2 ^ 64 - 1)) % 2 ^ 64)
    { sample with
      sampleOfData := if replaced < sample.maxSize then sample.sampleOfData.set replaced v else sample.sampleOfData
      totalSeen := (sample.totalSeen + 1) % 2 ^ 64
      room := by split <;> simp [sample.room] }

/-- The items are added in order and each one has its own draw from the generator. -/
def addAll (gen : ℕ → ℕ → ℕ) : ℕ → List ℤ → ReservoirSample → ReservoirSample
  | _, [], sample => sample
  | k, v :: rest, sample => addAll gen (k + 1) rest (sample.addOne (gen k) v)

/-- The constructor leaves the number of seen items uninitialized until the items have been added. -/
def fillIn (gen : ℕ → ℕ → ℕ) (totalSeen : ℕ) (s : JSSample) : ReservoirSample :=
  if fits : s.items.length ≤ s.maxItems then ⟨s.items, false, s.maxItems, toSizeT s.totalItems, fits⟩
  else { addAll gen 0 s.items ⟨[], false, s.maxItems, totalSeen, Nat.zero_le _⟩ with
    totalSeen := toSizeT s.totalItems }

/-- The constructor reads the default message when the summary has no sample. -/
def ofSummary (gen : ℕ → ℕ → ℕ) (totalSeen : ℕ) (s : JSSummary) : ReservoirSample :=
  fillIn gen totalSeen (s.sample.getD ⟨[], 0, 0⟩)

/-- These items are in the target before a serialization. -/
def priorItems (q : JSSummary) : List ℤ := (q.sample.getD ⟨[], 0, 0⟩).items

/-- Serialization appends the sample to the items that the target already has. -/
def serializeTo (sample : ReservoirSample) (q : JSSummary) : JSSummary :=
  { q with
    sample := some {
      items := priorItems q ++ sample.sampleOfData
      totalItems := toInt32 sample.totalSeen
      maxItems := sample.maxSize % 2 ^ 32 } }

@[simp] theorem addOne_maxSize (draw : ℕ → ℕ) (sample : ReservoirSample) (v : ℤ) :
    (sample.addOne draw v).maxSize = sample.maxSize := by
  unfold addOne
  split <;> rfl

@[simp] theorem addOne_isSorted (draw : ℕ → ℕ) (sample : ReservoirSample) (v : ℤ) :
    (sample.addOne draw v).isSorted = sample.isSorted := by
  unfold addOne
  split <;> rfl

@[simp] theorem addOne_totalSeen (draw : ℕ → ℕ) (sample : ReservoirSample) (v : ℤ) :
    (sample.addOne draw v).totalSeen = (sample.totalSeen + 1) % 2 ^ 64 := by
  unfold addOne
  split <;> rfl

theorem addOne_length (draw : ℕ → ℕ) (sample : ReservoirSample) (v : ℤ) :
    (sample.addOne draw v).sampleOfData.length = min sample.maxSize (sample.sampleOfData.length + 1) := by
  have room := sample.room
  by_cases fits : sample.sampleOfData.length < sample.maxSize
  · simp only [addOne, fits, dif_pos, List.length_append, List.length_singleton]
    omega
  · simp only [addOne, fits, dif_neg, not_false_eq_true]
    split
    · rw [List.length_set]
      omega
    · omega

theorem addOne_subset (draw : ℕ → ℕ) (sample : ReservoirSample) (v : ℤ) :
    ∀ a ∈ (sample.addOne draw v).sampleOfData, a ∈ sample.sampleOfData ∨ a = v := by
  intro a member
  by_cases fits : sample.sampleOfData.length < sample.maxSize
  · simpa [addOne, fits] using member
  · simp only [addOne, fits, dif_neg, not_false_eq_true] at member
    split at member
    · exact List.mem_or_eq_of_mem_set member
    · exact Or.inl member

theorem addAll_append (gen : ℕ → ℕ → ℕ) (k : ℕ) (first second : List ℤ) (sample : ReservoirSample) :
    addAll gen k (first ++ second) sample = addAll gen (k + first.length) second (addAll gen k first sample) := by
  induction first generalizing k sample with
  | nil => rfl
  | cons v rest ih =>
      rw [List.cons_append, addAll, ih, addAll, List.length_cons, Nat.add_right_comm, Nat.add_assoc]

/-- Whatever is drawn, the loop fills the reservoir with items that were there or were added. -/
theorem addAll_spec (gen : ℕ → ℕ → ℕ) (k : ℕ) (items : List ℤ) (sample : ReservoirSample) :
    (addAll gen k items sample).maxSize = sample.maxSize ∧
      (addAll gen k items sample).isSorted = sample.isSorted ∧
      (addAll gen k items sample).sampleOfData.length =
        min sample.maxSize (sample.sampleOfData.length + items.length) ∧
      (∀ a ∈ (addAll gen k items sample).sampleOfData, a ∈ sample.sampleOfData ∨ a ∈ items) ∧
      (addAll gen k items sample).totalSeen % 2 ^ 64 = (sample.totalSeen + items.length) % 2 ^ 64 := by
  induction items generalizing k sample with
  | nil => exact ⟨rfl, rfl, (Nat.min_eq_right sample.room).symm, fun a member => Or.inl member, rfl⟩
  | cons v rest ih =>
      obtain ⟨size, flag, length, subset, total⟩ := ih (k + 1) (sample.addOne (gen k) v)
      rw [addOne_length, addOne_maxSize] at length
      rw [addOne_totalSeen] at total
      refine ⟨by rw [addAll, size, addOne_maxSize], by rw [addAll, flag, addOne_isSorted], ?_, ?_, ?_⟩
      · rw [addAll, length, List.length_cons]
        omega
      · intro a member
        rcases subset a member with earlier | later
        · rcases addOne_subset _ _ _ a earlier with old | rfl
          · exact Or.inl old
          · exact Or.inr List.mem_cons_self
        · exact Or.inr (List.mem_cons_of_mem _ later)
      · rw [addAll, total, List.length_cons]
        omega

/-- Items are pushed while there is room. -/
theorem addAll_push (gen : ℕ → ℕ → ℕ) (k : ℕ) (items : List ℤ) (sample : ReservoirSample)
    (fits : sample.sampleOfData.length + items.length ≤ sample.maxSize) :
    (addAll gen k items sample).sampleOfData = sample.sampleOfData ++ items := by
  induction items generalizing k sample with
  | nil => rw [addAll, List.append_nil]
  | cons v rest ih =>
      rw [List.length_cons] at fits
      have pushed : (sample.addOne (gen k) v).sampleOfData = sample.sampleOfData ++ [v] := by
        rw [addOne, dif_pos (by omega)]
      rw [addAll, ih _ _ (by rw [pushed, addOne_maxSize, List.length_append, List.length_singleton]; omega),
        pushed, List.append_assoc, List.singleton_append]

/-- A full reservoir keeps its items while every draw lies outside the sample. -/
theorem addAll_keep (gen : ℕ → ℕ → ℕ) (k : ℕ) (items : List ℤ) (sample : ReservoirSample)
    (full : sample.sampleOfData.length = sample.maxSize)
    (outside : ∀ i < items.length, sample.maxSize ≤ gen (k + i) ((sample.totalSeen + i + (2 ^ 64 - 1)) % 2 ^ 64)) :
    (addAll gen k items sample).sampleOfData = sample.sampleOfData := by
  induction items generalizing k sample with
  | nil => rfl
  | cons v rest ih =>
      have first := outside 0 (Nat.zero_lt_succ _)
      have kept : (sample.addOne (gen k) v).sampleOfData = sample.sampleOfData := by
        rw [addOne, dif_neg (by omega)]
        exact if_neg (Nat.not_lt.mpr first)
      rw [addAll, ih, kept]
      · rw [kept, addOne_maxSize, full]
      · intro i inside
        have later := outside (i + 1) (Nat.succ_lt_succ inside)
        rw [addOne_maxSize, addOne_totalSeen, Nat.add_assoc k 1 i, Nat.add_comm 1 i]
        convert later using 2
        omega

/-- A generator returns values up to the bound of each draw. -/
def Bounded (gen : ℕ → ℕ → ℕ) : Prop := ∀ k bound, gen k bound ≤ bound

/-- The summary returns the sample for every generator and every uninitialized count. -/
def RoundTrips (sample : ReservoirSample) (q : JSSummary) : Prop :=
  ∀ gen totalSeen, Bounded gen → totalSeen < 2 ^ 64 → ofSummary gen totalSeen (sample.serializeTo q) = sample

section RoundTrip

variable (sample : ReservoirSample) (q : JSSummary) (seen : sample.totalSeen < 2 ^ 31)
  (capacity : sample.maxSize < 2 ^ 32)

include seen in
theorem toSizeT_totalSeen : toSizeT (toInt32 sample.totalSeen) = sample.totalSeen := by
  rw [toInt32_eq seen, toSizeT_natCast (by omega)]

include seen capacity in
/-- When the target's items and the sample fit the capacity, both come back. -/
theorem ofSummary_fits (gen : ℕ → ℕ → ℕ) (totalSeen : ℕ)
    (fits : (priorItems q ++ sample.sampleOfData).length ≤ sample.maxSize) :
    ofSummary gen totalSeen (sample.serializeTo q) =
      ⟨priorItems q ++ sample.sampleOfData, false, sample.maxSize, sample.totalSeen, fits⟩ := by
  have size : sample.maxSize % 2 ^ 32 = sample.maxSize := Nat.mod_eq_of_lt capacity
  simp only [ofSummary, serializeTo, Option.getD_some, fillIn, size, fits, dif_pos,
    sample.toSizeT_totalSeen seen]

include seen capacity in
/-- When they do not fit, the reservoir is drawn from both. -/
theorem ofSummary_overflows (gen : ℕ → ℕ → ℕ) (totalSeen : ℕ)
    (overflows : sample.maxSize < (priorItems q ++ sample.sampleOfData).length) :
    ofSummary gen totalSeen (sample.serializeTo q) =
      { addAll gen 0 (priorItems q ++ sample.sampleOfData) ⟨[], false, sample.maxSize, totalSeen, Nat.zero_le _⟩ with
        totalSeen := sample.totalSeen } := by
  have size : sample.maxSize % 2 ^ 32 = sample.maxSize := Nat.mod_eq_of_lt capacity
  simp only [ofSummary, serializeTo, Option.getD_some, fillIn, size, Nat.not_le.mpr overflows, dif_neg,
    not_false_eq_true, sample.toSizeT_totalSeen seen]

end RoundTrip

/-- The loop starts from an empty reservoir with some uninitialized count. -/
def blank (maxSize totalSeen : ℕ) : ReservoirSample := ⟨[], false, maxSize, totalSeen, Nat.zero_le _⟩

/-- A large count keeps every draw that reaches its bound outside the sample. -/
theorem addAll_blank_keep (gen : ℕ → ℕ → ℕ) (first rest : List ℤ)
    (quiet : ∀ i < rest.length, ∀ bound, gen (first.length + i) bound = bound)
    (short : first.length + rest.length < 2 ^ 32) :
    (addAll gen 0 (first ++ rest) (blank first.length (2 ^ 63))).sampleOfData = first := by
  have pushed := addAll_push gen 0 first (blank first.length (2 ^ 63)) (by simp [blank])
  obtain ⟨size, -, -, -, total⟩ := addAll_spec gen 0 first (blank first.length (2 ^ 63))
  change _ = first.length at size
  change _ = (2 ^ 63 + first.length) % 2 ^ 64 at total
  change _ = [] ++ first at pushed
  rw [addAll_append, addAll_keep, pushed, List.nil_append]
  · rw [pushed, size, List.nil_append]
  · intro i inside
    rw [Nat.zero_add, quiet i inside, size]
    omega

/-- A late item can be drawn into any position while no other item moves. -/
theorem addAll_blank_single (first middle last : List ℤ) (v : ℤ) (p : ℕ) (inside : p < first.length)
    (short : first.length + middle.length + last.length + 1 < 2 ^ 32) :
    ∃ gen, Bounded gen ∧
      (addAll gen 0 ((first ++ middle) ++ v :: last) (blank first.length (2 ^ 63))).sampleOfData = first.set p v := by
  let gen : ℕ → ℕ → ℕ := fun k bound => if k = first.length + middle.length then min p bound else bound
  have bounded : Bounded gen := by
    intro k bound
    by_cases here : k = first.length + middle.length
    · simp [gen, here]
    · simp [gen, here]
  have quiet : ∀ k bound, k ≠ first.length + middle.length → gen k bound = bound := by
    intro k bound other
    simp [gen, other]
  have before := addAll_blank_keep gen first middle (fun i small bound => quiet _ bound (by omega)) (by omega)
  obtain ⟨size, -, -, -, total⟩ := addAll_spec gen 0 (first ++ middle) (blank first.length (2 ^ 63))
  refine ⟨gen, bounded, ?_⟩
  rw [addAll_append, Nat.zero_add, List.length_append]
  rw [List.length_append] at total
  generalize addAll gen 0 (first ++ middle) (blank first.length (2 ^ 63)) = state at before size total ⊢
  change _ = first.length at size
  change _ = (2 ^ 63 + (first.length + middle.length)) % 2 ^ 64 at total
  have drawn : gen (first.length + middle.length) ((state.totalSeen + (2 ^ 64 - 1)) % 2 ^ 64) = p := by
    simp only [gen, if_true]
    omega
  have replaced : (state.addOne (gen (first.length + middle.length)) v).sampleOfData = first.set p v := by
    rw [addOne, dif_neg (by rw [before, size]; omega)]
    change (if gen _ _ < state.maxSize then state.sampleOfData.set (gen _ _) v else state.sampleOfData) = _
    rw [drawn, size, if_pos inside, before]
  rw [addAll, addAll_keep, replaced]
  · rw [replaced, addOne_maxSize, List.length_set, size]
  · intro i _
    rw [addOne_maxSize, addOne_totalSeen, size, quiet _ _ (by omega)]
    omega

section Exactness

variable {sample : ReservoirSample} {q : JSSummary} (seen : sample.totalSeen < 2 ^ 31)
  (capacity : sample.maxSize < 2 ^ 32)

include seen capacity in
theorem roundTrips_of_empty (unsorted : sample.isSorted = false) (empty : priorItems q = []) :
    sample.RoundTrips q := by
  intro gen totalSeen _ _
  have fits : (priorItems q ++ sample.sampleOfData).length ≤ sample.maxSize := by
    rw [empty, List.nil_append]
    exact sample.room
  rw [ofSummary_fits sample q seen capacity gen totalSeen fits]
  ext1
  · simp only [empty, List.nil_append]
  · exact unsorted.symm
  · rfl
  · rfl

include seen capacity in
/-- Equal items make every draw the same. -/
theorem roundTrips_of_equal (unsorted : sample.isSorted = false) (full : sample.sampleOfData.length = sample.maxSize)
    (equal : ∀ a ∈ priorItems q ++ sample.sampleOfData, ∀ b ∈ sample.sampleOfData, a = b) :
    sample.RoundTrips q := by
  by_cases fits : (priorItems q ++ sample.sampleOfData).length ≤ sample.maxSize
  · apply roundTrips_of_empty seen capacity unsorted
    rw [List.length_append, full] at fits
    exact List.eq_nil_of_length_eq_zero (by omega)
  · intro gen totalSeen _ _
    obtain ⟨size, flag, length, subset, -⟩ := addAll_spec gen 0 (priorItems q ++ sample.sampleOfData)
      (blank sample.maxSize totalSeen)
    have filled : (addAll gen 0 (priorItems q ++ sample.sampleOfData) (blank sample.maxSize totalSeen)).sampleOfData =
        sample.sampleOfData := by
      change _ = min sample.maxSize (0 + _) at length
      apply List.ext_getElem (by omega)
      intro i left right
      rcases subset _ (List.getElem_mem left) with absent | member
      · cases absent
      · exact equal _ member _ (List.getElem_mem right)
    rw [ofSummary_overflows sample q seen capacity gen totalSeen (Nat.lt_of_not_le fits)]
    ext1
    · exact filled
    · exact flag.trans unsorted.symm
    · exact size
    · rfl

include seen capacity in
theorem isSorted_of_roundTrips (returns : sample.RoundTrips q) : sample.isSorted = false := by
  have same := returns (fun _ _ => 0) 0 (fun _ _ => Nat.zero_le _) (by decide)
  rw [← same]
  by_cases fits : (priorItems q ++ sample.sampleOfData).length ≤ sample.maxSize
  · rw [ofSummary_fits sample q seen capacity _ _ fits]
  · rw [ofSummary_overflows sample q seen capacity _ _ (Nat.lt_of_not_le fits)]
    exact (addAll_spec _ _ _ _).2.1

include seen capacity in
/-- A target with items forces a full sample, and late draws force all items to be equal. -/
theorem equal_of_roundTrips (int32 : (priorItems q ++ sample.sampleOfData).length < 2 ^ 31)
    (returns : sample.RoundTrips q) (prior : priorItems q ≠ []) :
    sample.sampleOfData.length = sample.maxSize ∧
      ∀ a ∈ priorItems q ++ sample.sampleOfData, ∀ b ∈ sample.sampleOfData, a = b := by
  have overflows : sample.maxSize < (priorItems q ++ sample.sampleOfData).length := by
    by_contra fits
    have same := returns (fun _ _ => 0) 0 (fun _ _ => Nat.zero_le _) (by decide)
    rw [ofSummary_fits sample q seen capacity _ _ (Nat.le_of_not_lt fits)] at same
    have items := congrArg sampleOfData same
    exact prior (List.append_left_eq_self.mp items)
  have drawn : ∀ gen, Bounded gen → (addAll gen 0 (priorItems q ++ sample.sampleOfData)
      (blank sample.maxSize (2 ^ 63))).sampleOfData = sample.sampleOfData := by
    intro gen bounded
    have same := returns gen (2 ^ 63) bounded (by decide)
    rw [ofSummary_overflows sample q seen capacity _ _ overflows] at same
    have items := congrArg sampleOfData same
    exact items
  generalize priorItems q ++ sample.sampleOfData = items at *
  have length : (items.take sample.maxSize).length = sample.maxSize := by
    rw [List.length_take]
    omega
  have parts := List.take_append_drop sample.maxSize items
  have total : (items.drop sample.maxSize).length = items.length - sample.maxSize := List.length_drop
  have quiet : sample.sampleOfData = items.take sample.maxSize := by
    have kept := addAll_blank_keep (fun _ bound => bound) (items.take sample.maxSize) (items.drop sample.maxSize)
      (fun _ _ _ => rfl) (by omega)
    rw [parts, length, drawn _ fun _ _ => le_rfl] at kept
    exact kept
  have late : ∀ v ∈ items.drop sample.maxSize, ∀ b ∈ sample.sampleOfData, v = b := by
    intro v member b inside
    obtain ⟨p, small, rfl⟩ := List.getElem_of_mem inside
    obtain ⟨middle, last, split⟩ := List.append_of_mem member
    have lengths := congrArg List.length split
    rw [List.length_append, List.length_cons] at lengths
    have room := sample.room
    obtain ⟨gen, bounded, single⟩ := addAll_blank_single (items.take sample.maxSize) middle last v p (by omega)
      (by omega)
    rw [List.append_assoc, ← split, parts, length, drawn gen bounded, ← quiet] at single
    have read := List.getElem_of_eq single small
    rw [List.getElem_set_self] at read
    exact read.symm
  refine ⟨by rw [quiet, length], ?_⟩
  intro a member b inside
  rw [← parts, List.mem_append, ← quiet] at member
  rcases member with early | member
  · obtain ⟨v, last⟩ := List.exists_mem_of_length_pos (show 0 < (items.drop sample.maxSize).length by omega)
    exact (late v last a early).symm.trans (late v last b inside)
  · exact late a member b inside

end Exactness

/-- The round trip needs an unsorted sample and a target without items, unless the sample is full and all items are
equal. -/
theorem roundTrips_iff (sample : ReservoirSample) (q : JSSummary) (seen : sample.totalSeen < 2 ^ 31)
    (capacity : sample.maxSize < 2 ^ 32) (int32 : (priorItems q ++ sample.sampleOfData).length < 2 ^ 31) :
    sample.RoundTrips q ↔ sample.isSorted = false ∧
      (priorItems q = [] ∨ (sample.sampleOfData.length = sample.maxSize ∧
        ∀ a ∈ priorItems q ++ sample.sampleOfData, ∀ b ∈ sample.sampleOfData, a = b)) := by
  constructor
  · intro returns
    refine ⟨isSorted_of_roundTrips seen capacity returns, ?_⟩
    by_cases prior : priorItems q = []
    · exact Or.inl prior
    · exact Or.inr (equal_of_roundTrips seen capacity int32 returns prior)
  · rintro ⟨unsorted, empty | ⟨full, equal⟩⟩
    · exact roundTrips_of_empty seen capacity unsorted empty
    · exact roundTrips_of_equal seen capacity unsorted full equal

end ReservoirSample

end JetStream
