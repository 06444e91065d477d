import JetStream.Aggregates.Reservoir
import JetStream.Lib.EventSystem
import JetStream.Lib.Float64

namespace JetStream

/-- These are the outcomes of the draws of one call: replaced positions, drawn positions, and chosen sides. -/
structure MergeDraws where
  replaced : ℕ → ℕ → ℕ
  position : ℕ → ℕ → ℕ
  which : ℕ → Bool

namespace ReservoirSample

def elements (sample : ReservoirSample) : ℕ := sample.sampleOfData.length

def addItem (gen : ℕ → ℕ → ℕ) (sample : ReservoirSample) (v : ℤ) (c : UInt32) : ReservoirSample :=
  addAll gen 0 (List.replicate c.toNat v) sample

def addData (gen : ℕ → ℕ → ℕ) (sample : ReservoirSample) (data : List ℤ) : ReservoirSample :=
  addAll gen 0 data sample

/-- A draw gives a position inside the sample. -/
def drawnPosition (draws : MergeDraws) (sample : ReservoirSample) (k : ℕ) : ℕ :=
  draws.position k (sample.elements - 1) % sample.elements

def item (sample : ReservoirSample) (i : ℕ) : ℤ := sample.sampleOfData.getD i 0

/-- The loop draws from the right side until this side is full, and the count of the right side may wrap. -/
def fillLoop (draws : MergeDraws) (rhs : ReservoirSample) : ℕ → ℕ → ReservoirSample → ℕ → ReservoirSample × ℕ
  | 0, _, sample, rhsSeen => (sample, rhsSeen)
  | fuel + 1, k, sample, rhsSeen =>
      if sample.totalSeen < sample.maxSize then
        fillLoop draws rhs fuel (k + 1) (sample.addOne (draws.replaced k) (rhs.item (rhs.drawnPosition draws k)))
          ((rhsSeen + (2 ^ 64 - 1)) % 2 ^ 64)
      else (sample, rhsSeen)

/-- The first probability is the one of this side. -/
def probabilities (sample : ReservoirSample) (rhsSeen : ℕ) : Float64 × Float64 :=
  let first := Float64.ofInt sample.totalSeen / Float64.ofInt ((sample.totalSeen + rhsSeen) % 2 ^ 64 : ℕ)
  (first, Float64.ofInt 1 - first)

/-- Each position takes the next item of the right side when the draw chooses that side. -/
def mixLoop (which : ℕ → Bool) (rhs : ReservoirSample) : ℕ → ℕ → List ℤ → List ℤ
  | _, _, [] => []
  | i, rhsIdx, v :: rest =>
      if which i then rhs.item rhsIdx :: mixLoop which rhs (i + 1) ((rhsIdx + 1) % rhs.elements) rest
      else v :: mixLoop which rhs (i + 1) rhsIdx rest

theorem mixLoop_length (which : ℕ → Bool) (rhs : ReservoirSample) (i rhsIdx : ℕ) (data : List ℤ) :
    (mixLoop which rhs i rhsIdx data).length = data.length := by
  induction data generalizing i rhsIdx with
  | nil => rfl
  | cons v rest ih =>
      rw [mixLoop]
      split <;> simp [ih]

/-- When both sides are the same object, the loop reads items that it has already replaced. -/
def mixSelf (which : ℕ → Bool) : ℕ → ℕ → ℕ → List ℤ → List ℤ
  | 0, _, _, data => data
  | fuel + 1, i, rhsIdx, data =>
      if which i then mixSelf which fuel (i + 1) ((rhsIdx + 1) % data.length) (data.set i (data.getD rhsIdx 0))
      else mixSelf which fuel (i + 1) rhsIdx data

theorem mixSelf_length (which : ℕ → Bool) (fuel i rhsIdx : ℕ) (data : List ℤ) :
    (mixSelf which fuel i rhsIdx data).length = data.length := by
  induction fuel generalizing i rhsIdx data with
  | zero => rfl
  | succ fuel ih =>
      rw [mixSelf]
      split <;> simp [ih]

/-- When both sides are the same object, each added item makes the loop longer while there is room. -/
def addSelf (gen : ℕ → ℕ → ℕ) : ℕ → ℕ → ReservoirSample → ReservoirSample
  | 0, _, sample => sample
  | fuel + 1, i, sample =>
      if i < sample.elements then addSelf gen fuel (i + 1) (sample.addOne (gen i) (sample.item i)) else sample

/-- The right side is unweighted, or the left side is filled from it and then mixed with it. -/
def mergeIn (draws : MergeDraws) (sample rhs : ReservoirSample) : ReservoirSample × Option (Float64 × Float64) :=
  if rhs.elements < rhs.maxSize then (addAll draws.replaced 0 rhs.sampleOfData sample, none)
  else
    let (filled, rhsSeen) := fillLoop draws rhs (sample.maxSize - sample.totalSeen) 0 sample rhs.totalSeen
    let rhsIdx := rhs.drawnPosition draws (sample.maxSize - sample.totalSeen)
    ({ filled with
      sampleOfData := mixLoop draws.which rhs 0 rhsIdx filled.sampleOfData
      totalSeen := (filled.totalSeen + rhsSeen) % 2 ^ 64
      room := by rw [mixLoop_length]; exact filled.room }, some (probabilities filled rhsSeen))

/-- The same call with one object on both sides. -/
def mergeSelf (draws : MergeDraws) (sample : ReservoirSample) : ReservoirSample × Option (Float64 × Float64) :=
  if sample.elements < sample.maxSize then (addSelf draws.replaced sample.maxSize 0 sample, none)
  else
    let (filled, rhsSeen) := fillLoop draws sample (sample.maxSize - sample.totalSeen) 0 sample sample.totalSeen
    let rhsIdx := filled.drawnPosition draws (sample.maxSize - sample.totalSeen)
    ({ filled with
      sampleOfData := mixSelf draws.which filled.elements 0 rhsIdx filled.sampleOfData
      totalSeen := (filled.totalSeen + rhsSeen) % 2 ^ 64
      room := by rw [mixSelf_length]; exact filled.room }, some (probabilities filled rhsSeen))

end ReservoirSample

/-- A merge records both counts before it, the count after it, and the probabilities it computed. -/
structure MergeRecord where
  left : ℕ
  right : ℕ
  after : ℕ
  probabilities : Option (Float64 × Float64)

/-- The count after a merge is the sum of the two, and the mixing probabilities are probabilities. -/
def MergeRecord.Proper (record : MergeRecord) : Prop :=
  record.after = record.left + record.right ∧
    ∀ pair ∈ record.probabilities, pair.1.InUnit ∧ pair.2.InUnit

/-- A reservoir holds as many items as it has seen and has room for, and it holds only items that were added. -/
def ReservoirSample.Held (sample : ReservoirSample) (origin : List ℤ) : Prop :=
  sample.elements = min sample.maxSize sample.totalSeen ∧ ∀ v ∈ sample.sampleOfData, v ∈ origin

/-- Each reservoir comes with the items that were added to it or to what was merged into it. -/
structure ReservoirPool where
  reservoirs : List (ReservoirSample × List ℤ)
  merges : List MergeRecord

inductive ReservoirEvent where
  | addItem (i : ℕ) (v : ℤ) (c : UInt32) (gen : ℕ → ℕ → ℕ)
  | addData (i : ℕ) (data : List ℤ) (gen : ℕ → ℕ → ℕ)
  | mergeIn (i j : ℕ) (draws : MergeDraws)

namespace ReservoirPool

open ReservoirSample

/-- The capacity of a new reservoir is a positive `int`. -/
abbrev Capacity := {capacity : ℕ // 1 ≤ capacity ∧ capacity < 2 ^ 31}

def new (capacities : List Capacity) : ReservoirPool :=
  ⟨capacities.map fun capacity => (⟨[], false, capacity.1, 0, Nat.zero_le _⟩, []), []⟩

def step (pool : ReservoirPool) : ReservoirEvent → Option ReservoirPool
  | .addItem i v c gen => pool.reservoirs[i]?.map fun (sample, origin) =>
      {pool with reservoirs := pool.reservoirs.set i (sample.addItem gen v c, v :: origin)}
  | .addData i data gen => pool.reservoirs[i]?.map fun (sample, origin) =>
      {pool with reservoirs := pool.reservoirs.set i (sample.addData gen data, data ++ origin)}
  | .mergeIn i j draws => pool.reservoirs[i]?.bind fun (sample, origin) =>
      pool.reservoirs[j]?.map fun (rhs, rhsOrigin) =>
        let (merged, probabilities) := if i = j then sample.mergeSelf draws else sample.mergeIn draws rhs
        ⟨pool.reservoirs.set i (merged, origin ++ rhsOrigin),
          pool.merges ++ [⟨sample.totalSeen, rhs.totalSeen, merged.totalSeen, probabilities⟩]⟩

def system (capacities : List Capacity) : EventSystem ReservoirPool ReservoirEvent := ⟨new capacities, step⟩

def Sound (pool : ReservoirPool) : Prop :=
  (∀ entry ∈ pool.reservoirs, entry.1.Held entry.2) ∧ ∀ record ∈ pool.merges, record.Proper

/-- No count leaves 64 bits, a full right side has enough for the left one, and no reservoir with room for more than it
holds is merged with itself. -/
def Fits (pool : ReservoirPool) : ReservoirEvent → Prop
  | .addItem i _ c _ => ∀ entry ∈ pool.reservoirs[i]?, entry.1.totalSeen + c.toNat < 2 ^ 64
  | .addData i data _ => ∀ entry ∈ pool.reservoirs[i]?, entry.1.totalSeen + data.length < 2 ^ 64
  | .mergeIn i j _ => ∀ left ∈ pool.reservoirs[i]?, ∀ right ∈ pool.reservoirs[j]?,
      left.1.totalSeen + right.1.totalSeen < 2 ^ 64 ∧
      (right.1.maxSize ≤ right.1.elements → left.1.maxSize ≤ left.1.totalSeen + right.1.totalSeen) ∧
      (i = j → left.1.elements = 0 ∨ left.1.maxSize ≤ left.1.elements)

instance decidableFits (pool : ReservoirPool) : (event : ReservoirEvent) → Decidable (pool.Fits event)
  | .addItem _ _ _ _ => inferInstanceAs (Decidable (∀ _ ∈ _, _))
  | .addData _ _ _ => inferInstanceAs (Decidable (∀ _ ∈ _, _))
  | .mergeIn _ _ _ => inferInstanceAs (Decidable (∀ _ ∈ _, _))

end ReservoirPool

namespace ReservoirSample

variable {sample rhs : ReservoirSample} {origin rhsOrigin : List ℤ}

/-- The reservoir has a positive capacity and its count fits. -/
structure Kept (sample : ReservoirSample) (origin : List ℤ) : Prop where
  held : sample.Held origin
  positive : 1 ≤ sample.maxSize
  small : sample.maxSize < 2 ^ 31
  seen : sample.totalSeen < 2 ^ 64

theorem addAll_totalSeen_lt (gen : ℕ → ℕ → ℕ) (k : ℕ) (items : List ℤ) (seen : sample.totalSeen < 2 ^ 64) :
    (addAll gen k items sample).totalSeen < 2 ^ 64 := by
  induction items generalizing k sample with
  | nil => exact seen
  | cons v rest ih =>
      rw [addAll]
      refine ih (k + 1) ?_
      rw [addOne_totalSeen]
      exact Nat.mod_lt _ (by decide)

/-- Adding items adds to the count. -/
theorem Kept.addAll (kept : sample.Kept origin) (gen : ℕ → ℕ → ℕ) (k : ℕ) (items : List ℤ)
    (fits : sample.totalSeen + items.length < 2 ^ 64) (larger : List ℤ) (old : ∀ v ∈ origin, v ∈ larger)
    (new : ∀ v ∈ items, v ∈ larger) :
    (ReservoirSample.addAll gen k items sample).Kept larger ∧
      (ReservoirSample.addAll gen k items sample).totalSeen = sample.totalSeen + items.length ∧
      (ReservoirSample.addAll gen k items sample).maxSize = sample.maxSize := by
  obtain ⟨size, -, length, subset, total⟩ := addAll_spec gen k items sample
  have seen := addAll_totalSeen_lt gen k items kept.seen
  rw [Nat.mod_eq_of_lt seen, Nat.mod_eq_of_lt fits] at total
  have held := kept.held.1
  unfold elements at held
  refine ⟨⟨⟨?_, ?_⟩, ?_, ?_, seen⟩, total, size⟩
  · unfold elements
    omega
  · intro v member
    rcases subset v member with earlier | later
    · exact old v (kept.held.2 v earlier)
    · exact new v later
  · rw [size]
    exact kept.positive
  · rw [size]
    exact kept.small

theorem item_mem {i : ℕ} (inside : i < sample.elements) : sample.item i ∈ sample.sampleOfData := by
  unfold item
  rw [List.getD_eq_getElem _ _ inside]
  exact List.getElem_mem inside

theorem drawnPosition_lt (draws : MergeDraws) (k : ℕ) (some : 0 < sample.elements) :
    sample.drawnPosition draws k < sample.elements := Nat.mod_lt _ some

/-- The left side is filled with items of the right side, and each one is taken from its count. -/
theorem fillLoop_spec (draws : MergeDraws) (some : 0 < rhs.elements) {larger : List ℤ}
    (right : ∀ v ∈ rhs.sampleOfData, v ∈ larger) (fuel k rhsSeen : ℕ) (kept : sample.Kept larger)
    (missing : sample.maxSize - sample.totalSeen = fuel) (enough : fuel ≤ rhsSeen) (seen : rhsSeen < 2 ^ 64) :
    (fillLoop draws rhs fuel k sample rhsSeen).1.Kept larger ∧
      (fillLoop draws rhs fuel k sample rhsSeen).1.totalSeen = sample.totalSeen + fuel ∧
      (fillLoop draws rhs fuel k sample rhsSeen).1.maxSize = sample.maxSize ∧
      (fillLoop draws rhs fuel k sample rhsSeen).2 = rhsSeen - fuel := by
  induction fuel generalizing k sample rhsSeen with
  | zero => exact ⟨kept, rfl, rfl, rfl⟩
  | succ fuel ih =>
      have small := kept.small
      have short : sample.totalSeen < sample.maxSize := by omega
      have one := kept.addAll (draws.replaced) k [rhs.item (rhs.drawnPosition draws k)]
        (by rw [List.length_singleton]; omega) larger (fun v member => member) (by
          intro v member
          rw [List.mem_singleton] at member
          exact member ▸ right _ (item_mem (drawnPosition_lt draws k some)))
      have same : ReservoirSample.addAll draws.replaced k [rhs.item (rhs.drawnPosition draws k)] sample =
          sample.addOne (draws.replaced k) (rhs.item (rhs.drawnPosition draws k)) := rfl
      rw [same, List.length_singleton] at one
      obtain ⟨kept', total, size⟩ := one
      have wrapped : (rhsSeen + (2 ^ 64 - 1)) % 2 ^ 64 = rhsSeen - 1 := by omega
      rw [fillLoop, if_pos short, wrapped]
      obtain ⟨final, finalTotal, finalSize, left⟩ := ih (k + 1) (rhsSeen - 1) kept' (by omega) (by omega) (by omega)
      exact ⟨final, by omega, finalSize.trans size, by omega⟩

theorem mem_mixLoop (which : ℕ → Bool) (i rhsIdx : ℕ) (data : List ℤ) (inside : rhsIdx < rhs.elements) :
    ∀ v ∈ mixLoop which rhs i rhsIdx data, v ∈ data ∨ v ∈ rhs.sampleOfData := by
  induction data generalizing i rhsIdx with
  | nil =>
      intro v member
      cases member
  | cons u rest ih =>
      intro v member
      rw [mixLoop] at member
      split at member
      · rcases List.mem_cons.mp member with rfl | later
        · exact Or.inr (item_mem inside)
        · exact (ih _ _ (Nat.mod_lt _ (by omega)) v later).imp_left (List.mem_cons_of_mem _)
      · rcases List.mem_cons.mp member with rfl | later
        · exact Or.inl List.mem_cons_self
        · exact (ih _ _ inside v later).imp_left (List.mem_cons_of_mem _)

theorem mem_mixSelf (which : ℕ → Bool) (fuel i rhsIdx : ℕ) (data : List ℤ) (inside : rhsIdx < data.length) :
    ∀ v ∈ mixSelf which fuel i rhsIdx data, v ∈ data := by
  induction fuel generalizing i rhsIdx data with
  | zero => exact fun v member => member
  | succ fuel ih =>
      intro v member
      rw [mixSelf] at member
      split at member
      · have later := ih (i + 1) ((rhsIdx + 1) % data.length) (data.set i (data.getD rhsIdx 0)) (by
          rw [List.length_set]
          exact Nat.mod_lt _ (by omega)) v member
        rcases List.mem_or_eq_of_mem_set later with old | rfl
        · exact old
        · rw [List.getD_eq_getElem _ _ inside]
          exact List.getElem_mem inside
      · exact ih (i + 1) rhsIdx data inside v member

/-- A merge that mixes leaves the sum of both counts and computes probabilities. -/
theorem Kept.mixed {filled : ReservoirSample} {larger data : List ℤ} {seen rhsSeen : ℕ}
    (kept : filled.Kept larger) (fuel : ℕ) (total : filled.totalSeen = seen + fuel) (full : filled.maxSize ≤ seen + fuel)
    (enough : fuel ≤ rhsSeen) (fits : seen + rhsSeen < 2 ^ 64) (length : data.length = filled.sampleOfData.length)
    (subset : ∀ v ∈ data, v ∈ larger) (room : data.length ≤ filled.maxSize) :
    Kept { filled with
        sampleOfData := data
        totalSeen := (filled.totalSeen + (rhsSeen - fuel)) % 2 ^ 64
        room := room } larger ∧
      (filled.totalSeen + (rhsSeen - fuel)) % 2 ^ 64 = seen + rhsSeen ∧
      (probabilities filled (rhsSeen - fuel)).1.InUnit ∧ (probabilities filled (rhsSeen - fuel)).2.InUnit := by
  have held := kept.held.1
  have positive := kept.positive
  unfold elements at held
  have sum : (filled.totalSeen + (rhsSeen - fuel)) % 2 ^ 64 = seen + rhsSeen := by
    rw [total, Nat.mod_eq_of_lt (by omega)]
    omega
  have units := @Float64.inUnit_div filled.totalSeen (seen + rhsSeen) (by omega) (by omega) fits
  refine ⟨⟨⟨?_, subset⟩, kept.positive, kept.small, Nat.mod_lt _ (by decide)⟩, sum, ?_⟩
  · show data.length = min filled.maxSize ((filled.totalSeen + (rhsSeen - fuel)) % 2 ^ 64)
    omega
  · unfold probabilities
    dsimp only
    rw [sum]
    exact units

/-- A merge with enough on the right side keeps both counts and the items of both sides. -/
theorem Kept.mergeIn (kept : sample.Kept origin) (right : rhs.Kept rhsOrigin) (draws : MergeDraws)
    (fits : sample.totalSeen + rhs.totalSeen < 2 ^ 64)
    (enough : rhs.maxSize ≤ rhs.elements → sample.maxSize ≤ sample.totalSeen + rhs.totalSeen) :
    (sample.mergeIn draws rhs).1.Kept (origin ++ rhsOrigin) ∧
      (sample.mergeIn draws rhs).1.totalSeen = sample.totalSeen + rhs.totalSeen ∧
      ∀ pair ∈ (sample.mergeIn draws rhs).2, pair.1.InUnit ∧ pair.2.InUnit := by
  have rightHeld := right.held.1
  have rightPositive := right.positive
  by_cases part : rhs.elements < rhs.maxSize
  · have all : rhs.sampleOfData.length = rhs.totalSeen := by
      unfold elements at rightHeld part
      omega
    have merged : sample.mergeIn draws rhs = (ReservoirSample.addAll draws.replaced 0 rhs.sampleOfData sample, none) :=
      if_pos part
    obtain ⟨kept', total, -⟩ := kept.addAll draws.replaced 0 rhs.sampleOfData (by omega) (origin ++ rhsOrigin)
      (fun v member => List.mem_append_left _ member)
      (fun v member => List.mem_append_right _ (right.held.2 v member))
    rw [merged]
    refine ⟨kept', by rw [total, all], ?_⟩
    intro pair member
    cases member
  · have some : 0 < rhs.elements := by omega
    have larger : sample.Kept (origin ++ rhsOrigin) :=
      ⟨⟨kept.held.1, fun v member => List.mem_append_left _ (kept.held.2 v member)⟩, kept.positive, kept.small, kept.seen⟩
    have room := enough (Nat.le_of_not_lt part)
    obtain ⟨filled, total, size, left⟩ := fillLoop_spec draws some
      (fun v member => List.mem_append_right origin (right.held.2 v member)) (sample.maxSize - sample.totalSeen) 0
      rhs.totalSeen larger rfl (by omega) right.seen
    unfold ReservoirSample.mergeIn
    rw [if_neg part]
    generalize fillLoop draws rhs (sample.maxSize - sample.totalSeen) 0 sample rhs.totalSeen = result
      at filled total size left
    obtain ⟨filledSample, rhsSeen⟩ := result
    dsimp only at filled total size left ⊢
    subst left
    have mixed := filled.mixed _ total (by omega) (by omega) fits
      (mixLoop_length draws.which rhs 0 (rhs.drawnPosition draws (sample.maxSize - sample.totalSeen)) _) (by
        intro v member
        rcases mem_mixLoop draws.which 0 _ _ (drawnPosition_lt draws _ some) v member with old | new
        · exact filled.held.2 v old
        · exact List.mem_append_right _ (right.held.2 v new))
      (by rw [mixLoop_length]; exact filledSample.room)
    refine ⟨mixed.1, mixed.2.1, ?_⟩
    intro pair member
    obtain rfl := Option.some.inj member
    exact mixed.2.2

/-- An empty or full reservoir may be merged with itself. -/
theorem Kept.mergeSelf (kept : sample.Kept origin) (draws : MergeDraws)
    (fits : sample.totalSeen + sample.totalSeen < 2 ^ 64)
    (whole : sample.elements = 0 ∨ sample.maxSize ≤ sample.elements) :
    (sample.mergeSelf draws).1.Kept (origin ++ origin) ∧
      (sample.mergeSelf draws).1.totalSeen = sample.totalSeen + sample.totalSeen ∧
      ∀ pair ∈ (sample.mergeSelf draws).2, pair.1.InUnit ∧ pair.2.InUnit := by
  have held := kept.held.1
  have positive := kept.positive
  have larger : sample.Kept (origin ++ origin) :=
    ⟨⟨kept.held.1, fun v member => List.mem_append_left _ (kept.held.2 v member)⟩, kept.positive, kept.small, kept.seen⟩
  unfold ReservoirSample.mergeSelf
  by_cases part : sample.elements < sample.maxSize
  · have empty : sample.elements = 0 := whole.resolve_right (Nat.not_le.mpr part)
    have nothing : addSelf draws.replaced sample.maxSize 0 sample = sample := by
      obtain ⟨fuel, same⟩ := Nat.exists_eq_add_of_le' positive
      rw [same, addSelf, if_neg (by omega)]
    rw [if_pos part, nothing]
    refine ⟨larger, ?_, ?_⟩
    · dsimp only
      omega
    · intro pair member
      cases member
  · have some : 0 < sample.elements := by omega
    have none : sample.maxSize - sample.totalSeen = 0 := by omega
    have unchanged : fillLoop draws sample (sample.maxSize - sample.totalSeen) 0 sample sample.totalSeen =
        (sample, sample.totalSeen) := by
      rw [none]
      rfl
    rw [if_neg part, unchanged]
    have mixed := larger.mixed 0 (Nat.add_zero _).symm (Nat.le_of_sub_eq_zero none) (Nat.zero_le _) fits
      (mixSelf_length draws.which sample.elements 0
        (sample.drawnPosition draws (sample.maxSize - sample.totalSeen)) sample.sampleOfData) (by
        intro v member
        exact larger.held.2 v (mem_mixSelf draws.which _ 0 _ _ (drawnPosition_lt draws _ some) v member))
      (by rw [mixSelf_length]; exact sample.room)
    refine ⟨mixed.1, mixed.2.1, ?_⟩
    intro pair member
    obtain rfl := Option.some.inj member
    exact mixed.2.2

end ReservoirSample

namespace ReservoirPool

open ReservoirSample

/-- Every reservoir is kept and every merge was proper. -/
structure Maintained (pool : ReservoirPool) : Prop where
  kept : ∀ entry ∈ pool.reservoirs, entry.1.Kept entry.2
  proper : ∀ record ∈ pool.merges, record.Proper

theorem new_maintained (capacities : List Capacity) : (new capacities).Maintained := by
  constructor
  · intro entry member
    obtain ⟨capacity, -, rfl⟩ := List.mem_map.mp member
    refine ⟨⟨?_, ?_⟩, capacity.2.1, capacity.2.2, Nat.two_pow_pos 64⟩
    · exact (Nat.min_zero _).symm
    · intro v member
      cases member
  · intro record member
    cases member

/-- Replacing a reservoir by one that is kept keeps the pool. -/
theorem Maintained.set {pool : ReservoirPool} (maintained : pool.Maintained) (i : ℕ) {sample : ReservoirSample}
    {origin : List ℤ} (kept : sample.Kept origin) {merges : List MergeRecord}
    (proper : ∀ record ∈ merges, record.Proper) :
    Maintained ⟨pool.reservoirs.set i (sample, origin), pool.merges ++ merges⟩ := by
  constructor
  · intro entry member
    rcases List.mem_or_eq_of_mem_set member with old | rfl
    · exact maintained.kept entry old
    · exact kept
  · intro record member
    rcases List.mem_append.mp member with old | new
    · exact maintained.proper record old
    · exact proper record new

/-- An event that fits keeps all reservoirs. -/
theorem Maintained.step {pool next : ReservoirPool} {event : ReservoirEvent} (maintained : pool.Maintained)
    (fits : pool.Fits event) (stepped : pool.step event = some next) : next.Maintained := by
  have none : ∀ record ∈ ([] : List MergeRecord), record.Proper := fun record member => by cases member
  cases event with
  | addItem i v c gen =>
      obtain ⟨⟨sample, origin⟩, found, rfl⟩ := Option.map_eq_some_iff.mp stepped
      have kept := maintained.kept _ (List.mem_of_getElem? found)
      have room : sample.totalSeen + (List.replicate c.toNat v).length < 2 ^ 64 := by
        rw [List.length_replicate]
        exact fits _ found
      have added := kept.addAll gen 0 (List.replicate c.toNat v) room (v :: origin)
        (fun u member => List.mem_cons_of_mem _ member) (by
          intro u member
          rw [List.eq_of_mem_replicate member]
          exact List.mem_cons_self)
      simpa [addItem] using maintained.set i added.1 none
  | addData i data gen =>
      obtain ⟨⟨sample, origin⟩, found, rfl⟩ := Option.map_eq_some_iff.mp stepped
      have kept := maintained.kept _ (List.mem_of_getElem? found)
      have added := kept.addAll gen 0 data (fits _ found) (data ++ origin)
        (fun u member => List.mem_append_right _ member) (fun u member => List.mem_append_left _ member)
      simpa [addData] using maintained.set i added.1 none
  | mergeIn i j draws =>
      obtain ⟨⟨sample, origin⟩, found, stepped⟩ := Option.bind_eq_some_iff.mp stepped
      obtain ⟨⟨rhs, rhsOrigin⟩, foundRight, rfl⟩ := Option.map_eq_some_iff.mp stepped
      have kept := maintained.kept _ (List.mem_of_getElem? found)
      have right := maintained.kept _ (List.mem_of_getElem? foundRight)
      obtain ⟨sum, enough, whole⟩ := fits _ found _ foundRight
      have merged : (if i = j then sample.mergeSelf draws else sample.mergeIn draws rhs).1.Kept (origin ++ rhsOrigin) ∧
          (if i = j then sample.mergeSelf draws else sample.mergeIn draws rhs).1.totalSeen =
            sample.totalSeen + rhs.totalSeen ∧
          ∀ pair ∈ (if i = j then sample.mergeSelf draws else sample.mergeIn draws rhs).2,
            pair.1.InUnit ∧ pair.2.InUnit := by
        by_cases same : i = j
        · subst same
          obtain ⟨rfl, rfl⟩ := Prod.mk.inj (Option.some.inj (found.symm.trans foundRight))
          rw [if_pos rfl]
          exact kept.mergeSelf draws sum (whole rfl)
        · rw [if_neg same]
          exact kept.mergeIn right draws sum enough
      refine maintained.set i merged.1 ?_
      intro record member
      rw [List.mem_singleton] at member
      subst member
      exact ⟨merged.2.1, merged.2.2⟩

/-- In every run whose events fit, every reservoir holds what it has seen up to its capacity, every merge adds the counts,
and every mixing probability is a probability. -/
theorem reservoirs_sound (capacities : List Capacity) (events : List ReservoirEvent)
    (fits : (system capacities).EveryStep Fits (new capacities) events) :
    (system capacities).EveryState Sound (new capacities) events := by
  apply EventSystem.EveryStep.everyState Maintained _ _ (new_maintained capacities) fits
  · intro pool event next maintained fits stepped
    exact maintained.step fits stepped
  · intro pool maintained
    exact ⟨fun entry member => (maintained.kept entry member).held, maintained.proper⟩

/-- These draws replace and take the first position and mix nothing. -/
def firstDraws : MergeDraws := ⟨fun _ _ => 0, fun _ _ => 0, fun _ => false⟩

/-- A reservoir of two is filled and merged into another one of two that has room. -/
def fillAndMerge : List ReservoirEvent :=
  [.addData 1 [5, 6, 7] (fun _ _ => 0), .addItem 0 4 1 (fun _ _ => 0), .mergeIn 0 1 firstDraws]

theorem reservoirs_sound_fillAndMerge :
    (system [⟨2, by decide⟩, ⟨2, by decide⟩]).EveryState Sound (new [⟨2, by decide⟩, ⟨2, by decide⟩]) fillAndMerge :=
  reservoirs_sound _ fillAndMerge (by decide)

/-- A full reservoir of two is merged into an empty one of ten. -/
def mergeIntoLarger : List ReservoirEvent := [.addData 1 [5, 6] (fun _ _ => 0), .mergeIn 0 1 firstDraws]

theorem mergeIntoLarger_unsound : ∃ pool, (system [⟨10, by decide⟩, ⟨2, by decide⟩]).runFrom
      (new [⟨10, by decide⟩, ⟨2, by decide⟩]) mergeIntoLarger = some pool ∧
    (∃ entry ∈ pool.reservoirs, entry.1.elements = 10 ∧ min entry.1.maxSize entry.1.totalSeen = 2) ∧
    ¬ pool.Sound := by
  refine ⟨_, rfl, ⟨_, List.mem_cons_self, by decide, by decide⟩, ?_⟩
  intro sound
  have held := (sound.1 _ List.mem_cons_self).1
  exact absurd held (by decide)

end ReservoirPool

end JetStream
