import JetStream.Dataplane.CongestPolicy

namespace JetStream

namespace CongestionPolicy

/-- The loop reads two levels in each test, and it tests the bound only after it has read them. -/
def upgradeSearch (array : LevelArray) (capacity : Float64) (curLevel : ℕ) : ℕ → ℕ → ℕ × List ℕ
  | 0, step => (step, [step, curLevel])
  | room + 1, step =>
      if array.levels step / array.levels curLevel < capacity then
        let (stop, reads) := upgradeSearch array capacity curLevel room (step + 1)
        (stop, step :: curLevel :: reads)
      else (step, [step, curLevel])

/-- The search gives its stop and the indices that it read, and two returns come before it. -/
def searchUpgrade (array : LevelArray) (capacity : Float64) (curLevel : ℕ) : Option (ℕ × List ℕ) :=
  if unsignedPred array.levelsLen ≤ curLevel then none
  else if curLevel = 0 ∧ .ofInt 0 < capacity then none
  else some (upgradeSearch array capacity curLevel (array.levelsLen - curLevel) curLevel)

/-- The search ends at the first level that the capacity does not exceed, or at the end of the array. -/
def StopsFirst (array : LevelArray) (capacity : Float64) (curLevel stop : ℕ) : Prop :=
  (∀ index, curLevel ≤ index → index < stop → ¬ capacity ≤ array.levels index / array.levels curLevel) ∧
    (curLevel ≤ stop ∧ stop < array.levelsLen ∧ capacity ≤ array.levels stop / array.levels curLevel ∨
      stop = array.levelsLen)

/-- Every read of the search is in the array, and it stops where it should. -/
def ReadsOwnLevels (array : LevelArray) (capacity : Float64) (curLevel : ℕ) : Prop :=
  ∀ search ∈ searchUpgrade array capacity curLevel,
    (∀ index ∈ search.2, index < array.levelsLen) ∧ StopsFirst array capacity curLevel search.1

section Search

variable {array : LevelArray} {capacity : Float64} {curLevel : ℕ}

theorem upgradeSearch_stop (room step : ℕ) :
    (upgradeSearch array capacity curLevel room step).1 = maxSupportedStep array capacity curLevel room step := by
  induction room generalizing step with
  | zero => rfl
  | succ room ih =>
      rw [upgradeSearch, maxSupportedStep]
      split
      · exact ih (step + 1)
      · rfl

/-- The upgrade is half of the way to where the search stops. -/
theorem shouldUpgrade_eq_search : shouldUpgrade array capacity curLevel =
    match searchUpgrade array capacity curLevel with
    | none => if unsignedPred array.levelsLen ≤ curLevel then curLevel else 1
    | some (stop, _) => (stop + curLevel + 1) % 2 ^ 32 / 2 := by
  rw [shouldUpgrade, searchUpgrade]
  by_cases top : unsignedPred array.levelsLen ≤ curLevel
  · simp only [if_pos top]
  · by_cases bottom : curLevel = 0 ∧ .ofInt 0 < capacity
    · simp only [if_neg top, if_pos bottom]
    · simp only [if_neg top, if_neg bottom, upgradeSearch_stop]

/-- All levels before the stop are below the capacity, and the last index that is read is the stop. -/
structure Searched (array : LevelArray) (capacity : Float64) (curLevel room step : ℕ) (search : ℕ × List ℕ) : Prop where
  lower : step ≤ search.1
  upper : search.1 ≤ step + room
  below : ∀ index, step ≤ index → index < search.1 → array.levels index / array.levels curLevel < capacity
  stopped : search.1 < step + room → ¬ array.levels search.1 / array.levels curLevel < capacity
  last : search.1 ∈ search.2
  reads : ∀ index ∈ search.2, index ≤ search.1

theorem upgradeSearch_spec (room : ℕ) {step : ℕ} (start : curLevel ≤ step) :
    Searched array capacity curLevel room step (upgradeSearch array capacity curLevel room step) := by
  induction room generalizing step with
  | zero =>
      refine ⟨le_rfl, le_rfl, fun index after before => ?_, fun more => ?_, List.mem_cons_self, ?_⟩
      · exact absurd after (not_le.mpr before)
      · exact absurd more (lt_irrefl _)
      · simpa [upgradeSearch] using start
  | succ room ih =>
      rw [upgradeSearch]
      by_cases more : array.levels step / array.levels curLevel < capacity
      · have rest := ih (show curLevel ≤ step + 1 by omega)
        have lower := rest.lower
        have upper := rest.upper
        rw [if_pos more]
        refine ⟨by dsimp only; omega, by dsimp only; omega, fun index after before => ?_, fun inside => ?_, ?_, ?_⟩
        · rcases Nat.eq_or_lt_of_le after with rfl | later
          · exact more
          · exact rest.below index later before
        · exact rest.stopped (by dsimp only at inside; omega)
        · exact List.mem_cons_of_mem _ (List.mem_cons_of_mem _ rest.last)
        · intro index read
          rcases List.mem_cons.mp read with rfl | read
          · exact (Nat.le_succ _).trans lower
          · rcases List.mem_cons.mp read with rfl | read
            · dsimp only
              omega
            · exact rest.reads index read
      · rw [if_neg more]
        refine ⟨le_rfl, Nat.le_add_right _ _, fun index after before => ?_, fun _ => more, List.mem_cons_self, ?_⟩
        · exact absurd after (not_le.mpr before)
        · simpa using start

/-- Between the bottom and the top the search is run. -/
theorem searchUpgrade_eq (within : curLevel < array.levelsLen) (above : Float64.ofInt 1 < capacity) :
    searchUpgrade array capacity curLevel =
      if curLevel = 0 ∨ curLevel + 1 = array.levelsLen then none
      else some (upgradeSearch array capacity curLevel (array.levelsLen - curLevel) curLevel) := by
  have top : unsignedPred array.levelsLen ≤ curLevel ↔ curLevel + 1 = array.levelsLen := by
    rw [unsignedPred, if_neg (by omega)]
    omega
  have positive : Float64.ofInt 0 < capacity := Float64.lt_trans (by decide +kernel) above
  simp only [searchUpgrade, top, positive, and_true]
  by_cases last : curLevel + 1 = array.levelsLen
  · rw [if_pos last, if_pos (.inr last)]
  · by_cases bottom : curLevel = 0
    · rw [if_neg last, if_pos bottom, if_pos (.inl bottom)]
    · rw [if_neg last, if_neg bottom, if_neg (by omega)]

end Search

/-- The search stays in the array and stops where it should exactly when it is not run, or when some level is not below
the capacity and all levels before it are. -/
theorem readsOwnLevels_iff {array : LevelArray} {capacity : Float64} {curLevel : ℕ}
    (within : curLevel < array.levelsLen) (above : .ofInt 1 < capacity) :
    ReadsOwnLevels array capacity curLevel ↔ curLevel = 0 ∨ curLevel + 1 = array.levelsLen ∨
      ∃ index, curLevel ≤ index ∧ index < array.levelsLen ∧ capacity ≤ array.levels index / array.levels curLevel ∧
        ∀ before, curLevel ≤ before → before < index → array.levels before / array.levels curLevel < capacity := by
  rw [ReadsOwnLevels, searchUpgrade_eq within above, ← or_assoc]
  by_cases early : curLevel = 0 ∨ curLevel + 1 = array.levelsLen
  · rw [if_pos early]
    exact iff_of_true (fun _ none => absurd none (by simp)) (.inl early)
  rw [if_neg early, or_iff_right early]
  have searched : Searched array capacity curLevel _ curLevel _ :=
    upgradeSearch_spec (array.levelsLen - curLevel) le_rfl
  constructor
  · intro own
    obtain ⟨inside, -, stops⟩ := own _ rfl
    have last := inside _ searched.last
    rcases stops with ⟨lower, -, reached⟩ | atEnd
    · exact ⟨_, lower, last, reached, searched.below⟩
    · omega
  · rintro ⟨index, lower, inside, reached, below⟩ search found
    obtain rfl := Option.some.inj found
    have same : (upgradeSearch array capacity curLevel (array.levelsLen - curLevel) curLevel).1 = index := by
      rcases lt_trichotomy (upgradeSearch array capacity curLevel (array.levelsLen - curLevel) curLevel).1 index with
        early | same | late
      · exact absurd (below _ searched.lower early) (searched.stopped (by omega))
      · exact same
      · exact absurd (searched.below index lower late) (Float64.not_lt_of_le reached)
    refine ⟨fun read isRead => ?_, fun before lower' earlier => ?_, .inl ?_⟩
    · have bound := searched.reads read isRead
      omega
    · rw [same] at earlier
      exact fun reached => Float64.not_lt_of_le reached (below before lower' earlier)
    · rw [same]
      exact ⟨lower, inside, reached⟩

/-- The levels of an operator are one, two and three. -/
def threeLevels : LevelArray := ⟨fun index => .ofInt (index + 1), 3⟩

/-- A capacity above every level makes the search read behind the array. -/
theorem searchUpgrade_reads_outside :
    1 < threeLevels.levelsLen ∧ .ofInt 1 < Float64.ofInt 10 ∧ ¬ ReadsOwnLevels threeLevels (.ofInt 10) 1 := by
  refine ⟨by decide, by decide +kernel, fun own => ?_⟩
  have ran : searchUpgrade threeLevels (.ofInt 10) 1 = some (3, [1, 1, 2, 1, 3, 1]) := by decide +kernel
  exact absurd ((own _ ran).1 3 (by decide)) (by decide)

/-- A capacity of one and a quarter is reached by the third level. -/
theorem readsOwnLevels_third : ReadsOwnLevels threeLevels (.ofRatio 5 4) 1 := by
  apply (readsOwnLevels_iff (by decide) (by decide +kernel)).mpr
  refine .inr (.inr ⟨2, by decide, by decide, by decide +kernel, fun before lower earlier => ?_⟩)
  obtain rfl : before = 1 := by omega
  decide +kernel

end CongestionPolicy

end JetStream
