import Mathlib.Data.Fintype.Basic
import JetStream.Aggregates.CMSketch

namespace JetStream

def bitsPerLevel : ℕ := 2

def exactLevels : ℕ := 6

/-- The exact levels leave this many levels of the 32-bit values to sketches. -/
def levels : ℕ := (32 - bitsPerLevel * exactLevels) / bitsPerLevel

theorem levels_pos : 0 < levels := by decide

def exactLSize (lev : ℕ) : ℕ := 1 <<< ((exactLevels - lev) * bitsPerLevel)

/-- Each level drops the low bits of the level before. -/
def levelData (data : ℤ) (level : ℕ) : ℤ := (fun (value : ℤ) => value >>> bitsPerLevel)^[level] data

/-- The multi-sketch has one sketch for each fine level and one exact table for each coarse level. -/
structure CMMultiSketch where
  panes : Fin levels → CMSketch
  exactCounts : (i : Fin exactLevels) → Fin (exactLSize i) → ℕ
  randSeed : ℤ

namespace CMMultiSketch

/-- The assertion of the exact levels accepts only values that fit their tables. -/
def Fits (data : ℤ) : Prop := ∀ i : Fin exactLevels, toUInt32 (levelData data (levels + i)) < exactLSize i

instance (data : ℤ) : Decidable (Fits data) := inferInstanceAs (Decidable (∀ _, _))

section Environment

variable (draws : ℤ → ℕ → ℤ) (wideShift : ℕ → ℕ → ℕ)

/-- All panes have the same width, depth and seed. -/
def new (w d : ℕ) (seed : ℤ) : Option CMMultiSketch :=
  (CMSketch.init draws w d seed).map fun pane => ⟨fun _ => pane, fun _ _ => 0, seed⟩

/-- An item is added at every level. -/
def addItem (sketch : CMMultiSketch) (data : ℤ) (newVal : ℕ) : Option CMMultiSketch :=
  if Fits data then some { sketch with
    panes := fun i => (sketch.panes i).addItemH wideShift (levelData data i) (toInt32 newVal)
    exactCounts := fun i c =>
      if toUInt32 (levelData data (levels + i)) = c then addCount (sketch.exactCounts i c) newVal
      else sketch.exactCounts i c }
  else none

/-- This is the multi-sketch that a stream of items gives. -/
def build (w d : ℕ) (seed : ℤ) (stream : List (ℤ × ℕ)) : Option CMMultiSketch :=
  (new draws w d seed).bind fun empty =>
    stream.foldlM (fun sketch item => sketch.addItem wideShift item.1 item.2) empty

end Environment

/-- The panes are merged only after every pane has accepted its counterpart. -/
def mergeIn (sketch rhs : CMMultiSketch) : Bool × CMMultiSketch :=
  if ∀ i, (sketch.panes i).canAccept (rhs.panes i) = true then
    (true, { sketch with
      panes := fun i => ((sketch.panes i).mergeIn (rhs.panes i)).2
      exactCounts := fun i c => addCount (sketch.exactCounts i c) (rhs.exactCounts i c) })
  else (false, sketch)

/-- The stream of a level has the shifted values. -/
def levelStream (level : ℕ) (stream : List (ℤ × ℕ)) : List (ℤ × ℤ) :=
  stream.map fun item => (levelData item.1 level, toInt32 item.2)

/-- The exact score sums the values of the items at one entry of a table. -/
def exactScore (level entry : ℕ) (stream : List (ℤ × ℕ)) : ℕ :=
  (stream.map fun item => if toUInt32 (levelData item.1 (levels + level)) = entry then item.2 else 0).sum

section Environment

variable {draws : ℤ → ℕ → ℤ} {wideShift : ℕ → ℕ → ℕ} {w d : ℕ} {seed : ℤ} {stream : List (ℤ × ℕ)}

/-- A build ends with its last item. -/
theorem build_append_singleton (item : ℤ × ℕ) :
    build draws wideShift w d seed (stream ++ [item]) =
      (build draws wideShift w d seed stream).bind fun sketch => sketch.addItem wideShift item.1 item.2 := by
  simp [build, List.foldlM_append, Option.bind_assoc]

/-- A built multi-sketch has built panes and exact sums. -/
theorem build_eq_some {sketch : CMMultiSketch} (built : build draws wideShift w d seed stream = some sketch) :
    (∀ item ∈ stream, Fits item.1) ∧ sketch.randSeed = seed ∧
      (∀ i : Fin levels, CMSketch.build draws wideShift w d seed (levelStream i stream) = some (sketch.panes i)) ∧
      ∀ i c, sketch.exactCounts i c = exactScore i c stream % 2 ^ 32 := by
  induction stream using List.reverseRecOn generalizing sketch with
  | nil =>
      obtain ⟨empty, started, done⟩ := Option.bind_eq_some_iff.mp built
      obtain rfl := Option.some.inj done
      obtain ⟨pane, initialized, rfl⟩ := Option.map_eq_some_iff.mp started
      refine ⟨by simp, rfl, ?_, fun i c => rfl⟩
      intro i
      rw [CMSketch.build, initialized]
      rfl
  | append_singleton stream item ih =>
      rw [build_append_singleton] at built
      obtain ⟨before, earlier, added⟩ := Option.bind_eq_some_iff.mp built
      obtain ⟨fits, seeds, panes, exact_⟩ := ih earlier
      rw [addItem, Option.ite_none_right_eq_some] at added
      obtain ⟨accepted, same⟩ := added
      obtain rfl := Option.some.inj same
      refine ⟨?_, seeds, ?_, ?_⟩
      · intro other member
        rcases List.mem_append.mp member with old | last
        · exact fits other old
        · rw [List.mem_singleton.mp last]
          exact accepted
      · intro i
        have extended : levelStream i (stream ++ [item]) =
            levelStream i stream ++ [(levelData item.1 i, toInt32 item.2)] := by
          simp [levelStream]
        rw [extended, CMSketch.build_append_singleton, panes i, Option.map_some]
      · intro i c
        have split : exactScore i c (stream ++ [item]) = exactScore i c stream +
            if toUInt32 (levelData item.1 (levels + i)) = c then item.2 else 0 := by
          simp [exactScore]
        rw [split]
        dsimp only
        rw [exact_ i c]
        by_cases found : toUInt32 (levelData item.1 (levels + i)) = c
        · rw [if_pos found, if_pos found, addCount]
          omega
        · rw [if_neg found, if_neg found, Nat.add_zero]

theorem build_isSome (draws : ℤ → ℕ → ℤ) (wideShift : ℕ → ℕ → ℕ) (range : 2 < w ∧ w < 12) (d : ℕ) (seed : ℤ)
    (stream : List (ℤ × ℕ)) (fits : ∀ item ∈ stream, Fits item.1) :
    (build draws wideShift w d seed stream).isSome := by
  induction stream using List.reverseRecOn with
  | nil => simp [build, new, CMSketch.init, range]
  | append_singleton stream item ih =>
      obtain ⟨before, earlier⟩ := Option.isSome_iff_exists.mp (ih fun other member => fits other (by simp [member]))
      rw [build_append_singleton, earlier, Option.bind_some, addItem, if_pos (fits item (by simp))]
      rfl

end Environment

end CMMultiSketch

end JetStream
