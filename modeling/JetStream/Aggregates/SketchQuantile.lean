import JetStream.Aggregates.HistogramQuantile

namespace JetStream

namespace CMMultiSketch

/-- A search tests its loop condition at these bounds, with so many turns left before its cap. -/
inductive Tests (lowers : ℕ → Option Bool) : ℕ → ℕ → ℕ → Prop
  | start : Tests lowers 42 0 intMax
  | lower {turns bisectLow bisectHi : ℕ} (before : Tests lowers (turns + 1) bisectLow bisectHi)
      (continues : bisectLow + 1 < bisectHi) (answer : lowers (bisectHi / 2 + bisectLow / 2) = some true) :
      Tests lowers turns bisectLow (bisectHi / 2 + bisectLow / 2)
  | raise {turns bisectLow bisectHi : ℕ} (before : Tests lowers (turns + 1) bisectLow bisectHi)
      (continues : bisectLow + 1 < bisectHi) (answer : lowers (bisectHi / 2 + bisectLow / 2) = some false) :
      Tests lowers turns (bisectHi / 2 + bisectLow / 2) bisectHi

/-- A bisection that knows its goal tests these middles, whatever the sketch answers. -/
def middles (goal : ℕ) : ℕ → ℕ → ℕ → List ℕ
  | 0, _, _ => []
  | turns + 1, bisectLow, bisectHi =>
      if bisectLow + 1 < bisectHi then
        (bisectHi / 2 + bisectLow / 2) ::
          if goal ≤ bisectHi / 2 + bisectLow / 2 then middles goal turns bisectLow (bisectHi / 2 + bisectLow / 2)
          else middles goal turns (bisectHi / 2 + bisectLow / 2) bisectHi
      else []

/-- Every middle from the goal on is accepted, unless a middle below the goal was accepted before it. -/
def Accepts (lowers : ℕ → Option Bool) (goal : ℕ) (tested : List ℕ) : Prop :=
  ∀ before mid after, tested = before ++ mid :: after → goal ≤ mid →
    lowers mid = some true ∨ ∃ earlier ∈ before, earlier < goal ∧ lowers earlier = some true

/-- The goal is one of the middles or the largest `int`, and the answers do not keep the search above it. -/
def Reached (lowers : ℕ → Option Bool) (goal : ℕ) : Prop :=
  0 < goal ∧ (goal = intMax ∨ goal ∈ middles goal 42 0 intMax) ∧ Accepts lowers goal (middles goal 42 0 intMax)

/-- The search ends, its bounds stay apart and inside the `int`s, and it asks only about the middle of them. -/
structure SoundSearch (lowers : ℕ → Option Bool) : Prop where
  ends : (bisectLoop lowers 42 0 intMax).isSome
  bounds : ∀ turns bisectLow bisectHi, Tests lowers turns bisectLow bisectHi → bisectLow < bisectHi ∧ bisectHi ≤ intMax
  asks : ∀ turns bisectLow bisectHi, Tests lowers turns bisectLow bisectHi → bisectLow + 1 < bisectHi →
    bisectHi / 2 + bisectLow / 2 ≤ intMax

section Search

variable {lowers : ℕ → Option Bool}

/-- The lower end was refused and the upper end was accepted, so that a search that stalls does not close its interval. -/
structure Answered (lowers : ℕ → Option Bool) (bisectLow bisectHi : ℕ) : Prop where
  apart : bisectLow < bisectHi
  inside : bisectHi ≤ intMax
  refused : bisectLow = 0 ∨ lowers bisectLow = some false

theorem Tests.answered {turns bisectLow bisectHi : ℕ} (tests : Tests lowers turns bisectLow bisectHi) :
    Answered lowers bisectLow bisectHi := by
  induction tests with
  | start => exact ⟨by decide, le_rfl, Or.inl rfl⟩
  | @lower turns bisectLow bisectHi before continues answer ih =>
      obtain ⟨apart, inside, refused⟩ := ih
      refine ⟨?_, by omega, refused⟩
      rcases refused with rfl | no
      · omega
      · have different : bisectHi / 2 + bisectLow / 2 ≠ bisectLow := by
          intro same
          rw [same, no] at answer
          cases answer
        omega
  | @raise turns bisectLow bisectHi before continues answer ih =>
      exact ⟨by omega, ih.inside, Or.inr answer⟩

/-- The search ends at or below its upper end. -/
theorem bisectLoop_le {turns bisectLow bisectHi bound : ℕ} (apart : bisectLow ≤ bisectHi)
    (found : bisectLoop lowers turns bisectLow bisectHi = some bound) : bound ≤ bisectHi := by
  induction turns generalizing bisectLow bisectHi with
  | zero => exact (Option.some.inj found).symm.le
  | succ turns ih =>
      rw [bisectLoop] at found
      split at found
      · obtain ⟨answer, -, found⟩ := Option.bind_eq_some_iff.mp found
        cases answer with
        | true => exact (ih (by omega) found).trans (by omega)
        | false => exact ih (by omega) found
      · exact (Option.some.inj found).symm.le

/-- It ends above its lower end, which was refused. -/
theorem lt_bisectLoop {turns bisectLow bisectHi bound : ℕ} (apart : bisectLow < bisectHi)
    (refused : bisectLow = 0 ∨ lowers bisectLow = some false)
    (found : bisectLoop lowers turns bisectLow bisectHi = some bound) : bisectLow < bound := by
  induction turns generalizing bisectLow bisectHi with
  | zero => exact apart.trans_eq (Option.some.inj found)
  | succ turns ih =>
      rw [bisectLoop] at found
      split at found
      · rename_i continues
        obtain ⟨answer, asked, found⟩ := Option.bind_eq_some_iff.mp found
        cases answer with
        | true =>
            have higher : bisectLow < bisectHi / 2 + bisectLow / 2 := by
              rcases refused with rfl | no
              · omega
              · have different : bisectHi / 2 + bisectLow / 2 ≠ bisectLow := by
                  intro same
                  rw [same, no] at asked
                  cases asked
                omega
            exact ih higher refused found
        | false => exact (show bisectLow ≤ _ by omega).trans_lt (ih (by omega) (Or.inr asked) found)
      · exact apart.trans_eq (Option.some.inj found)

theorem accepts_cons {goal mid : ℕ} {tested : List ℕ} :
    Accepts lowers goal (mid :: tested) ↔ (goal ≤ mid → lowers mid = some true) ∧
      (mid < goal ∧ lowers mid = some true ∨ Accepts lowers goal tested) := by
  constructor
  · intro accepts
    constructor
    · intro above
      exact (accepts [] mid tested rfl above).resolve_right nofun
    · by_cases stops : mid < goal ∧ lowers mid = some true
      · exact Or.inl stops
      · refine Or.inr fun before other after split above => ?_
        refine (accepts (mid :: before) other after (by rw [split, List.cons_append]) above).imp_right ?_
        rintro ⟨earlier, member, below⟩
        rcases List.mem_cons.mp member with rfl | member
        · exact absurd below stops
        · exact ⟨earlier, member, below⟩
  · rintro ⟨first, later⟩ before other after split above
    cases before with
    | nil =>
        obtain ⟨rfl, -⟩ := List.cons_eq_cons.mp split
        exact Or.inl (first above)
    | cons head before =>
        obtain ⟨rfl, rest⟩ := List.cons_eq_cons.mp split
        rcases later with stops | accepts
        · exact Or.inr ⟨_, List.mem_cons_self, stops⟩
        · exact (accepts before other after rest above).imp_right
            fun ⟨earlier, member, below⟩ => ⟨earlier, List.mem_cons_of_mem _ member, below⟩

/-- A search ends at or below a goal that it would test exactly when the answers at the middles do not keep it above. -/
theorem bisectLoop_le_iff {turns bisectLow bisectHi bound goal : ℕ} (above : bisectLow < goal) (below : goal ≤ bisectHi)
    (refused : bisectLow = 0 ∨ lowers bisectLow = some false)
    (tested : goal = bisectHi ∨ goal ∈ middles goal turns bisectLow bisectHi)
    (found : bisectLoop lowers turns bisectLow bisectHi = some bound) :
    bound ≤ goal ↔ Accepts lowers goal (middles goal turns bisectLow bisectHi) := by
  induction turns generalizing bisectLow bisectHi with
  | zero =>
      obtain rfl := tested.resolve_right (by simp [middles])
      exact iff_of_true (Option.some.inj found).symm.le fun before mid after split => absurd split (by simp [middles])
  | succ turns ih =>
      rw [bisectLoop] at found
      rw [middles] at tested ⊢
      split_ifs at found tested ⊢ with continues higher
      · obtain ⟨answer, asked, found⟩ := Option.bind_eq_some_iff.mp found
        have inner : goal = bisectHi / 2 + bisectLow / 2 ∨
            goal ∈ middles goal turns bisectLow (bisectHi / 2 + bisectLow / 2) := by
          rcases tested with same | member
          · omega
          · exact List.mem_cons.mp member
        rw [accepts_cons, asked]
        cases answer with
        | true => simp [higher, higher.not_gt, ih above higher refused inner found]
        | false =>
            have bound_above := lt_bisectLoop (by omega) (Or.inr asked) found
            simp [higher]
            omega
      · obtain ⟨answer, asked, found⟩ := Option.bind_eq_some_iff.mp found
        have inner : goal = bisectHi ∨ goal ∈ middles goal turns (bisectHi / 2 + bisectLow / 2) bisectHi := by
          refine tested.imp_right fun member => ?_
          rcases List.mem_cons.mp member with same | member
          · omega
          · exact member
        rw [accepts_cons, asked]
        cases answer with
        | true =>
            have bound_below := bisectLoop_le (by omega) found
            simp [not_le.mp higher]
            omega
        | false => simp [higher, ih (not_le.mp higher) below (Or.inr asked) inner found]
      · obtain rfl : goal = bisectHi := by omega
        exact iff_of_true (Option.some.inj found).symm.le fun before mid after split => absurd split (by simp)

/-- The search tests the bound that it ends at, unless it ends at its upper end. -/
theorem mem_middles {turns bisectLow bisectHi bound : ℕ} (apart : bisectLow < bisectHi)
    (refused : bisectLow = 0 ∨ lowers bisectLow = some false)
    (found : bisectLoop lowers turns bisectLow bisectHi = some bound) :
    bound = bisectHi ∨ bound ∈ middles bound turns bisectLow bisectHi := by
  induction turns generalizing bisectLow bisectHi with
  | zero => exact Or.inl (Option.some.inj found).symm
  | succ turns ih =>
      have bound_above := lt_bisectLoop apart refused found
      rw [bisectLoop] at found
      rw [middles]
      split_ifs at found ⊢ with continues higher
      · obtain ⟨answer, asked, found⟩ := Option.bind_eq_some_iff.mp found
        cases answer with
        | true => exact Or.inr (List.mem_cons.mpr (ih (bound_above.trans_le higher) refused found))
        | false => exact absurd (lt_bisectLoop (by omega) (Or.inr asked) found) higher.not_gt
      · obtain ⟨answer, asked, found⟩ := Option.bind_eq_some_iff.mp found
        cases answer with
        | true =>
            have bound_below := bisectLoop_le (by omega) found
            exact absurd bound_below higher
        | false => exact (ih (by omega) (Or.inr asked) found).imp_right (List.mem_cons_of_mem _)
      · exact Or.inl (Option.some.inj found).symm

/-- An oracle that always answers makes a sound search. -/
theorem soundSearch (answers : ∀ mid ≤ intMax, (lowers mid).isSome) : SoundSearch lowers where
  ends := bisectLoop_isSome answers 42 0 intMax le_rfl
  bounds := fun _ _ _ tests => ⟨tests.answered.apart, tests.answered.inside⟩
  asks := by
    intro turns bisectLow bisectHi tests continues
    have inside := tests.answered.inside
    omega

/-- Two searches end at bounds whose sum fits exactly when goals are reached whose sum does. -/
theorem sum_le_iff {left right : ℕ → Option Bool} {first second : ℕ}
    (foundFirst : bisectLoop left 42 0 intMax = some first) (foundSecond : bisectLoop right 42 0 intMax = some second) :
    first + second ≤ intMax ↔ ∃ c d, c + d ≤ intMax ∧ Reached left c ∧ Reached right d := by
  have apart : 0 < intMax := by decide
  have self {lowers : ℕ → Option Bool} {bound : ℕ} (found : bisectLoop lowers 42 0 intMax = some bound) :
      Reached lowers bound := by
    have positive := lt_bisectLoop apart (Or.inl rfl) found
    have tested := mem_middles apart (Or.inl rfl) found
    exact ⟨positive, tested,
      (bisectLoop_le_iff positive (bisectLoop_le apart.le found) (Or.inl rfl) tested found).mp le_rfl⟩
  have above {lowers : ℕ → Option Bool} {bound goal : ℕ} (inside : goal ≤ intMax) (reached : Reached lowers goal)
      (found : bisectLoop lowers 42 0 intMax = some bound) : bound ≤ goal :=
    (bisectLoop_le_iff reached.1 inside (Or.inl rfl) reached.2.1 found).mpr reached.2.2
  constructor
  · intro fits
    exact ⟨first, second, fits, self foundFirst, self foundSecond⟩
  · rintro ⟨c, d, fits, reachedLeft, reachedRight⟩
    have left_le := above (by omega) reachedLeft foundFirst
    have right_le := above (by omega) reachedRight foundSecond
    omega

end Search

section RowHash

variable (rowHash : Fin levels → ℕ → ℤ → ℕ)

/-- The search from the left lowers its upper end when the values up to the middle reach the fraction. -/
def fromLeft (sketch : CMMultiSketch) (q : Float64) (mid : ℕ) : Option Bool :=
  (sketch.hashRange rowHash 0 mid).map fun rangeSum => decide (quantileIndex sketch.totalCount q ≤ rangeSum)

/-- The search from the right lowers it when the values from the middle on are within the rest. -/
def fromRight (sketch : CMMultiSketch) (q : Float64) (mid : ℕ) : Option Bool :=
  (sketch.hashRange rowHash mid intMax).map fun rangeSum =>
    decide (rangeSum ≤ quantileIndex sketch.totalCount (.ofInt 1 - q))

/-- Both searches are sound, and the quantile lies between the bounds they find. -/
def QuantileBetween (sketch : CMMultiSketch) (q : Float64) : Prop :=
  SoundSearch (sketch.fromLeft rowHash q) ∧ SoundSearch (sketch.fromRight rowHash q) ∧
    ∃ boundFromLeft bisectHi : ℕ, ∃ value : ℤ,
      bisectLoop (sketch.fromLeft rowHash q) 42 0 intMax = some boundFromLeft ∧
      bisectLoop (sketch.fromRight rowHash q) 42 0 intMax = some bisectHi ∧ sketch.quantile rowHash q = some value ∧
      (min boundFromLeft bisectHi : ℕ) ≤ value ∧ value ≤ (max boundFromLeft bisectHi : ℕ)

variable {rowHash}

theorem quantile_eq {sketch : CMMultiSketch} {q : Float64} {boundFromLeft bisectHi : ℕ}
    (left : bisectLoop (sketch.fromLeft rowHash q) 42 0 intMax = some boundFromLeft)
    (right : bisectLoop (sketch.fromRight rowHash q) 42 0 intMax = some bisectHi) :
    sketch.quantile rowHash q = some ((toInt32 (boundFromLeft + bisectHi)).tdiv 2) := by
  unfold quantile
  change (bisectLoop (sketch.fromLeft rowHash q) 42 0 intMax).bind (fun _ =>
    (bisectLoop (sketch.fromRight rowHash q) 42 0 intMax).bind fun _ => _) = _
  rw [left, right]
  rfl

/-- The middle of two positive bounds lies between them exactly when their sum fits an `int`. -/
theorem middle_between_iff {first second : ℕ} (inside : first ≤ intMax) (inside' : second ≤ intMax) :
    ((min first second : ℕ) ≤ (toInt32 (first + second)).tdiv 2 ∧
      (toInt32 (first + second)).tdiv 2 ≤ (max first second : ℕ)) ↔ first + second ≤ intMax := by
  by_cases fits : first + second ≤ intMax
  · refine iff_of_true ?_ fits
    unfold intMax at fits
    rw [toInt32_eq (by omega), Int.tdiv_eq_ediv_of_nonneg (by omega)]
    omega
  · refine iff_of_false ?_ fits
    have negative := LogHistogram.toInt32_tdiv_neg (Nat.lt_of_not_le fits) (by omega)
    omega

/-- Both searches always end with bounds apart, and the quantile lies between their results exactly when there is a value
where the estimates from the left have reached their part of the total and a value where those from the right are within
the rest, which leave room for each other in an `int`. -/
theorem quantile_between_iff (sketch : CMMultiSketch) (q : Float64) :
    sketch.QuantileBetween rowHash q ↔
      ∃ c d, c + d ≤ intMax ∧ Reached (sketch.fromLeft rowHash q) c ∧ Reached (sketch.fromRight rowHash q) d := by
  have left : SoundSearch (sketch.fromLeft rowHash q) := soundSearch fun mid inside => by
    rw [fromLeft, Option.isSome_map]
    exact sketch.hashRange_isSome (Nat.zero_le mid) inside
  have right : SoundSearch (sketch.fromRight rowHash q) := soundSearch fun mid inside => by
    rw [fromRight, Option.isSome_map]
    exact sketch.hashRange_isSome inside le_rfl
  obtain ⟨first, foundFirst⟩ := Option.isSome_iff_exists.mp left.ends
  obtain ⟨second, foundSecond⟩ := Option.isSome_iff_exists.mp right.ends
  have between := middle_between_iff (bisectLoop_le (Nat.zero_le _) foundFirst) (bisectLoop_le (Nat.zero_le _) foundSecond)
  rw [← sum_le_iff foundFirst foundSecond, ← between]
  constructor
  · rintro ⟨-, -, first', second', value, foundFirst', foundSecond', computed, lower, upper⟩
    obtain rfl := Option.some.inj (foundFirst.symm.trans foundFirst')
    obtain rfl := Option.some.inj (foundSecond.symm.trans foundSecond')
    have same := computed.symm.trans (quantile_eq foundFirst foundSecond)
    rw [Option.some_inj] at same
    rw [same] at lower upper
    exact ⟨lower, upper⟩
  · rintro ⟨lower, upper⟩
    exact ⟨left, right, first, second, _, foundFirst, foundSecond, quantile_eq foundFirst foundSecond, lower, upper⟩

end RowHash

/-- The processor keeps six bits of the distance of a shift. -/
def maskedShift (value distance : ℕ) : ℕ := value >>> (distance % 64)

/-- The median of three equal items comes out negative when the generator draws ones. -/
theorem quantile_overflows : ∃ pane sketch, CMSketch.init (fun _ _ => 1) 3 1 0 = some pane ∧
    build (fun _ _ => 1) maskedShift 3 1 0 [(1000, 3)] = some sketch ∧
      sketch.quantile (fun _ => pane.hash maskedShift) (.ofRatio 1 2) = some (-1073741822) ∧
        ¬ sketch.QuantileBetween (fun _ => pane.hash maskedShift) (.ofRatio 1 2) := by
  obtain ⟨pane, started⟩ := Option.isSome_iff_exists.mp (show (CMSketch.init (fun _ _ => 1) 3 1 0).isSome from rfl)
  have computed : ((CMSketch.init (fun _ _ => 1) 3 1 0).bind fun pane =>
      (buildBy (fun _ => pane.hash maskedShift) (fun _ _ => 1) 3 1 0 [(1000, 3)]).bind fun sketch =>
        sketch.quantile (fun _ => pane.hash maskedShift) (.ofRatio 1 2)) = some (-1073741822) := by decide +kernel
  rw [started, Option.bind_some, ← build_eq_buildBy started] at computed
  obtain ⟨sketch, built, median⟩ := Option.bind_eq_some_iff.mp computed
  refine ⟨pane, sketch, started, built, median, ?_⟩
  rintro ⟨-, -, first, second, value, -, -, found, lower, -⟩
  obtain rfl := Option.some.inj (found.symm.trans median)
  omega

end CMMultiSketch

end JetStream
