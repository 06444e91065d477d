import JetStream.Lib.Dyadic
import JetStream.Aggregates.CMMultiSketch

namespace JetStream

namespace CMSketch

/-- The estimate is the smallest cell among the rows. -/
def estimateH (rowHash : ℕ → ℤ → ℕ) (sketch : CMSketch) (data : ℤ) : ℕ :=
  (List.range sketch.depth).foldl (fun m i =>
    let v := sketch.cell i (rowHash i data)
    if m < v then m else v) (2 ^ 32 - 1)

theorem le_estimateH {rowHash : ℕ → ℤ → ℕ} {sketch : CMSketch} {data : ℤ} {bound : ℕ} (fits : bound < 2 ^ 32)
    (below : ∀ i < sketch.depth, bound ≤ sketch.cell i (rowHash i data)) : bound ≤ sketch.estimateH rowHash data := by
  have folded (rows : List ℕ) (m : ℕ) (start : bound ≤ m) (inside : ∀ i ∈ rows, i < sketch.depth) :
      bound ≤ rows.foldl (fun m i =>
        let v := sketch.cell i (rowHash i data)
        if m < v then m else v) m := by
    induction rows generalizing m with
    | nil => exact start
    | cons i rows ih =>
        apply ih _ _ fun other member => inside other (List.mem_cons_of_mem _ member)
        have here := below i (inside i List.mem_cons_self)
        dsimp only
        split_ifs
        · exact start
        · exact here
  apply folded
  · omega
  · intro i member
    exact List.mem_range.mp member

end CMSketch

/-- The loop keeps its sum, and the blocks that it has asked for with the answers. -/
structure RangeState where
  sum : ℕ
  queried : List (Dyadic.Block × ℕ)

/-- The loop also reports the level at which it took its last branch, unless it ran out of levels. -/
structure RangeQuery where
  lastLevel : Option ℕ
  state : RangeState

section Loop

variable (contrib : ℕ → ℕ → Option ℕ)

/-- The contributions of some blocks of one level are added up. -/
def addContribs (level : ℕ) (indices : List ℕ) (state : RangeState) : Option RangeState :=
  indices.foldlM (fun state j => (contrib level j).map fun r =>
    ⟨addCount state.sum r, state.queried ++ [(⟨level, j⟩, r)]⟩) state

/-- The mask clears the bits that the next level drops. -/
def dropBits (value : ℕ) : ℕ := value &&& (2 ^ 64 - 2 ^ bitsPerLevel)

/-- An unaligned lower end is rounded up. -/
def nextLevelStart (lower : ℕ) : ℕ :=
  if lower = dropBits lower then dropBits lower else dropBits lower + 2 ^ bitsPerLevel

/-- Each turn trims both ends and moves up a level, until a short range is left, and a failed assertion gives no result. -/
def rangeLoop : ℕ → ℕ → ℕ → ℕ → RangeState → Option RangeQuery
  | 0, _, _, _, state => some ⟨none, state⟩
  | remaining + 1, level, lower, upper, state =>
      let start := nextLevelStart lower
      let finish := dropBits upper
      if start < finish then
        if start - lower < 2 ^ bitsPerLevel then
          (addContribs contrib level (List.range' lower (start - lower)) state).bind fun state =>
            if upper - finish < 2 ^ bitsPerLevel then
              (addContribs contrib level (List.range' finish (upper + 1 - finish)) state).bind fun state =>
                rangeLoop remaining (level + 1) (start >>> bitsPerLevel) ((finish - 1) >>> bitsPerLevel) state
            else none
        else none
      else if toUInt32 ((upper : ℤ) - lower) < 2 ^ (bitsPerLevel + 1) then
        (addContribs contrib level (List.range' lower (upper + 1 - lower)) state).map fun state => ⟨some level, state⟩
      else none

theorem dropBits_eq {value : ℕ} (fits : value < 2 ^ 64) : dropBits value = value / 4 * 4 := by
  have mask : 2 ^ 64 - 2 ^ bitsPerLevel = (2 ^ 62 - 1) <<< 2 := by decide
  have shifted : value &&& ((2 ^ 62 - 1) <<< 2) = (value >>> 2 &&& (2 ^ 62 - 1)) <<< 2 := by
    apply Nat.eq_of_testBit_eq
    intro i
    rw [Nat.testBit_and, Nat.testBit_shiftLeft, Nat.testBit_shiftLeft, Nat.testBit_and, Nat.testBit_shiftRight]
    by_cases high : 2 ≤ i
    · simp [high]
    · simp [high]
  rw [dropBits, mask, shifted, Nat.and_two_pow_sub_one_eq_mod, Nat.shiftLeft_eq, Nat.shiftRight_eq_div_pow]
  omega

theorem nextLevelStart_eq {lower : ℕ} (fits : lower < 2 ^ 64) : nextLevelStart lower = (lower + 3) / 4 * 4 := by
  rw [nextLevelStart, dropBits_eq fits, bitsPerLevel]
  split_ifs <;> omega

variable {contrib}

/-- Further blocks have been asked for and their answers have been added up. -/
structure RangeState.Extends (contrib : ℕ → ℕ → Option ℕ) (before after : RangeState)
    (more : List (Dyadic.Block × ℕ)) : Prop where
  queried : after.queried = before.queried ++ more
  answered : ∀ entry ∈ more, contrib entry.1.level entry.1.index = some entry.2
  sum : before.sum < 2 ^ 32 → after.sum = (before.sum + (more.map Prod.snd).sum) % 2 ^ 32

theorem RangeState.Extends.refl (state : RangeState) : state.Extends contrib state [] where
  queried := (List.append_nil _).symm
  answered := nofun
  sum := fun fits => (Nat.mod_eq_of_lt fits).symm

theorem RangeState.Extends.trans {first second third : RangeState} {more rest : List (Dyadic.Block × ℕ)}
    (begins : first.Extends contrib second more) (goesOn : second.Extends contrib third rest) :
    first.Extends contrib third (more ++ rest) where
  queried := by rw [goesOn.queried, begins.queried, List.append_assoc]
  answered := by
    intro entry member
    rcases List.mem_append.mp member with early | late
    · exact begins.answered entry early
    · exact goesOn.answered entry late
  sum := by
    intro fits
    have middle := begins.sum fits
    have final := goesOn.sum (by omega)
    rw [List.map_append, List.sum_append]
    omega

/-- When every block has an answer, the answers of exactly these blocks are added. -/
theorem addContribs_spec (level : ℕ) (indices : List ℕ) (state : RangeState)
    (answers : ∀ j ∈ indices, (contrib level j).isSome) :
    ∃ after more, addContribs contrib level indices state = some after ∧ state.Extends contrib after more ∧
      more.map Prod.fst = indices.map (Dyadic.Block.mk level) := by
  induction indices generalizing state with
  | nil => exact ⟨state, [], rfl, .refl state, rfl⟩
  | cons j indices ih =>
      obtain ⟨r, answer⟩ := Option.isSome_iff_exists.mp (answers j List.mem_cons_self)
      have first : state.Extends contrib ⟨addCount state.sum r, state.queried ++ [(⟨level, j⟩, r)]⟩
          [(⟨level, j⟩, r)] := {
        queried := rfl
        answered := by
          intro entry member
          rw [List.mem_singleton.mp member]
          exact answer
        sum := fun _ => rfl}
      obtain ⟨after, more, adds, extends_, blocks⟩ :=
        ih ⟨addCount state.sum r, state.queried ++ [(⟨level, j⟩, r)]⟩ fun other member =>
          answers other (List.mem_cons_of_mem _ member)
      refine ⟨after, (⟨level, j⟩, r) :: more, ?_, first.trans extends_, ?_⟩
      · rw [addContribs, List.foldlM_cons, answer]
        exact adds
      · rw [List.map_cons, blocks, List.map_cons]

/-- The blocks of a level from one index up to another all have an answer. -/
theorem addContribs_range {level upper : ℕ} (answers : ∀ j ≤ upper, (contrib level j).isSome) (first last : ℕ)
    (inside : last ≤ upper + 1) (state : RangeState) :
    ∃ after more, addContribs contrib level (List.range' first (last - first)) state = some after ∧
      state.Extends contrib after more ∧ more.map Prod.fst = Dyadic.blocks level first last := by
  apply addContribs_spec
  intro j member
  have range := List.mem_range'_1.mp member
  exact answers j (by omega)

/-- The last branch asks for every block of a range that has at most seven of them. -/
theorem rangeLoop_last (remaining : ℕ) {level lower upper : ℕ} (state : RangeState) (ordered : lower ≤ upper)
    (fits : upper < 2 ^ 32) (short : ¬nextLevelStart lower < dropBits upper)
    (answers : ∀ j ≤ upper, (contrib level j).isSome) :
    ∃ query more, rangeLoop contrib (remaining + 1) level lower upper state = some query ∧
      query.lastLevel = some level ∧ state.Extends contrib query.state more ∧
      more.map Prod.fst = Dyadic.blocks level lower (upper + 1) := by
  have few : toUInt32 ((upper : ℤ) - lower) < 2 ^ (bitsPerLevel + 1) := by
    rw [nextLevelStart_eq (by omega), dropBits_eq (by omega)] at short
    unfold toUInt32 bitsPerLevel
    omega
  obtain ⟨after, more, adds, extends_, blocks⟩ := addContribs_range answers lower (upper + 1) le_rfl state
  refine ⟨⟨some level, after⟩, more, ?_, rfl, extends_, blocks⟩
  rw [rangeLoop, if_neg short, if_pos few, adds]
  rfl

/-- A turn that trims asks for the two ends and goes on with the whole blocks between them. -/
theorem rangeLoop_trim (remaining : ℕ) {level lower upper : ℕ} (state : RangeState) (ordered : lower ≤ upper)
    (fits : upper < 2 ^ 32) (trims : nextLevelStart lower < dropBits upper)
    (answers : ∀ j ≤ upper, (contrib level j).isSome) :
    ∃ middle ends, state.Extends contrib middle ends ∧
      ends.map Prod.fst = Dyadic.blocks level lower ((lower + 3) / 4 * 4) ++
        Dyadic.blocks level (upper / 4 * 4) (upper + 1) ∧
      rangeLoop contrib (remaining + 1) level lower upper state =
        rangeLoop contrib remaining (level + 1) ((lower + 3) / 4) (upper / 4 - 1) middle := by
  have lowerEnd : nextLevelStart lower = (lower + 3) / 4 * 4 := nextLevelStart_eq (by omega)
  have upperEnd : dropBits upper = upper / 4 * 4 := dropBits_eq (by omega)
  rw [lowerEnd, upperEnd] at trims
  obtain ⟨left, low, addsLow, extendsLow, lowBlocks⟩ :=
    addContribs_range answers lower ((lower + 3) / 4 * 4) (by omega) state
  obtain ⟨middle, high, addsHigh, extendsHigh, highBlocks⟩ :=
    addContribs_range answers (upper / 4 * 4) (upper + 1) le_rfl left
  refine ⟨middle, low ++ high, extendsLow.trans extendsHigh, by rw [List.map_append, lowBlocks, highBlocks], ?_⟩
  have nextLower : ((lower + 3) / 4 * 4) >>> bitsPerLevel = (lower + 3) / 4 := by
    rw [Nat.shiftRight_eq_div_pow, bitsPerLevel]
    omega
  have nextUpper : (upper / 4 * 4 - 1) >>> bitsPerLevel = upper / 4 - 1 := by
    rw [Nat.shiftRight_eq_div_pow, bitsPerLevel]
    omega
  have shortLow : (lower + 3) / 4 * 4 - lower < 2 ^ bitsPerLevel := by
    rw [bitsPerLevel]
    omega
  have shortHigh : upper - upper / 4 * 4 < 2 ^ bitsPerLevel := by
    rw [bitsPerLevel]
    omega
  rw [rangeLoop, lowerEnd, upperEnd, if_pos trims, if_pos shortLow, addsLow, Option.bind_some, if_pos shortHigh,
    addsHigh, Option.bind_some, nextLower, nextUpper]

/-- From any level on, the loop takes its last branch and asks for the blocks of its trimmed range. -/
theorem rangeLoop_spec (answers : ∀ level j, level < 16 → j * 4 ^ level < 4 ^ 16 → (contrib level j).isSome)
    {remaining level lower upper : ℕ} (state : RangeState) (count : level + remaining = 16) (below : level < 16)
    (ordered : lower ≤ upper) (inside : upper * 4 ^ level < 4 ^ 16) :
    ∃ query more, rangeLoop contrib remaining level lower upper state = some query ∧
      (∃ last < 16, query.lastLevel = some last) ∧ state.Extends contrib query.state more ∧
      Dyadic.Trimmed 4 level lower upper (more.map Prod.fst) := by
  induction remaining generalizing level lower upper state with
  | zero => omega
  | succ remaining ih =>
      have fits : upper < 2 ^ 32 := (Nat.le_mul_of_pos_right _ (Nat.pow_pos (by decide))).trans_lt inside
      have here (j : ℕ) (within : j ≤ upper) : (contrib level j).isSome :=
        answers level j (by omega) ((Nat.mul_le_mul_right _ within).trans_lt inside)
      by_cases trims : nextLevelStart lower < dropBits upper
      · obtain ⟨middle, ends, extendsEnds, endBlocks, goesOn⟩ := rangeLoop_trim remaining state ordered fits trims here
        rw [nextLevelStart_eq (by omega), dropBits_eq (by omega)] at trims
        have wider : (upper / 4 - 1) * 4 ^ (level + 1) + 4 ^ (level + 1) ≤ upper * 4 ^ level := by
          rw [pow_succ, ← Nat.succ_mul, Nat.mul_comm (4 ^ level), ← Nat.mul_assoc]
          exact Nat.mul_le_mul_right _ (by omega)
        have higher : level + 1 < 16 := by
          by_contra top
          have big : 4 ^ 16 ≤ 4 ^ (level + 1) := Nat.pow_le_pow_right (by decide) (by omega)
          omega
        obtain ⟨query, more, ran, last, extendsMore, inner⟩ := ih middle (by omega) higher
          (show (lower + 3) / 4 ≤ upper / 4 - 1 by omega) ((Nat.le_of_add_right_le wider).trans_lt inside)
        refine ⟨query, ends ++ more, goesOn.trans ran, last, extendsEnds.trans extendsMore, ?_⟩
        rw [List.map_append, endBlocks]
        exact .trim (by omega) inner
      · obtain ⟨query, more, ran, last, extendsAll, blocks⟩ := rangeLoop_last remaining state ordered fits trims here
        rw [nextLevelStart_eq (by omega), dropBits_eq (by omega)] at trims
        refine ⟨query, more, ran, ⟨level, by omega, last⟩, extendsAll, ?_⟩
        rw [blocks]
        exact .last ordered (by omega)

end Loop

namespace CMMultiSketch

section RowHash

variable (rowHash : Fin levels → ℕ → ℤ → ℕ)

/-- This is `add_item` with any hash function for each row. -/
def addItemBy (sketch : CMMultiSketch) (data : ℤ) (newVal : ℕ) : Option CMMultiSketch :=
  if Fits data then some { sketch with
    panes := fun i => (sketch.panes i).addItemBy (rowHash i) (levelData data i) (toInt32 newVal)
    exactCounts := fun i c =>
      if toUInt32 (levelData data (levels + i)) = c then addCount (sketch.exactCounts i c) newVal
      else sketch.exactCounts i c }
  else none

/-- The stream is added to an empty multi-sketch. -/
def buildBy (draws : ℤ → ℕ → ℤ) (w d : ℕ) (seed : ℤ) (stream : List (ℤ × ℕ)) : Option CMMultiSketch :=
  (new draws w d seed).bind fun empty =>
    stream.foldlM (fun sketch item => sketch.addItemBy rowHash item.1 item.2) empty

/-- An index outside an exact table has no answer. -/
def contribFromLevel (sketch : CMMultiSketch) (level dyadStart : ℕ) : Option ℕ :=
  if fine : level < levels then some ((sketch.panes ⟨level, fine⟩).estimateH (rowHash ⟨level, fine⟩) (toInt32 dyadStart))
  else if inside : level - levels < exactLevels ∧ dyadStart < exactLSize (level - levels) then
    some (sketch.exactCounts ⟨level - levels, inside.1⟩ ⟨dyadStart, inside.2⟩)
  else none

def rangeQuery (sketch : CMMultiSketch) (lower upper : ℕ) : Option RangeQuery :=
  rangeLoop (sketch.contribFromLevel rowHash) (levels + exactLevels) 0 lower upper ⟨0, []⟩

/-- The first pane's total, where all levels have seen the same items. -/
def totalCount (sketch : CMMultiSketch) : ℕ := (sketch.panes ⟨0, by decide⟩).totalCount

/-- The answer is never more than the total. -/
def hashRange (sketch : CMMultiSketch) (lower upper : ℕ) : Option ℕ :=
  (sketch.rangeQuery rowHash lower upper).map fun query =>
    if sketch.totalCount < query.state.sum then sketch.totalCount else query.state.sum

/-- The panes and the exact tables hold the weights of the stream modulo the word size. -/
structure Summarizes (w : ℕ) (sketch : CMMultiSketch) (stream : List (ℤ × ℕ)) : Prop where
  width : ∀ l, (sketch.panes l).width = 2 ^ w
  total : ∀ l, (sketch.panes l).totalCount = Dyadic.weight stream (fun _ => true) % 2 ^ 32
  cell : ∀ l i j, i < (sketch.panes l).depth → j < 2 ^ w → (sketch.panes l).cell i j =
    Dyadic.weight stream (fun data => rowHash l i (levelData data l) = j) % 2 ^ 32
  exactCell : ∀ i c, sketch.exactCounts i c =
    Dyadic.weight stream (fun data => toUInt32 (levelData data (levels + i)) = c) % 2 ^ 32

variable {rowHash}

theorem Summarizes.addItemBy {w : ℕ} {sketch next : CMMultiSketch} {stream : List (ℤ × ℕ)} {item : ℤ × ℕ}
    (inRow : ∀ l i data, rowHash l i data < 2 ^ w) (summarizes : sketch.Summarizes rowHash w stream)
    (added : sketch.addItemBy rowHash item.1 item.2 = some next) : next.Summarizes rowHash w (stream ++ [item]) := by
  rw [CMMultiSketch.addItemBy, Option.ite_none_right_eq_some] at added
  obtain rfl := Option.some.inj added.2
  refine ⟨summarizes.width, fun l => ?_, fun l i j row column => ?_, fun i c => ?_⟩
  · dsimp only [CMSketch.addItemBy]
    rw [summarizes.total l, addInt_toInt32, Dyadic.weight_append_singleton, if_pos rfl]
  · have widths := summarizes.width l
    have hashed := (sketch.panes l).addItemBy_cell (rowHash l) (levelData item.1 l) (toInt32 item.2)
      (fun k => widths ▸ inRow l k (levelData item.1 l)) row (widths ▸ column)
    refine hashed.trans ?_
    rw [summarizes.cell l i j row column, Dyadic.weight_append_singleton]
    by_cases found : rowHash l i (levelData item.1 l) = j
    · rw [if_pos found, if_pos (by simpa using found), addInt_toInt32]
    · rw [if_neg found, if_neg (by simpa using found), Nat.add_zero]
  · dsimp only
    rw [summarizes.exactCell i c, Dyadic.weight_append_singleton]
    by_cases found : toUInt32 (levelData item.1 (levels + i)) = c
    · rw [if_pos found, if_pos (by simpa using found), addCount]
      omega
    · rw [if_neg found, if_neg (by simpa using found), Nat.add_zero]

theorem summarizes_of_buildBy {draws : ℤ → ℕ → ℤ} {w d : ℕ} {seed : ℤ} {stream : List (ℤ × ℕ)} {sketch : CMMultiSketch}
    (inRow : ∀ l i data, rowHash l i data < 2 ^ w)
    (built : buildBy rowHash draws w d seed stream = some sketch) : sketch.Summarizes rowHash w stream := by
  induction stream using List.reverseRecOn generalizing sketch with
  | nil =>
      obtain ⟨empty, started, done⟩ := Option.bind_eq_some_iff.mp built
      obtain rfl := Option.some.inj done
      obtain ⟨pane, initialized, rfl⟩ := Option.map_eq_some_iff.mp started
      rw [CMSketch.init, Option.ite_none_right_eq_some] at initialized
      obtain rfl := Option.some.inj initialized.2
      refine ⟨fun _ => Nat.one_shiftLeft w, fun _ => rfl, fun l i j _ _ => ?_, fun _ _ => rfl⟩
      exact (List.getD_eq_getElem?_getD).trans (List.getElem?_getD_replicate_default_eq 0 _ _)
  | append_singleton stream item ih =>
      rw [buildBy, Option.bind_eq_some_iff] at built
      obtain ⟨empty, started, ran⟩ := built
      rw [List.foldlM_append, Option.bind_eq_bind, Option.bind_eq_some_iff] at ran
      obtain ⟨before, earlier, added⟩ := ran
      rw [List.foldlM_cons, Option.bind_eq_bind, Option.bind_eq_some_iff] at added
      obtain ⟨after, last, done⟩ := added
      obtain rfl := Option.some.inj done
      have first : buildBy rowHash draws w d seed stream = some before := by
        rw [buildBy, started]
        exact earlier
      exact (ih first).addItemBy inRow last

/-- Each level divides a non-negative value by four. -/
theorem levelData_natCast (value level : ℕ) : levelData value level = (value / 4 ^ level : ℕ) := by
  induction level with
  | zero => simp [levelData]
  | succ level ih =>
      have next : levelData value (level + 1) = levelData value level >>> bitsPerLevel := by
        rw [levelData, Function.iterate_succ_apply']
        rfl
      rw [next, ih, Int.shiftRight_eq_div_pow, pow_succ, ← Nat.div_div_eq_div_mul]
      rfl

theorem exactLSize_eq {level : ℕ} (coarse : levels ≤ level) (below : level < 16) :
    exactLSize (level - levels) = 4 ^ (16 - level) := by
  have ten : levels = 10 := by decide
  have bits : (exactLevels - (level - levels)) * bitsPerLevel = 2 * (16 - level) := by
    unfold exactLevels bitsPerLevel
    omega
  rw [exactLSize, bits, Nat.one_shiftLeft, pow_mul]
  rfl

/-- Every block of the unsigned values has an answer. -/
theorem contribFromLevel_isSome (sketch : CMMultiSketch) {level j : ℕ} (below : level < 16)
    (inside : j * 4 ^ level < 4 ^ 16) : (sketch.contribFromLevel rowHash level j).isSome := by
  unfold contribFromLevel
  split_ifs with fine exact_
  · rfl
  · rfl
  · have coarse : levels ≤ level := Nat.le_of_not_lt fine
    have ten : levels = 10 := by decide
    apply absurd _ exact_
    constructor
    · unfold exactLevels
      omega
    · rw [exactLSize_eq coarse below]
      have whole : 4 ^ (16 - level) * 4 ^ level = 4 ^ 16 := by rw [← pow_add, Nat.sub_add_cancel below.le]
      have product : j * 4 ^ level < 4 ^ (16 - level) * 4 ^ level := by
        rwa [whole]
      exact Nat.lt_of_mul_lt_mul_right product

/-- Every ordered query of unsigned ends has a result. -/
theorem rangeQuery_spec (rowHash : Fin levels → ℕ → ℤ → ℕ) (sketch : CMMultiSketch) {lower upper : ℕ}
    (ordered : lower ≤ upper) (inside : upper < 2 ^ 32) :
    ∃ query more, sketch.rangeQuery rowHash lower upper = some query ∧
      (∃ last < 16, query.lastLevel = some last) ∧
      RangeState.Extends (sketch.contribFromLevel rowHash) ⟨0, []⟩ query.state more ∧
      Dyadic.Trimmed 4 0 lower upper (more.map Prod.fst) :=
  rangeLoop_spec (fun _ _ below range => sketch.contribFromLevel_isSome below range) ⟨0, []⟩
    (show 0 + (levels + exactLevels) = 16 by decide) (by decide) ordered (by simpa using inside)

/-- An answer is at least the weight of the items in its block. -/
theorem Summarizes.weight_le {w : ℕ} {sketch : CMMultiSketch} {stream : List (ℤ × ℕ)} {level j r : ℕ}
    (summarizes : sketch.Summarizes rowHash w stream) (inRow : ∀ l i data, rowHash l i data < 2 ^ w)
    (items : ∀ item ∈ stream, 0 ≤ item.1) (fits : Dyadic.weight stream (fun _ => true) < 2 ^ 32) (small : j ≤ intMax)
    (answer : sketch.contribFromLevel rowHash level j = some r) :
    Dyadic.weight stream (fun data => (Dyadic.Block.mk level j).Covers 4 data.toNat) ≤ r := by
  have bounded (inside : ℤ → Bool) : Dyadic.weight stream inside % 2 ^ 32 = Dyadic.weight stream inside :=
    Nat.mod_eq_of_lt ((Dyadic.weight_le fun _ _ _ => rfl).trans_lt fits)
  have shifted (item : ℤ × ℕ) (member : item ∈ stream)
      (covered : (Dyadic.Block.mk level j).Covers 4 item.1.toNat) : levelData item.1 level = j := by
    rw [Dyadic.Block.covers_iff (by decide)] at covered
    rw [← Int.toNat_of_nonneg (items item member), levelData_natCast]
    exact congrArg _ covered
  unfold contribFromLevel at answer
  split_ifs at answer with fine exact_
  · obtain rfl := Option.some.inj answer
    rw [toInt32_eq (by unfold intMax at small; omega)]
    apply CMSketch.le_estimateH
    · exact (Dyadic.weight_le fun _ _ _ => rfl).trans_lt fits
    · intro i row
      rw [summarizes.cell _ i _ row (inRow _ _ _), bounded]
      apply Dyadic.weight_le
      intro item member covered
      have same := shifted item member (by simpa using covered)
      simp only [decide_eq_true_eq]
      rw [same]
  · obtain rfl := Option.some.inj answer
    rw [summarizes.exactCell, bounded]
    apply Dyadic.weight_le
    intro item member covered
    have same := shifted item member (by simpa using covered)
    have level_eq : levels + (level - levels) = level := by omega
    simp only [decide_eq_true_eq]
    rw [level_eq, same, toUInt32_natCast (by unfold intMax at small; omega)]

/-- Blocks that cover a range once have at least its weight together. -/
theorem Summarizes.weight_range_le {w : ℕ} {sketch : CMMultiSketch} {stream : List (ℤ × ℕ)} {lower upper : ℕ}
    {queried : List (Dyadic.Block × ℕ)} (summarizes : sketch.Summarizes rowHash w stream)
    (inRow : ∀ l i data, rowHash l i data < 2 ^ w) (items : ∀ item ∈ stream, 0 ≤ item.1)
    (fits : Dyadic.weight stream (fun _ => true) < 2 ^ 32) (inside : upper ≤ intMax)
    (answered : ∀ entry ∈ queried, sketch.contribFromLevel rowHash entry.1.level entry.1.index = some entry.2)
    (covers : ∀ value, Dyadic.covering 4 (queried.map Prod.fst) value = if lower ≤ value ∧ value ≤ upper then 1 else 0) :
    Dyadic.weight stream (fun data => lower ≤ data ∧ data ≤ upper) ≤ (queried.map Prod.snd).sum := by
  have single : Dyadic.weight stream (fun data => lower ≤ data ∧ data ≤ upper) =
      (stream.map fun item => item.2 * Dyadic.covering 4 (queried.map Prod.fst) item.1.toNat).sum := by
    unfold Dyadic.weight
    congr 1
    apply List.map_congr_left
    intro item member
    have nonneg := items item member
    have range : ((lower : ℤ) ≤ item.1 ∧ item.1 ≤ upper) ↔ (lower ≤ item.1.toNat ∧ item.1.toNat ≤ upper) := by omega
    simp only [covers, range, decide_eq_true_eq]
    split_ifs
    · rw [Nat.mul_one]
    · rw [Nat.mul_zero]
  rw [single, ← Dyadic.sum_weight, List.map_map]
  apply List.sum_le_sum
  intro entry member
  apply summarizes.weight_le inRow items fits _ (answered entry member)
  have first : 0 < Dyadic.covering 4 (queried.map Prod.fst) (entry.1.index * 4 ^ entry.1.level) := by
    apply List.countP_pos_iff.mpr
    refine ⟨entry.1, List.mem_map_of_mem member, ?_⟩
    rw [decide_eq_true_eq, Dyadic.Block.covers_iff (by decide)]
    exact Nat.mul_div_cancel _ (Nat.pow_pos (by decide))
  rw [covers] at first
  split_ifs at first with range
  · exact (Nat.le_mul_of_pos_right _ (Nat.pow_pos (by decide))).trans (range.2.trans inside)
  · exact absurd first (by decide)

/-- The loop asks for blocks that cover the range once, and the answer lies between the range's weight and the total. -/
theorem hashRange_sound {draws : ℤ → ℕ → ℤ} {w d : ℕ} {seed : ℤ} {stream : List (ℤ × ℕ)} {sketch : CMMultiSketch}
    {lower upper : ℕ} (inRow : ∀ l i data, rowHash l i data < 2 ^ w)
    (built : buildBy rowHash draws w d seed stream = some sketch)
    (items : ∀ item ∈ stream, 0 ≤ item.1) (fits : Dyadic.weight stream (fun _ => true) < 2 ^ 32)
    (ordered : lower ≤ upper) (inside : upper ≤ intMax) :
    ∃ query last answer, sketch.rangeQuery rowHash lower upper = some query ∧ query.lastLevel = some last ∧ last ≤ 15 ∧
      (∀ value, Dyadic.covering 4 (query.state.queried.map Prod.fst) value =
        if lower ≤ value ∧ value ≤ upper then 1 else 0) ∧
      sketch.hashRange rowHash lower upper = some answer ∧ answer ≤ Dyadic.weight stream (fun _ => true) ∧
      ((query.state.queried.map Prod.snd).sum < 2 ^ 32 →
        Dyadic.weight stream (fun data => lower ≤ data ∧ data ≤ upper) ≤ answer) := by
  have summarizes := summarizes_of_buildBy inRow built
  have total : sketch.totalCount = Dyadic.weight stream (fun _ => true) :=
    (summarizes.total _).trans (Nat.mod_eq_of_lt fits)
  obtain ⟨query, more, ran, ⟨last, below, exits⟩, extendsAll, trimmed⟩ :=
    sketch.rangeQuery_spec rowHash ordered (inside.trans_lt (by decide))
  have queried : query.state.queried = more := extendsAll.queried
  have once (value : ℕ) : Dyadic.covering 4 (query.state.queried.map Prod.fst) value =
      if lower ≤ value ∧ value ≤ upper then 1 else 0 := by
    rw [queried, trimmed.covering_eq (by decide), Dyadic.covering_blocks (by decide), pow_zero, Nat.div_one]
    exact if_congr (and_congr_right fun _ => Nat.lt_succ_iff) rfl rfl
  have sum := extendsAll.sum (by decide)
  have enough := summarizes.weight_range_le inRow items fits inside (queried ▸ extendsAll.answered) once
  have most : Dyadic.weight stream (fun data => lower ≤ data ∧ data ≤ upper) ≤ Dyadic.weight stream (fun _ => true) :=
    Dyadic.weight_le fun _ _ _ => rfl
  have result : sketch.hashRange rowHash lower upper =
      some (if sketch.totalCount < query.state.sum then sketch.totalCount else query.state.sum) := by
    rw [hashRange, ran]
    rfl
  refine ⟨query, last, _, ran, exits, by omega, once, result, ?_, fun noWrap => ?_⟩
  · split_ifs <;> omega
  · rw [queried] at enough noWrap
    rw [zero_add, Nat.mod_eq_of_lt noWrap] at sum
    split_ifs <;> omega

/-- One item of weight two is counted in a range of a thousand values. -/
theorem hashRange_sound_example : ∃ sketch, buildBy (fun _ _ data => (data % 8).toNat) (fun _ _ => 1) 3 1 0 [(5, 2)] =
      some sketch ∧
    ∃ query last answer, sketch.rangeQuery (fun _ _ data => (data % 8).toNat) 1 1000 = some query ∧
      query.lastLevel = some last ∧ last ≤ 15 ∧
      (∀ value, Dyadic.covering 4 (query.state.queried.map Prod.fst) value =
        if 1 ≤ value ∧ value ≤ 1000 then 1 else 0) ∧
      sketch.hashRange (fun _ _ data => (data % 8).toNat) 1 1000 = some answer ∧
      answer ≤ Dyadic.weight [((5 : ℤ), 2)] (fun _ => true) ∧
      ((query.state.queried.map Prod.snd).sum < 2 ^ 32 →
        Dyadic.weight [((5 : ℤ), 2)] (fun data => (1 : ℕ) ≤ data ∧ data ≤ (1000 : ℕ)) ≤ answer) := by
  obtain ⟨sketch, built⟩ := Option.isSome_iff_exists.mp (show (buildBy (fun _ _ data => (data % 8).toNat)
    (fun _ _ => 1) 3 1 0 [(5, 2)]).isSome from rfl)
  refine ⟨sketch, built, hashRange_sound (fun _ _ data => ?_) built (by decide) (by decide) (by decide) (by decide)⟩
  omega

end RowHash

/-- The built multi-sketch uses the hash functions of its first pane in all its panes. -/
theorem build_eq_buildBy {draws : ℤ → ℕ → ℤ} {wideShift : ℕ → ℕ → ℕ} {w d : ℕ} {seed : ℤ} {pane : CMSketch}
    (started : CMSketch.init draws w d seed = some pane) (stream : List (ℤ × ℕ)) :
    build draws wideShift w d seed stream = buildBy (fun _ => pane.hash wideShift) draws w d seed stream := by
  have start : CMSketch.build draws wideShift w d seed [] = some pane := by
    rw [CMSketch.build, started]
    rfl
  obtain ⟨-, paneWidth, -, paneHashes, -⟩ := CMSketch.build_eq_some draws wideShift start
  induction stream using List.reverseRecOn with
  | nil => rfl
  | append_singleton stream item ih =>
      have last : buildBy (fun _ => pane.hash wideShift) draws w d seed (stream ++ [item]) =
          (buildBy (fun _ => pane.hash wideShift) draws w d seed stream).bind fun sketch =>
            sketch.addItemBy (fun _ => pane.hash wideShift) item.1 item.2 := by
        simp [buildBy, List.foldlM_append, Option.bind_assoc]
      rw [build_append_singleton, last, ← ih]
      apply Option.bind_congr
      intro sketch earlier
      obtain ⟨-, -, panes, -⟩ := build_eq_some earlier
      have hashes : (fun i : Fin levels => (sketch.panes i).hash wideShift) = fun _ => pane.hash wideShift := by
        funext i row data
        obtain ⟨-, width, -, drawn, -⟩ := CMSketch.build_eq_some draws wideShift (panes i)
        exact CMSketch.hash_congr wideShift (width.trans paneWidth.symm) (by rw [drawn, paneHashes]) data
      rw [← hashes]
      rfl

end CMMultiSketch

end JetStream
