import Mathlib.Data.Multiset.AddSub
import Mathlib.Tactic.Abel
import JetStream.Aggregates.JSSummary

namespace JetStream

/-- A summary with a histogram must have no items left. -/
def containsAggregate (summary : JSSummary) : Option Bool :=
  if summary.histo.isSome then
    if summary.items.length = 0 then some true else none
  else some false

/-- Two lists of more than 300 items in all become a histogram. -/
def shouldMakeIntoAggregate (lhs rhs : JSSummary) : Option Bool := do
  let left ← containsAggregate lhs
  let right ← containsAggregate rhs
  if left = false ∧ right = false then some (decide (300 < lhs.items.length + rhs.items.length)) else none

/-- The conversion adds the index of each item to a histogram of the announced size. -/
def makeAggregate (summary : JSSummary) : Option JSSummary := do
  let aggregated ← containsAggregate summary
  if aggregated then none
  else do
    let empty ← LogHistogram.new (toSizeT (summary.futureHistSize.getD 0))
    let filled ← (List.range summary.items.length).foldlM (fun hist i => hist.addItem (i : ℤ) 1) empty
    some { filled.serializeTo summary with items := [] }

/-- The larger of two histograms is merged into the smaller, and items are added one at a time. -/
def mergeIntoAggregate (sumInto sumUpdate : JSSummary) : Option JSSummary := do
  let intoAggregated ← containsAggregate sumInto
  let updateAggregated ← containsAggregate sumUpdate
  if intoAggregated then do
    let aggInto ← LogHistogram.ofSummary sumInto
    let merged ←
      if updateAggregated then do
        let aggUpdate ← LogHistogram.ofSummary sumUpdate
        if aggInto.buckets.length * 4 ≤ aggUpdate.buckets.length * 4 then aggInto.mergeIn aggUpdate
        else aggUpdate.mergeIn aggInto
      else aggInto.addData sumUpdate.items
    some (merged.serializeTo sumInto)
  else if updateAggregated then do
    let aggUpdate ← LogHistogram.ofSummary sumUpdate
    let merged ← aggUpdate.addData sumInto.items
    some { merged.serializeTo sumInto with items := [] }
  else none

/-- Short lists are concatenated and every other pair ends in a histogram. -/
def mergeSummary (sumInto sumUpdate : JSSummary) : Option JSSummary := do
  let intoAggregated ← containsAggregate sumInto
  let updateAggregated ← containsAggregate sumUpdate
  if intoAggregated = false ∧ updateAggregated = false then do
    let convert ← shouldMakeIntoAggregate sumInto sumUpdate
    if convert then do
      let aggregate ← makeAggregate sumInto
      mergeIntoAggregate aggregate sumUpdate
    else some { sumInto with items := sumInto.items ++ sumUpdate.items }
  else mergeIntoAggregate sumInto sumUpdate

namespace LogHistogram

/-- Plain data are items with count one. -/
def unit (values : List ℕ) : List (ℕ × ℕ) := values.map fun value => (value, 1)

@[simp] theorem unit_append (first second : List ℕ) : unit (first ++ second) = unit first ++ unit second := by
  simp [unit]

theorem weight_unit (values : List ℕ) : BucketTable.weight (unit values) = values.length := by
  simp [BucketTable.weight, unit, Function.comp_def]

/-- This is the histogram that adding the values to a new histogram gives. -/
def ofData (bucketTarget : ℕ) (values : List ℕ) : Option LogHistogram :=
  (new bucketTarget).bind fun hist => hist.addData (values.map fun (value : ℕ) => (value : ℤ))

/-- Adding data appends them to the items. -/
theorem addData_eq (table : BucketTable) (small : table.size ≤ 2 ^ 32) (items : List (ℕ × ℕ))
    (values : List ℕ) (fits : ∀ value ∈ values, value ≤ intMax)
    (total : BucketTable.weight items + values.length < 2 ^ 32) :
    (ofItems table items).addData (values.map fun (value : ℕ) => (value : ℤ)) =
      some (ofItems table (items ++ unit values)) := by
  induction values generalizing items with
  | nil => simp [addData, unit]
  | cons value rest ih =>
      rw [List.length_cons] at total
      have first := addItem_eq table small items value 1 (fits value List.mem_cons_self) (by decide) (by omega)
      have later := ih (items ++ [(value, 1)]) (fun other member => fits other (List.mem_cons_of_mem _ member))
        (by rw [BucketTable.weight_append, BucketTable.weight_singleton]; omega)
      rw [addData, List.map_cons, List.foldlM_cons, first]
      rw [addData, List.append_assoc] at later
      exact later

theorem ofData_eq {n : ℕ} {table : BucketTable} (built : setBucketStarts n = some table.starts)
    (size : table.size = n) (values : List ℕ) (fits : ∀ value ∈ values, value ≤ intMax)
    (total : values.length < 2 ^ 32) : ofData n values = some (ofItems table (unit values)) := by
  obtain ⟨-, -, -, -, bounded⟩ := exists_startTable built
  rw [ofData, new_eq built, Option.bind_some,
    addData_eq table (by omega) [] values fits (by simpa using total), List.nil_append]

end LogHistogram

/-- The summary is a list of exactly these values that announces its histogram size. -/
structure ListSummary (n : ℕ) (values : List ℕ) (summary : JSSummary) : Prop where
  histo : summary.histo = none
  items : summary.items = values.map fun (value : ℕ) => (value : ℤ)
  future : summary.futureHistSize = some (n : ℤ)

/-- The summary is a serialized histogram of exactly these values. -/
structure HistogramSummary (table : BucketTable) (values : List ℕ) (summary : JSSummary) : Prop where
  histo : summary.histo.isSome
  items : summary.items = []
  filled : LogHistogram.ofSummary summary = some (LogHistogram.ofItems table (LogHistogram.unit values))

theorem ListSummary.contains {n : ℕ} {values : List ℕ} {summary : JSSummary}
    (list : ListSummary n values summary) : containsAggregate summary = some false := by
  simp [containsAggregate, list.histo]

theorem HistogramSummary.contains {table : BucketTable} {values : List ℕ} {summary : JSSummary}
    (hist : HistogramSummary table values summary) : containsAggregate summary = some true := by
  simp [containsAggregate, hist.histo, hist.items]

section Merging

variable {n : ℕ} {table : BucketTable} {xs ys : List ℕ} {sumInto sumUpdate : JSSummary}

/-- Serializing a histogram into a summary without items gives a histogram summary. -/
theorem histogramSummary_serialize (built : setBucketStarts n = some table.starts) (size : table.size = n)
    (values : List ℕ) (total : values.length < 2 ^ 31) (target : JSSummary) :
    HistogramSummary table values
      { (LogHistogram.ofItems table (LogHistogram.unit values)).serializeTo target with items := [] } where
  histo := rfl
  items := rfl
  filled := by
    apply LogHistogram.ofSummary_serializeTo _ (LogHistogram.ofItems_wellFormed built size _) _ _ target
    · intro count member
      obtain ⟨b, -, rfl⟩ := List.mem_map.mp member
      have bound := table.tally_le_weight (LogHistogram.unit values) b
      rw [LogHistogram.weight_unit] at bound
      exact bound.trans_lt total
    · change BucketTable.weight _ < 2 ^ 64
      rw [LogHistogram.weight_unit]
      omega

theorem mergeSummary_lists (first : ListSummary n xs sumInto) (second : ListSummary n ys sumUpdate)
    (short : xs.length + ys.length ≤ 300) :
    ∃ summary, mergeSummary sumInto sumUpdate = some summary ∧ ListSummary n (xs ++ ys) summary := by
  refine ⟨{ sumInto with items := sumInto.items ++ sumUpdate.items }, ?_, first.histo, ?_, first.future⟩
  · simp [mergeSummary, shouldMakeIntoAggregate, first.contains, second.contains, first.items, second.items,
      Nat.not_lt.mpr short]
  · simp [first.items, second.items]

variable (built : setBucketStarts n = some table.starts) (size : table.size = n) (bound : n ≤ intMax)

include built size bound in
/-- The conversion keeps the number of items and replaces each one by its index. -/
theorem makeAggregate_eq (list : ListSummary n xs sumInto) (total : xs.length < 2 ^ 31) :
    ∃ summary, makeAggregate sumInto = some summary ∧
      HistogramSummary table (List.range xs.length) summary := by
  have announced : toSizeT (sumInto.futureHistSize.getD 0) = n := by
    rw [list.future]
    exact toSizeT_natCast (by unfold intMax at bound; omega)
  have indices := LogHistogram.addData_eq table (by unfold intMax at bound; omega) [] (List.range xs.length)
    (fun i member => by rw [List.mem_range] at member; unfold intMax; omega)
    (by rw [BucketTable.weight_nil, List.length_range]; omega)
  rw [LogHistogram.addData, List.foldlM_map, List.nil_append] at indices
  refine ⟨_, ?_, histogramSummary_serialize built size (List.range xs.length) (by simpa using total) sumInto⟩
  simp only [makeAggregate, list.contains, Option.bind_eq_bind, Option.bind_some, announced,
    LogHistogram.new_eq built, list.items, List.length_map, Bool.false_eq_true, if_false, indices]

include built size in
theorem mergeIntoAggregate_items (hist : HistogramSummary table xs sumInto) (list : ListSummary n ys sumUpdate)
    (fits : ∀ value ∈ ys, value ≤ intMax) (total : xs.length + ys.length < 2 ^ 31) :
    ∃ summary, mergeIntoAggregate sumInto sumUpdate = some summary ∧
      HistogramSummary table (xs ++ ys) summary := by
  obtain ⟨-, -, -, -, small⟩ := exists_startTable built
  have added := LogHistogram.addData_eq table (by omega) (LogHistogram.unit xs) ys fits
    (by rw [LogHistogram.weight_unit]; omega)
  rw [← LogHistogram.unit_append] at added
  have final := histogramSummary_serialize built size (xs ++ ys) (by simpa using total) sumInto
  refine ⟨_, ?_, final⟩
  simp only [mergeIntoAggregate, hist.contains, list.contains, Option.bind_eq_bind, Option.bind_some,
    hist.filled, list.items, Bool.false_eq_true, if_false, if_true, added]
  congr 1
  simp only [LogHistogram.serializeTo, hist.items]

include built size in
theorem mergeIntoAggregate_into_items (list : ListSummary n xs sumInto)
    (hist : HistogramSummary table ys sumUpdate)
    (fits : ∀ value ∈ xs, value ≤ intMax) (total : xs.length + ys.length < 2 ^ 31) :
    ∃ summary, mergeIntoAggregate sumInto sumUpdate = some summary ∧
      HistogramSummary table (ys ++ xs) summary := by
  obtain ⟨-, -, -, -, small⟩ := exists_startTable built
  have added := LogHistogram.addData_eq table (by omega) (LogHistogram.unit ys) xs fits
    (by rw [LogHistogram.weight_unit]; omega)
  rw [← LogHistogram.unit_append] at added
  refine ⟨_, ?_, histogramSummary_serialize built size (ys ++ xs) (by simp; omega) sumInto⟩
  simp only [mergeIntoAggregate, hist.contains, list.contains, Option.bind_eq_bind, Option.bind_some,
    hist.filled, list.items, Bool.false_eq_true, if_false, if_true, added]

include built size in
theorem mergeIntoAggregate_histograms (first : HistogramSummary table xs sumInto)
    (second : HistogramSummary table ys sumUpdate) (total : xs.length + ys.length < 2 ^ 31) :
    ∃ summary, mergeIntoAggregate sumInto sumUpdate = some summary ∧
      HistogramSummary table (xs ++ ys) summary := by
  have merged := LogHistogram.mergeIn_eq le_rfl built built size size (LogHistogram.unit xs)
    (LogHistogram.unit ys) (Or.inl rfl) (by simpa only [LogHistogram.weight_unit] using total)
  rw [← LogHistogram.unit_append] at merged
  have sizes : (LogHistogram.ofItems table (LogHistogram.unit xs)).buckets.length * 4 ≤
      (LogHistogram.ofItems table (LogHistogram.unit ys)).buckets.length * 4 := by
    simp [LogHistogram.ofItems]
  have final := histogramSummary_serialize built size (xs ++ ys) (by simpa using total) sumInto
  refine ⟨_, ?_, final⟩
  simp only [mergeIntoAggregate, first.contains, second.contains, Option.bind_eq_bind, Option.bind_some,
    first.filled, second.filled, if_true, sizes, merged]
  congr 1
  simp only [LogHistogram.serializeTo, first.items]

include built size bound in
/-- Two long lists become a histogram of the left indices and the right items. -/
theorem mergeSummary_convert (first : ListSummary n xs sumInto) (second : ListSummary n ys sumUpdate)
    (long : 300 < xs.length + ys.length) (fits : ∀ value ∈ ys, value ≤ intMax)
    (total : xs.length + ys.length < 2 ^ 31) :
    ∃ summary, mergeSummary sumInto sumUpdate = some summary ∧
      HistogramSummary table (List.range xs.length ++ ys) summary := by
  obtain ⟨aggregate, converted, hist⟩ := makeAggregate_eq built size bound first (by omega)
  obtain ⟨summary, merged, final⟩ := mergeIntoAggregate_items built size hist second fits (by simpa using total)
  refine ⟨summary, ?_, final⟩
  simp [mergeSummary, shouldMakeIntoAggregate, first.contains, second.contains, first.items, second.items,
    long, converted, merged]

/-- A merge with a histogram on either side needs no conversion. -/
theorem mergeSummary_aggregate {left right : Bool} (first : containsAggregate sumInto = some left)
    (second : containsAggregate sumUpdate = some right) (some_ : left = true ∨ right = true) :
    mergeSummary sumInto sumUpdate = mergeIntoAggregate sumInto sumUpdate := by
  rcases some_ with rfl | rfl
  · simp [mergeSummary, first, second]
  · simp [mergeSummary, first, second]

end Merging

/-- The order of the values does not matter to a histogram summary. -/
theorem HistogramSummary.perm {table : BucketTable} {first second : List ℕ} {summary : JSSummary}
    (hist : HistogramSummary table first summary) (same : first.Perm second) :
    HistogramSummary table second summary where
  histo := hist.histo
  items := hist.items
  filled := by
    have units : (LogHistogram.unit first).Perm (LogHistogram.unit second) := same.map _
    rw [hist.filled, LogHistogram.ofItems_perm table units]

/-- A tree groups item lists and serialized histograms into merges, and the leaves' other fields are free. -/
inductive SummaryTree where
  | items (other : JSSummary) (values : List ℕ)
  | histogram (other : JSSummary) (values : List ℕ)
  | merge (into update : SummaryTree)

namespace SummaryTree

/-- Each merge of the tree updates its left summary with its right one. -/
def run (n : ℕ) : SummaryTree → Option JSSummary
  | .items other values => some { other with
      histo := none
      items := values.map fun (value : ℕ) => (value : ℤ)
      futureHistSize := some (n : ℤ) }
  | .histogram other values => (LogHistogram.ofData n values).map fun hist =>
      { hist.serializeTo other with items := [] }
  | .merge into update => (into.run n).bind fun first => (update.run n).bind fun second =>
      mergeSummary first second

/-- The values are those of all leaves. -/
def values : SummaryTree → List ℕ
  | .items _ values => values
  | .histogram _ values => values
  | .merge into update => into.values ++ update.values

/-- A tree of short lists stays a list. -/
def isList : SummaryTree → Bool
  | .items _ _ => true
  | .histogram _ _ => false
  | .merge into update => into.isList && update.isList && decide (into.values.length + update.values.length ≤ 300)

/-- A merge converts its left list when it meets another list and both hold more than 300 items. -/
def converts (into update : SummaryTree) : Bool :=
  into.isList && update.isList && decide (300 < into.values.length + update.values.length)

/-- These are the lists that the merges of the tree convert. -/
def conversions : SummaryTree → List (List ℕ)
  | .items _ _ => []
  | .histogram _ _ => []
  | .merge into update =>
      if converts into update then [into.values] else into.conversions ++ update.conversions

/-- These are the values that the tree's summary counts, with each converted item replaced by its index. -/
def counted : SummaryTree → List ℕ
  | .items _ values => values
  | .histogram _ values => values
  | .merge into update =>
      if converts into update then List.range into.values.length ++ update.values
      else into.counted ++ update.counted

theorem isList_counted (tree : SummaryTree) (list : tree.isList = true) :
    tree.counted = tree.values ∧ tree.conversions = [] := by
  induction tree with
  | items other values => exact ⟨rfl, rfl⟩
  | histogram other values => cases list
  | merge into update first second =>
      simp only [isList, Bool.and_eq_true, decide_eq_true_eq] at list
      have keep : converts into update = false := by
        simp [converts, list.2]
      have left := first list.1.1
      have right := second list.1.2
      simp [counted, conversions, values, keep, left, right]

theorem conversions_sublist (tree : SummaryTree) : tree.conversions.flatten.Sublist tree.values := by
  induction tree with
  | items other values => exact List.nil_sublist _
  | histogram other values => exact List.nil_sublist _
  | merge into update first second =>
      rw [conversions]
      by_cases convert : converts into update = true
      · rw [if_pos convert, List.flatten_singleton]
        exact List.sublist_append_left _ _
      · rw [if_neg convert, List.flatten_append]
        exact first.append second

theorem counted_length (tree : SummaryTree) : tree.counted.length = tree.values.length := by
  induction tree with
  | items other values => rfl
  | histogram other values => rfl
  | merge into update first second =>
      rw [counted]
      by_cases convert : converts into update = true
      · simp [if_pos convert, values]
      · simp [if_neg convert, values, first, second]

/-- The indices of the converted items. -/
def indices (tree : SummaryTree) : List ℕ := tree.conversions.flatMap fun list => List.range list.length

/-- Counting a tree exchanges the converted items with their indices. -/
theorem counted_perm (tree : SummaryTree) :
    (tree.counted ++ tree.conversions.flatten).Perm (tree.values ++ tree.indices) := by
  induction tree with
  | items other values => exact List.Perm.refl _
  | histogram other values => exact List.Perm.refl _
  | merge into update first second =>
      by_cases convert : converts into update = true
      · simp only [counted, conversions, indices, values, convert, if_true, List.flatten_singleton,
          List.flatMap_singleton, ← Multiset.coe_eq_coe, ← Multiset.coe_add]
        abel
      · simp only [indices, ← Multiset.coe_eq_coe, ← Multiset.coe_add] at first second
        simp only [counted, conversions, indices, values, convert, if_false, Bool.false_eq_true,
          List.flatten_append, List.flatMap_append, ← Multiset.coe_eq_coe, ← Multiset.coe_add]
        rw [add_add_add_comm, first, second, add_add_add_comm]

section Runs

variable {n : ℕ} {table : BucketTable} (built : setBucketStarts n = some table.starts)
  (size : table.size = n) (bound : n ≤ intMax)

include built size bound in
/-- Every tree returns the list of its values or a histogram of the counted values. -/
theorem run_eq (tree : SummaryTree) (fits : ∀ value ∈ tree.values, value ≤ intMax)
    (total : tree.values.length < 2 ^ 31) :
    ∃ summary, tree.run n = some summary ∧
      (tree.isList = true → ListSummary n tree.values summary) ∧
      (tree.isList = false → HistogramSummary table tree.counted summary) := by
  induction tree with
  | items other values =>
      exact ⟨_, rfl, fun _ => ⟨rfl, rfl, rfl⟩, fun absent => by cases absent⟩
  | histogram other values =>
      rw [SummaryTree.values] at fits total
      refine ⟨_, ?_, nofun, fun _ => histogramSummary_serialize built size values total other⟩
      rw [run, LogHistogram.ofData_eq built size values fits (by omega)]
      rfl
  | merge into update ihInto ihUpdate =>
      simp only [SummaryTree.values, List.mem_append, List.length_append] at fits total
      have intoFits : ∀ value ∈ into.values, value ≤ intMax := fun value member => fits value (Or.inl member)
      have updateFits : ∀ value ∈ update.values, value ≤ intMax := fun value member => fits value (Or.inr member)
      obtain ⟨sumInto, intoRun, intoList, intoHist⟩ := ihInto intoFits (by omega)
      obtain ⟨sumUpdate, updateRun, updateList, updateHist⟩ := ihUpdate updateFits (by omega)
      have step : (merge into update).run n = mergeSummary sumInto sumUpdate := by
        rw [run, intoRun, updateRun]
        rfl
      rw [step]
      cases intoIs : into.isList with
      | true =>
          have first := intoList intoIs
          cases updateIs : update.isList with
          | true =>
              have second := updateList updateIs
              by_cases short : into.values.length + update.values.length ≤ 300
              · obtain ⟨summary, merged, list⟩ := mergeSummary_lists first second short
                exact ⟨summary, merged, fun _ => list, fun absent => by simp [isList, *] at absent⟩
              · obtain ⟨summary, merged, hist⟩ := mergeSummary_convert built size bound first second
                  (Nat.lt_of_not_le short) updateFits total
                refine ⟨summary, merged, fun absent => by simp [isList, *] at absent, fun _ => ?_⟩
                simpa [counted, converts, intoIs, updateIs, Nat.lt_of_not_le short] using hist
          | false =>
              have second := updateHist updateIs
              obtain ⟨summary, merged, hist⟩ := mergeIntoAggregate_into_items built size first second intoFits
                (by rw [counted_length]; exact total)
              rw [mergeSummary_aggregate first.contains second.contains (Or.inr rfl)]
              refine ⟨summary, merged, fun absent => by simp [isList, *] at absent, fun _ => hist.perm ?_⟩
              rw [counted, if_neg (by simp [converts, updateIs]), (into.isList_counted intoIs).1]
              exact List.perm_append_comm
      | false =>
          have first := intoHist intoIs
          have keep : (merge into update).counted = into.counted ++ update.counted := by
            rw [counted, if_neg (by simp [converts, intoIs])]
          cases updateIs : update.isList with
          | true =>
              have second := updateList updateIs
              obtain ⟨summary, merged, hist⟩ := mergeIntoAggregate_items built size first second updateFits
                (by rw [counted_length]; exact total)
              rw [mergeSummary_aggregate first.contains second.contains (Or.inl rfl)]
              refine ⟨summary, merged, fun absent => by simp [isList, *] at absent, fun _ => ?_⟩
              rw [keep, (update.isList_counted updateIs).1]
              exact hist
          | false =>
              have second := updateHist updateIs
              obtain ⟨summary, merged, hist⟩ := mergeIntoAggregate_histograms built size first second
                (by rw [counted_length, counted_length]; exact total)
              rw [mergeSummary_aggregate first.contains second.contains (Or.inl rfl)]
              refine ⟨summary, merged, fun absent => by simp [isList, *] at absent, fun _ => ?_⟩
              rw [keep]
              exact hist

end Runs

end SummaryTree

/-- The summary is a list of the values in some order or the histogram of the values. -/
def Represents (n : ℕ) (values : List ℕ) (summary : JSSummary) : Prop :=
  (summary.histo = none ∧ summary.items.Perm (values.map fun (value : ℕ) => (value : ℤ))) ∨
    (summary.histo.isSome ∧ summary.items = [] ∧
      LogHistogram.ofSummary summary = LogHistogram.ofData n values ∧ (LogHistogram.ofData n values).isSome)

/-- Two histograms of one table are equal exactly when their buckets are. -/
theorem LogHistogram.ofItems_eq_iff (table : BucketTable) (first second : List (ℕ × ℕ)) :
    ofItems table first = ofItems table second ↔
      ∀ b, b < table.size → table.tally first b = table.tally second b := by
  constructor
  · intro same b inside
    have buckets := congrArg (fun hist => hist.buckets[b]?) same
    simpa [ofItems, inside] using buckets
  · intro same
    have buckets : (List.range table.size).map (table.tally first) =
        (List.range table.size).map (table.tally second) := by
      apply List.map_congr_left
      intro b member
      exact same b (List.mem_range.mp member)
    have total : BucketTable.weight first = BucketTable.weight second := by
      rw [← table.sum_tally_eq_weight, ← table.sum_tally_eq_weight]
      exact Finset.sum_congr rfl fun b member => same b (Finset.mem_range.mp member)
    simp only [ofItems, buckets, total]

namespace SummaryTree

/-- The conversion does no harm when the converted items and their indices fill the same buckets. -/
theorem counted_eq_iff (table : BucketTable) (tree : SummaryTree) :
    LogHistogram.ofItems table (LogHistogram.unit tree.counted) =
        LogHistogram.ofItems table (LogHistogram.unit tree.values) ↔
      LogHistogram.ofItems table (LogHistogram.unit tree.conversions.flatten) =
        LogHistogram.ofItems table (LogHistogram.unit tree.indices) := by
  have exchange : ∀ b, table.tally (LogHistogram.unit tree.counted) b +
      table.tally (LogHistogram.unit tree.conversions.flatten) b =
      table.tally (LogHistogram.unit tree.values) b + table.tally (LogHistogram.unit tree.indices) b := by
    intro b
    rw [← table.tally_append, ← table.tally_append, ← LogHistogram.unit_append, ← LogHistogram.unit_append]
    exact table.tally_perm (tree.counted_perm.map _) b
  rw [LogHistogram.ofItems_eq_iff, LogHistogram.ofItems_eq_iff]
  constructor
  · intro same b inside
    have sum := exchange b
    have equal := same b inside
    omega
  · intro same b inside
    have sum := exchange b
    have equal := same b inside
    omega

theorem indices_length (tree : SummaryTree) : tree.indices.length = tree.conversions.flatten.length := by
  simp [indices, List.length_flatMap, List.length_flatten]

theorem indices_lt (tree : SummaryTree) : ∀ i ∈ tree.indices, i < tree.values.length := by
  intro i member
  obtain ⟨list, inside, small⟩ := List.mem_flatMap.mp member
  have short : list.length ≤ tree.conversions.flatten.length :=
    (List.sublist_flatten_of_mem inside).length_le
  exact (List.mem_range.mp small).trans_le (short.trans tree.conversions_sublist.length_le)

end SummaryTree

/-- A tree of merges represents the union of its leaves exactly when the lists that it converts fill the same
buckets as their indices. -/
theorem mergeSummary_represents_iff (n : ℕ) (supported : (LogHistogram.new n).isSome) (int32 : n ≤ intMax)
    (tree : SummaryTree) (fits : ∀ value ∈ tree.values, value ≤ intMax) (total : tree.values.length < 2 ^ 31) :
    (∃ summary, tree.run n = some summary ∧ Represents n tree.values summary) ↔
      LogHistogram.ofData n tree.conversions.flatten =
        LogHistogram.ofData n (tree.conversions.flatMap fun list => List.range list.length) := by
  obtain ⟨starts, built⟩ := Option.isSome_iff_exists.mp
    (show (setBucketStarts n).isSome by simpa [LogHistogram.new] using supported)
  obtain ⟨table, rfl, size, -⟩ := exists_startTable built
  obtain ⟨summary, done, list, hist⟩ := tree.run_eq built size int32 fits total
  have sublist := tree.conversions_sublist
  have short := sublist.length_le
  have whole := LogHistogram.ofData_eq built size tree.values fits (by omega)
  have converted := LogHistogram.ofData_eq built size tree.conversions.flatten
    (fun value member => fits value (sublist.subset member)) (by omega)
  have indices := LogHistogram.ofData_eq built size tree.indices
    (fun i member => by have := tree.indices_lt i member; unfold intMax; omega)
    (by rw [tree.indices_length]; omega)
  rw [SummaryTree.indices] at indices
  rw [converted, indices, Option.some_inj, ← SummaryTree.indices, ← tree.counted_eq_iff table, done]
  cases isList : tree.isList with
  | true =>
      have kept := list isList
      have same := (tree.isList_counted isList).1
      constructor
      · intro _
        rw [same]
      · intro _
        exact ⟨summary, rfl, Or.inl ⟨kept.histo, by rw [kept.items]⟩⟩
  | false =>
      have filled := hist isList
      constructor
      · rintro ⟨_, found, represents⟩
        obtain rfl := Option.some.inj found
        rcases represents with ⟨absent, -⟩ | ⟨-, -, same, -⟩
        · have present := filled.histo
          simp [absent] at present
        · rw [filled.filled, whole] at same
          exact Option.some.inj same
      · intro same
        refine ⟨summary, rfl, Or.inr ⟨filled.histo, filled.items, ?_, ?_⟩⟩
        · rw [filled.filled, whole, same]
        · rw [whole]
          rfl

/-- The law applies to a conversion of items that are their own indices. -/
theorem mergeSummary_represents_indices :
    ∃ summary, (SummaryTree.merge (.items {} (List.range 300)) (.items {} [7])).run 2 = some summary ∧
      Represents 2 (List.range 300 ++ [7]) summary := by
  apply (mergeSummary_represents_iff 2 (by decide) (by decide)
    (.merge (.items {} (List.range 300)) (.items {} [7])) ?_ ?_).mpr
  · simp [SummaryTree.conversions, SummaryTree.converts, SummaryTree.isList, SummaryTree.values]
  · intro value member
    simp only [SummaryTree.values, List.mem_append, List.mem_range, List.mem_singleton] at member
    unfold intMax
    omega
  · simp [SummaryTree.values]

/-- A list of 301 fives becomes a histogram of the numbers from 0 to 300. -/
theorem mergeSummary_converts_indices :
    ¬ ∃ summary, (SummaryTree.merge (.items {} (List.replicate 301 5)) (.items {} [])).run 2 = some summary ∧
      Represents 2 (List.replicate 301 5) summary := by
  let table : BucketTable := ⟨[0, 1], by decide, rfl⟩
  have built : setBucketStarts 2 = some table.starts := by decide
  have fits : ∀ value ∈ List.replicate 301 5, value ≤ intMax := by
    intro value member
    rw [List.eq_of_mem_replicate member]
    decide
  have whole := LogHistogram.ofData_eq built rfl (List.replicate 301 5) fits (by decide +kernel)
  obtain ⟨summary, done, -, hist⟩ := SummaryTree.run_eq built rfl (by decide)
    (.merge (.items {} (List.replicate 301 5)) (.items {} []))
    (by rw [SummaryTree.values, SummaryTree.values, SummaryTree.values, List.append_nil]; exact fits)
    (by decide +kernel)
  have filled := hist (by decide +kernel)
  rintro ⟨_, found, ⟨absent, -⟩ | ⟨-, -, same, -⟩⟩
  · obtain rfl := Option.some.inj (done.symm.trans found)
    have present := filled.histo
    simp [absent] at present
  · obtain rfl := Option.some.inj (done.symm.trans found)
    rw [filled.filled, whole, Option.some_inj, LogHistogram.ofItems_eq_iff] at same
    have first := same 0 (by decide)
    revert first
    decide +kernel

end JetStream
