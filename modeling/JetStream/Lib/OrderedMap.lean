import Mathlib.Algebra.BigOperators.Group.List.Basic
import Mathlib.Data.List.Sort
import Mathlib.Order.Defs.LinearOrder

/-- The map lists its entries with strictly increasing keys. -/
structure OrderedMap (K V : Type) [LinearOrder K] where
  entries : List (K × V)
  sorted : entries.Pairwise fun first second => first.1 < second.1

namespace OrderedMap

variable {K V : Type} [LinearOrder K]

def empty : OrderedMap K V := ⟨[], List.Pairwise.nil⟩

/-- The search stops at the first entry with the key. -/
def get? (map : OrderedMap K V) (key : K) : Option V :=
  (map.entries.find? fun entry => entry.1 = key).map Prod.snd

/-- The new entry replaces one with its key or takes its place in the order. -/
def insertEntry (key : K) (value : V) : List (K × V) → List (K × V)
  | [] => [(key, value)]
  | entry :: rest =>
      if key < entry.1 then (key, value) :: entry :: rest
      else if key = entry.1 then (key, value) :: rest
      else entry :: insertEntry key value rest

theorem mem_insertEntry {key : K} {value : V} {entries : List (K × V)}
    (sorted : entries.Pairwise fun first second => first.1 < second.1) (entry : K × V) :
    entry ∈ insertEntry key value entries ↔ entry = (key, value) ∨ (entry ∈ entries ∧ entry.1 ≠ key) := by
  induction entries with
  | nil => simp [insertEntry]
  | cons head rest ih =>
      obtain ⟨above, restSorted⟩ := List.pairwise_cons.mp sorted
      rw [insertEntry]
      by_cases less : key < head.1
      · rw [if_pos less, List.mem_cons]
        constructor
        · rintro (rfl | member)
          · exact Or.inl rfl
          · refine Or.inr ⟨member, ?_⟩
            rcases List.mem_cons.mp member with rfl | later
            · exact less.ne'
            · exact (less.trans (above entry later)).ne'
        · rintro (rfl | ⟨member, -⟩)
          · exact Or.inl rfl
          · exact Or.inr member
      · rw [if_neg less]
        by_cases same : key = head.1
        · rw [if_pos same, List.mem_cons, List.mem_cons]
          constructor
          · rintro (rfl | later)
            · exact Or.inl rfl
            · exact Or.inr ⟨Or.inr later, by rw [same]; exact (above entry later).ne'⟩
          · rintro (rfl | ⟨rfl | later, different⟩)
            · exact Or.inl rfl
            · exact absurd same.symm different
            · exact Or.inr later
        · rw [if_neg same, List.mem_cons, ih restSorted, List.mem_cons]
          constructor
          · rintro (rfl | rfl | ⟨later, different⟩)
            · exact Or.inr ⟨Or.inl rfl, Ne.symm same⟩
            · exact Or.inl rfl
            · exact Or.inr ⟨Or.inr later, different⟩
          · rintro (rfl | ⟨rfl | later, different⟩)
            · exact Or.inr (Or.inl rfl)
            · exact Or.inl rfl
            · exact Or.inr (Or.inr ⟨later, different⟩)

theorem sorted_insertEntry (key : K) (value : V) {entries : List (K × V)}
    (sorted : entries.Pairwise fun first second => first.1 < second.1) :
    (insertEntry key value entries).Pairwise fun first second => first.1 < second.1 := by
  induction entries with
  | nil => exact List.pairwise_singleton _ _
  | cons head rest ih =>
      obtain ⟨above, restSorted⟩ := List.pairwise_cons.mp sorted
      rw [insertEntry]
      by_cases less : key < head.1
      · rw [if_pos less, List.pairwise_cons]
        refine ⟨?_, sorted⟩
        intro entry member
        rcases List.mem_cons.mp member with rfl | later
        · exact less
        · exact less.trans (above entry later)
      · rw [if_neg less]
        by_cases same : key = head.1
        · rw [if_pos same, List.pairwise_cons]
          exact ⟨fun entry later => by rw [same]; exact above entry later, restSorted⟩
        · rw [if_neg same, List.pairwise_cons]
          refine ⟨?_, ih restSorted⟩
          intro entry member
          rcases (mem_insertEntry restSorted entry).mp member with rfl | ⟨later, -⟩
          · exact lt_of_le_of_ne (le_of_not_gt less) (Ne.symm same)
          · exact above entry later

/-- Setting a key keeps the order. -/
def set (map : OrderedMap K V) (key : K) (value : V) : OrderedMap K V :=
  ⟨insertEntry key value map.entries, sorted_insertEntry key value map.sorted⟩

/-- An entry is listed exactly when the search for its key returns it. -/
theorem mem_entries_iff (map : OrderedMap K V) {key : K} {value : V} :
    (key, value) ∈ map.entries ↔ map.get? key = some value := by
  obtain ⟨entries, sorted⟩ := map
  rw [get?]
  induction entries with
  | nil => simp
  | cons head rest ih =>
      obtain ⟨above, restSorted⟩ := List.pairwise_cons.mp sorted
      by_cases same : head.1 = key
      · have fresh : (key, value) ∉ rest := fun later => (above _ later).ne same
        rw [List.find?_cons_of_pos (by simpa using same), List.mem_cons, or_iff_left fresh]
        constructor
        · rintro rfl
          rfl
        · intro found
          rw [Option.map_some, Option.some_inj] at found
          exact (Prod.ext same found).symm
      · rw [List.find?_cons_of_neg (by simpa using same), List.mem_cons, or_iff_right, ih restSorted]
        rintro rfl
        exact same rfl

theorem get?_set (map : OrderedMap K V) (key other : K) (value : V) :
    (map.set key value).get? other = if other = key then some value else map.get? other := by
  ext found
  rw [← mem_entries_iff, set, mem_insertEntry map.sorted, Prod.mk.injEq, map.mem_entries_iff]
  by_cases same : other = key
  · simp [same, eq_comm]
  · simp [same]

/-- After setting a key, an entry is the new one or an old one with another key. -/
theorem get?_set_cases {map : OrderedMap K V} {key other : K} {value found : V}
    (listed : (map.set key value).get? other = some found) :
    (other = key ∧ found = value) ∨ (other ≠ key ∧ map.get? other = some found) := by
  rw [get?_set] at listed
  split_ifs at listed with same
  · exact Or.inl ⟨same, (Option.some.inj listed).symm⟩
  · exact Or.inr ⟨same, listed⟩

/-- Setting a key removes no entry. -/
theorem isSome_get?_set {map : OrderedMap K V} {other : K} (listed : (map.get? other).isSome) (key : K) (value : V) :
    ((map.set key value).get? other).isSome := by
  rw [get?_set]
  split_ifs
  · rfl
  · exact listed

/-- Erasing a key keeps the other entries in order. -/
def erase (map : OrderedMap K V) (key : K) : OrderedMap K V :=
  ⟨map.entries.filter fun entry => entry.1 ≠ key, map.sorted.filter _⟩

theorem get?_erase (map : OrderedMap K V) (key other : K) :
    (map.erase key).get? other = if other = key then none else map.get? other := by
  ext found
  rw [← mem_entries_iff, erase, List.mem_filter, map.mem_entries_iff]
  by_cases same : other = key
  · simp [same]
  · simp [same]

/-- Mapping the values keeps the keys. -/
def map {W : Type} (map : OrderedMap K V) (f : V → W) : OrderedMap K W :=
  ⟨map.entries.map fun entry => (entry.1, f entry.2), List.pairwise_map.mpr map.sorted⟩

theorem get?_map {W : Type} (source : OrderedMap K V) (f : V → W) (key : K) :
    (source.map f).get? key = (source.get? key).map f := by
  rw [get?, get?, map, List.find?_map, Option.map_map, Option.map_map]
  rfl

/-- A mapping of the values can look at the keys. -/
def mapWithKey {W : Type} (map : OrderedMap K V) (f : K → V → W) : OrderedMap K W :=
  ⟨map.entries.map fun entry => (entry.1, f entry.1 entry.2), List.pairwise_map.mpr map.sorted⟩

theorem get?_mapWithKey {W : Type} (source : OrderedMap K V) (f : K → V → W) (key : K) :
    (source.mapWithKey f).get? key = (source.get? key).map (f key) := by
  ext found
  rw [← mem_entries_iff, mapWithKey, List.mem_map, Option.map_eq_some_iff]
  constructor
  · rintro ⟨entry, member, same⟩
    obtain ⟨rfl, rfl⟩ := Prod.mk.inj same
    exact ⟨entry.2, source.mem_entries_iff.mp member, rfl⟩
  · rintro ⟨value, listed, rfl⟩
    exact ⟨(key, value), source.mem_entries_iff.mpr listed, rfl⟩

/-- Two maps with the same look-ups are the same map. -/
theorem ext_get? {first second : OrderedMap K V} (same : ∀ key, first.get? key = second.get? key) : first = second := by
  have members (entry : K × V) : entry ∈ first.entries ↔ entry ∈ second.entries := by
    obtain ⟨key, value⟩ := entry
    rw [first.mem_entries_iff, second.mem_entries_iff, same]
  obtain ⟨entries, sorted⟩ := first
  obtain ⟨others, othersSorted⟩ := second
  have irreflexive : Std.Irrefl fun first second : K × V => first.1 < second.1 := ⟨fun entry => lt_irrefl entry.1⟩
  have antisymmetric : Std.Antisymm fun first second : K × V => first.1 < second.1 :=
    ⟨fun first second less greater => absurd less greater.asymm⟩
  congr
  exact sorted.eq_of_mem_iff othersSorted members

/-- The values stand in the order of their keys. -/
def values (map : OrderedMap K V) : List V := map.entries.map Prod.snd

@[simp] theorem get?_empty (key : K) : (empty : OrderedMap K V).get? key = none := rfl

/-- A fold that combines each item into the entry of its key leaves there what the items of that key add up to. -/
theorem get?_foldl_set {A M : Type} [AddMonoid M] (key : A → K) (weight : A → M) (combine : A → Option V → V)
    (view : K → M → Option V)
    (agrees : ∀ item sum, view (key item) (sum + weight item) = some (combine item (view (key item) sum)))
    {map : OrderedMap K V} {sums : K → M} (tracks : ∀ k, map.get? k = view k (sums k)) (items : List A) (k : K) :
    (items.foldl (fun map item => map.set (key item) (combine item (map.get? (key item)))) map).get? k =
      view k (sums k + ((items.filter fun item => key item = k).map weight).sum) := by
  induction items generalizing map sums with
  | nil => simp [tracks]
  | cons item rest ih =>
      have next : ∀ k', (map.set (key item) (combine item (map.get? (key item)))).get? k' =
          view k' (sums k' + if key item = k' then weight item else 0) := by
        intro k'
        rw [get?_set]
        by_cases same : k' = key item
        · rw [if_pos same, if_pos same.symm, same, agrees, tracks]
        · rw [if_neg same, if_neg (Ne.symm same), add_zero, tracks]
      rw [List.foldl_cons, ih next, add_assoc]
      by_cases here : key item = k
      · rw [if_pos here, List.filter_cons_of_pos (by simpa using here), List.map_cons, List.sum_cons]
      · rw [if_neg here, List.filter_cons_of_neg (by simpa using here), zero_add]

end OrderedMap
