import JetStream.Cube.HierStrCmp
import JetStream.Lib.Ranking
import Mathlib.Data.List.Range

namespace JetStream

open Comparison

/-- These are the orders in which a dimension can be sorted. -/
inductive SortType where
  | pop
  | name
  | hier
  deriving DecidableEq

/-- The standard sort gives a permutation that is in order when the comparison is consistent, and equal items may come in
any order. -/
structure QSort where
  sort : (ℕ → ℕ → ℤ) → List ℕ → List ℕ
  perm : ∀ compare items, Consistent compare → (sort compare items).Perm items
  sorted : ∀ compare items, Consistent compare → (sort compare items).Pairwise fun a b => compare a b ≤ 0

/-- The bytes are compared as unsigned values. -/
def strcmpLoop : List (BitVec 8) → List (BitVec 8) → ℤ
  | [], [] => 0
  | [], _ :: _ => -1
  | _ :: _, [] => 1
  | a :: pa, b :: pb => if a = b then strcmpLoop pa pb else if a < b then -1 else 1

def strcmp (a b : CString) : ℤ := strcmpLoop a.bytes b.bytes

/-- A larger count comes first. -/
def immutStringComparePop (a b : BitVec 32) : ℤ :=
  if a.toInt < b.toInt then 1 else if b.toInt < a.toInt then -1 else 0

/-- A string without a name for sorting is sorted by its bytes. -/
def ImmutString.sortPath (string : ImmutString) : CString := string.sortName.getD string.str

def immutStringCompareName (a b : ImmutString) : ℤ := strcmp a.sortPath b.sortPath

namespace ImmutStrings

/-- A pointer is a position on the heap. -/
def deref (st : ImmutStrings) (walk : ℕ) : ImmutString := st.heap.getD walk ⟨.dot, none, none, 0, 0, 0⟩

/-- The counts stand beside the heap. -/
def compareBy (st : ImmutStrings) (isCount : ℕ → BitVec 32) : SortType → ℕ → ℕ → ℤ
  | .pop, a, b => immutStringComparePop (isCount a) (isCount b)
  | .name, a, b => immutStringCompareName (st.deref a) (st.deref b)
  | .hier, a, b => immutStringCompareHier (st.deref a) (st.deref b)

/-- Each position of the sorted array becomes the index of its string. -/
def assignIndexes (heap : List ImmutString) (tempRay : List ℕ) : List ImmutString :=
  tempRay.zipIdx.foldl (fun heap entry =>
    heap.modify entry.1 fun string => { string with index := BitVec.ofNat 32 entry.2 }) heap

/-- The program exits on a dimension that it does not have, and the walk along a chain needs as many strings as were
counted. -/
def sortDimension (qsort : QSort) (st : ImmutStrings) (isCount : ℕ → BitVec 32) (whichDim : BitVec 32)
    (sortType : SortType) : Option ImmutStrings :=
  if whichDim.toInt < 0 ∨ st.dimChains.length ≤ whichDim.toInt then none
  else do
    let info ← st.dimChains[whichDim.toNat]?
    if info.currIndex.toInt < 1 then some st
    else if info.currIndex.toInt.toNat ≤ info.chain.length then
      let tempRay := info.chain.take info.currIndex.toInt.toNat
      some { st with heap := assignIndexes st.heap (qsort.sort (st.compareBy isCount sortType) tempRay) }
    else none

section Comparisons

theorem strcmpLoop_follows : Follows strcmpLoop (List.map BitVec.toNat) where
  neg_iff := by
    intro pa pb
    fun_induction strcmpLoop pa pb with
    | case1 => simp
    | case2 b pb => simp
    | case3 a pa => simp
    | case4 a pa pb ih =>
        rw [List.map_cons, List.map_cons, List.cons_lt_cons_iff, ih]
        simp
    | case5 a pa b pb different less =>
        rw [List.map_cons, List.map_cons, List.cons_lt_cons_iff]
        simpa using Or.inl (BitVec.lt_def.mp less)
    | case6 a pa b pb different greater =>
        rw [List.map_cons, List.map_cons, List.cons_lt_cons_iff]
        rw [BitVec.lt_def] at greater
        simp [greater, BitVec.toNat_inj, different]
  zero_iff := by
    intro pa pb
    fun_induction strcmpLoop pa pb with
    | case4 a pa pb ih => simpa using ih
    | _ => simp [BitVec.toNat_inj, *]

theorem immutStringComparePop_follows : Follows immutStringComparePop fun count => -count.toInt where
  neg_iff := by
    intro a b
    unfold immutStringComparePop
    split_ifs <;> omega
  zero_iff := by
    intro a b
    rw [neg_inj]
    unfold immutStringComparePop
    split_ifs with less greater
    · exact iff_of_false one_ne_zero less.ne
    · exact iff_of_false (by decide) (ne_of_gt greater)
    · exact iff_of_true rfl (le_antisymm (not_lt.mp greater) (not_lt.mp less))

/-- Each order is consistent, whatever the strings and their counts are. -/
theorem compareBy_consistent (st : ImmutStrings) (isCount : ℕ → BitVec 32) (sortType : SortType) :
    Comparison.Consistent (st.compareBy isCount sortType) := by
  cases sortType with
  | pop => exact (immutStringComparePop_follows.comap isCount).consistent
  | name => exact (strcmpLoop_follows.comap fun walk => (st.deref walk).sortPath.bytes).consistent
  | hier => exact (hierStrCmp_follows.comap fun walk => (st.deref walk).hierPath).consistent

end Comparisons

section Chains

variable {st : ImmutStrings} {dim other : BitVec 32} {request : Request}

/-- These are the positions of the strings of a dimension in the order of their creation. -/
def members (st : ImmutStrings) (dim : BitVec 32) : List ℕ :=
  (List.range st.heap.length).filter fun walk => (st.deref walk).dimension = dim

/-- The chain of each dimension lists its strings, the last one first, and their number is the next index. -/
structure Chains (st : ImmutStrings) : Prop where
  listed : ∀ string ∈ st.heap, 0 ≤ string.dimension.toInt → string.dimension.toInt < st.dimChains.length
  chain : ∀ dim : BitVec 32, 0 ≤ dim.toInt → ∀ info, st.dimChains[dim.toNat]? = some info →
    info.chain = (st.members dim).reverse ∧ info.currIndex = BitVec.ofNat 32 (st.members dim).length

theorem chains_empty : empty.Chains where
  listed := fun _ member => absurd member List.not_mem_nil
  chain := fun _ _ _ found => by cases found

theorem deref_of_mem {walk : ℕ} (inside : walk < st.heap.length) : st.deref walk = st.heap[walk] := by
  rw [deref, List.getD_eq_getElem?_getD, List.getElem?_eq_getElem inside, Option.getD_some]

theorem mem_members {walk : ℕ} : walk ∈ st.members dim ↔ walk < st.heap.length ∧ (st.deref walk).dimension = dim := by
  simp [members]

theorem members_nodup (st : ImmutStrings) (dim : BitVec 32) : (st.members dim).Nodup := List.nodup_range.filter _

theorem deref_push (st : ImmutStrings) (request : Request) (index : BitVec 32) (dimChains : List DimInfo) {walk : ℕ}
    (inside : walk < st.heap.length) : (st.push request index dimChains).deref walk = st.deref walk := by
  have longer : walk < (st.push request index dimChains).heap.length := by
    rw [ImmutStrings.push, List.length_append]
    exact Nat.lt_add_right _ inside
  rw [deref_of_mem longer, deref_of_mem inside]
  exact List.getElem_append_left inside

theorem deref_push_last (st : ImmutStrings) (request : Request) (index : BitVec 32) (dimChains : List DimInfo) :
    (st.push request index dimChains).deref st.heap.length =
      ⟨request.s, request.sortName, request.hierName, request.dim, index, hash request.s request.dim⟩ := by
  rw [deref, ImmutStrings.push, List.getD_eq_getElem?_getD, List.getElem?_concat_length, Option.getD_some]

/-- A new string is the last one of its dimension. -/
theorem members_push (st : ImmutStrings) (request : Request) (index : BitVec 32) (dimChains : List DimInfo)
    (dim : BitVec 32) :
    (st.push request index dimChains).members dim =
      st.members dim ++ if request.dim = dim then [st.heap.length] else [] := by
  have length : (st.push request index dimChains).heap.length = st.heap.length + 1 := by
    rw [ImmutStrings.push, List.length_append, List.length_singleton]
  have last : ((st.push request index dimChains).deref st.heap.length).dimension = request.dim := by
    rw [deref_push_last]
  rw [members, length, List.range_succ, List.filter_append]
  congr 1
  · apply List.filter_congr
    intro walk member
    rw [deref_push st request index dimChains (List.mem_range.mp member)]
  · split_ifs with same
    · simp [last, same]
    · simp [last, same]

/-- Growing gives a dimension its old chain or an empty one. -/
theorem growDimChains_spec {dimChains grown : List DimInfo} (took : growDimChains dimChains dim = some grown) :
    dimChains.length ≤ grown.length ∧ ∀ d info, grown[d]? = some info →
      dimChains[d]? = some info ∨ dimChains.length ≤ d ∧ info = ⟨[], 0⟩ := by
  unfold growDimChains at took
  split_ifs at took
  · obtain rfl := Option.some.inj took
    exact ⟨le_rfl, fun d info found => Or.inl found⟩
  · obtain rfl := Option.some.inj took
    rw [List.length_append]
    refine ⟨Nat.le_add_right _ _, fun d info found => ?_⟩
    by_cases old : d < dimChains.length
    · rw [List.getElem?_append_left old] at found
      exact Or.inl found
    · rw [List.getElem?_append_right (not_lt.mp old), List.getElem?_replicate] at found
      split_ifs at found
      exact Or.inr ⟨not_lt.mp old, (Option.some.inj found).symm⟩

/-- A dimension without a chain has no strings. -/
theorem Chains.members_eq_nil (chains : st.Chains) (nonneg : 0 ≤ dim.toInt) (beyond : st.dimChains.length ≤ dim.toNat) :
    st.members dim = [] := by
  rw [members, List.filter_eq_nil_iff]
  intro walk member
  have inside := List.mem_range.mp member
  simp only [decide_eq_true_eq]
  rintro rfl
  rw [deref_of_mem inside] at nonneg beyond
  have listed := chains.listed _ (List.getElem_mem inside) nonneg
  rw [toInt_eq nonneg] at listed
  omega

theorem Chains.push (chains : st.Chains) {index : BitVec 32} {dimChains : List DimInfo}
    (entered : enterDimension st.dimChains request.dim st.heap.length = some (index, dimChains)) :
    (st.push request index dimChains).Chains := by
  unfold enterDimension at entered
  split_ifs at entered with nonneg
  · simp only [Option.bind_eq_bind, Option.bind_eq_some_iff] at entered
    obtain ⟨grown, took, info, found, entered⟩ := entered
    obtain ⟨rfl, rfl⟩ := Prod.mk.inj (Option.some.inj entered)
    obtain ⟨longer, each⟩ := growDimChains_spec took
    have known {dim : BitVec 32} (nonneg : 0 ≤ dim.toInt) {info : DimInfo} (found : grown[dim.toNat]? = some info) :
        info.chain = (st.members dim).reverse ∧ info.currIndex = BitVec.ofNat 32 (st.members dim).length := by
      rcases each _ _ found with old | ⟨beyond, rfl⟩
      · exact chains.chain dim nonneg info old
      · rw [chains.members_eq_nil nonneg beyond]
        exact ⟨rfl, rfl⟩
    have inside := (List.getElem?_eq_some_iff.mp found).1
    constructor
    · intro string member nonnegString
      have size : (st.push request info.currIndex (grown.set request.dim.toNat
          ⟨st.heap.length :: info.chain, info.currIndex + 1#32⟩)).dimChains.length = grown.length := List.length_set
      rw [size]
      rcases List.mem_append.mp member with old | new
      · exact (chains.listed string old nonnegString).trans_le (Int.ofNat_le.mpr longer)
      · rw [List.mem_singleton.mp new, toInt_eq nonneg]
        exact Int.ofNat_lt.mpr inside
    · intro dim nonnegDim other here
      have read : (grown.set request.dim.toNat ⟨st.heap.length :: info.chain, info.currIndex + 1#32⟩)[dim.toNat]? =
        some other := here
      rw [members_push]
      by_cases same : request.dim = dim
      · subst same
        rw [List.getElem?_set_self inside] at read
        obtain rfl := Option.some.inj read
        obtain ⟨chain, next⟩ := known nonneg found
        rw [if_pos rfl, List.reverse_append, List.length_append, chain, next]
        exact ⟨rfl, by rw [BitVec.ofNat_add]; rfl⟩
      · have apart : request.dim.toNat ≠ dim.toNat := fun alike => same (BitVec.eq_of_toNat_eq alike)
        rw [List.getElem?_set_ne apart] at read
        rw [if_neg same, List.append_nil]
        exact known nonnegDim read
  · obtain ⟨rfl, rfl⟩ := Prod.mk.inj (Option.some.inj entered)
    constructor
    · intro string member nonnegString
      rcases List.mem_append.mp member with old | new
      · exact chains.listed string old nonnegString
      · rw [List.mem_singleton.mp new] at nonnegString
        exact absurd nonnegString nonneg
    · intro dim nonnegDim info found
      have apart : request.dim ≠ dim := by
        rintro rfl
        exact nonneg nonnegDim
      rw [members_push, if_neg apart, List.append_nil]
      exact chains.chain dim nonnegDim info found

theorem Chains.create (chains : st.Chains) {next : ImmutStrings} {object : Option ℕ}
    (created : create st request.s request.sortName request.hierName request.dim = some (next, object)) :
    next.Chains ∧ next.heap.length ≤ st.heap.length + 1 := by
  simp only [ImmutStrings.create, createBack, if_true] at created
  split at created
  · obtain ⟨rfl, -⟩ := Prod.mk.inj (Option.some.inj created)
    exact ⟨chains, Nat.le_succ _⟩
  · simp only [Option.bind_eq_bind, Option.bind_eq_some_iff] at created
    obtain ⟨⟨index, dimChains⟩, entered, created⟩ := created
    obtain ⟨rfl, -⟩ := Prod.mk.inj (Option.some.inj created)
    exact ⟨chains.push entered, List.length_append.le⟩

/-- Every run of creations keeps the chains. -/
theorem Chains.run (chains : st.Chains) {requests : List Request} {last : ImmutStrings} {objects : List (Option ℕ)}
    (ran : run st requests = some (last, objects)) :
    last.Chains ∧ last.heap.length ≤ st.heap.length + requests.length := by
  induction requests generalizing st objects with
  | nil =>
      obtain ⟨rfl, -⟩ := Prod.mk.inj (Option.some.inj ran)
      exact ⟨chains, le_rfl⟩
  | cons request rest ih =>
      simp only [ImmutStrings.run, Option.bind_eq_bind, Option.bind_eq_some_iff] at ran
      obtain ⟨⟨next, object⟩, created, ⟨final, others⟩, later, ended⟩ := ran
      obtain ⟨rfl, -⟩ := Prod.mk.inj (Option.some.inj ended)
      obtain ⟨kept, small⟩ := chains.create created
      obtain ⟨held, bound⟩ := ih kept later
      refine ⟨held, ?_⟩
      rw [List.length_cons]
      omega

end Chains

section Sorting

variable {st : ImmutStrings} {dim : BitVec 32}

theorem length_members_le (st : ImmutStrings) (dim : BitVec 32) : (st.members dim).length ≤ st.heap.length := by
  have bound := List.length_filter_le (fun walk => decide ((st.deref walk).dimension = dim)) (List.range st.heap.length)
  rwa [List.length_range] at bound

/-- A string of the sorted dimension takes its rank, and no other field is written. -/
theorem getElem?_assignIndexes {tempRay : List ℕ} (distinct : tempRay.Nodup) (heap : List ImmutString) (walk : ℕ) :
    (assignIndexes heap tempRay)[walk]? = heap[walk]?.map fun string =>
      if walk ∈ tempRay then { string with index := BitVec.ofNat 32 (tempRay.idxOf walk) } else string := by
  have written := getElem?_foldl_modify
    (fun i (string : ImmutString) => { string with index := BitVec.ofNat 32 i }) distinct heap 0 walk
  rw [Nat.zero_add] at written
  exact written

theorem deref_assignIndexes (st : ImmutStrings) {tempRay : List ℕ} (distinct : tempRay.Nodup)
    (inside : ∀ walk ∈ tempRay, walk < st.heap.length) (walk : ℕ) :
    ({ st with heap := assignIndexes st.heap tempRay } : ImmutStrings).deref walk =
      if walk ∈ tempRay then { st.deref walk with index := BitVec.ofNat 32 (tempRay.idxOf walk) } else st.deref walk := by
  rw [deref, deref, List.getD_eq_getElem?_getD, List.getD_eq_getElem?_getD, getElem?_assignIndexes distinct]
  by_cases here : walk < st.heap.length
  · rw [List.getElem?_eq_getElem here, Option.map_some, Option.getD_some, Option.getD_some]
  · rw [List.getElem?_eq_none (not_lt.mp here), Option.map_none, Option.getD_none,
      if_neg fun member => here (inside walk member)]

/-- A look-up reads neither the index nor the chains of the dimensions. -/
theorem isMatch_assignIndexes (st : ImmutStrings) {tempRay : List ℕ} (distinct : tempRay.Nodup) (s : CString)
    (h : BitVec 32) :
    ({ st with heap := assignIndexes st.heap tempRay } : ImmutStrings).isMatch s h = st.isMatch s h := by
  funext walk
  rw [isMatch, isMatch, getElem?_assignIndexes distinct]
  cases st.heap[walk]? with
  | none => rfl
  | some string => rw [Option.map_some]; split_ifs <;> rfl

theorem find_snd (st : ImmutStrings) (s : CString) (d : BitVec 32) :
    (st.find s d).map Prod.snd = some ((st.bins (hash s d &&& binsMask)).find? (st.isMatch s (hash s d))) := by
  simp only [find, createBack]
  cases (st.bins (hash s d &&& binsMask)).find? (st.isMatch s (hash s d)) <;> rfl

/-- The strings of the dimension have the numbers below their count as indices, in the order of the comparison, and
nothing else has changed. -/
structure IsSorted (st next : ImmutStrings) (isCount : ℕ → BitVec 32) (dim : BitVec 32) (sortType : SortType) :
    Prop where
  indices : ((st.members dim).map fun walk => (next.deref walk).index.toNat).Perm
    (List.range (st.members dim).length)
  ordered : ∀ a ∈ st.members dim, ∀ b ∈ st.members dim, st.compareBy isCount sortType a b < 0 →
    (next.deref a).index.toNat < (next.deref b).index.toNat
  kept : ∀ walk, next.deref walk = { st.deref walk with index := (next.deref walk).index }
  others : ∀ walk, (st.deref walk).dimension ≠ dim → next.deref walk = st.deref walk
  found : ∀ s d, (next.find s d).map Prod.snd = (st.find s d).map Prod.snd
  chains : next.bins = st.bins ∧ next.dimChains = st.dimChains

/-- Any order of the strings that agrees with the comparison gives their indices. -/
theorem isSorted_assignIndexes (st : ImmutStrings) (isCount : ℕ → BitVec 32) (sortType : SortType) {tempRay : List ℕ}
    (perm : tempRay.Perm (st.members dim))
    (sorted : tempRay.Pairwise fun a b => st.compareBy isCount sortType a b ≤ 0)
    (few : (st.members dim).length < 2 ^ 31) :
    IsSorted st { st with heap := assignIndexes st.heap tempRay } isCount dim sortType := by
  have distinct : tempRay.Nodup := perm.nodup_iff.mpr (st.members_nodup dim)
  have read := st.deref_assignIndexes distinct fun walk member => (mem_members.mp (perm.mem_iff.mp member)).1
  have rank {walk : ℕ} (member : walk ∈ st.members dim) :
      (({ st with heap := assignIndexes st.heap tempRay } : ImmutStrings).deref walk).index.toNat =
        tempRay.idxOf walk := by
    have member := perm.mem_iff.mpr member
    have bound := List.idxOf_lt_length_of_mem member
    rw [perm.length_eq] at bound
    rw [read, if_pos member, BitVec.toNat_ofNat, Nat.mod_eq_of_lt (by omega)]
  constructor
  · rw [List.map_congr_left fun walk member => rank member, ← perm.length_eq, ← map_idxOf_self distinct]
    exact (perm.map _).symm
  · intro a memberA b memberB less
    rw [rank memberA, rank memberB]
    exact (st.compareBy_consistent isCount sortType).idxOf_lt sorted (perm.mem_iff.mpr memberA)
      (perm.mem_iff.mpr memberB) less
  · intro walk
    rw [read]
    split_ifs <;> rfl
  · intro walk other
    rw [read, if_neg fun member => other (mem_members.mp (perm.mem_iff.mp member)).2]
  · intro s d
    rw [find_snd, find_snd, isMatch_assignIndexes st distinct]
  · exact ⟨rfl, rfl⟩

/-- The strings are sorted when the index did not wrap. -/
theorem Chains.sortDimension (chains : st.Chains) (qsort : QSort) (isCount : ℕ → BitVec 32) (sortType : SortType)
    (nonneg : 0 ≤ dim.toInt) (known : dim.toNat < st.dimChains.length) (few : (st.members dim).length < 2 ^ 31) :
    ∃ next, st.sortDimension qsort isCount dim sortType = some next ∧ IsSorted st next isCount dim sortType := by
  obtain ⟨chain, next⟩ := chains.chain dim nonneg _ (List.getElem?_eq_getElem known)
  have valid : ¬ (dim.toInt < 0 ∨ st.dimChains.length ≤ dim.toInt) := by
    rw [toInt_eq nonneg]
    omega
  have count : (BitVec.ofNat 32 (st.members dim).length).toInt = (st.members dim).length := by
    rw [BitVec.toInt_eq_toNat_of_lt] <;> rw [BitVec.toNat_ofNat, Nat.mod_eq_of_lt] <;> omega
  rw [ImmutStrings.sortDimension, if_neg valid, List.getElem?_eq_getElem known, Option.bind_eq_bind, Option.bind_some,
    next, count, Int.toNat_natCast]
  by_cases any : ((st.members dim).length : ℤ) < 1
  · have nobody : st.members dim = [] := List.length_eq_zero_iff.mp (by omega)
    rw [if_pos any]
    refine ⟨st, rfl, ?_⟩
    constructor <;> simp [nobody]
  · have whole : st.dimChains[dim.toNat].chain.take (st.members dim).length = (st.members dim).reverse := by
      rw [chain, ← List.length_reverse, List.take_length]
    have reaches : (st.members dim).length ≤ st.dimChains[dim.toNat].chain.length := by
      rw [chain, List.length_reverse]
    have consistent := st.compareBy_consistent isCount sortType
    rw [if_neg any, if_pos reaches, whole]
    exact ⟨_, rfl, st.isSorted_assignIndexes isCount sortType
      ((qsort.perm _ _ consistent).trans (List.reverse_perm _)) (qsort.sorted _ _ consistent) few⟩

/-- The dimension of a creation is known after the run. -/
theorem run_sortDimension (qsort : QSort) (isCount : ℕ → BitVec 32) (sortType : SortType) {requests : List Request}
    (small : ∀ request ∈ requests, request.dim ≠ BitVec.intMax 32) (few : requests.length < 2 ^ 31)
    (nonneg : 0 ≤ dim.toInt) (asked : ∃ request ∈ requests, request.dim = dim) :
    ∃ st objects next, run empty requests = some (st, objects) ∧
      st.sortDimension qsort isCount dim sortType = some next ∧ IsSorted st next isCount dim sortType := by
  obtain ⟨st, ran, all, -⟩ := consistent_empty.run_eq small
  obtain ⟨chains, bound⟩ := chains_empty.run ran
  obtain ⟨request, member, rfl⟩ := asked
  have created : request.key ∈ st.keys := by
    rw [all, mem_internAll]
    exact Or.inr (List.mem_map_of_mem member)
  obtain ⟨string, here, same⟩ := List.mem_map.mp created
  have dimension : string.dimension = request.dim := congrArg Prod.snd same
  have known := chains.listed string here (dimension ▸ nonneg)
  rw [dimension, toInt_eq nonneg] at known
  have fits : (st.members request.dim).length < 2 ^ 31 :=
    (st.length_members_le _).trans_lt (bound.trans_lt (by rwa [empty, List.length_nil, Nat.zero_add]))
  obtain ⟨next, sorted, isSorted⟩ :=
    chains.sortDimension qsort isCount sortType nonneg (Int.ofNat_lt.mp known) fits
  exact ⟨st, _, next, ran, sorted, isSorted⟩

theorem IsSorted.index_lt {next : ImmutStrings} {isCount : ℕ → BitVec 32} {sortType : SortType}
    (isSorted : IsSorted st next isCount dim sortType) {walk : ℕ} (member : walk ∈ st.members dim) :
    (next.deref walk).index.toNat < (st.members dim).length :=
  List.mem_range.mp (isSorted.indices.mem_iff.mp
    (List.mem_map_of_mem (f := fun walk => (next.deref walk).index.toNat) member))

/-- In the hierarchical order everything below a path takes one block of the indices, and the block starts behind the
path itself. -/
theorem IsSorted.hier {next : ImmutStrings} {isCount : ℕ → BitVec 32}
    (isSorted : IsSorted st next isCount dim .hier) {path : CString} (isPath : path.IsPath) :
    ∃ first last, (∀ walk ∈ st.members dim, (st.deref walk).hierPath.IsBelow path ↔
        first ≤ (next.deref walk).index.toNat ∧ (next.deref walk).index.toNat < last) ∧
      ∀ walk ∈ st.members dim, (st.deref walk).hierPath = path → (next.deref walk).index.toNat < first := by
  obtain ⟨first, last, block, behind⟩ := (st.compareBy_consistent isCount .hier).exists_block
    (fun walk member => isSorted.index_lt member) isSorted.ordered
    (fun walk => (st.deref walk).hierPath.IsBelow path)
    (fun a _ b _ c _ insideA insideC => hierStrCmp_hierarchical.contiguous path _ _ _ isPath insideA insideC)
  refine ⟨first, last, block, fun walk member same => behind walk member fun other _ below => ?_⟩
  have after := hierStrCmp_hierarchical.after path _ isPath below
  rw [← same] at after
  exact after

/-- The program sorts a dimension of any number of creations that an `int` can count, by whichever order and whichever
sort. -/
theorem sortDimension_sorted (qsort : QSort) (isCount : ℕ → BitVec 32) (sortType : SortType) {requests : List Request}
    (small : ∀ request ∈ requests, request.dim ≠ BitVec.intMax 32) (few : requests.length < 2 ^ 31)
    (nonneg : 0 ≤ dim.toInt) (asked : ∃ request ∈ requests, request.dim = dim) :
    ∃ st objects next, run empty requests = some (st, objects) ∧
      st.sortDimension qsort isCount dim sortType = some next ∧ IsSorted st next isCount dim sortType :=
  run_sortDimension qsort isCount sortType small few nonneg asked

/-- A hierarchical sort of any run puts each subtree into one block of indices. -/
theorem sortDimension_hier (qsort : QSort) (isCount : ℕ → BitVec 32) {requests : List Request}
    (small : ∀ request ∈ requests, request.dim ≠ BitVec.intMax 32) (few : requests.length < 2 ^ 31)
    (nonneg : 0 ≤ dim.toInt) (asked : ∃ request ∈ requests, request.dim = dim) :
    ∃ st objects next, run empty requests = some (st, objects) ∧
      st.sortDimension qsort isCount dim .hier = some next ∧
      ∀ path : CString, path.IsPath → ∃ first last,
        (∀ walk ∈ st.members dim, (st.deref walk).hierPath.IsBelow path ↔
          first ≤ (next.deref walk).index.toNat ∧ (next.deref walk).index.toNat < last) ∧
        ∀ walk ∈ st.members dim, (st.deref walk).hierPath = path → (next.deref walk).index.toNat < first := by
  obtain ⟨st, objects, next, ran, sorted, isSorted⟩ := run_sortDimension qsort isCount .hier small few nonneg asked
  exact ⟨st, objects, next, ran, sorted, fun path isPath => isSorted.hier isPath⟩

end Sorting

section Words

/-- A stable sort is one of the sorts. -/
def QSort.stable : QSort where
  sort := fun compare items => items.mergeSort fun a b => compare a b ≤ 0
  perm := fun compare items _ => items.mergeSort_perm _
  sorted := by
    intro compare items consistent
    let le (a b : ℕ) : Bool := decide (compare a b ≤ 0)
    have trans : ∀ a b c, le a b → le b c → le a c := by simpa [le] using consistent.trans
    have total : ∀ a b, le a b || le b a := by simpa [le] using consistent.total
    exact (List.pairwise_mergeSort trans total items).imp fun ordered => of_decide_eq_true ordered

/-- The dimension holds two files in a directory, the directory and a directory with a longer name. -/
def directories : List Request :=
  [⟨⟨[97#8, 47#8, 98#8], by decide⟩, none, none, 0⟩, ⟨⟨[97#8, 98#8], by decide⟩, none, none, 0⟩,
    ⟨⟨[97#8], by decide⟩, none, none, 0⟩, ⟨⟨[99#8], by decide⟩, none, some ⟨[97#8, 47#8, 99#8], by decide⟩, 0⟩]

theorem directories_small : ∀ request ∈ directories, request.dim ≠ BitVec.intMax 32 := by
  intro request member
  have zero : request.dim = 0#32 := by
    simp only [directories, List.mem_cons, List.not_mem_nil, or_false] at member
    rcases member with rfl | rfl | rfl | rfl <;> rfl
  rw [zero]
  decide

theorem sortDimension_sorted_directories :
    ∃ st objects next, run empty directories = some (st, objects) ∧
      st.sortDimension QSort.stable (fun _ => 0) 0 .name = some next ∧ IsSorted st next (fun _ => 0) 0 .name :=
  sortDimension_sorted QSort.stable _ .name directories_small (by decide) (by decide)
    ⟨_, List.mem_cons_self, rfl⟩

theorem sortDimension_hier_directories :
    ∃ st objects next, run empty directories = some (st, objects) ∧
      st.sortDimension QSort.stable (fun _ => 0) 0 .hier = some next ∧
      ∀ path : CString, path.IsPath → ∃ first last,
        (∀ walk ∈ st.members 0, (st.deref walk).hierPath.IsBelow path ↔
          first ≤ (next.deref walk).index.toNat ∧ (next.deref walk).index.toNat < last) ∧
        ∀ walk ∈ st.members 0, (st.deref walk).hierPath = path → (next.deref walk).index.toNat < first :=
  sortDimension_hier QSort.stable _ directories_small (by decide) (by decide) ⟨_, List.mem_cons_self, rfl⟩

end Words

end ImmutStrings

end JetStream
