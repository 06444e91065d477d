import JetStream.Lib.Interning
import JetStream.Machine

namespace JetStream

/-- The bytes of a string end before its NUL. -/
structure CString where
  bytes : List (BitVec 8)
  nulFree : 0#8 ∉ bytes
  deriving DecidableEq

/-- The chains of a string are lists of positions on the heap. -/
structure ImmutString where
  str : CString
  sortName : Option CString
  hierName : Option CString
  dimension : BitVec 32
  index : BitVec 32
  strHash : BitVec 32

/-- The chain begins with the head of the dimension. -/
structure DimInfo where
  chain : List ℕ
  currIndex : BitVec 32

/-- A string is named by its position on the heap. -/
structure ImmutStrings where
  heap : List ImmutString
  bins : BitVec 32 → List ℕ
  dimChains : List DimInfo

namespace ImmutStrings

/-- The program begins with empty bins and no dimensions. -/
def empty : ImmutStrings := ⟨[], fun _ => [], []⟩

/-- A `char` is signed. -/
def mix (res : BitVec 32) (c : BitVec 8) : BitVec 32 := res + (res <<< 5 + c.signExtend 32)

/-- The dimension is mixed into the seed. -/
def hash (s : CString) (d : BitVec 32) : BitVec 32 := s.bytes.foldl mix (5381#32 + d)

def binsMask : BitVec 32 := 0xFFFFF#32

/-- The `int` sum is converted to `size_t`, and a `DimInfo` takes 16 bytes. -/
def dimChainsSize (dim : BitVec 32) : BitVec 64 := (dim + 1#32).signExtend 64 * 16#64

/-- No object is larger than the largest pointer difference. -/
def ptrdiffMax : ℕ := 2 ^ 63 - 1

/-- The result of `realloc` is not checked before it is read. -/
def growDimChains (dimChains : List DimInfo) (dim : BitVec 32) : Option (List DimInfo) :=
  if dim.toInt < dimChains.length then some dimChains
  else if (dimChainsSize dim).toNat ≤ ptrdiffMax then
    some (dimChains ++ List.replicate (dim.toNat + 1 - dimChains.length) ⟨[], 0⟩)
  else none

/-- The string becomes the head of its dimension and takes the next index of it. -/
def enterDimension (dimChains : List DimInfo) (dim : BitVec 32) (walk : ℕ) : Option (BitVec 32 × List DimInfo) := do
  if 0 ≤ dim.toInt then
    let dimChains ← growDimChains dimChains dim
    let info ← dimChains[dim.toNat]?
    some (info.currIndex, dimChains.set dim.toNat ⟨walk :: info.chain, info.currIndex + 1#32⟩)
  else
    some (0, dimChains)

/-- Only the hash and the string are compared. -/
def isMatch (st : ImmutStrings) (s : CString) (h : BitVec 32) (walk : ℕ) : Bool :=
  match st.heap[walk]? with
  | some string => string.strHash = h ∧ s = string.str
  | none => false

/-- The object is null when it is neither found nor created, and there is no result when memory is accessed that was
not allocated. -/
def createBack (st : ImmutStrings) (s : CString) (sortName hierName : Option CString) (dim : BitVec 32)
    (doCreate : Bool) : Option (ImmutStrings × Option ℕ) :=
  let h := hash s dim
  let bin := h &&& binsMask
  match (st.bins bin).find? (st.isMatch s h) with
  | some walk => some (st, some walk)
  | none =>
      if doCreate then do
        let walk := st.heap.length
        let (index, dimChains) ← enterDimension st.dimChains dim walk
        some (⟨st.heap ++ [⟨s, sortName, hierName, dim, index, h⟩],
          Function.update st.bins bin (walk :: st.bins bin), dimChains⟩, some walk)
      else some (st, none)

def create (st : ImmutStrings) (s : CString) (sortName hierName : Option CString) (dim : BitVec 32) :
    Option (ImmutStrings × Option ℕ) :=
  createBack st s sortName hierName dim true

def find (st : ImmutStrings) (s : CString) (dim : BitVec 32) : Option (ImmutStrings × Option ℕ) :=
  createBack st s none none dim false

/-- These are the arguments of one `ImmutStringCreate`. -/
structure Request where
  s : CString
  sortName : Option CString
  hierName : Option CString
  dim : BitVec 32

def Request.key (request : Request) : CString × BitVec 32 := (request.s, request.dim)

/-- The calls are made in turn. -/
def run (st : ImmutStrings) : List Request → Option (ImmutStrings × List (Option ℕ))
  | [] => some (st, [])
  | request :: rest => do
      let (next, object) ← create st request.s request.sortName request.hierName request.dim
      let (last, objects) ← run next rest
      some (last, object :: objects)

section Hash

theorem mix_eq (res : BitVec 32) (c : BitVec 8) : mix res c = 33#32 * res + c.signExtend 32 := by
  have shifted : res <<< 5 = 32#32 * res := by
    rw [BitVec.shiftLeft_eq_mul_twoPow, BitVec.mul_comm]
    rfl
  rw [mix, shifted]
  grind

/-- One byte does not make two seeds meet, because 33 has an inverse modulo the word size. -/
theorem mix_injective (c : BitVec 8) : Function.Injective (mix · c) := by
  intro first second same
  dsimp only at same
  rw [mix_eq, mix_eq, BitVec.add_left_inj] at same
  have inverse : 1041204193#32 * 33#32 = 1#32 := by decide
  calc first = 1041204193#32 * (33#32 * first) := by rw [← BitVec.mul_assoc, inverse, BitVec.one_mul]
    _ = 1041204193#32 * (33#32 * second) := by rw [same]
    _ = second := by rw [← BitVec.mul_assoc, inverse, BitVec.one_mul]

/-- The hash of a fixed string tells all dimensions apart. -/
theorem hash_injective (s : CString) : Function.Injective (hash s) := by
  have folded (bytes : List (BitVec 8)) : Function.Injective (bytes.foldl mix) := by
    induction bytes with
    | nil => exact Function.injective_id
    | cons c bytes ih => exact ih.comp (mix_injective c)
  intro first second same
  exact (BitVec.add_right_inj _).mp (folded s.bytes same)

end Hash

section Dimension

variable {dimChains : List DimInfo} {dim : BitVec 32}

theorem toInt_eq (nonneg : 0 ≤ dim.toInt) : dim.toInt = dim.toNat := by
  rw [BitVec.toInt_eq_toNat_cond] at nonneg ⊢
  have := dim.isLt
  split at nonneg
  · rename_i small
    rw [if_pos small]
  · omega

theorem toNat_lt_intMax (nonneg : 0 ≤ dim.toInt) (small : dim ≠ BitVec.intMax 32) : dim.toNat < intMax := by
  have other : dim.toNat ≠ intMax := fun same => small (BitVec.eq_of_toNat_eq same)
  have bound := @BitVec.toInt_lt 32 dim
  rw [toInt_eq nonneg] at bound
  unfold intMax at other ⊢
  omega

/-- The sum wraps at the last dimension alone. -/
theorem toNat_dimChainsSize (nonneg : 0 ≤ dim.toInt) (small : dim ≠ BitVec.intMax 32) :
    (dimChainsSize dim).toNat = (dim.toNat + 1) * 16 := by
  have bound := toNat_lt_intMax nonneg small
  unfold intMax at bound
  have next : (dim + 1#32).toNat = dim.toNat + 1 := by
    rw [BitVec.toNat_add]
    exact Nat.mod_eq_of_lt (by simp; omega)
  have positive : (dim + 1#32).msb = false := by
    rw [BitVec.msb_eq_false_iff_two_mul_lt, next]
    omega
  rw [dimChainsSize, BitVec.signExtend_eq_setWidth_of_msb_false positive, BitVec.toNat_mul,
    BitVec.toNat_setWidth_of_le (by decide), next]
  exact Nat.mod_eq_of_lt (by simp; omega)

/-- A dimension has its place after it was grown. -/
theorem growDimChains_eq (room : dimChains.length ≤ intMax) (nonneg : 0 ≤ dim.toInt) (small : dim ≠ BitVec.intMax 32) :
    ∃ grown, growDimChains dimChains dim = some grown ∧ dim.toNat < grown.length ∧ grown.length ≤ intMax := by
  have bound := toNat_lt_intMax nonneg small
  rw [growDimChains, toInt_eq nonneg, toNat_dimChainsSize nonneg small]
  split
  · rename_i known
    exact ⟨dimChains, rfl, by omega, room⟩
  · rename_i beyond
    have fits : (dim.toNat + 1) * 16 ≤ ptrdiffMax := by
      unfold ptrdiffMax
      unfold intMax at bound
      omega
    refine ⟨_, if_pos fits, ?_, ?_⟩ <;> rw [List.length_append, List.length_replicate] <;> omega

theorem enterDimension_intMax (room : dimChains.length ≤ intMax) (walk : ℕ) :
    enterDimension dimChains (BitVec.intMax 32) walk = none := by
  have beyond : ¬ (BitVec.intMax 32).toInt < dimChains.length := by
    rw [show (BitVec.intMax 32).toInt = intMax by decide]
    omega
  have tooLarge : ¬ (dimChainsSize (BitVec.intMax 32)).toNat ≤ ptrdiffMax := by decide
  have nonneg : 0 ≤ (BitVec.intMax 32).toInt := by decide
  simp only [enterDimension, growDimChains, if_pos nonneg, if_neg beyond, if_neg tooLarge]
  rfl

/-- Every other dimension has its place after it was grown, and the number of dimensions stays an `int`. -/
theorem enterDimension_eq (room : dimChains.length ≤ intMax) (small : dim ≠ BitVec.intMax 32) (walk : ℕ) :
    ∃ index grown, enterDimension dimChains dim walk = some (index, grown) ∧ grown.length ≤ intMax := by
  by_cases nonneg : 0 ≤ dim.toInt
  · obtain ⟨grown, took, inside, fits⟩ := growDimChains_eq room nonneg small
    refine ⟨grown[dim.toNat].currIndex, grown.set dim.toNat
      ⟨walk :: grown[dim.toNat].chain, grown[dim.toNat].currIndex + 1#32⟩, ?_, ?_⟩
    · rw [enterDimension, if_pos nonneg, took, Option.bind_eq_bind, Option.bind_some, List.getElem?_eq_getElem inside]
      rfl
    · rwa [List.length_set]
  · exact ⟨0, dimChains, if_neg nonneg, room⟩

end Dimension

section Interned

variable {st : ImmutStrings}

/-- A string is interned under its bytes and its dimension. -/
def keys (st : ImmutStrings) : List (CString × BitVec 32) := st.heap.map fun string => (string.str, string.dimension)

theorem length_keys (st : ImmutStrings) : st.keys.length = st.heap.length := List.length_map _

def binOf (key : CString × BitVec 32) : BitVec 32 := hash key.1 key.2 &&& binsMask

/-- Each string stands once in the chain of its bin, under its own hash. -/
structure Consistent (st : ImmutStrings) : Prop where
  distinct : st.keys.Nodup
  hashed : ∀ string ∈ st.heap, string.strHash = hash string.str string.dimension
  chained : Chained binOf st.keys st.bins
  room : st.dimChains.length ≤ intMax

theorem consistent_empty : empty.Consistent :=
  ⟨List.nodup_nil, fun _ member => absurd member List.not_mem_nil, chained_nil, Nat.zero_le _⟩

/-- A string with the same bytes and the same hash has the same dimension. -/
theorem Consistent.isMatch_iff (consistent : st.Consistent) (s : CString) (dim : BitVec 32) (walk : ℕ)
    (key : CString × BitVec 32) (here : st.keys[walk]? = some key) :
    st.isMatch s (hash s dim) walk = true ↔ key = (s, dim) := by
  rw [keys, List.getElem?_map] at here
  obtain ⟨string, read, rfl⟩ := Option.map_eq_some_iff.mp here
  simp only [isMatch, read, consistent.hashed string (List.mem_of_getElem? read), decide_eq_true_eq, Prod.mk.injEq]
  constructor
  · rintro ⟨sameHash, rfl⟩
    exact ⟨rfl, hash_injective _ sameHash⟩
  · rintro ⟨rfl, rfl⟩
    exact ⟨rfl, rfl⟩

/-- The look-up finds the position of the string and its dimension. -/
theorem Consistent.walk_eq (consistent : st.Consistent) (s : CString) (dim : BitVec 32) :
    (st.bins (hash s dim &&& binsMask)).find? (st.isMatch s (hash s dim)) =
      if (s, dim) ∈ st.keys then some (st.keys.idxOf (s, dim)) else none := by
  have found : (st.bins (binOf (s, dim))).find? (st.isMatch s (hash s dim)) =
      if (s, dim) ∈ st.keys then some (st.keys.idxOf (s, dim)) else none :=
    consistent.chained.find_eq consistent.distinct fun walk key here => consistent.isMatch_iff s dim walk key here
  exact found

theorem Consistent.find_eq (consistent : st.Consistent) (s : CString) (dim : BitVec 32) :
    st.find s dim = some (st, if (s, dim) ∈ st.keys then some (st.keys.idxOf (s, dim)) else none) := by
  rw [find, createBack, consistent.walk_eq]
  split <;> split <;> simp_all

/-- The new string is the last one on the heap and the first one in its chain. -/
def push (st : ImmutStrings) (request : Request) (index : BitVec 32) (dimChains : List DimInfo) : ImmutStrings where
  heap := st.heap ++ [⟨request.s, request.sortName, request.hierName, request.dim, index, hash request.s request.dim⟩]
  bins := Function.update st.bins (binOf request.key) (st.heap.length :: st.bins (binOf request.key))
  dimChains := dimChains

theorem keys_push (st : ImmutStrings) (request : Request) (index : BitVec 32) (dimChains : List DimInfo) :
    (push st request index dimChains).keys = st.keys ++ [request.key] := by
  rw [keys, push, List.map_append]
  rfl

theorem Consistent.push {request : Request} (consistent : st.Consistent) (fresh : request.key ∉ st.keys)
    (index : BitVec 32) {dimChains : List DimInfo} (room : dimChains.length ≤ intMax) :
    (st.push request index dimChains).Consistent where
  distinct := by
    have joined := nodup_intern consistent.distinct request.key
    rwa [intern, if_neg fresh, ← keys_push st request index dimChains] at joined
  hashed := by
    intro string member
    rcases List.mem_append.mp member with old | new
    · exact consistent.hashed string old
    · obtain rfl := List.mem_singleton.mp new
      rfl
  chained := by
    have joined := consistent.chained.push request.key
    rwa [← keys_push st request index dimChains, length_keys] at joined
  room := room

/-- A created string is interned. -/
theorem Consistent.create_eq (consistent : st.Consistent) (request : Request)
    (small : request.dim ≠ BitVec.intMax 32) :
    ∃ next, create st request.s request.sortName request.hierName request.dim =
        some (next, some (next.keys.idxOf request.key)) ∧
      next.keys = intern st.keys request.key ∧ next.Consistent := by
  by_cases known : request.key ∈ st.keys
  · refine ⟨st, ?_, (if_pos known).symm, consistent⟩
    rw [Request.key] at known
    simp only [create, createBack, consistent.walk_eq, if_pos known, Request.key]
  · obtain ⟨index, grown, entered, room⟩ := enterDimension_eq consistent.room small st.heap.length
    refine ⟨st.push request index grown, ?_, ?_, consistent.push known index room⟩
    · have position : (st.push request index grown).keys.idxOf request.key = st.heap.length := by
        rw [keys_push, List.idxOf_append_of_notMem known, List.idxOf_cons_self, Nat.add_zero, length_keys]
      rw [position]
      rw [Request.key] at known
      simp only [create, createBack, consistent.walk_eq, if_neg known, entered]
      rfl
    · rw [keys_push, intern, if_neg known]

/-- A new string in the last dimension is put into a chain that was not allocated. -/
theorem Consistent.create_intMax (consistent : st.Consistent) {request : Request}
    (large : request.dim = BitVec.intMax 32) (fresh : request.key ∉ st.keys) :
    create st request.s request.sortName request.hierName request.dim = none := by
  rw [Request.key, large] at fresh
  simp only [create, createBack, consistent.walk_eq, large, if_neg fresh, enterDimension_intMax consistent.room]
  rfl

/-- The objects of a run are the places of their keys among all that were created. -/
theorem Consistent.run_eq (consistent : st.Consistent) {requests : List Request}
    (small : ∀ request ∈ requests, request.dim ≠ BitVec.intMax 32) :
    ∃ last, run st requests = some (last, requests.map fun request => some (last.keys.idxOf request.key)) ∧
      last.keys = internAll st.keys (requests.map Request.key) ∧ last.Consistent := by
  induction requests generalizing st with
  | nil => exact ⟨st, rfl, rfl, consistent⟩
  | cons request rest ih =>
      obtain ⟨next, created, joined, kept⟩ := consistent.create_eq request (small request List.mem_cons_self)
      obtain ⟨last, ran, all, held⟩ := ih kept fun other member => small other (List.mem_cons_of_mem _ member)
      have known : request.key ∈ next.keys := by
        rw [joined]
        exact mem_intern.mpr (Or.inr rfl)
      refine ⟨last, ?_, ?_, held⟩
      · have place : last.keys.idxOf request.key = next.keys.idxOf request.key := by
          rw [all, idxOf_internAll known]
        simp only [run, created, ran, Option.bind_eq_bind, Option.bind_some, List.map_cons, place]
      · rw [all, joined]
        rfl

/-- The first string of the last dimension ends the run. -/
theorem Consistent.run_intMax (consistent : st.Consistent) (small : ∀ key ∈ st.keys, key.2 ≠ BitVec.intMax 32)
    {requests : List Request} {request : Request} (asked : request ∈ requests)
    (large : request.dim = BitVec.intMax 32) : run st requests = none := by
  induction requests generalizing st with
  | nil => exact absurd asked List.not_mem_nil
  | cons first rest ih =>
      by_cases last : first.dim = BitVec.intMax 32
      · rw [run, consistent.create_intMax last fun known => small _ known last]
        rfl
      · obtain ⟨next, created, joined, kept⟩ := consistent.create_eq first last
        have later : request ∈ rest :=
          (List.mem_cons.mp asked).resolve_left fun same => last (same ▸ large)
        have stays : ∀ key ∈ next.keys, key.2 ≠ BitVec.intMax 32 := by
          intro key member
          rw [joined, mem_intern] at member
          rcases member with old | rfl
          · exact small key old
          · exact last
        simp only [run, created, ih kept stays later, Option.bind_eq_bind, Option.bind_some, Option.bind_none]

end Interned

/-- All calls return, two return one object exactly when their strings and dimensions are equal, and exactly the created
strings are found. -/
def Faithful (requests : List Request) : Prop :=
  ∃ st objects, run empty requests = some (st, objects) ∧ objects.length = requests.length ∧
    (∀ first ∈ requests.zip objects, ∀ second ∈ requests.zip objects,
      first.2 = second.2 ↔ first.1.key = second.1.key) ∧
    ∀ s dim, ∃ object, st.find s dim = some (st, object) ∧
      (object.isSome ↔ (s, dim) ∈ requests.map Request.key)

/-- Interning is faithful exactly when no string is created in the last dimension. -/
theorem faithful_iff (requests : List Request) :
    Faithful requests ↔ ∀ request ∈ requests, request.dim ≠ BitVec.intMax 32 := by
  constructor
  · rintro ⟨st, objects, ran, -⟩ request asked large
    rw [consistent_empty.run_intMax (fun _ member => absurd member List.not_mem_nil) asked large] at ran
    contradiction
  · intro small
    obtain ⟨last, ran, all, consistent⟩ := consistent_empty.run_eq small
    have created (key : CString × BitVec 32) : key ∈ last.keys ↔ key ∈ requests.map Request.key := by
      rw [all, mem_internAll]
      exact or_iff_right List.not_mem_nil
    have object (pair : Request × Option ℕ)
        (member : pair ∈ requests.zip (requests.map fun request => some (last.keys.idxOf request.key))) :
        pair.1.key ∈ last.keys ∧ pair.2 = some (last.keys.idxOf pair.1.key) := by
      rw [← List.map_prod_left_eq_zip, List.mem_map] at member
      obtain ⟨request, asked, rfl⟩ := member
      exact ⟨(created _).mpr (List.mem_map_of_mem asked), rfl⟩
    refine ⟨last, _, ran, List.length_map _, ?_, ?_⟩
    · intro first firstMember second secondMember
      obtain ⟨known, place⟩ := object first firstMember
      obtain ⟨-, other⟩ := object second secondMember
      rw [place, other, Option.some.injEq]
      exact List.idxOf_inj known
    · intro s dim
      refine ⟨_, consistent.find_eq s dim, ?_⟩
      rw [← created]
      by_cases known : (s, dim) ∈ last.keys
      · rw [if_pos known, Option.isSome_some]
        exact ⟨fun _ => known, fun _ => rfl⟩
      · rw [if_neg known, Option.isSome_none]
        exact ⟨fun found => absurd found Bool.false_ne_true, fun found => absurd found known⟩

/-- The dimension chains are not allocated for the last dimension, which wraps when one is added. -/
theorem not_faithful_intMax : ¬ Faithful [⟨⟨[], List.not_mem_nil⟩, none, none, BitVec.intMax 32⟩] := by
  rintro ⟨st, objects, ran, -⟩
  contradiction

end ImmutStrings

end JetStream
