import JetStream.Cube.ImmutStr
import JetStream.Lib.Comparison
import Mathlib.Order.WithBot

namespace JetStream

open Comparison

def slash : BitVec 8 := 47#8

/-- The path of the root is a single dot. -/
def CString.dot : CString := ⟨[46#8], by decide⟩

/-- The loop stops at the first place where the bytes differ or one of the strings ends. -/
def hierLoop : List (BitVec 8) → List (BitVec 8) → ℤ
  | [], [] => 0
  | [], _ :: _ => -1
  | _ :: _, [] => 1
  | a :: pa, b :: pb =>
      if a = b then hierLoop pa pb
      else if a = slash then -1
      else if b = slash then 1
      else if a < b then -1
      else 1

def hierStrCmp (a b : CString) : ℤ :=
  if a = .dot then
    if b = .dot then 0 else -1
  else if b = .dot then 1
  else hierLoop a.bytes b.bytes

/-- A string without a hierarchical name is sorted by its bytes. -/
def ImmutString.hierPath (string : ImmutString) : CString := string.hierName.getD string.str

def immutStringCompareHier (a b : ImmutString) : ℤ := hierStrCmp a.hierPath b.hierPath

section Key

/-- The separator is the smallest byte. -/
def hierRank (c : BitVec 8) : ℕ := if c = slash then 0 else c.toNat + 1

theorem hierRank_injective : Function.Injective hierRank := by
  intro a b same
  unfold hierRank at same
  split_ifs at same with first second second
  · exact first.trans second.symm
  · exact BitVec.eq_of_toNat_eq (Nat.succ.inj same)

theorem hierRank_lt_iff {a b : BitVec 8} (different : a ≠ b) :
    hierRank a < hierRank b ↔ a = slash ∨ (b ≠ slash ∧ a < b) := by
  unfold hierRank
  rw [BitVec.lt_def]
  split_ifs with first second second
  · exact absurd (first.trans second.symm) different
  · simp [first]
  · simp [first, second]
  · simp [first, second]

/-- The root is below all other paths, which are in the lexicographic order of their ranks. -/
def hierKey (s : CString) : WithBot (List ℕ) := if s = .dot then ⊥ else (s.bytes.map hierRank : List ℕ)

theorem CString.ext_bytes {a b : CString} (same : a.bytes = b.bytes) : a = b := by
  cases a
  cases b
  congr

theorem hierKey_injective : Function.Injective hierKey := by
  intro a b same
  unfold hierKey at same
  split_ifs at same with first second second
  · exact first.trans second.symm
  · exact absurd same WithBot.bot_ne_coe
  · exact absurd same WithBot.coe_ne_bot
  · exact CString.ext_bytes (List.map_injective_iff.mpr hierRank_injective (WithBot.coe_injective same))

theorem map_hierRank_lt_iff {a b : BitVec 8} (different : a ≠ b) (pa pb : List (BitVec 8)) :
    (a :: pa).map hierRank < (b :: pb).map hierRank ↔ a = slash ∨ (b ≠ slash ∧ a < b) := by
  rw [List.map_cons, List.map_cons, List.cons_lt_cons_iff, hierRank_lt_iff different]
  exact or_iff_left fun same => different (hierRank_injective same.1)

/-- The loop compares the ranks lexicographically. -/
theorem hierLoop_follows : Follows hierLoop (List.map hierRank) where
  neg_iff := by
    intro pa pb
    fun_induction hierLoop pa pb with
    | case1 => simp
    | case2 b pb => simp
    | case3 a pa => simp
    | case4 a pa pb ih =>
        rw [List.map_cons, List.map_cons, List.cons_lt_cons_iff]
        simpa using ih
    | case5 pa b pb different =>
        rw [map_hierRank_lt_iff different]
        simp
    | case6 a pa pb different first =>
        rw [map_hierRank_lt_iff different]
        simp [first]
    | case7 a pa b pb different first second below =>
        rw [map_hierRank_lt_iff different]
        simp [second, below]
    | case8 a pa b pb different first second above =>
        rw [map_hierRank_lt_iff different]
        simp [first, above]
  zero_iff := by
    intro pa pb
    rw [List.map_inj_right hierRank_injective]
    fun_induction hierLoop pa pb with
    | case4 a pa pb ih => simpa using ih
    | _ => simp [*]

/-- The comparison puts the root first. -/
theorem hierStrCmp_follows : Follows hierStrCmp hierKey where
  neg_iff := by
    intro a b
    unfold hierStrCmp hierKey
    split_ifs with first second second
    · simp
    · simp [WithBot.bot_lt_coe]
    · simp
    · rw [WithBot.coe_lt_coe]
      exact hierLoop_follows.neg_iff _ _
  zero_iff := by
    intro a b
    unfold hierStrCmp hierKey
    split_ifs with first second second
    · simp
    · simp
    · simp
    · rw [WithBot.coe_inj]
      exact hierLoop_follows.zero_iff _ _

end Key

section Hierarchy

/-- The string starts with the path and a separator. -/
def CString.IsBelow (s path : CString) : Prop := Under slash path.bytes s.bytes

/-- Neither the empty string nor the root is the start of other paths. -/
structure CString.IsPath (path : CString) : Prop where
  nonempty : path.bytes ≠ []
  notRoot : path ≠ .dot

/-- The comparison is a total order that begins with the root, and everything below a path follows it in one block, in
front of all that extends the path in other ways. -/
structure Hierarchical (compare : CString → CString → ℤ) : Prop extends TotalOrder compare where
  least : ∀ s, compare .dot s ≤ 0
  after : ∀ path s, path.IsPath → s.IsBelow path → compare path s < 0
  immediate : ∀ path s last, path.IsPath → last.IsBelow path → compare path s < 0 → compare s last ≤ 0 → s.IsBelow path
  contiguous : ∀ path first s last, path.IsPath → first.IsBelow path → last.IsBelow path → compare first s ≤ 0 →
    compare s last ≤ 0 → s.IsBelow path
  before : ∀ path s other, path.IsPath → s.IsBelow path → path.bytes <+: other.bytes → other ≠ path →
    ¬ other.IsBelow path → compare s other < 0

variable {path s other : CString}

theorem hierKey_dot : hierKey .dot = ⊥ := if_pos rfl

theorem hierKey_of_ne (different : s ≠ .dot) : hierKey s = (s.bytes.map hierRank : List ℕ) := if_neg different

/-- No path is a part of the root. -/
theorem CString.IsPath.ne_dot (isPath : path.IsPath) (extends_ : path.bytes <+: s.bytes) : s ≠ .dot := by
  rintro rfl
  rcases List.prefix_cons_iff.mp extends_ with empty | ⟨rest, same, within⟩
  · exact isPath.nonempty empty
  · rw [List.prefix_nil.mp within] at same
    exact isPath.notRoot (CString.ext_bytes same)

theorem CString.IsPath.hierKey_eq (isPath : path.IsPath) (extends_ : path.bytes <+: s.bytes) :
    hierKey s = (s.bytes.map hierRank : List ℕ) := hierKey_of_ne (isPath.ne_dot extends_)

theorem CString.IsBelow.extends (below : s.IsBelow path) : path.bytes <+: s.bytes :=
  (List.prefix_append _ _).trans below

/-- The ranks of the paths keep the separator apart. -/
theorem CString.isBelow_iff : s.IsBelow path ↔ Under 0 (path.bytes.map hierRank) (s.bytes.map hierRank) := by
  have mapped : (path.bytes ++ [slash]).map hierRank <+: s.bytes.map hierRank ↔ path.bytes ++ [slash] <+: s.bytes :=
    List.prefix_map_iff_of_injective hierRank_injective
  rw [List.map_append] at mapped
  exact mapped.symm

theorem hierKey_lt_of_isBelow (isPath : path.IsPath) (below : s.IsBelow path) : hierKey path < hierKey s := by
  rw [isPath.hierKey_eq List.prefix_rfl, isPath.hierKey_eq below.extends, WithBot.coe_lt_coe]
  exact lt_of_under (CString.isBelow_iff.mp below)

/-- Everything up to the last string below a path is below it. -/
theorem isBelow_of_hierKey_lt {last : CString} (isPath : path.IsPath) (below : last.IsBelow path)
    (above : hierKey path < hierKey s) (upTo : hierKey s ≤ hierKey last) : s.IsBelow path := by
  have different : s ≠ .dot := by
    rintro rfl
    rw [hierKey_dot] at above
    exact not_lt_bot above
  rw [isPath.hierKey_eq List.prefix_rfl, hierKey_of_ne different, WithBot.coe_lt_coe] at above
  rw [hierKey_of_ne different, isPath.hierKey_eq below.extends, WithBot.coe_le_coe] at upTo
  exact CString.isBelow_iff.mpr (under_of_lt_of_le Nat.zero_le above upTo (CString.isBelow_iff.mp below))

theorem hierKey_lt_of_not_isBelow (isPath : path.IsPath) (below : s.IsBelow path)
    (extends_ : path.bytes <+: other.bytes) (different : other ≠ path) (outside : ¬ other.IsBelow path) :
    hierKey s < hierKey other := by
  rw [isPath.hierKey_eq below.extends, isPath.hierKey_eq extends_, WithBot.coe_lt_coe]
  apply lt_of_not_under Nat.zero_le (CString.isBelow_iff.mp below) (extends_.map hierRank)
  · intro same
    exact different (CString.ext_bytes (List.map_injective_iff.mpr hierRank_injective same))
  · rwa [← CString.isBelow_iff]

theorem hierStrCmp_hierarchical : Hierarchical hierStrCmp where
  toTotalOrder := hierStrCmp_follows.totalOrder hierKey_injective
  least := by
    intro s
    rw [hierStrCmp_follows.nonpos_iff, hierKey_dot]
    exact bot_le
  after := by
    intro path s isPath below
    rw [hierStrCmp_follows.neg_iff]
    exact hierKey_lt_of_isBelow isPath below
  immediate := by
    intro path s last isPath below
    rw [hierStrCmp_follows.neg_iff, hierStrCmp_follows.nonpos_iff]
    exact isBelow_of_hierKey_lt isPath below
  contiguous := by
    intro path first s last isPath belowFirst belowLast
    rw [hierStrCmp_follows.nonpos_iff, hierStrCmp_follows.nonpos_iff]
    intro above
    exact isBelow_of_hierKey_lt isPath belowLast ((hierKey_lt_of_isBelow isPath belowFirst).trans_le above)
  before := by
    intro path s other isPath below extends_ different outside
    rw [hierStrCmp_follows.neg_iff]
    exact hierKey_lt_of_not_isBelow isPath below extends_ different outside

/-- The objects are sorted by their paths, and two objects tie only when these are equal. -/
theorem immutStringCompareHier_consistent :
    Consistent immutStringCompareHier ∧ ∀ a b, immutStringCompareHier a b = 0 ↔ a.hierPath = b.hierPath := by
  have follows := hierStrCmp_follows.comap ImmutString.hierPath
  exact ⟨follows.consistent, fun a b => (follows.zero_iff a b).trans hierKey_injective.eq_iff⟩

end Hierarchy

end JetStream
