import JetStream.Lib.BucketTable
import JetStream.Machine
import Mathlib.Algebra.Ring.Parity
import Mathlib.Tactic.Ring

namespace JetStream

/-- This loop fills the bucket starts after zero and fails on a signed overflow. -/
def l2Loop (limit : ℕ) : ℕ → ℕ → ℕ → Option (List ℕ)
  | 0, _, _ => some []
  | n + 1, base, exp =>
      let item := base * 2 ^ exp
      if item ≤ intMax then
        if limit / 2 < item then
          if base + 2 ≤ intMax then (l2Loop limit n (base + 2) 0).map (item :: ·) else none
        else (l2Loop limit n base (exp + 1)).map (item :: ·)
      else none

/-- The generator emits zero first and decrements its unsigned counter. -/
def makeL2Buckets (n limit : ℕ) : Option (List ℕ) :=
  (l2Loop limit (unsignedPred n) 1 0).map (0 :: ·)

/-- The constructor sorts exactly the requested number of starts. -/
def setBucketStarts (bucketTarget : ℕ) : Option (List ℕ) :=
  if 1 < bucketTarget then
    match makeL2Buckets (bucketTarget % 2 ^ 32) (2 ^ 28) with
    | some sequence =>
        if sequence.length = bucketTarget then some (sequence.insertionSort (· ≤ ·)) else none
    | none => none
  else none

/-- One generator step emits the item and either doubles it or moves to the next odd base. -/
theorem l2Loop_succ_iff (limit n base exp : ℕ) (sequence : List ℕ) :
    l2Loop limit (n + 1) base exp = some sequence ↔
      ∃ rest, sequence = base * 2 ^ exp :: rest ∧ base * 2 ^ exp ≤ intMax ∧
        (limit / 2 < base * 2 ^ exp ∧ base + 2 ≤ intMax ∧ l2Loop limit n (base + 2) 0 = some rest ∨
          base * 2 ^ exp ≤ limit / 2 ∧ l2Loop limit n base (exp + 1) = some rest) := by
  simp only [l2Loop]
  split
  · rename_i fits
    split
    · rename_i above
      split
      · rename_i room
        simp only [Option.map_eq_some_iff, fits, above, room, true_and, Nat.not_le.mpr above, false_and,
          or_false]
        exact exists_congr fun rest => ⟨fun both => ⟨both.2.symm, both.1⟩, fun both => ⟨both.2, both.1.symm⟩⟩
      · rename_i full
        simp [full, Nat.not_le.mpr above]
    · rename_i below
      simp only [Option.map_eq_some_iff, fits, below, Nat.le_of_not_lt below, true_and, false_and, false_or]
      exact exists_congr fun rest => ⟨fun both => ⟨both.2.symm, both.1⟩, fun both => ⟨both.2, both.1.symm⟩⟩
  · rename_i overflow
    simp [overflow]

theorem l2Loop_length {limit n base exp : ℕ} {sequence : List ℕ}
    (built : l2Loop limit n base exp = some sequence) : sequence.length = n := by
  induction n generalizing base exp sequence with
  | zero =>
      obtain rfl : [] = sequence := Option.some.inj built
      rfl
  | succ n ih =>
      obtain ⟨rest, rfl, -, ⟨-, -, next⟩ | ⟨-, next⟩⟩ := (l2Loop_succ_iff _ _ _ _ _).mp built
      · simp [ih next]
      · simp [ih next]

/-- A shorter run of the generator is a prefix of a longer one. -/
theorem l2Loop_take {limit base exp : ℕ} {sequence : List ℕ} (n extra : ℕ)
    (built : l2Loop limit (n + extra) base exp = some sequence) :
    l2Loop limit n base exp = some (sequence.take n) := by
  induction n generalizing base exp sequence with
  | zero => rfl
  | succ n ih =>
      rw [Nat.succ_add] at built
      obtain ⟨rest, rfl, fits, branch⟩ := (l2Loop_succ_iff _ _ _ _ _).mp built
      apply (l2Loop_succ_iff _ _ _ _ _).mpr
      refine ⟨rest.take n, rfl, fits, ?_⟩
      rcases branch with ⟨above, room, next⟩ | ⟨below, next⟩
      · exact Or.inl ⟨above, room, ih next⟩
      · exact Or.inr ⟨below, ih next⟩

/-- Each item is a power of two times an odd base that the generator has not left. -/
theorem l2Loop_form {limit n base exp : ℕ} {sequence : List ℕ} (odd : Odd base)
    (built : l2Loop limit n base exp = some sequence) (item : ℕ) (member : item ∈ sequence) :
    ∃ b e, item = b * 2 ^ e ∧ Odd b ∧ (base < b ∨ base = b ∧ exp ≤ e) := by
  induction n generalizing base exp sequence with
  | zero =>
      obtain rfl : [] = sequence := Option.some.inj built
      simp at member
  | succ n ih =>
      obtain ⟨rest, rfl, -, branch⟩ := (l2Loop_succ_iff _ _ _ _ _).mp built
      rcases List.mem_cons.mp member with rfl | later
      · exact ⟨base, exp, rfl, odd, Or.inr ⟨rfl, le_rfl⟩⟩
      · rcases branch with ⟨-, -, next⟩ | ⟨-, next⟩
        · obtain ⟨b, e, same, oddBase, order⟩ := ih (odd.add_even even_two) next later
          exact ⟨b, e, same, oddBase, Or.inl (by omega)⟩
        · obtain ⟨b, e, same, oddBase, order⟩ := ih odd next later
          exact ⟨b, e, same, oddBase, by omega⟩

/-- The odd part and the exponent of a product are unique. -/
theorem odd_mul_two_pow_inj {b c e f : ℕ} (oddFirst : Odd b) (oddSecond : Odd c)
    (same : b * 2 ^ e = c * 2 ^ f) : b = c ∧ e = f := by
  wlog order : e ≤ f generalizing b c e f
  · obtain ⟨bases, exponents⟩ := this oddSecond oddFirst same.symm (by omega)
    exact ⟨bases.symm, exponents.symm⟩
  obtain ⟨extra, rfl⟩ := Nat.exists_eq_add_of_le order
  have cancelled : b = c * 2 ^ extra := by
    apply Nat.eq_of_mul_eq_mul_right (Nat.two_pow_pos e)
    rw [same, pow_add]
    ring
  cases extra with
  | zero => exact ⟨by simpa using cancelled, by omega⟩
  | succ extra =>
      exfalso
      rw [cancelled, pow_succ] at oddFirst
      exact (Nat.not_odd_iff_even.mpr ⟨c * 2 ^ extra, by ring⟩) oddFirst

/-- The generator never repeats an item. -/
theorem l2Loop_nodup {limit n base exp : ℕ} {sequence : List ℕ} (odd : Odd base)
    (built : l2Loop limit n base exp = some sequence) : sequence.Nodup := by
  induction n generalizing base exp sequence with
  | zero =>
      obtain rfl : [] = sequence := Option.some.inj built
      exact List.nodup_nil
  | succ n ih =>
      obtain ⟨rest, rfl, -, branch⟩ := (l2Loop_succ_iff _ _ _ _ _).mp built
      have step : rest.Nodup ∧ base * 2 ^ exp ∉ rest := by
        rcases branch with ⟨-, -, next⟩ | ⟨-, next⟩
        · refine ⟨ih (odd.add_even even_two) next, fun member => ?_⟩
          obtain ⟨b, e, same, oddBase, order⟩ := l2Loop_form (odd.add_even even_two) next _ member
          have := odd_mul_two_pow_inj odd oddBase same
          omega
        · refine ⟨ih odd next, fun member => ?_⟩
          obtain ⟨b, e, same, oddBase, order⟩ := l2Loop_form odd next _ member
          have := odd_mul_two_pow_inj odd oddBase same
          omega
      exact List.nodup_cons.mpr ⟨step.2, step.1⟩

theorem l2Loop_le_intMax {limit n base exp : ℕ} {sequence : List ℕ}
    (built : l2Loop limit n base exp = some sequence) (item : ℕ) (member : item ∈ sequence) :
    item ≤ intMax := by
  induction n generalizing base exp sequence with
  | zero =>
      obtain rfl : [] = sequence := Option.some.inj built
      simp at member
  | succ n ih =>
      obtain ⟨rest, rfl, fits, branch⟩ := (l2Loop_succ_iff _ _ _ _ _).mp built
      rcases List.mem_cons.mp member with rfl | later
      · exact fits
      · rcases branch with ⟨-, -, next⟩ | ⟨-, next⟩
        · exact ih next later
        · exact ih next later

/-- Zero and the generated items are pairwise different. -/
theorem l2Loop_zero_nodup {limit n : ℕ} {rest : List ℕ} (built : l2Loop limit n 1 0 = some rest) :
    (0 :: rest).Nodup := by
  refine List.nodup_cons.mpr ⟨fun member => ?_, l2Loop_nodup odd_one built⟩
  obtain ⟨b, e, same, ⟨half, odd⟩, -⟩ := l2Loop_form odd_one built _ member
  have positive : 0 < b * 2 ^ e := Nat.mul_pos (by omega) (Nat.two_pow_pos e)
  omega

/-- The last `int` is odd, and no base reaches it. -/
theorem l2Loop_ne_intMax {n base exp : ℕ} {sequence : List ℕ}
    (built : l2Loop (2 ^ 28) n base exp = some sequence) : intMax ∉ sequence := by
  induction n generalizing base exp sequence with
  | zero =>
      obtain rfl : [] = sequence := Option.some.inj built
      exact List.not_mem_nil
  | succ n ih =>
      obtain ⟨rest, rfl, -, ⟨-, room, loop⟩ | ⟨small, loop⟩⟩ := (l2Loop_succ_iff _ _ _ _ _).mp built
      · rw [List.mem_cons, not_or]
        refine ⟨fun same => ?_, ih loop⟩
        cases exp with
        | zero => omega
        | succ exp =>
            rw [pow_succ, ← mul_assoc] at same
            unfold intMax at same
            omega
      · rw [List.mem_cons, not_or]
        refine ⟨fun same => ?_, ih loop⟩
        unfold intMax at same
        omega

/-- Distinct `int`s bound the number of starts. -/
theorem l2Loop_zero_length_le {limit n : ℕ} {rest : List ℕ} (built : l2Loop limit n 1 0 = some rest) :
    (0 :: rest).length ≤ 2 ^ 31 := by
  have inside : (0 :: rest) ⊆ List.range (intMax + 1) := by
    intro item member
    rw [List.mem_range, Nat.lt_succ_iff]
    rcases List.mem_cons.mp member with rfl | later
    · exact Nat.zero_le _
    · exact l2Loop_le_intMax built item later
  have bound := ((l2Loop_zero_nodup built).subperm inside).length_le
  rwa [List.length_range] at bound

/-- The generator meets no signed overflow while twice its remaining count fits above the base. -/
theorem l2Loop_isSome {limit : ℕ} (bounded : limit ≤ intMax) (n base exp : ℕ)
    (room : base + 2 * n ≤ intMax) (doubled : exp = 0 ∨ base * 2 ^ exp ≤ limit) :
    (l2Loop limit n base exp).isSome := by
  induction n generalizing base exp with
  | zero => rfl
  | succ n ih =>
      have fits : base * 2 ^ exp ≤ intMax := by
        rcases doubled with rfl | small
        · rw [pow_zero, mul_one]
          omega
        · exact small.trans bounded
      simp only [l2Loop, fits, if_true]
      split
      · rw [if_pos (by omega), Option.isSome_map]
        exact ih (base + 2) 0 (by omega) (Or.inl rfl)
      · rw [Option.isSome_map]
        apply ih base (exp + 1) (by omega)
        right
        rw [pow_succ, ← mul_assoc]
        omega

/-- The generator returns one start more than its loop. -/
theorem makeL2Buckets_eq_some {n limit : ℕ} {sequence : List ℕ}
    (made : makeL2Buckets n limit = some sequence) :
    ∃ rest, sequence = 0 :: rest ∧ l2Loop limit (unsignedPred n) 1 0 = some rest := by
  obtain ⟨rest, loop, same⟩ := Option.map_eq_some_iff.mp made
  exact ⟨rest, same.symm, loop⟩

/-- The starts are the sorted output of the generator. -/
theorem setBucketStarts_eq_some {n : ℕ} {starts : List ℕ} (built : setBucketStarts n = some starts) :
    1 < n ∧ n ≤ 2 ^ 31 ∧ ∃ rest, l2Loop (2 ^ 28) (n - 1) 1 0 = some rest ∧
      starts = (0 :: rest).insertionSort (· ≤ ·) := by
  unfold setBucketStarts at built
  split at built
  · rename_i large
    split at built
    · rename_i sequence made
      split at built
      · rename_i amount
        obtain ⟨rest, rfl, loop⟩ := makeL2Buckets_eq_some made
        have count := l2Loop_length loop
        have bound := l2Loop_zero_length_le loop
        rw [List.length_cons] at amount bound
        rw [show unsignedPred (n % 2 ^ 32) = n - 1 by omega] at loop
        exact ⟨large, by omega, rest, loop, (Option.some.inj built).symm⟩
      · contradiction
    · contradiction
  · contradiction

/-- The constructor succeeds when its generator does. -/
theorem setBucketStarts_isSome_of_loop {n : ℕ} {rest : List ℕ} (lower : 1 < n) (upper : n ≤ 2 ^ 31)
    (loop : l2Loop (2 ^ 28) (n - 1) 1 0 = some rest) : (setBucketStarts n).isSome := by
  have counter : unsignedPred (n % 2 ^ 32) = n - 1 := by
    rw [Nat.mod_eq_of_lt (by omega), unsignedPred, if_neg (by omega)]
  have count := l2Loop_length loop
  have made : makeL2Buckets (n % 2 ^ 32) (2 ^ 28) = some (0 :: rest) := by
    rw [makeL2Buckets, counter, loop]
    rfl
  have amount : (0 :: rest).length = n := by
    rw [List.length_cons, count]
    omega
  rw [setBucketStarts, if_pos lower, made]
  dsimp only
  rw [if_pos amount]
  rfl

/-- Every table of at most two to the thirty starts is built without overflow. -/
theorem setBucketStarts_isSome {n : ℕ} (lower : 1 < n) (upper : n ≤ 2 ^ 30) :
    (setBucketStarts n).isSome := by
  have total := l2Loop_isSome (show 2 ^ 28 ≤ intMax by decide) (n - 1) 1 0 (by unfold intMax; omega) (Or.inl rfl)
  obtain ⟨rest, loop⟩ := Option.isSome_iff_exists.mp total
  exact setBucketStarts_isSome_of_loop lower (by omega) loop

/-- A table of at least two and no more starts than another one is built whenever the other one is. -/
theorem setBucketStarts_isSome_of_le {n m : ℕ} {starts : List ℕ} (lower : 1 < n) (order : n ≤ m)
    (built : setBucketStarts m = some starts) : (setBucketStarts n).isSome := by
  obtain ⟨-, upper, rest, loop, -⟩ := setBucketStarts_eq_some built
  obtain ⟨extra, same⟩ := Nat.exists_eq_add_of_le (show n - 1 ≤ m - 1 by omega)
  rw [same] at loop
  exact setBucketStarts_isSome_of_loop lower (order.trans upper) (l2Loop_take (n - 1) extra loop)

/-- The sorted starts form a bucket table of the requested size. -/
theorem exists_startTable {n : ℕ} {starts : List ℕ} (built : setBucketStarts n = some starts) :
    ∃ table : BucketTable, table.starts = starts ∧ table.size = n ∧ 1 < n ∧ n ≤ 2 ^ 31 := by
  obtain ⟨large, small, rest, made, rfl⟩ := setBucketStarts_eq_some built
  have fresh := l2Loop_zero_nodup made
  have ordered := List.pairwise_insertionSort (· ≤ ·) (0 :: rest)
  have distinct := (List.perm_insertionSort (· ≤ ·) (0 :: rest)).nodup_iff.mpr fresh
  have sorted : ((0 :: rest).insertionSort (· ≤ ·)).SortedLT :=
    List.sortedLT_iff_pairwise.mpr
      (ordered.imp₂ (fun _ _ below different => lt_of_le_of_ne below different) distinct)
  have first : ((0 :: rest).insertionSort (· ≤ ·)).head? = some 0 := by
    rw [List.insertionSort_cons, List.head?_eq_some_iff]
    cases same : rest.insertionSort (· ≤ ·) with
    | nil => exact ⟨[], rfl⟩
    | cons next tail => exact ⟨next :: tail, by simp⟩
  refine ⟨⟨_, sorted, first⟩, rfl, ?_, large, small⟩
  simp only [BucketTable.size, List.length_insertionSort, List.length_cons, l2Loop_length made]
  omega

theorem setBucketStarts_length {n : ℕ} {starts : List ℕ} (built : setBucketStarts n = some starts) :
    starts.length = n := by
  obtain ⟨table, rfl, size, -, -⟩ := exists_startTable built
  exact size

/-- The starts are fewer than the `int`s. -/
theorem setBucketStarts_le_intMax {n : ℕ} {starts : List ℕ} (built : setBucketStarts n = some starts) :
    n ≤ intMax := by
  obtain ⟨large, -, rest, made, -⟩ := setBucketStarts_eq_some built
  have inside : (0 :: rest) ⊆ List.range intMax := by
    intro item member
    rw [List.mem_range]
    rcases List.mem_cons.mp member with rfl | later
    · decide
    · have bound := l2Loop_le_intMax made item later
      have other : item ≠ intMax := fun same => l2Loop_ne_intMax made (same ▸ later)
      omega
  have bound := ((l2Loop_zero_nodup made).subperm inside).length_le
  rw [List.length_range, List.length_cons, l2Loop_length made] at bound
  omega

/-- Coarser starts are starts of every finer table. -/
theorem setBucketStarts_subset {n m : ℕ} {coarse fine : List ℕ} (order : n ≤ m)
    (coarseBuilt : setBucketStarts n = some coarse) (fineBuilt : setBucketStarts m = some fine) :
    coarse ⊆ fine := by
  obtain ⟨lower, -, rest, made, rfl⟩ := setBucketStarts_eq_some coarseBuilt
  obtain ⟨-, -, longer, madeLonger, rfl⟩ := setBucketStarts_eq_some fineBuilt
  obtain ⟨extra, same⟩ := Nat.exists_eq_add_of_le (show n - 1 ≤ m - 1 by omega)
  rw [same] at madeLonger
  have shorter := l2Loop_take (n - 1) extra madeLonger
  rw [made] at shorter
  intro start member
  rw [List.mem_insertionSort] at member ⊢
  rcases List.mem_cons.mp member with rfl | later
  · exact List.mem_cons_self
  · rw [Option.some.inj shorter] at later
    exact List.mem_cons_of_mem _ (List.mem_of_mem_take later)

/-- Zero and one are the smallest starts. -/
theorem setBucketStarts_first_two {n : ℕ} {starts : List ℕ} (built : setBucketStarts n = some starts) :
    ∃ rest, starts = 0 :: 1 :: rest := by
  obtain ⟨table, rfl, -, large, -⟩ := exists_startTable built
  obtain ⟨-, -, sequence, loop, same⟩ := setBucketStarts_eq_some built
  have one : 1 ∈ table.starts := by
    obtain ⟨count, counted⟩ := Nat.exists_eq_add_of_le large
    rw [counted, show 1 + 1 + count - 1 = count + 1 by omega] at loop
    obtain ⟨later, rfl, -, -⟩ := (l2Loop_succ_iff _ _ _ _ _).mp loop
    rw [same, List.mem_insertionSort]
    simp
  obtain ⟨tail, split⟩ := List.head?_eq_some_iff.mp table.first
  have sorted := table.sorted.pairwise
  rw [split, List.pairwise_cons] at sorted
  rw [split, List.mem_cons] at one
  obtain ⟨second, rest, rfl⟩ := List.exists_cons_of_ne_nil (List.ne_nil_of_mem (one.resolve_left one_ne_zero))
  have positive := sorted.1 second List.mem_cons_self
  have least : second ≤ 1 := by
    rcases List.mem_cons.mp (one.resolve_left one_ne_zero) with same | later
    · exact same.ge
    · exact ((List.pairwise_cons.mp sorted.2).1 1 later).le
  exact ⟨rest, by rw [split, show second = 1 by omega]⟩

/-- The starts are made without a signed overflow, increase from zero and one, and stay starts of every finer table. -/
theorem setBucketStarts_wellFormed {n m : ℕ} (lower : 2 ≤ n) (order : n ≤ m) (upper : m ≤ 2 ^ 30) :
    ∃ coarse fine, setBucketStarts n = some coarse ∧ setBucketStarts m = some fine ∧
      coarse.length = n ∧ coarse.SortedLT ∧ (∃ rest, coarse = 0 :: 1 :: rest) ∧ coarse ⊆ fine := by
  obtain ⟨coarse, coarseBuilt⟩ := Option.isSome_iff_exists.mp (setBucketStarts_isSome lower (order.trans upper))
  obtain ⟨fine, fineBuilt⟩ := Option.isSome_iff_exists.mp (setBucketStarts_isSome (lower.trans order) upper)
  obtain ⟨table, rfl, size, -, -⟩ := exists_startTable coarseBuilt
  exact ⟨table.starts, fine, coarseBuilt, fineBuilt, size, table.sorted, setBucketStarts_first_two coarseBuilt,
    setBucketStarts_subset order coarseBuilt fineBuilt⟩

theorem setBucketStarts_wellFormed_largest :
    ∃ coarse fine, setBucketStarts 600 = some coarse ∧ setBucketStarts (2 ^ 30) = some fine ∧
      coarse.length = 600 ∧ coarse.SortedLT ∧ (∃ rest, coarse = 0 :: 1 :: rest) ∧ coarse ⊆ fine :=
  setBucketStarts_wellFormed (by omega) (by omega) le_rfl

example : setBucketStarts 6 = some [0, 1, 2, 4, 8, 16] := by decide

end JetStream
