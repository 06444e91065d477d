import JetStream.Dataplane.TPutThreshold

namespace JetStream

variable {K : Type} [LinearOrder K] {n : ℕ}

/-- The true total of a key sums what it has at every predecessor. -/
def trueTotal (value : Fin n → K → ℚ) (key : K) : ℚ := ∑ p, value p key

/-- These predecessors have responded for the candidate, and every other one has less than the threshold. -/
structure Accounts (value : Fin n → K → ℚ) (t1 : ℚ) (key : K) (item : CandidateItem K) (responded : Finset (Fin n)) :
    Prop where
  responses : item.responses = responded.card
  val : item.val = ∑ p ∈ responded, value p key
  missing : ∀ p ∉ responded, 0 ≤ value p key ∧ value p key < t1

/-- The second round is over, and its table accounts for every key that some predecessor holds. -/
structure RoundTwoTable (keys : Finset K) (value : Fin n → K → ℚ) (coordinator : MultiRoundCoordinator K) : Prop where
  answered : coordinator.responsesThisPhase = n
  word : coordinator.responsesThisPhase < 2 ^ 32
  listed : ∀ entry ∈ coordinator.candidates.entries, entry.1 ∈ keys ∧ entry.2.exampleKey = entry.1
  accounts : ∀ entry ∈ coordinator.candidates.entries, ∃ responded, Accounts value coordinator.t1 entry.1 entry.2 responded
  others : ∀ key ∈ keys, key ∉ coordinator.candidates.entries.map Prod.fst → ∀ p,
    0 ≤ value p key ∧ value p key < coordinator.t1

/-- These keys are in the messages that start the third round. -/
def MultiRoundCoordinator.roundThreeQuery (config : CoordinatorConfig) (predecessors : ℕ)
    (coordinator : MultiRoundCoordinator K) : List K :=
  (coordinator.startPhase3 config predecessors).2.flatMap DataplaneMessage.tputR3Query

/-- Every candidate in a top set is asked for. -/
def KeepsWinners (config : CoordinatorConfig) (keys : Finset K) (value : Fin n → K → ℚ)
    (coordinator : MultiRoundCoordinator K) : Prop :=
  ∀ top, IsTopK (trueTotal value) keys config.numResults top → ∀ key ∈ top,
    key ∈ coordinator.candidates.entries.map Prod.fst → key ∈ coordinator.roundThreeQuery config n

section Bounds

variable {value : Fin n → K → ℚ} {t1 : ℚ} {key : K} {item : CandidateItem K} {responded : Finset (Fin n)}

omit [LinearOrder K] in
theorem trueTotal_split (responded : Finset (Fin n)) :
    trueTotal value key = ∑ p ∈ responded, value p key + ∑ p ∈ respondedᶜ, value p key :=
  (Finset.sum_add_sum_compl responded _).symm

omit [LinearOrder K] in
/-- The partial sum is at most the total. -/
theorem Accounts.val_le (accounts : Accounts value t1 key item responded) : item.val ≤ trueTotal value key := by
  rw [accounts.val, trueTotal_split responded]
  apply le_add_of_nonneg_right
  apply Finset.sum_nonneg
  intro p silent
  exact (accounts.missing p (Finset.mem_compl.mp silent)).1

omit [LinearOrder K] in
/-- The total is at most the partial sum with the threshold for every missing response. -/
theorem Accounts.le_upper (accounts : Accounts value t1 key item responded) :
    trueTotal value key ≤ (n - item.responses) * t1 + item.val := by
  have missing : ∑ p ∈ respondedᶜ, value p key ≤ (respondedᶜ.card : ℚ) * t1 := by
    rw [← nsmul_eq_mul]
    apply Finset.sum_le_card_nsmul
    intro p silent
    exact (accounts.missing p (Finset.mem_compl.mp silent)).2.le
  have count : (respondedᶜ.card : ℚ) = n - item.responses := by
    rw [Finset.card_compl, Fintype.card_fin, accounts.responses, Nat.cast_sub (card_finset_fin_le responded)]
  rw [trueTotal_split responded, ← accounts.val, ← count, add_comm]
  exact add_le_add missing le_rfl

end Bounds

section Table

variable {config : CoordinatorConfig} {keys : Finset K} {value : Fin n → K → ℚ} {coordinator : MultiRoundCoordinator K}

theorem RoundTwoTable.upperBound_eq (table : RoundTwoTable keys value coordinator) {entry : K × CandidateItem K}
    (listed : entry ∈ coordinator.candidates.entries) :
    coordinator.upperBound n entry.2 = (n - entry.2.responses) * coordinator.t1 + entry.2.val := by
  obtain ⟨responded, accounts⟩ := table.accounts entry listed
  apply JetStream.upperBound_eq
  · exact table.answered ▸ table.word
  · rw [accounts.responses]
    exact card_finset_fin_le responded

theorem RoundTwoTable.total_le_upperBound (table : RoundTwoTable keys value coordinator) {entry : K × CandidateItem K}
    (listed : entry ∈ coordinator.candidates.entries) :
    trueTotal value entry.1 ≤ coordinator.upperBound n entry.2 := by
  obtain ⟨responded, accounts⟩ := table.accounts entry listed
  rw [table.upperBound_eq listed]
  exact accounts.le_upper

/-- A candidate is asked for exactly when its upper bound reaches the threshold. -/
theorem RoundTwoTable.mem_query (table : RoundTwoTable keys value coordinator) {entry : K × CandidateItem K}
    (listed : entry ∈ coordinator.candidates.entries) :
    entry.1 ∈ coordinator.roundThreeQuery config n ↔
      coordinator.calculateTau config ≤ coordinator.upperBound n entry.2 := by
  have query : coordinator.roundThreeQuery config n = coordinator.queried config n := List.flatMap_singleton _ _
  rw [query, MultiRoundCoordinator.queried, List.mem_map]
  constructor
  · rintro ⟨other, member, same⟩
    obtain ⟨isEntry, reaches⟩ := List.mem_filter.mp member
    rw [(table.listed other isEntry).2] at same
    have key : other = entry := List.inj_on_of_nodup_map (nodup_keys _) isEntry listed same
    rw [← key]
    exact of_decide_eq_true reaches
  · intro reaches
    exact ⟨entry, List.mem_filter.mpr ⟨listed, decide_eq_true reaches⟩, (table.listed entry listed).2⟩

/-- With enough candidates the threshold is below every total of a top set. -/
theorem RoundTwoTable.keepsWinners_of_many (table : RoundTwoTable keys value coordinator)
    (positive : 0 < config.numResults) (column : config.sortColumn.head? = some '-')
    (many : config.numResults ≤ coordinator.candidates.entries.length) : KeepsWinners config keys value coordinator := by
  intro top chosen key member isCandidate
  obtain ⟨entry, listed, rfl⟩ := List.mem_map.mp isCandidate
  rw [table.mem_query listed]
  by_contra cut
  have greater := chosen.card_greater_lt member
  have reach := (calculateTau_spec positive column many).2
  have distinct : ((coordinator.candidates.entries.filter fun entry =>
      coordinator.calculateTau config ≤ entry.2.val).map Prod.fst).Nodup :=
    (nodup_keys _).sublist (List.filter_sublist.map _)
  rw [← List.length_map Prod.fst, ← List.toFinset_card_of_nodup distinct] at reach
  apply absurd (reach.trans (Finset.card_le_card _)) (not_le.mpr greater)
  intro other inside
  obtain ⟨above, kept, rfl⟩ := List.mem_map.mp (List.mem_toFinset.mp inside)
  obtain ⟨isEntry, high⟩ := List.mem_filter.mp kept
  obtain ⟨responded, accounts⟩ := table.accounts above isEntry
  rw [Finset.mem_filter]
  refine ⟨(table.listed above isEntry).1, ?_⟩
  calc trueTotal value entry.1
      ≤ coordinator.upperBound n entry.2 := table.total_le_upperBound listed
    _ < coordinator.calculateTau config := not_le.mp cut
    _ ≤ above.2.val := of_decide_eq_true high
    _ ≤ trueTotal value above.1 := accounts.val_le

/-- With too few candidates the threshold is reached by what reaches every partial sum. -/
theorem calculateTau_le_iff (few : coordinator.candidates.entries.length < config.numResults)
    (nonempty : coordinator.candidates.entries ≠ []) (bound : ℚ) :
    coordinator.calculateTau config ≤ bound ↔ ∀ entry ∈ coordinator.candidates.entries, entry.2.val ≤ bound := by
  have perm : coordinator.vals.Perm (coordinator.candidates.entries.map fun entry => entry.2.val) :=
    List.perm_insertionSort _ _
  have length : coordinator.vals.length = coordinator.candidates.entries.length := by
    rw [perm.length_eq, List.length_map]
  have filled : coordinator.vals ≠ [] := by
    rw [← List.length_pos_iff, length, List.length_pos_iff]
    exact nonempty
  have tau : coordinator.calculateTau config = coordinator.vals.getLast filled := by
    rw [MultiRoundCoordinator.calculateTau, if_pos (length ▸ few), List.getLast_eq_getElem, List.getD_eq_getElem?_getD,
      List.getElem?_eq_getElem]
    rfl
  have sorted : coordinator.vals.Pairwise (· ≤ ·) := List.pairwise_insertionSort _ _
  rw [tau]
  constructor
  · intro reaches entry listed
    have member : entry.2.val ∈ coordinator.vals := perm.mem_iff.mpr (List.mem_map_of_mem listed)
    exact (sorted.rel_getLast member).trans reaches
  · intro every
    obtain ⟨entry, listed, same⟩ := List.mem_map.mp (perm.mem_iff.mp (List.getLast_mem filled))
    rw [← same]
    exact every entry listed

/-- With too few candidates a winner is asked for exactly when its upper bound reaches every partial sum. -/
theorem RoundTwoTable.keepsWinners_iff_of_few (table : RoundTwoTable keys value coordinator)
    (few : coordinator.candidates.entries.length < config.numResults) :
    KeepsWinners config keys value coordinator ↔ ∀ entry ∈ coordinator.candidates.entries,
      (keys.filter fun other => trueTotal value entry.1 < trueTotal value other).card < config.numResults →
        ∀ other ∈ coordinator.candidates.entries,
          other.2.val ≤ (n - entry.2.responses) * coordinator.t1 + entry.2.val := by
  have asked (entry : K × CandidateItem K) (listed : entry ∈ coordinator.candidates.entries) :
      entry.1 ∈ coordinator.roundThreeQuery config n ↔ ∀ other ∈ coordinator.candidates.entries,
        other.2.val ≤ (n - entry.2.responses) * coordinator.t1 + entry.2.val := by
    rw [table.mem_query listed, calculateTau_le_iff few (List.ne_nil_of_mem listed), table.upperBound_eq listed]
  constructor
  · intro keeps entry listed winner
    obtain ⟨top, chosen, member⟩ := exists_topK_mem (table.listed entry listed).1 winner
    exact (asked entry listed).mp (keeps top chosen entry.1 member (List.mem_map_of_mem listed))
  · intro reaches top chosen key member isCandidate
    obtain ⟨entry, listed, rfl⟩ := List.mem_map.mp isCandidate
    exact (asked entry listed).mpr (reaches entry listed (chosen.card_greater_lt member))

end Table

/-- Every winner among the candidates is asked for exactly when there are enough candidates, or the upper bound of each
winner reaches the greatest partial sum. -/
theorem startPhase3_keepsWinners_iff {config : CoordinatorConfig} {keys : Finset K} {value : Fin n → K → ℚ}
    {coordinator : MultiRoundCoordinator K} (table : RoundTwoTable keys value coordinator)
    (positive : 1 ≤ config.numResults) (column : config.sortColumn.head? = some '-') :
    KeepsWinners config keys value coordinator ↔
      config.numResults ≤ coordinator.candidates.entries.length ∨ ∀ entry ∈ coordinator.candidates.entries,
        (keys.filter fun other => trueTotal value entry.1 < trueTotal value other).card < config.numResults →
          ∀ other ∈ coordinator.candidates.entries,
            other.2.val ≤ (n - entry.2.responses) * coordinator.t1 + entry.2.val := by
  by_cases many : config.numResults ≤ coordinator.candidates.entries.length
  · exact iff_of_true (table.keepsWinners_of_many positive column many) (.inl many)
  · rw [table.keepsWinners_iff_of_few (not_le.mp many), or_iff_right many]

/-- One predecessor holds ten of the first key and one of the second, and both are candidates. -/
def twoCandidates : MultiRoundCoordinator ℕ where
  phase := .round2
  candidates := (OrderedMap.empty.set 0 ⟨10, 1, 0⟩).set 1 ⟨1, 1, 1⟩
  responsesThisPhase := 1
  t1 := 10

def twoValues (_ : Fin 1) (key : ℕ) : ℚ := if key = 0 then 10 else 1

theorem twoCandidates_entries : twoCandidates.candidates.entries = [(0, ⟨10, 1, 0⟩), (1, ⟨1, 1, 1⟩)] := rfl

theorem twoCandidates_table : RoundTwoTable {0, 1} twoValues twoCandidates where
  answered := rfl
  word := by decide
  listed := by simp [twoCandidates_entries]
  accounts := by
    intro entry listed
    refine ⟨Finset.univ, ?_, ?_, fun p silent => absurd (Finset.mem_univ p) silent⟩
    · revert entry
      simp [twoCandidates_entries]
    · revert entry
      simp [twoCandidates_entries, twoValues]
  others := by
    intro key listed absent
    simp [twoCandidates_entries] at listed absent
    omega

/-- Of three wanted keys only two exist, and the smaller one is dropped. -/
theorem startPhase3_drops_winner :
    RoundTwoTable {0, 1} twoValues twoCandidates ∧ ¬ KeepsWinners ⟨3, ['-', 'c']⟩ {0, 1} twoValues twoCandidates := by
  refine ⟨twoCandidates_table, fun keeps => ?_⟩
  have all : IsTopK (trueTotal twoValues) {0, 1} 3 {0, 1} := ⟨Finset.Subset.refl _, rfl, by simp⟩
  have asked := keeps {0, 1} all 1 (by simp) (by simp [twoCandidates_entries])
  revert asked
  decide +kernel

/-- Both of two wanted keys are asked for. -/
theorem startPhase3_keepsWinners_two :
    RoundTwoTable {0, 1} twoValues twoCandidates ∧ KeepsWinners ⟨2, ['-', 'c']⟩ {0, 1} twoValues twoCandidates := by
  refine ⟨twoCandidates_table, ?_⟩
  exact (startPhase3_keepsWinners_iff twoCandidates_table (by decide) rfl).mpr (.inl (by decide))

end JetStream
