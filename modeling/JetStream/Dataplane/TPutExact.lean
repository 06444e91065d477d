import JetStream.Dataplane.TPutThreshold

namespace JetStream

variable {K : Type} [LinearOrder K] {n : ℕ}

def startMessage (config : CoordinatorConfig) : DataplaneMessage K :=
  { type := .tputStart, tputK := config.numResults, tputSortKey := config.sortColumn }

def roundTwoMessage (threshold : ℚ) : DataplaneMessage K := { type := .tputRound2, tputR2Threshold := threshold }

def roundThreeMessage (query : List K) : DataplaneMessage K := { type := .tputRound3, tputR3Query := query }

/-- A predecessor that handles the second round is sharp at its threshold. -/
def Favourable (config : CoordinatorConfig) (sources : Fin n → SourceCube K) (state : TPut K n) : TPutEvent n → Prop
  | .handle p => ∀ msg ∈ (state.downstream p).head?.toList, msg.type = .tputRound2 →
      (sources p).Sharp config.numResults msg.tputR2Threshold
  | .start | .part _ _ | .whole _ => True

instance (cube : SourceCube K) (k : ℕ) (threshold : ℚ) : Decidable (cube.Sharp k threshold) :=
  inferInstanceAs (Decidable (_ ∧ _))

instance (config : CoordinatorConfig) (sources : Fin n → SourceCube K) (state : TPut K n) (event : TPutEvent n) :
    Decidable (Favourable config sources state event) :=
  match event with
  | .handle _ => inferInstanceAs (Decidable (∀ _ ∈ _, _ → _))
  | .start | .part _ _ | .whole _ => inferInstanceAs (Decidable True)

section Answers

variable {config : CoordinatorConfig} {cube : SourceCube K}

theorem answer_start (positive : 0 < config.numResults) :
    metaFromDownstream cube (startMessage config) = ⟨cube.rows.take config.numResults, 1⟩ := by
  rw [metaFromDownstream, startMessage, SourceCube.sliceAndRollup, if_pos positive]

/-- Without a sort key the rows are compared the other way, and a sharp predecessor stops at its first row. -/
theorem answer_roundTwo {threshold : ℚ} (sharp : cube.Sharp config.numResults threshold) :
    metaFromDownstream cube (roundTwoMessage threshold) = ⟨[], 2⟩ := by
  change Reply.mk (cube.rows.takeWhile fun row => (row.2 : ℚ) ≤ threshold) 2 = _
  cases rows : cube.rows with
  | nil => rfl
  | cons row rest =>
      have above : threshold < row.2 := sharp.1 row (by simp [rows])
      rw [List.takeWhile_cons_of_neg (by simpa using above)]

theorem filterMap_cons_toList {A B : Type} (search : A → Option B) (item : A) (items : List A) :
    (item :: items).filterMap search = (search item).toList ++ items.filterMap search := by
  rw [List.filterMap_cons]
  cases search item with
  | none => rfl
  | some found => rfl

/-- The search for a key finds what is reported for it. -/
theorem reports_find {rows : List (K × ℕ)} (distinct : (rows.map Prod.fst).Nodup) (key : K) :
    reports key (rows.find? fun row => row.1 = key).toList = reports key rows := by
  induction rows with
  | nil => rfl
  | cons row rows ih =>
      rw [List.map_cons, List.nodup_cons] at distinct
      by_cases same : row.1 = key
      · have none : reports key rows = 0 := by
          rw [reports_eq_zero, ← same]
          exact distinct.1
        rw [List.find?_cons_of_pos (by simpa using same), reports_cons, none, Option.toList_some, reports_cons,
          reports_nil]
      · rw [List.find?_cons_of_neg (by simpa using same), reports_cons, if_neg same, zero_add, ih distinct.2]

theorem reports_find_of_ne {rows : List (K × ℕ)} {key other : K} (different : other ≠ key) :
    reports key (rows.find? fun row => row.1 = other).toList = 0 := by
  rw [reports_eq_zero]
  cases found : rows.find? fun row => row.1 = other with
  | none => exact List.not_mem_nil
  | some row =>
      have same : row.1 = other := by simpa using List.find?_some found
      simpa [same] using different.symm

/-- Each queried key is answered with its row. -/
theorem reports_roundThree {query : List K} (distinct : query.Nodup) {key : K} (member : key ∈ query) :
    reports key (metaFromDownstream cube (roundThreeMessage query)).tuples = reports key cube.rows := by
  have absent : ∀ rest : List K, key ∉ rest →
      reports key (rest.filterMap fun other => cube.rows.find? fun row => row.1 = other) = 0 := by
    intro rest missing
    induction rest with
    | nil => rfl
    | cons other rest ih =>
        rw [List.mem_cons, not_or] at missing
        rw [filterMap_cons_toList, reports_append, reports_find_of_ne (Ne.symm missing.1), ih missing.2, zero_add]
  change reports key (query.filterMap fun other => cube.rows.find? fun row => row.1 = other) = _
  induction query with
  | nil => exact absurd member List.not_mem_nil
  | cons other rest ih =>
      obtain ⟨fresh, distinct⟩ := List.nodup_cons.mp distinct
      rw [filterMap_cons_toList, reports_append]
      rcases List.mem_cons.mp member with rfl | later
      · rw [absent rest fresh, add_zero, reports_find cube.distinct]
      · have different : other ≠ key := by
          rintro rfl
          exact fresh later
        rw [reports_find_of_ne different, zero_add, ih distinct later]

end Answers

/-- Each phase has its own account of what has been collected and what is on its way. -/
inductive TPut.Inv (config : CoordinatorConfig) (sources : Fin n → SourceCube K) (state : TPut K n) : Prop
  | waiting (phase : state.coordinator.phase = .notStarted) (quiet : Quiet state.downstream state.upstream)
      (empty : ∀ key, state.destCube.get? key = none)
  | first (phase : state.coordinator.phase = .round1)
      (gathering : Round (startMessage config) 1 state.coordinator.responsesThisPhase state.downstream state.upstream)
      (got : K → Multiset ℕ) (tracks : ∀ key, state.coordinator.candidates.get? key = candidateOf key (got key))
      (gathers : Gathers sources (startMessage config) got state.downstream state.upstream)
      (empty : ∀ key, state.destCube.get? key = none)
  | second (phase : state.coordinator.phase = .round2)
      (gathering : Round (roundTwoMessage state.coordinator.t1) 2 state.coordinator.responsesThisPhase state.downstream
        state.upstream)
      (fits : n < 2 ^ 32) (enough : config.numResults ≤ (keys sources).card)
      (collected : Collected config sources state.coordinator)
      (threshold : state.coordinator.t1 = state.coordinator.calculateTau config / n)
      (sharp : ∀ p, state.downstream p = [] → (sources p).Sharp config.numResults state.coordinator.t1)
      (nothing : ∀ p, ∀ reply ∈ state.upstream p, reply.tuples = [])
      (empty : ∀ key, state.destCube.get? key = none)
  | third (phase : state.coordinator.phase = .round3) (query : List K)
      (sufficient : Sufficient sources config.numResults query)
      (gathering : Round (roundThreeMessage query) 3 state.coordinator.responsesThisPhase state.downstream state.upstream)
      (got : K → Multiset ℕ) (tracks : ∀ key, state.destCube.get? key = cellOf (got key))
      (gathers : Gathers sources (roundThreeMessage query) got state.downstream state.upstream)
  | finished (phase : state.coordinator.phase = .done) (quiet : Quiet state.downstream state.upstream)
      (exactTopK : ExactTopK config sources state.destCube)

section Process

variable {config : CoordinatorConfig} {coordinator : MultiRoundCoordinator K}

theorem receive_collecting (tuples : List (K × ℕ)) (collecting : coordinator.phase = .round1 ∨ coordinator.phase = .round2) :
    coordinator.receive tuples =
      ({ coordinator with candidates := tuples.foldl addCandidate coordinator.candidates }, []) := if_pos collecting

theorem receive_passing (tuples : List (K × ℕ)) (passing : coordinator.phase = .round3) :
    coordinator.receive tuples = (coordinator, tuples) := by
  rw [MultiRoundCoordinator.receive, if_neg]
  simp [passing]

theorem broadcast_nil (state : TPut K n) : state.broadcast [] = state := by
  simp [TPut.broadcast]

variable {downstream : Fin n → List (DataplaneMessage K)} {upstream : Fin n → List (Reply K)}
  {destCube : OrderedMap K ℕ} {received : MultiRoundCoordinator K} {tuples passed : List (K × ℕ)}

theorem deliver_part (receives : coordinator.receive tuples = (received, passed)) :
    (TPut.mk coordinator downstream upstream destCube).deliver config tuples none =
      some ⟨received, downstream, upstream, passed.foldl addToCube destCube⟩ := by
  simp [TPut.deliver, MultiRoundCoordinator.process, receives, broadcast_nil]

/-- The end of a round that is not the last is counted. -/
theorem deliver_more {round : ℕ} (receives : coordinator.receive tuples = (received, passed))
    (current : round = received.phase.number) (more : (received.responsesThisPhase + 1) % 2 ^ 32 ≠ n) :
    (TPut.mk coordinator downstream upstream destCube).deliver config tuples (some round) =
      some ⟨{ received with responsesThisPhase := (received.responsesThisPhase + 1) % 2 ^ 32 }, downstream, upstream,
        passed.foldl addToCube destCube⟩ := by
  simp only [TPut.deliver, MultiRoundCoordinator.process, receives, if_pos current, if_neg more, Option.map_some,
    broadcast_nil]

/-- The last end of a round starts the next. -/
theorem deliver_last {round : ℕ} {next : MultiRoundCoordinator K} {messages : List (DataplaneMessage K)}
    (receives : coordinator.receive tuples = (received, passed)) (current : round = received.phase.number)
    (last : (received.responsesThisPhase + 1) % 2 ^ 32 = n)
    (ended : MultiRoundCoordinator.endOfRound config n
      { received with responsesThisPhase := (received.responsesThisPhase + 1) % 2 ^ 32 } = some (next, messages)) :
    (TPut.mk coordinator downstream upstream destCube).deliver config tuples (some round) =
      some ((TPut.mk next downstream upstream (passed.foldl addToCube destCube)).broadcast messages) := by
  simp only [TPut.deliver, MultiRoundCoordinator.process, receives, if_pos current, if_pos last, ended, Option.map_some]

theorem endOfRound_empty (none : coordinator.candidates.entries = []) :
    MultiRoundCoordinator.endOfRound config n coordinator =
      some ({ coordinator with phase := .done, responsesThisPhase := 0, candidates := OrderedMap.empty }, []) := by
  simp [MultiRoundCoordinator.endOfRound, none]

theorem endOfRound_first (phase : coordinator.phase = .round1) (nonempty : coordinator.candidates.entries ≠ []) :
    MultiRoundCoordinator.endOfRound config n coordinator =
      some ({ coordinator with
        phase := .round2, responsesThisPhase := 0, t1 := coordinator.calculateTau config / n },
        [roundTwoMessage (coordinator.calculateTau config / n)]) := by
  simp only [MultiRoundCoordinator.endOfRound, List.length_eq_zero_iff, if_neg nonempty, phase]
  rfl

theorem endOfRound_second (phase : coordinator.phase = .round2) (nonempty : coordinator.candidates.entries ≠ []) :
    MultiRoundCoordinator.endOfRound config n coordinator =
      some ({ coordinator with phase := .round3, responsesThisPhase := 0 },
        [roundThreeMessage (coordinator.queried config n)]) := by
  simp only [MultiRoundCoordinator.endOfRound, List.length_eq_zero_iff, if_neg nonempty, phase]
  rfl

theorem endOfRound_third (phase : coordinator.phase = .round3) :
    MultiRoundCoordinator.endOfRound config n coordinator =
      some ({ coordinator with phase := .done, responsesThisPhase := 0, candidates := OrderedMap.empty }, []) := by
  simp only [MultiRoundCoordinator.endOfRound, phase, ite_self]

end Process

theorem coming_cons (key : K) (reply : Reply K) (rest : List (Reply K)) :
    coming key (reply :: rest) = reports key reply.tuples + coming key rest := by
  rw [coming, List.flatMap_cons, reports_append, coming]

theorem coming_take (key : K) (reply : Reply K) (rest : List (Reply K)) (size : ℕ) :
    coming key (reply :: rest) =
      reports key (reply.tuples.take size) + coming key ({ reply with tuples := reply.tuples.drop size } :: rest) := by
  rw [coming_cons, coming_cons, ← add_assoc, ← reports_append, List.take_append_drop]

section Steps

variable {config : CoordinatorConfig} {sources : Fin n → SourceCube K} {state : TPut K n} {p : Fin n}

open TPut

theorem inv_start (quiet : Quiet state.downstream state.upstream)
    (empty : ∀ key, state.destCube.get? key = none) :
    Inv config sources
      ({ state with coordinator := (state.coordinator.startPhase1 config).1 }.broadcast [startMessage config]) :=
  .first rfl quiet.round (fun _ => 0) (fun _ => rfl) quiet.gathers empty

/-- The answer of a predecessor takes the place of the message. -/
theorem TPut.Inv.handle (inv : Inv config sources state) (positive : 0 < config.numResults)
    {msg : DataplaneMessage K} {rest : List (DataplaneMessage K)} (front : state.downstream p = msg :: rest)
    (sharp : msg.type = .tputRound2 → (sources p).Sharp config.numResults msg.tputR2Threshold) :
    Inv config sources { state with
      downstream := Function.update state.downstream p rest
      upstream := Function.update state.upstream p (state.upstream p ++ [metaFromDownstream (sources p) msg]) } := by
  have member : msg ∈ state.downstream p := by
    rw [front]
    exact List.mem_cons_self
  cases inv with
  | waiting phase quiet empty =>
      rw [(quiet p).1] at member
      exact absurd member List.not_mem_nil
  | first phase gathering got tracks gathers empty =>
      obtain rfl := gathering.asks p msg member
      have numbered : (metaFromDownstream (sources p) (startMessage config)).round = 1 := by
        rw [answer_start positive]
      exact .first phase (gathering.handle front numbered) got tracks (gathers.handle front) empty
  | second phase gathering fits enough collected threshold earlier nothing empty =>
      obtain rfl := gathering.asks p msg member
      have here : (sources p).Sharp config.numResults state.coordinator.t1 := sharp rfl
      have answer := answer_roundTwo here
      refine .second phase (gathering.handle front (by rw [answer])) fits enough collected threshold ?_ ?_ empty
      · intro q done
        by_cases same : q = p
        · rw [same]
          exact here
        · dsimp only at done
          rw [Function.update_of_ne same] at done
          exact earlier q done
      · apply (Function.forall_update_iff state.upstream fun _ replies => ∀ reply ∈ replies, reply.tuples = []).mpr
        refine ⟨?_, fun q _ => nothing q⟩
        intro reply sent
        rw [List.mem_append, List.mem_singleton] at sent
        rcases sent with before | rfl
        · exact nothing p reply before
        · rw [answer]
  | third phase query sufficient gathering got tracks gathers =>
      obtain rfl := gathering.asks p msg member
      exact .third phase query sufficient (gathering.handle front rfl) got tracks (gathers.handle front)
  | finished phase quiet exactTopK =>
      rw [(quiet p).1] at member
      exact absurd member List.not_mem_nil

variable {reply : Reply K} {rest : List (Reply K)}

/-- A part of an answer is collected or passed on. -/
theorem TPut.Inv.part (inv : Inv config sources state) (front : state.upstream p = reply :: rest) (size : ℕ)
    {next : TPut K n}
    (stepped : { state with
      upstream := Function.update state.upstream p ({ reply with tuples := reply.tuples.drop size } :: rest) }.deliver
        config (reply.tuples.take size) none = some next) : Inv config sources next := by
  have member : reply ∈ state.upstream p := by
    rw [front]
    exact List.mem_cons_self
  have taken : ∀ key, coming key (state.upstream p) = reports key (reply.tuples.take size) +
      coming key ({ reply with tuples := reply.tuples.drop size } :: rest) := by
    intro key
    rw [front]
    exact coming_take key reply rest size
  cases inv with
  | waiting phase quiet empty =>
      rw [(quiet p).2] at member
      exact absurd member List.not_mem_nil
  | first phase gathering got tracks gathers empty =>
      rw [deliver_part (receive_collecting _ (Or.inl phase)), Option.some_inj] at stepped
      rw [← stepped]
      exact .first phase (gathering.part front size) _ (get?_foldl_addCandidate tracks _) (gathers.arrive taken) empty
  | second phase gathering fits enough collected threshold sharp nothing empty =>
      have none := nothing p reply member
      rw [none, List.take_nil, List.drop_nil, deliver_part (receive_collecting _ (Or.inr phase)), Option.some_inj] at stepped
      rw [← stepped]
      have gathering' := gathering.part front size
      rw [none, List.drop_nil] at gathering'
      refine .second phase gathering' fits enough collected threshold sharp ?_ empty
      have left := nothing p
      rw [front, List.forall_mem_cons] at left
      apply (Function.forall_update_iff state.upstream fun _ replies => ∀ reply ∈ replies, reply.tuples = []).mpr
      exact ⟨List.forall_mem_cons.mpr ⟨rfl, left.2⟩, fun q _ => nothing q⟩
  | third phase query sufficient gathering got tracks gathers =>
      rw [deliver_part (receive_passing _ phase), Option.some_inj] at stepped
      rw [← stepped]
      exact .third phase query sufficient (gathering.part front size) _ (get?_foldl_addToCube tracks _)
        (gathers.arrive taken)
  | finished phase quiet exactTopK =>
      rw [(quiet p).2] at member
      exact absurd member List.not_mem_nil

/-- Without candidates there are no keys. -/
theorem Collected.keys_empty {coordinator : MultiRoundCoordinator K} (collected : Collected config sources coordinator)
    (positive : 0 < config.numResults) (none : coordinator.candidates.entries = []) : keys sources = ∅ := by
  rw [Finset.eq_empty_iff_forall_notMem]
  intro key member
  rw [keys, Finset.mem_biUnion] at member
  obtain ⟨p, -, listed⟩ := member
  cases rows : (sources p).rows with
  | nil => simp [rows] at listed
  | cons row rest =>
      have first : row.1 ∈ coordinator.candidates.entries.map Prod.fst := by
        rw [collected.mem_keys]
        refine ⟨p, List.mem_map.mpr ⟨row, ?_, rfl⟩⟩
        rw [rows, List.take_cons positive]
        exact List.mem_cons_self
      rw [none] at first
      exact absurd first List.not_mem_nil

theorem exactTopK_of_empty (none : keys sources = ∅) (destCube : OrderedMap K ℕ) :
    ExactTopK config sources destCube := by
  refine ⟨∅, ⟨Finset.empty_subset _, ?_, ?_⟩, ?_⟩
  · rw [none]
    simp
  · intro key member
    exact absurd member (Finset.notMem_empty key)
  · intro key member
    exact absurd member (Finset.notMem_empty key)

theorem totals_eq_sum (key : K) : totals sources key = (∑ p, reports key (sources p).rows).sum := by
  rw [totals]
  simp only [SourceCube.total_eq]
  exact (map_sum Multiset.sumAddMonoidHom _ _).symm

/-- The destination holds a top set once every queried key has been answered. -/
theorem exactTopK_of_sufficient {query : List K} (sufficient : Sufficient sources config.numResults query)
    {destCube : OrderedMap K ℕ} {got : K → Multiset ℕ} (tracks : ∀ key, destCube.get? key = cellOf (got key))
    (all : ∀ key, got key = ∑ p, reports key (metaFromDownstream (sources p) (roundThreeMessage query)).tuples) :
    ExactTopK config sources destCube := by
  obtain ⟨bound, enough, outside⟩ := sufficient.bound
  have known : query.toFinset ⊆ keys sources := by
    intro key member
    exact sufficient.known key (List.mem_toFinset.mp member)
  have remote : ∀ key ∈ keys sources \ query.toFinset, (totals sources key : ℚ) ≤ bound := by
    intro key member
    obtain ⟨listed, unasked⟩ := Finset.mem_sdiff.mp member
    exact outside key listed fun asked => unasked (List.mem_toFinset.mpr asked)
  obtain ⟨top, within, chosen⟩ := exists_topK_of_bound known enough remote
  refine ⟨top, ⟨chosen.subset, chosen.card, ?_⟩, ?_⟩
  · intro key member other left
    exact_mod_cast chosen.largest key member other left
  · intro key member
    have asked : key ∈ query := List.mem_toFinset.mp (within member)
    have reported : got key = ∑ p, reports key (sources p).rows := by
      rw [all key]
      apply Finset.sum_congr rfl
      intro p _
      exact reports_roundThree sufficient.nodup asked
    have seen : got key ≠ 0 := by
      obtain ⟨p, -, listed⟩ := Finset.mem_biUnion.mp (chosen.subset member)
      intro none
      have part := Finset.single_le_sum (fun q _ => Multiset.zero_le (reports key (sources q).rows))
        (Finset.mem_univ p)
      rw [← reported, none, nonpos_iff_eq_zero, reports_eq_zero] at part
      exact part (List.mem_toFinset.mp listed)
    rw [tracks key, cellOf, if_neg seen, reported, totals_eq_sum]

section Whole

variable {next : TPut K n}

/-- The last answer of the first round sets the threshold. -/
theorem whole_first (positive : 0 < config.numResults)
    (enough : config.numResults ≤ (keys sources).card ∨ keys sources = ∅)
    (front : state.upstream p = reply :: rest)
    (stepped : { state with upstream := Function.update state.upstream p rest }.deliver
      config reply.tuples (some reply.round) = some next)
    (phase : state.coordinator.phase = .round1)
    (gathering : Round (startMessage config) 1 state.coordinator.responsesThisPhase state.downstream state.upstream)
    {got : K → Multiset ℕ} (tracks : ∀ key, state.coordinator.candidates.get? key = candidateOf key (got key))
    (gathers : Gathers sources (startMessage config) got state.downstream state.upstream)
    (empty : ∀ key, state.destCube.get? key = none) : Inv config sources next := by
  have receives := receive_collecting reply.tuples (Or.inl phase)
  have current : reply.round = state.coordinator.phase.number := by
    rw [gathering.answers p reply (by rw [front]; exact List.mem_cons_self), phase]
    rfl
  have tracks' := get?_foldl_addCandidate tracks reply.tuples
  have gathers' := gathers.arrive fun key => by rw [front]; exact coming_cons key reply rest
  by_cases last : (state.coordinator.responsesThisPhase + 1) % 2 ^ 32 = n
  · obtain ⟨fits, quiet⟩ := gathering.last front last
    have collected : Collected config sources { state.coordinator with
        candidates := reply.tuples.foldl addCandidate state.coordinator.candidates
        responsesThisPhase := (state.coordinator.responsesThisPhase + 1) % 2 ^ 32 } := by
      intro key
      rw [tracks' key, gathers'.all quiet key]
      simp only [answer_start positive, firstReports]
    by_cases none : (reply.tuples.foldl addCandidate state.coordinator.candidates).entries = []
    · rw [deliver_last receives current last (endOfRound_empty none), Option.some_inj, broadcast_nil] at stepped
      rw [← stepped]
      exact .finished rfl quiet (exactTopK_of_empty (collected.keys_empty positive none) _)
    · rw [deliver_last receives current last (endOfRound_first phase none), Option.some_inj] at stepped
      rw [← stepped]
      have many : config.numResults ≤ (keys sources).card := by
        apply enough.resolve_right
        intro noKeys
        obtain ⟨entry, listed⟩ := List.exists_mem_of_ne_nil _ none
        obtain ⟨p, first⟩ := collected.mem_keys.mp (List.mem_map_of_mem listed)
        have known : entry.1 ∈ keys sources := by
          rw [keys, Finset.mem_biUnion]
          exact ⟨p, Finset.mem_univ p, List.mem_toFinset.mpr ((List.take_sublist _ _).map _ |>.subset first)⟩
        rw [noKeys] at known
        exact absurd known (Finset.notMem_empty _)
      refine .second rfl quiet.round fits many collected rfl ?_ ?_ empty
      · intro q asked
        simp [broadcast] at asked
      · intro q other sent
        change other ∈ Function.update state.upstream p rest q at sent
        rw [(quiet q).2] at sent
        exact absurd sent List.not_mem_nil
  · rw [deliver_more receives current last, Option.some_inj] at stepped
    rw [← stepped]
    exact .first phase (gathering.more front) _ tracks' gathers' empty

/-- The last answer of the second round sends the query. -/
theorem whole_second (positive : 0 < config.numResults) (column : config.sortColumn.head? = some '-')
    (front : state.upstream p = reply :: rest)
    (stepped : { state with upstream := Function.update state.upstream p rest }.deliver
      config reply.tuples (some reply.round) = some next)
    (phase : state.coordinator.phase = .round2)
    (gathering : Round (roundTwoMessage state.coordinator.t1) 2 state.coordinator.responsesThisPhase state.downstream
      state.upstream)
    (fits : n < 2 ^ 32) (enough : config.numResults ≤ (keys sources).card)
    (collected : Collected config sources state.coordinator)
    (threshold : state.coordinator.t1 = state.coordinator.calculateTau config / n)
    (sharp : ∀ p, state.downstream p = [] → (sources p).Sharp config.numResults state.coordinator.t1)
    (nothing : ∀ p, ∀ reply ∈ state.upstream p, reply.tuples = [])
    (empty : ∀ key, state.destCube.get? key = none) : Inv config sources next := by
  have member : reply ∈ state.upstream p := by
    rw [front]
    exact List.mem_cons_self
  have current : reply.round = state.coordinator.phase.number := by
    rw [gathering.answers p reply member, phase]
    rfl
  rw [nothing p reply member] at stepped
  have receives := receive_collecting [] (Or.inr phase)
  by_cases last : (state.coordinator.responsesThisPhase + 1) % 2 ^ 32 = n
  · have quiet := (gathering.last front last).2
    have nonempty : state.coordinator.candidates.entries ≠ [] := by
      have many := collected.enough enough
      intro none
      rw [none, List.length_nil] at many
      omega
    have sufficient := collected.sufficient positive column fits enough threshold fun q => sharp q (quiet q).1
    rw [deliver_last receives current last (endOfRound_second phase nonempty), Option.some_inj] at stepped
    rw [← stepped]
    exact .third rfl _ sufficient quiet.round (fun _ => 0) empty quiet.gathers
  · rw [deliver_more receives current last, Option.some_inj] at stepped
    rw [← stepped]
    refine .second phase (gathering.more front) fits enough collected threshold sharp ?_ empty
    have left := nothing p
    rw [front, List.forall_mem_cons] at left
    apply (Function.forall_update_iff state.upstream fun _ replies => ∀ reply ∈ replies, reply.tuples = []).mpr
    exact ⟨left.2, fun q _ => nothing q⟩

/-- The last answer of the third round completes the destination. -/
theorem whole_third (front : state.upstream p = reply :: rest)
    (stepped : { state with upstream := Function.update state.upstream p rest }.deliver
      config reply.tuples (some reply.round) = some next)
    (phase : state.coordinator.phase = .round3) {query : List K}
    (sufficient : Sufficient sources config.numResults query)
    (gathering : Round (roundThreeMessage query) 3 state.coordinator.responsesThisPhase state.downstream state.upstream)
    {got : K → Multiset ℕ} (tracks : ∀ key, state.destCube.get? key = cellOf (got key))
    (gathers : Gathers sources (roundThreeMessage query) got state.downstream state.upstream) :
    Inv config sources next := by
  have receives := receive_passing reply.tuples phase
  have current : reply.round = state.coordinator.phase.number := by
    rw [gathering.answers p reply (by rw [front]; exact List.mem_cons_self), phase]
    rfl
  have tracks' := get?_foldl_addToCube tracks reply.tuples
  have gathers' := gathers.arrive fun key => by rw [front]; exact coming_cons key reply rest
  by_cases last : (state.coordinator.responsesThisPhase + 1) % 2 ^ 32 = n
  · have quiet := (gathering.last front last).2
    rw [deliver_last receives current last (endOfRound_third phase), Option.some_inj, broadcast_nil] at stepped
    rw [← stepped]
    exact .finished rfl quiet (exactTopK_of_sufficient sufficient tracks' (gathers'.all quiet))
  · rw [deliver_more receives current last, Option.some_inj] at stepped
    rw [← stepped]
    exact .third phase query sufficient (gathering.more front) _ tracks' gathers'

end Whole

theorem TPut.Inv.step (inv : Inv config sources state) (positive : 0 < config.numResults)
    (column : config.sortColumn.head? = some '-')
    (enough : config.numResults ≤ (keys sources).card ∨ keys sources = ∅) {event : TPutEvent n} {next : TPut K n}
    (favourable : Favourable config sources state event)
    (stepped : state.step config sources event = some next) : Inv config sources next := by
  cases event with
  | start =>
      obtain ⟨phase, started⟩ := Option.ite_none_right_eq_some.mp stepped
      obtain rfl := Option.some.inj started
      cases inv with
      | waiting _ quiet empty => exact inv_start quiet empty
      | first other | second other | third other | finished other =>
          rw [phase] at other
          cases other
  | handle p =>
      rw [TPut.step] at stepped
      cases front : state.downstream p with
      | nil =>
          rw [front] at stepped
          cases stepped
      | cons msg rest =>
          rw [front] at stepped
          obtain rfl := Option.some.inj stepped
          exact inv.handle positive front (favourable msg (by simp [front]))
  | part p size =>
      rw [TPut.step] at stepped
      cases front : state.upstream p with
      | nil =>
          rw [front] at stepped
          cases stepped
      | cons reply rest =>
          rw [front] at stepped
          exact inv.part front size stepped
  | whole p =>
      rw [TPut.step] at stepped
      cases front : state.upstream p with
      | nil =>
          rw [front] at stepped
          cases stepped
      | cons reply rest =>
          rw [front] at stepped
          cases inv with
          | first phase gathering got tracks gathers empty =>
              exact whole_first positive enough front stepped phase gathering tracks gathers empty
          | second phase gathering fits many collected threshold sharp nothing empty =>
              exact whole_second positive column front stepped phase gathering fits many collected threshold sharp
                nothing empty
          | third phase query sufficient gathering got tracks gathers =>
              exact whole_third front stepped phase sufficient gathering tracks gathers
          | waiting _ quiet | finished _ quiet =>
              rw [(quiet p).2] at front
              cases front

theorem TPut.inv_new : Inv config sources (new : TPut K n) :=
  .waiting rfl (fun _ => ⟨rfl, rfl⟩) fun _ => rfl

/-- The destination of a run in which every predecessor is sharp at the second round holds an exact top set. -/
theorem tput_exactTopK (positive : 0 < config.numResults) (column : config.sortColumn.head? = some '-')
    (enough : config.numResults ≤ (keys sources).card ∨ keys sources = ∅)
    (reachable : ((system config sources).restrict (Favourable config sources)).Reachable state)
    (done : state.coordinator.phase = .done) : ExactTopK config sources state.destCube := by
  have inv : Inv config sources state := by
    apply reachable.invariant (Inv config sources) TPut.inv_new
    intro state event next inv stepped
    obtain ⟨favourable, moved⟩ := EventSystem.restrict_step.mp stepped
    exact inv.step positive column enough favourable moved
  cases inv with
  | finished _ _ exactTopK => exact exactTopK
  | waiting other | first other | second other | third other =>
      rw [done] at other
      cases other

end Steps

/-- Two predecessors go through the three rounds, and their answers arrive in turn. -/
def threeRounds : List (TPutEvent 2) :=
  .start :: (List.replicate 3 [.handle 0, .handle 1, .part 0 1, .whole 1, .whole 0]).flatten

/-- The two greatest keys stand out at both predecessors. -/
def clearSources : Fin 2 → SourceCube ℕ
  | 0 => ⟨[(0, 10), (1, 3)], by decide, by decide⟩
  | 1 => ⟨[(0, 9), (1, 4), (2, 1)], by decide, by decide⟩

/-- The top two keys arrive with their totals. -/
theorem tput_exactTopK_clear :
    ∃ state, ((TPut.system ⟨2, ['-', 'c']⟩ clearSources).restrict (Favourable ⟨2, ['-', 'c']⟩ clearSources)).Reachable
      state ∧ state.coordinator.phase = .done ∧ ExactTopK ⟨2, ['-', 'c']⟩ clearSources state.destCube := by
  have ran : ((((TPut.system ⟨2, ['-', 'c']⟩ clearSources).restrict
      (Favourable ⟨2, ['-', 'c']⟩ clearSources)).runFrom TPut.new threeRounds).map
        fun state => state.coordinator.phase) = some .done := by decide +kernel
  obtain ⟨state, ran, done⟩ := Option.map_eq_some_iff.mp ran
  refine ⟨state, ⟨_, ran⟩, done, ?_⟩
  exact tput_exactTopK (by decide) rfl (Or.inl (by decide)) ⟨_, ran⟩ done

/-- The greatest key is second at both predecessors. -/
def skewedSources : Fin 2 → SourceCube ℕ
  | 0 => ⟨[(0, 10), (1, 9)], by decide, by decide⟩
  | 1 => ⟨[(2, 10), (1, 9)], by decide, by decide⟩

/-- The key with the greatest total never becomes a candidate. -/
theorem tput_misses_greatest :
    ∃ state, (TPut.system ⟨1, ['-', 'c']⟩ skewedSources).Reachable state ∧ state.coordinator.phase = .done ∧
      ¬ ExactTopK ⟨1, ['-', 'c']⟩ skewedSources state.destCube := by
  have ran : (((TPut.system ⟨1, ['-', 'c']⟩ skewedSources).runFrom TPut.new threeRounds).map
      fun state => (state.coordinator.phase, state.destCube.get? 1)) = some (.done, none) := by decide +kernel
  obtain ⟨state, ran, result⟩ := Option.map_eq_some_iff.mp ran
  obtain ⟨done, missing⟩ := Prod.mk.inj result
  refine ⟨state, ⟨_, ran⟩, done, ?_⟩
  rintro ⟨top, chosen, held⟩
  have size : top.card = 1 := chosen.card
  obtain ⟨key, rfl⟩ := Finset.card_eq_one.mp size
  have here : key ∈ ({key} : Finset ℕ) := Finset.mem_singleton_self key
  by_cases greatest : key = 1
  · rw [greatest] at held
    rw [held 1 (Finset.mem_singleton_self 1)] at missing
    cases missing
  · have outside : 1 ∈ keys skewedSources \ {key} := by
      rw [Finset.mem_sdiff, Finset.mem_singleton]
      exact ⟨by decide, Ne.symm greatest⟩
    have less := chosen.largest key here 1 outside
    have known := chosen.subset here
    have all : ∀ key ∈ keys skewedSources, key ≠ 1 → ¬ totals skewedSources 1 ≤ totals skewedSources key := by decide
    exact all key known greatest less

end JetStream
