import JetStream.Control.LcaPairs

namespace JetStream

namespace JSGraph

variable {N : Type} [DecidableEq N] {g : JSGraph N} {keeps : (N → Prop) → Prop} {busy : N → Prop} {u : N} {i : ℕ}
  {mine : List N} {pairs : List (N × N)} {state : LcaState N}

/-- Every open pair has a node that will answer it, and no node has an empty list. -/
structure Served (g : JSGraph N) (keeps : (N → Prop) → Prop) (busy : N → Prop) (pairs : List (N × N))
    (state : LcaState N) : Prop where
  ledger : Ledger g keeps pairs state
  keyed : ∀ n, state.pairs n ≠ some []
  waiting : ∀ pair ∈ pairs, busy pair.1 ∨ busy pair.2
  short : state.lcas.length ≤ 1

/-- Without open pairs no node has a list. -/
theorem Served.pairs_eq_none (served : Served g keeps busy [] state) (n : N) : state.pairs n = none := by
  have listed := served.ledger.tracks n
  cases own : state.pairs n with
  | none => rfl
  | some mine =>
      rw [own, Option.getD_some] at listed
      exact absurd (own.trans (congrArg some listed.eq_nil)) (served.keyed n)

/-- The pairs stay when more nodes will answer them and the condition on the candidates gets weaker. -/
theorem Served.imp (served : Served g keeps busy pairs state) {keeps' : (N → Prop) → Prop} {busy' : N → Prop}
    (weaker : ∀ candidate, keeps candidate → keeps' candidate) (busier : ∀ n, busy n → busy' n) {next : LcaState N}
    (samePairs : next.pairs = state.pairs) (sameLcas : next.lcas = state.lcas) : Served g keeps' busy' pairs next := by
  obtain ⟨⟨tracks, distinct, nodup, some, few, candidates⟩, keyed, waiting, short⟩ := served
  rw [← samePairs] at tracks keyed
  rw [← sameLcas] at nodup some few candidates short
  exact ⟨⟨tracks, distinct, nodup, some, few, weaker _ candidates⟩, keyed,
    fun pair member => (waiting pair member).imp (busier _) (busier _), short⟩

/-- While a node answers its pairs, every pair of other nodes has a node that will answer it. -/
structure Serving (g : JSGraph N) (keeps : (N → Prop) → Prop) (busy : N → Prop) (u : N) (i : ℕ) (mine : List N)
    (pairs : List (N × N)) (state : LcaState N) : Prop where
  ledger : Ledger g keeps pairs state
  own : state.pairs u = some mine
  keyed : ∀ n, n ≠ u → state.pairs n ≠ some []
  waiting : ∀ pair ∈ pairs, (pair.1 = u ∨ pair.2 = u) ∨ busy pair.1 ∨ busy pair.2
  skipped : ∀ v ∈ mine.take i, state.black v = false
  short : state.lcas.length ≤ 1

/-- The sets answer every pair of the node and a black node, and the search in them leaves the invariant. -/
def Resolves (g : JSGraph N) (keeps : (N → Prop) → Prop) (busy : N → Prop) (u : N) (located : LcaState N → Prop) :
    Prop :=
  ∀ state v, located state → state.black v = true → u ≠ v → ∃ sets top lca,
    state.sets.find g.nodes.length v = some (sets, top) ∧ state.ancestor top = some lca ∧ Answers keeps u v lca ∧
      (lca = u ∨ busy lca) ∧ ∀ next : LcaState N, next.sets = sets → next.ancestor = state.ancestor →
        next.black = state.black → located next

/-- These many turns are left at most. -/
def turnsLeft (i : ℕ) (mine : List N) (pairs : List (N × N)) (lcas : List N) : ℕ :=
  (mine.length - i) + 2 * pairs.length + lcas.length

theorem Serving.skip (serving : Serving g keeps busy u i mine pairs state) {v : N} (here : mine[i]? = some v)
    (white : state.black v = false) :
    Serving g keeps busy u (i + 1) mine pairs state ∧
      turnsLeft (i + 1) mine pairs state.lcas < turnsLeft i mine pairs state.lcas := by
  obtain ⟨inside, rfl⟩ := List.getElem?_eq_some_iff.mp here
  refine ⟨{ serving with skipped := ?_ }, ?_⟩
  · intro w member
    rw [List.take_succ_eq_append_getElem inside, List.mem_append, List.mem_singleton] at member
    rcases member with before | rfl
    · exact serving.skipped w before
    · exact white
  · rw [turnsLeft, turnsLeft]
    omega

/-- A new pair is put at the end of the lists of its nodes. -/
theorem exists_suffix {dict : N → Option (List N)} {l : List N} (own : dict u = some l) {w x : N} (different : w ≠ x) :
    ∃ suffix, appendPair x w (appendPair w x dict) u = some (l ++ suffix) ∧ suffix.length ≤ 1 := by
  rw [appendPair, appendPair]
  by_cases isX : u = x
  · subst isX
    rw [Function.update_self, Function.update_of_ne (Ne.symm different), own]
    exact ⟨[w], rfl, le_rfl⟩
  · rw [Function.update_of_ne isX]
    by_cases isW : u = w
    · subst isW
      rw [Function.update_self, own]
      exact ⟨[x], rfl, le_rfl⟩
    · rw [Function.update_of_ne isW, own]
      exact ⟨[], by rw [List.append_nil], Nat.zero_le _⟩

/-- When there are two candidates, they become a pair, and the new candidate will answer it. -/
theorem Serving.pairUp (ledger : Ledger g keeps pairs state) (own : state.pairs u = some mine)
    (keyed : ∀ n, n ≠ u → state.pairs n ≠ some [])
    (waiting : ∀ pair ∈ pairs, (pair.1 = u ∨ pair.2 = u) ∨ busy pair.1 ∨ busy pair.2) (within : i ≤ mine.length)
    (skipped : ∀ v ∈ mine.take i, state.black v = false) (two : state.lcas.length = 2) {lca : N}
    (new : lca ∈ state.lcas) (busyLca : lca = u ∨ busy lca) (pick : ℕ → ℕ) :
    ∃ next suffix pair, JSGraph.pairUp pick state = .ok next ∧
      Serving g keeps busy u i (mine ++ suffix) (pair :: pairs) next ∧ suffix.length ≤ 1 ∧ next.lcas = [] ∧
      next.sets = state.sets ∧ next.ancestor = state.ancestor ∧ next.black = state.black := by
  obtain ⟨w, x, lcas, both, ran, paired⟩ := ledger.pairUp pick two.ge
  have size := both.length_eq
  have gone : lcas = [] := by
    apply List.length_eq_zero_iff.mp
    simp only [List.length_cons] at size
    omega
  subst gone
  have different : w ≠ x := paired.distinct (w, x) List.mem_cons_self
  have isOne : lca = w ∨ lca = x := by simpa using both.subset new
  obtain ⟨suffix, ownAfter, suffixSize⟩ := exists_suffix own different
  refine ⟨_, suffix, (w, x), ran, ⟨paired, ownAfter, ?_, ?_, ?_, Nat.zero_le _⟩, suffixSize, rfl, rfl, rfl, rfl⟩
  · intro n other
    exact appendPair_ne_nil (appendPair_ne_nil (keyed n other))
  · intro pair member
    rcases List.mem_cons.mp member with rfl | member
    · rcases busyLca with rfl | busyLca
      · exact Or.inl (isOne.imp Eq.symm Eq.symm)
      · rcases isOne with rfl | rfl
        · exact Or.inr (Or.inl busyLca)
        · exact Or.inr (Or.inr busyLca)
    · exact waiting pair member
  · rw [List.take_append_of_le_length within]
    exact skipped

variable {located : LcaState N → Prop}

/-- An answered pair is replaced by its answer, and a new pair has a node that will answer it. -/
theorem Serving.answer (serving : Serving g keeps busy u i mine pairs state)
    (resolves : Resolves g keeps busy u located) (there : located state) {v : N} (here : mine[i]? = some v)
    (dark : state.black v = true) (pick : ℕ → ℕ) :
    ∃ next mine' pairs', g.answerPair pick true u i v state = .ok next ∧ Serving g keeps busy u i mine' pairs' next ∧
      located next ∧ next.black = state.black ∧
      turnsLeft i mine' pairs' next.lcas < turnsLeft i mine pairs state.lcas := by
  obtain ⟨dict, pair, rest, removed, split, isPair, tracks, own, keyed⟩ :=
    removePair_spec serving.ledger.tracks serving.ledger.distinct serving.own here
  have apart : u ≠ v := by
    have distinct := serving.ledger.distinct pair (split.symm.subset List.mem_cons_self)
    rcases isPair with rfl | rfl
    · exact distinct
    · exact distinct.symm
  obtain ⟨sets, top, lca, found, known, answers, busyLca, stays⟩ := resolves state v there dark apart
  have ledger := serving.ledger.answer split isPair answers tracks sets
  obtain ⟨inside, -⟩ := List.getElem?_eq_some_iff.mp here
  have size := split.length_eq
  rw [List.length_cons] at size
  have erased := List.length_eraseIdx_of_lt inside
  have waiting (pair : N × N) (member : pair ∈ rest) :=
    serving.waiting pair (split.symm.subset (List.mem_cons_of_mem _ member))
  have keyed (n : N) (other : n ≠ u) : dict n ≠ some [] := keyed n other (serving.keyed n other)
  have skipped : ∀ v ∈ (mine.eraseIdx i).take i, state.black v = false := by
    rw [List.take_eraseIdx_eq_take_of_le _ _ _ le_rfl]
    exact serving.skipped
  have short := serving.short
  have grown : (state.lcas.insert lca).length ≤ state.lcas.length + 1 := by
    rw [List.insert]
    split <;> simp
  by_cases two : 2 ≤ (state.lcas.insert lca).length
  · obtain ⟨next, suffix, pair, ran, serving', suffixSize, empty, sameSets, sameAncestor, sameBlack⟩ :=
      Serving.pairUp ledger own keyed waiting (by omega) skipped (le_antisymm (by dsimp only; omega) two)
        List.mem_insert_self busyLca pick
    refine ⟨next, _, _, ?_, serving', stays next sameSets sameAncestor sameBlack, sameBlack, ?_⟩
    · simp only [answerPair, found, known, removed, Except.bind, two, and_self, if_true]
      exact ran
    · rw [turnsLeft, turnsLeft, List.length_append, List.length_cons, erased, empty, List.length_nil]
      omega
  · refine ⟨_, mine.eraseIdx i, rest, ?_, ⟨ledger, own, keyed, waiting, skipped, by dsimp only; omega⟩,
      stays _ rfl rfl rfl, rfl, ?_⟩
    · simp only [answerPair, found, known, removed, Except.bind, two, and_false, if_false]
    · rw [turnsLeft, turnsLeft, erased]
      dsimp only
      omega

/-- The loop ends when the rest of the node's pairs wait for nodes that are not black. -/
theorem Serving.pairLoop (serving : Serving g keeps busy u i mine pairs state)
    (resolves : Resolves g keeps busy u located) (here : located state) (pick : ℕ → ℕ) {turns : ℕ}
    (enough : turnsLeft i mine pairs state.lcas < turns) :
    ∃ final i' mine' pairs', g.pairLoop pick true u turns i state = .ok final ∧
      Serving g keeps busy u i' mine' pairs' final ∧ mine'.length ≤ i' ∧ located final ∧ final.black = state.black := by
  induction turns generalizing i mine pairs state with
  | zero => exact absurd enough (Nat.not_lt_zero _)
  | succ turns ih =>
      simp only [JSGraph.pairLoop, serving.own]
      cases next : mine[i]? with
      | none => exact ⟨state, i, mine, pairs, rfl, serving, List.getElem?_eq_none_iff.mp next, here, rfl⟩
      | some v =>
          dsimp only
          cases dark : state.black v with
          | false =>
              obtain ⟨serving', fewer⟩ := serving.skip next dark
              rw [if_neg Bool.false_ne_true]
              exact ih serving' here (by omega)
          | true =>
              obtain ⟨mid, mine', pairs', ran, serving', there, sameBlack, fewer⟩ :=
                serving.answer resolves here next dark pick
              obtain ⟨final, i', mine'', pairs'', done, rest⟩ := ih serving' there (by omega)
              refine ⟨final, i', mine'', pairs'', ?_, ?_⟩
              · rw [if_pos rfl, ran]
                exact done
              · rw [sameBlack] at rest
                exact rest

/-- A node with pairs starts to answer them, and it has turns enough. -/
theorem Served.serving (served : Served g keeps (fun n => n = u ∨ busy n) pairs state) (own : state.pairs u = some mine) :
    Serving g keeps busy u 0 mine pairs state ∧ turnsLeft 0 mine pairs state.lcas < g.pairTurns := by
  refine ⟨⟨served.ledger, own, fun n _ => served.keyed n, fun pair member => ?_, fun v member => ?_, served.short⟩, ?_⟩
  · rcases served.waiting pair member with (own | other) | (own | other)
    · exact Or.inl (Or.inl own)
    · exact Or.inr (Or.inl other)
    · exact Or.inl (Or.inr own)
    · exact Or.inr (Or.inr other)
  · rw [List.take_zero] at member
    cases member
  · have few := served.ledger.few
    have short := served.short
    have listed := (served.ledger.tracks u).length_eq
    have bound := partners_length_le served.ledger.distinct u
    rw [own, Option.getD_some] at listed
    rw [turnsLeft, pairTurns]
    omega

/-- A node without pairs has none to answer. -/
theorem Served.absent (served : Served g keeps (fun n => n = u ∨ busy n) pairs state) (own : state.pairs u = none) :
    Served g keeps busy pairs state := by
  refine { served with waiting := fun pair member => ?_ }
  have listed := served.ledger.tracks u
  rw [own, Option.getD_none, List.nil_perm] at listed
  have first : pair.1 ≠ u := by
    rintro rfl
    exact List.ne_nil_of_mem (mem_partners.mpr (Or.inl member)) listed
  have second : pair.2 ≠ u := by
    rintro rfl
    exact List.ne_nil_of_mem (mem_partners.mpr (Or.inr member)) listed
  exact (served.waiting pair member).imp (Or.resolve_left · first) (Or.resolve_left · second)

/-- After its loop a node drops an empty list, and its pairs have another node that will answer them. -/
theorem Serving.finish (served : Serving g keeps busy u i mine pairs state) (done : mine.length ≤ i)
    (white : ∀ n, state.black n = false → busy n) :
    Served g keeps busy pairs (if mine = [] then { state with pairs := Function.update state.pairs u none } else state) := by
  have others : ∀ v ∈ mine, busy v := by
    have skipped := served.skipped
    rw [List.take_of_length_le done] at skipped
    exact fun v member => white v (skipped v member)
  have stillWaiting : ∀ pair ∈ pairs, busy pair.1 ∨ busy pair.2 := by
    have listed : mine.Perm (partners pairs u) := by simpa [served.own] using served.ledger.tracks u
    intro pair member
    rcases served.waiting pair member with (rfl | rfl) | either
    · exact Or.inr (others _ (listed.symm.subset (mem_partners.mpr (Or.inl member))))
    · exact Or.inl (others _ (listed.symm.subset (mem_partners.mpr (Or.inr member))))
    · exact either
  by_cases empty : mine = []
  · rw [if_pos empty]
    refine ⟨{ served.ledger with tracks := ?_ }, ?_, stillWaiting, served.short⟩
    · intro n
      have listed := served.ledger.tracks n
      by_cases isU : n = u
      · subst isU
        rw [served.own, empty] at listed
        dsimp only
        rw [Function.update_self]
        exact listed
      · dsimp only
        rw [Function.update_of_ne isU]
        exact listed
    · intro n
      by_cases isU : n = u
      · subst isU
        dsimp only
        rw [Function.update_self]
        simp
      · dsimp only
        rw [Function.update_of_ne isU]
        exact served.keyed n isU
  · rw [if_neg empty]
    refine ⟨served.ledger, fun n => ?_, stillWaiting, served.short⟩
    by_cases isU : n = u
    · subst isU
      rw [served.own]
      exact fun same => empty (Option.some.inj same)
    · exact served.keyed n isU

/-- A node answers all of its pairs whose other node is black. -/
theorem Served.answerPairs (served : Served g keeps (fun n => n = u ∨ busy n) pairs state)
    (resolves : Resolves g keeps busy u located) (here : located state)
    (forget : ∀ (state : LcaState N) dict, located state → located { state with pairs := dict })
    (white : ∀ n, state.black n = false → busy n) (pick : ℕ → ℕ) :
    ∃ final pairs', g.answerPairs pick true u state = .ok final ∧ Served g keeps busy pairs' final ∧ located final ∧
      final.black = state.black := by
  cases own : state.pairs u with
  | none => exact ⟨state, pairs, by simp only [JSGraph.answerPairs, own], served.absent own, here, rfl⟩
  | some mine =>
      obtain ⟨serving, enough⟩ := served.serving own
      obtain ⟨final, i, mine', pairs', ran, answered, done, there, sameBlack⟩ :=
        serving.pairLoop resolves here pick enough
      refine ⟨_, pairs', ?_, answered.finish done (sameBlack ▸ white), ?_, ?_⟩
      · simp only [JSGraph.answerPairs, own, ran, Except.bind, answered.own]
      · split
        · exact forget final _ there
        · exact there
      · split <;> exact sameBlack

end JSGraph

end JetStream
