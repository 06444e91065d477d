import JetStream.Control.JSGraph
import JetStream.Lib.Forest

namespace JetStream

namespace JSGraph

open IsForest

variable {N : Type} {g : JSGraph N}

theorem mem_nodes_of_reaches {v u : N} (node : u ∈ g.nodes) (path : Reaches g.Edge v u) : v ∈ g.nodes := by
  rcases path.cases_head with rfl | ⟨next, edge, -⟩
  · exact node
  · exact (g.inside _ edge).1

theorem mem_nodes_above {v u : N} (node : v ∈ g.nodes) (path : Reaches g.Edge v u) : u ∈ g.nodes := by
  rcases path.cases_tail with rfl | ⟨last, -, edge⟩
  · exact node
  · exact (g.inside _ edge).2

/-- A source has no node below it. -/
theorem not_transGen_source {s n : N} (source : s ∈ g.sources) : ¬ Relation.TransGen g.Edge n s := by
  intro path
  obtain ⟨last, -, edge⟩ := Relation.TransGen.tail'_iff.mp path
  exact ((g.mem_sources s).mp source).2 (List.mem_map.mpr ⟨_, edge, rfl⟩)

/-- Every source reaches the node, and the node reaches every node that all sources reach. -/
def IsUnionPoint (g : JSGraph N) (n : N) : Prop :=
  (∀ s ∈ g.sources, Reaches g.Edge s n) ∧ ∀ x, (∀ s ∈ g.sources, Reaches g.Edge s x) → Reaches g.Edge n x

theorem IsUnionPoint.eq {n x : N} (point : g.IsUnionPoint n) (forest : IsForest g.Edge) (other : g.IsUnionPoint x) :
    x = n :=
  forest.antisymm (other.2 n point.1) (point.2 x other.1)

/-- The answer is not known yet for these nodes. -/
def Candidate (pairs : List (N × N)) (lcas : List N) (n : N) : Prop :=
  n ∈ lcas ∨ ∃ pair ∈ pairs, n = pair.1 ∨ n = pair.2

theorem candidate_cons (pair : N × N) (pairs : List (N × N)) (lcas : List N) (n : N) :
    Candidate (pair :: pairs) lcas n ↔ (n = pair.1 ∨ n = pair.2) ∨ Candidate pairs lcas n := by
  simp only [Candidate, List.mem_cons, exists_eq_or_imp]
  exact or_left_comm

theorem candidate_perm {pairs pairs' : List (N × N)} (same : pairs.Perm pairs') (lcas : List N) (n : N) :
    Candidate pairs lcas n ↔ Candidate pairs' lcas n := by
  simp only [Candidate, same.mem_iff]

variable [DecidableEq N]

/-- The graph has one sink, every other node has one outgoing neighbour, and there is no cycle. -/
structure IsInTree (g : JSGraph N) (root : N) : Prop where
  sinks : g.sinks = [root]
  out : ∀ n ∈ g.nodes, n ≠ root → ∃ m, g.adjList n = [m]
  acyclic : ∀ n, ¬ Relation.TransGen g.Edge n n

theorem mem_adjList {p n : N} : n ∈ g.adjList p ↔ g.Edge p n := by
  simp [adjList, Edge]

theorem mem_radjList {p n : N} : p ∈ g.radjList n ↔ g.Edge p n := by
  simp [radjList, Edge]

namespace IsInTree

variable {root : N}

theorem root_mem (tree : g.IsInTree root) : root ∈ g.nodes := by
  have sink : root ∈ g.sinks := by simp [tree.sinks]
  exact ((g.mem_sinks root).mp sink).1

theorem not_edge_root (tree : g.IsInTree root) (n : N) : ¬ g.Edge root n := by
  have sink : root ∈ g.sinks := by simp [tree.sinks]
  intro edge
  exact ((g.mem_sinks root).mp sink).2 (List.mem_map.mpr ⟨_, edge, rfl⟩)

theorem forest (tree : g.IsInTree root) : IsForest g.Edge := by
  refine ⟨?_, tree.acyclic⟩
  intro p m n first second
  have other : p ≠ root := by
    rintro rfl
    exact tree.not_edge_root m first
  obtain ⟨next, only⟩ := tree.out p (g.inside _ first).1 other
  rw [← mem_adjList, only, List.mem_singleton] at first second
  rw [first, second]

theorem reaches_root (tree : g.IsInTree root) {n : N} (node : n ∈ g.nodes) : Reaches g.Edge n root := by
  refine tree.forest.reaches_root (fun v u edge => ?_) (fun v member other => ?_) (List.mem_toFinset.mpr node)
  · have ends := g.inside _ edge
    exact ⟨List.mem_toFinset.mpr ends.1, List.mem_toFinset.mpr ends.2⟩
  · obtain ⟨m, only⟩ := tree.out v (List.mem_toFinset.mp member) other
    exact ⟨m, mem_adjList.mp (by simp [only])⟩

theorem edges_nodup (tree : g.IsInTree root) : g.edges.Nodup := by
  apply List.nodup_iff_count_le_one.mpr
  rintro ⟨p, n⟩
  by_cases edge : g.Edge p n
  · have other : p ≠ root := by
      rintro rfl
      exact tree.not_edge_root n edge
    obtain ⟨next, only⟩ := tree.out p (g.inside _ edge).1 other
    have size : (g.edges.filter fun edge => edge.1 = p).length = 1 := by
      simpa [adjList] using congrArg List.length only
    rw [← size, ← List.countP_eq_length_filter]
    apply List.countP_mono_left
    rintro _ - same
    simp [eq_of_beq same]
  · exact (List.count_eq_zero.mpr edge).le.trans zero_le_one

theorem radjList_nodup (tree : g.IsInTree root) (n : N) : (g.radjList n).Nodup := by
  refine List.Nodup.map_on ?_ (tree.edges_nodup.filter _)
  rintro ⟨p, m⟩ first ⟨q, k⟩ second same
  simp only [List.mem_filter, decide_eq_true_eq] at first second
  exact Prod.ext same (first.2.trans second.2.symm)

end IsInTree

section Pairs

/-- These nodes are paired with the given node. -/
def partners (pairs : List (N × N)) (n : N) : List N :=
  pairs.flatMap fun pair => (if pair.1 = n then [pair.2] else []) ++ (if pair.2 = n then [pair.1] else [])

theorem partners_cons (pair : N × N) (pairs : List (N × N)) (n : N) : partners (pair :: pairs) n =
    (if pair.1 = n then [pair.2] else []) ++ (if pair.2 = n then [pair.1] else []) ++ partners pairs n := rfl

theorem partners_perm {pairs pairs' : List (N × N)} (same : pairs.Perm pairs') (n : N) :
    (partners pairs n).Perm (partners pairs' n) :=
  same.flatMap_right _

theorem mem_partners {pairs : List (N × N)} {n m : N} : m ∈ partners pairs n ↔ (n, m) ∈ pairs ∨ (m, n) ∈ pairs := by
  induction pairs with
  | nil => simp [partners]
  | cons pair pairs ih =>
      obtain ⟨p, q⟩ := pair
      rw [partners_cons, List.mem_append, List.mem_append, ih]
      simp only [List.mem_cons, Prod.mk.injEq]
      by_cases first : p = n <;> by_cases second : q = n <;> grind

theorem partners_length_le {pairs : List (N × N)} (distinct : ∀ pair ∈ pairs, pair.1 ≠ pair.2) (n : N) :
    (partners pairs n).length ≤ pairs.length := by
  induction pairs with
  | nil => simp [partners]
  | cons pair pairs ih =>
      have rest := ih fun other member => distinct other (List.mem_cons_of_mem _ member)
      have here := distinct pair List.mem_cons_self
      rw [partners_cons, List.length_append, List.length_append, List.length_cons]
      by_cases first : pair.1 = n
      · have second : pair.2 ≠ n := fun same => here (first.trans same.symm)
        simp only [first, second, if_true, if_false, List.length_cons, List.length_nil]
        omega
      · simp only [first, if_false]
        split <;> simp only [List.length_cons, List.length_nil] <;> omega

/-- The dictionary lists each open pair under both of its nodes. -/
def Tracks (dict : N → Option (List N)) (pairs : List (N × N)) : Prop :=
  ∀ n, ((dict n).getD []).Perm (partners pairs n)

theorem appendPair_ne_nil {dict : N → Option (List N)} {n partner m : N} (nonempty : dict m ≠ some []) :
    appendPair n partner dict m ≠ some [] := by
  rw [appendPair, Function.update_apply]
  split_ifs <;> simp [nonempty]

theorem tracks_append {dict : N → Option (List N)} {pairs : List (N × N)} (tracks : Tracks dict pairs) {w x : N}
    (different : w ≠ x) : Tracks (appendPair x w (appendPair w x dict)) ((w, x) :: pairs) := by
  intro n
  rw [partners_cons, appendPair, appendPair]
  by_cases isX : n = x
  · subst isX
    rw [Function.update_self, Function.update_of_ne different.symm]
    simpa [different] using (List.perm_append_singleton _ _).trans ((tracks n).cons w)
  · rw [Function.update_of_ne isX]
    by_cases isW : n = w
    · subst isW
      rw [Function.update_self]
      simpa [Ne.symm isX] using (List.perm_append_singleton _ _).trans ((tracks n).cons x)
    · rw [Function.update_of_ne isW]
      simpa [Ne.symm isX, Ne.symm isW] using tracks n

/-- A partner comes from a pair. -/
theorem exists_pair {pairs : List (N × N)} {u v : N} (member : v ∈ partners pairs u) :
    ∃ pair rest, (pair = (u, v) ∨ pair = (v, u)) ∧ pairs.Perm (pair :: rest) := by
  rcases mem_partners.mp member with first | second
  · exact ⟨(u, v), _, Or.inl rfl, List.perm_cons_erase first⟩
  · exact ⟨(v, u), _, Or.inr rfl, List.perm_cons_erase second⟩

theorem partners_cons_of_mem {pair : N × N} (rest : List (N × N)) {u v : N} (isPair : pair = (u, v) ∨ pair = (v, u))
    (different : u ≠ v) : partners (pair :: rest) u = v :: partners rest u := by
  rw [partners_cons]
  rcases isPair with rfl | rfl <;> simp [Ne.symm different]

theorem partners_cons_of_ne {pair : N × N} (rest : List (N × N)) {u v n : N} (isPair : pair = (u, v) ∨ pair = (v, u))
    (notU : n ≠ u) (notV : n ≠ v) : partners (pair :: rest) n = partners rest n := by
  rw [partners_cons]
  rcases isPair with rfl | rfl <;> simp [Ne.symm notU, Ne.symm notV]

/-- Taking a pair from both lists leaves the other pairs. -/
theorem tracks_remove {dict : N → Option (List N)} {pair : N × N} {rest : List (N × N)}
    (tracks : Tracks dict (pair :: rest)) {u v : N} (isPair : pair = (u, v) ∨ pair = (v, u)) (different : u ≠ v)
    {mine theirs : List N} (own : dict u = some mine) (other : dict v = some theirs) {i : ℕ}
    (here : mine[i]? = some v) :
    Tracks (Function.update (Function.update dict u (some (mine.eraseIdx i))) v
      (if theirs.erase u = [] then none else some (theirs.erase u))) rest := by
  obtain ⟨inside, value⟩ := List.getElem?_eq_some_iff.mp here
  intro n
  by_cases isV : n = v
  · subst isV
    have listed : theirs.Perm (u :: partners rest n) := by
      rw [← partners_cons_of_mem rest isPair.symm different.symm]
      simpa [other] using tracks n
    have left := listed.erase u
    rw [List.erase_cons_head] at left
    rw [Function.update_self]
    split_ifs with none
    · rw [none] at left
      exact left
    · exact left
  · rw [Function.update_of_ne isV]
    by_cases isU : n = u
    · subst isU
      have listed : mine.Perm (v :: partners rest n) := by
        rw [← partners_cons_of_mem rest isPair different]
        simpa [own] using tracks n
      have split : (v :: mine.eraseIdx i).Perm mine := by
        rw [← value]
        exact List.getElem_cons_eraseIdx_perm inside
      rw [Function.update_self]
      exact (split.trans listed).cons_inv
    · rw [Function.update_of_ne isU, ← partners_cons_of_ne rest isPair isU isV]
      exact tracks n

/-- An answered pair is no longer tracked, and no other node gets an empty list. -/
theorem removePair_spec {dict : N → Option (List N)} {pairs : List (N × N)} (tracks : Tracks dict pairs)
    (distinct : ∀ pair ∈ pairs, pair.1 ≠ pair.2) {u v : N} {mine : List N} (own : dict u = some mine) {i : ℕ}
    (here : mine[i]? = some v) :
    ∃ dict' pair rest, removePair u i v dict = .ok dict' ∧ pairs.Perm (pair :: rest) ∧
      (pair = (u, v) ∨ pair = (v, u)) ∧ Tracks dict' rest ∧ dict' u = some (mine.eraseIdx i) ∧
      ∀ n, n ≠ u → dict n ≠ some [] → dict' n ≠ some [] := by
  have listed : mine.Perm (partners pairs u) := by simpa [own] using tracks u
  obtain ⟨pair, rest, isPair, split⟩ := exists_pair (listed.subset (List.mem_of_getElem? here))
  have different : u ≠ v := by
    have apart := distinct pair (split.symm.subset List.mem_cons_self)
    rcases isPair with rfl | rfl
    · exact apart
    · exact apart.symm
  have tracks' : Tracks dict (pair :: rest) := fun n => (tracks n).trans (partners_perm split n)
  have known : u ∈ (dict v).getD [] := by
    apply (tracks' v).symm.subset
    rw [partners_cons_of_mem rest isPair.symm different.symm]
    exact List.mem_cons_self
  obtain ⟨theirs, other⟩ : ∃ theirs, dict v = some theirs := by
    cases found : dict v with
    | none => simp [found] at known
    | some theirs => exact ⟨theirs, rfl⟩
  rw [other, Option.getD_some] at known
  refine ⟨Function.update (Function.update dict u (some (mine.eraseIdx i))) v
    (if theirs.erase u = [] then none else some (theirs.erase u)), pair, rest, ?_, split, isPair,
    tracks_remove tracks' isPair different own other here, ?_, ?_⟩
  · simp [removePair, own, Function.update_of_ne different.symm, other, known]
  · rw [Function.update_of_ne different, Function.update_self]
  · intro n notU kept
    by_cases isV : n = v
    · subst isV
      rw [Function.update_self]
      split_ifs with none
      · simp
      · simpa using none
    · rw [Function.update_of_ne isV, Function.update_of_ne notU]
      exact kept

end Pairs

section Candidates

variable {pick : ℕ → ℕ} {state : LcaState N} {pairs : List (N × N)} {keeps : (N → Prop) → Prop}

/-- The dictionary lists the open pairs, there are no more of them than sources, and a condition holds for the set of
the candidates. -/
structure Ledger (g : JSGraph N) (keeps : (N → Prop) → Prop) (pairs : List (N × N)) (state : LcaState N) : Prop where
  tracks : Tracks state.pairs pairs
  distinct : ∀ pair ∈ pairs, pair.1 ≠ pair.2
  nodup : state.lcas.Nodup
  some : 0 < pairs.length + state.lcas.length
  few : pairs.length + state.lcas.length ≤ g.sources.length
  candidates : keeps (Candidate pairs state.lcas)

/-- The condition still holds when an answer takes the place of two candidates. -/
def Answers (keeps : (N → Prop) → Prop) (u v lca : N) : Prop :=
  ∀ rest : N → Prop, keeps (fun n => (n = u ∨ n = v) ∨ rest n) → keeps fun n => n = lca ∨ rest n

theorem popLca_spec (pick : ℕ → ℕ) (state : LcaState N) (nonempty : state.lcas ≠ []) :
    ∃ n ∈ state.lcas, popLca pick state =
      .ok (n, { state with lcas := state.lcas.erase n, draws := state.draws + 1 }) := by
  have positive : 0 < state.lcas.length := List.length_pos_iff.mpr nonempty
  have inside := Nat.mod_lt (pick state.draws) positive
  refine ⟨state.lcas[pick state.draws % state.lcas.length], List.getElem_mem inside, ?_⟩
  rw [popLca, List.getElem?_eq_getElem inside]

/-- Two candidates are taken out and paired. -/
theorem pairUp_spec (pick : ℕ → ℕ) (two : 2 ≤ state.lcas.length) :
    ∃ w x rest, state.lcas.Perm (w :: x :: rest) ∧ pairUp pick state = .ok { state with
      pairs := appendPair x w (appendPair w x state.pairs), lcas := rest, draws := state.draws + 2 } := by
  have first : state.lcas ≠ [] := List.length_pos_iff.mp (by omega)
  obtain ⟨w, wIn, popW⟩ := popLca_spec pick state first
  have size : (state.lcas.erase w).length = state.lcas.length - 1 := List.length_erase_of_mem wIn
  have second : state.lcas.erase w ≠ [] := List.length_pos_iff.mp (by omega)
  obtain ⟨x, xIn, popX⟩ := popLca_spec pick { state with
    lcas := state.lcas.erase w, draws := state.draws + 1 } second
  refine ⟨w, x, (state.lcas.erase w).erase x, ?_, ?_⟩
  · exact (List.perm_cons_erase wIn).trans ((List.perm_cons_erase xIn).cons w)
  · simp only [pairUp, popW, Except.bind, popX, Except.map]

/-- Pairing two candidates keeps all candidates. -/
theorem Ledger.pairUp (ledger : Ledger g keeps pairs state) (pick : ℕ → ℕ) (two : 2 ≤ state.lcas.length) :
    ∃ w x rest, state.lcas.Perm (w :: x :: rest) ∧ JSGraph.pairUp pick state = .ok { state with
        pairs := appendPair x w (appendPair w x state.pairs), lcas := rest, draws := state.draws + 2 } ∧
      Ledger g keeps ((w, x) :: pairs) { state with
        pairs := appendPair x w (appendPair w x state.pairs), lcas := rest, draws := state.draws + 2 } := by
  obtain ⟨w, x, rest, split, ran⟩ := pairUp_spec pick two
  have nodup := split.nodup_iff.mp ledger.nodup
  have size := split.length_eq
  simp only [List.length_cons] at size
  have different : w ≠ x := by
    rintro rfl
    simp at nodup
  have same : Candidate ((w, x) :: pairs) rest = Candidate pairs state.lcas := by
    funext n
    apply propext
    rw [candidate_cons, Candidate, Candidate, split.mem_iff, List.mem_cons, List.mem_cons]
    simp only [or_assoc]
  refine ⟨w, x, rest, split, ran, tracks_append ledger.tracks different, ?_, ?_, ?_, ?_, ?_⟩
  · intro pair member
    rcases List.mem_cons.mp member with rfl | member
    · exact different
    · exact ledger.distinct pair member
  · exact (List.nodup_cons.mp (List.nodup_cons.mp nodup).2).2
  · simp only [List.length_cons]
    omega
  · have few := ledger.few
    simp only [List.length_cons]
    omega
  · rw [same]
    exact ledger.candidates

/-- An answered pair is replaced by its answer. -/
theorem Ledger.answer (ledger : Ledger g keeps pairs state) {pair : N × N} {rest : List (N × N)}
    (split : pairs.Perm (pair :: rest)) {u v lca : N} (isPair : pair = (u, v) ∨ pair = (v, u))
    (answers : Answers keeps u v lca) {dict : N → Option (List N)} (tracks : Tracks dict rest) (sets : DisjointSets N) :
    Ledger g keeps rest { state with sets := sets, pairs := dict, lcas := state.lcas.insert lca } := by
  have old : Candidate pairs state.lcas = fun n => (n = u ∨ n = v) ∨ Candidate rest state.lcas n := by
    funext n
    apply propext
    rw [candidate_perm split, candidate_cons]
    rcases isPair with rfl | rfl
    · exact Iff.rfl
    · rw [or_comm (a := n = v)]
  have new : Candidate rest (state.lcas.insert lca) = fun n => n = lca ∨ Candidate rest state.lcas n := by
    funext n
    rw [Candidate, Candidate, List.mem_insert_iff, or_assoc]
  have size := split.length_eq
  have grown : (state.lcas.insert lca).length ≤ state.lcas.length + 1 := by
    rw [List.insert]
    split <;> simp
  have kept : 0 < (state.lcas.insert lca).length := List.length_pos_of_mem List.mem_insert_self
  rw [List.length_cons] at size
  refine ⟨tracks, fun other member => ?_, ledger.nodup.insert, Nat.add_pos_right _ kept, ?_, ?_⟩
  · exact ledger.distinct other (split.symm.subset (List.mem_cons_of_mem _ member))
  · have few := ledger.few
    dsimp only
    omega
  · have candidates := ledger.candidates
    rw [old] at candidates
    rw [new]
    exact answers _ candidates

/-- The loop pairs the candidates until at most one is alone. -/
theorem Ledger.pairAll (ledger : Ledger g keeps pairs state) (pick : ℕ → ℕ) (fuel : ℕ) (enough : state.lcas.length < fuel) :
    ∃ dict lcas draws pairs', JSGraph.pairAll pick fuel state =
        .ok { state with pairs := dict, lcas := lcas, draws := draws } ∧ lcas.length ≤ 1 ∧
      Ledger g keeps pairs' { state with pairs := dict, lcas := lcas, draws := draws } ∧
      ((∀ n, state.pairs n ≠ .some []) → ∀ n, dict n ≠ .some []) := by
  induction fuel generalizing state pairs with
  | zero => exact absurd enough (Nat.not_lt_zero _)
  | succ fuel ih =>
      rw [JSGraph.pairAll]
      by_cases two : 2 ≤ state.lcas.length
      · obtain ⟨w, x, rest, split, ran, next⟩ := ledger.pairUp pick two
        have size := split.length_eq
        simp only [List.length_cons] at size
        obtain ⟨dict, lcas, draws, pairs', done, short, final, keyed⟩ := ih next (by dsimp only; omega)
        refine ⟨dict, lcas, draws, pairs', ?_, short, final, ?_⟩
        · rw [if_pos two, ran]
          exact done
        · intro nonempty
          apply keyed
          exact fun n => appendPair_ne_nil (appendPair_ne_nil (nonempty n))
      · rw [if_neg two]
        exact ⟨state.pairs, state.lcas, state.draws, pairs, rfl, by omega, ledger, id⟩

/-- The candidates are nodes that have the same common descendants as the sources. -/
def SameBounds (g : JSGraph N) (candidate : N → Prop) : Prop :=
  (∀ n, candidate n → n ∈ g.nodes) ∧
    ∀ x, (∀ n, candidate n → Reaches g.Edge n x) ↔ ∀ s ∈ g.sources, Reaches g.Edge s x

omit [DecidableEq N] in
/-- A pair may be replaced by the first node that both of its nodes reach. -/
theorem answers_of_isJoin {u v lca : N} (join : IsJoin g.Edge v u lca) (node : u ∈ g.nodes) :
    Answers (SameBounds g) u v lca := by
  rintro rest ⟨inside, bounds⟩
  refine ⟨?_, fun x => (Iff.trans ?_ (bounds x))⟩
  · rintro n (rfl | candidate)
    · exact mem_nodes_above node join.2.1
    · exact inside n (Or.inr candidate)
  · constructor
    · rintro bound n ((rfl | rfl) | candidate)
      · exact ((join.reaches_iff x).mp (bound lca (Or.inl rfl))).2
      · exact ((join.reaches_iff x).mp (bound lca (Or.inl rfl))).1
      · exact bound n (Or.inr candidate)
    · rintro bound n (rfl | candidate)
      · exact (join.reaches_iff x).mpr ⟨bound v (Or.inl (Or.inr rfl)), bound u (Or.inl (Or.inl rfl))⟩
      · exact bound n (Or.inr candidate)

/-- The candidates are distinct nodes in open pairs or alone, and they have the same common descendants as the
sources. -/
structure Pending (g : JSGraph N) (pairs : List (N × N)) (state : LcaState N) : Prop where
  tracks : Tracks state.pairs pairs
  distinct : ∀ pair ∈ pairs, pair.1 ≠ pair.2
  inside : ∀ n, Candidate pairs state.lcas n → n ∈ g.nodes
  nodup : state.lcas.Nodup
  some : 0 < pairs.length + state.lcas.length
  few : pairs.length + state.lcas.length ≤ g.sources.length
  bounds : ∀ x, (∀ n, Candidate pairs state.lcas n → Reaches g.Edge n x) ↔ ∀ s ∈ g.sources, Reaches g.Edge s x

theorem Pending.ledger (pending : Pending g pairs state) : Ledger g (SameBounds g) pairs state :=
  ⟨pending.tracks, pending.distinct, pending.nodup, pending.some, pending.few, pending.inside, pending.bounds⟩

theorem Ledger.pending (ledger : Ledger g (SameBounds g) pairs state) : Pending g pairs state :=
  ⟨ledger.tracks, ledger.distinct, ledger.candidates.1, ledger.nodup, ledger.some, ledger.few, ledger.candidates.2⟩

end Candidates

end JSGraph

end JetStream
