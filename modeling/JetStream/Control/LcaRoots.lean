import JetStream.Control.LcaVisits
import JetStream.Lib.Attempt
import JetStream.Lib.Worklist

namespace JetStream

/-- The failure rejects the request. -/
def GraphError.Rejects (error : GraphError) : Prop := ∃ message, error = .schemaError message

namespace JSGraph

open IsForest Except

variable {N : Type} [DecidableEq N] {g : JSGraph N} {u root : N} {pairs : List (N × N)} {state final : LcaState N}

section Failures

variable (pick : ℕ → ℕ) (recurse : Bool)

theorem avoids_pairUp (state : LcaState N) : Avoids GraphError.Rejects (pairUp pick state) := by
  have pops (state : LcaState N) : Avoids GraphError.Rejects (popLca pick state) := by
    unfold popLca
    split
    · exact avoids_error nofun
    · exact avoids_ok _
  exact (pops state).bind fun popped => (pops popped.2).map _

theorem avoids_removePair (u : N) (i : ℕ) (v : N) (dict : N → Option (List N)) :
    Avoids GraphError.Rejects (removePair u i v dict) := by
  unfold removePair
  split
  · exact avoids_error nofun
  · dsimp only
    split
    · exact avoids_error nofun
    · split
      · exact avoids_error nofun
      · exact avoids_ok _

theorem avoids_answerPair (g : JSGraph N) (u : N) (i : ℕ) (v : N) (state : LcaState N) :
    Avoids GraphError.Rejects (g.answerPair pick recurse u i v state) := by
  unfold answerPair
  split
  · exact avoids_error nofun
  · split
    · exact avoids_error nofun
    · refine (avoids_removePair u i v state.pairs).bind fun dict => ?_
      dsimp only
      split_ifs
      · exact avoids_pairUp pick _
      · exact avoids_ok _

theorem avoids_pairLoop (g : JSGraph N) (u : N) (turns i : ℕ) (state : LcaState N) :
    Avoids GraphError.Rejects (g.pairLoop pick recurse u turns i state) := by
  induction turns generalizing i state with
  | zero => exact avoids_error nofun
  | succ turns ih =>
      unfold pairLoop
      split
      · exact avoids_error nofun
      · split
        · exact avoids_ok _
        · split_ifs
          · exact (avoids_answerPair pick recurse g u i _ state).bind fun next => ih i next
          · exact ih (i + 1) state

theorem avoids_answerPairs (g : JSGraph N) (u : N) (state : LcaState N) :
    Avoids GraphError.Rejects (g.answerPairs pick recurse u state) := by
  unfold answerPairs
  split
  · exact avoids_ok _
  · refine (avoids_pairLoop pick recurse g u _ 0 state).bind fun next => ?_
    split
    · exact avoids_error nofun
    · exact avoids_ok _

theorem avoids_neighbourLoop {visit : N → LcaState N → Except GraphError (LcaState N)}
    (visits : ∀ v state, Avoids GraphError.Rejects (visit v state)) (u : N) (children : List N) (state : LcaState N) :
    Avoids GraphError.Rejects (g.neighbourLoop visit u children state) := by
  induction children generalizing state with
  | nil => exact avoids_ok _
  | cons v rest ih =>
      refine (visits v state).bind fun next => Avoids.bind ?_ ih
      unfold uniteNeighbour
      split
      · exact avoids_error nofun
      · split
        · exact avoids_error nofun
        · exact avoids_ok _

theorem avoids_computeLcas (g : JSGraph N) (fuel : ℕ) (u : N) (state : LcaState N) :
    Avoids GraphError.Rejects (g.computeLcas pick recurse fuel u state) := by
  induction fuel generalizing u state with
  | zero => exact avoids_error nofun
  | succ fuel ih =>
      exact (avoids_neighbourLoop ih u _ _).bind fun next => avoids_answerPairs pick recurse g u _

variable {pick recurse}

theorem exists_visit_of_neighbourLoop {visit : N → LcaState N → Except GraphError (LcaState N)} {children : List N}
    (ran : g.neighbourLoop visit u children state = .ok final) :
    ∀ w ∈ children, ∃ before after, visit w before = .ok after := by
  induction children generalizing state with
  | nil => exact fun w member => absurd member List.not_mem_nil
  | cons w rest ih =>
      obtain ⟨middle, visited, ran⟩ := Except.exists_of_bind_eq_ok ran
      obtain ⟨united, -, ran⟩ := Except.exists_of_bind_eq_ok ran
      exact List.forall_mem_cons.mpr ⟨⟨state, middle, visited⟩, ih ran⟩

/-- A visit that returns has followed every way against the edges to its end. -/
theorem ends_of_computeLcas {fuel : ℕ} (ran : g.computeLcas pick recurse fuel u state = .ok final) :
    Worklist.Ends g.radjList u := by
  induction fuel generalizing u state final with
  | zero => cases ran
  | succ fuel ih =>
      obtain ⟨middle, looped, -⟩ := Except.exists_of_bind_eq_ok ran
      refine Acc.intro u fun w step => ?_
      obtain ⟨before, after, visited⟩ := exists_visit_of_neighbourLoop looped w step
      exact ih visited

/-- The steps of a visit go against the edges. -/
theorem step_radjList {n m : N} : Worklist.Step g.radjList n m ↔ g.Edge m n := mem_radjList

/-- All ways against the edges end exactly when no cycle leads to the node. -/
theorem ends_iff_clear : Worklist.Ends g.radjList root ↔ g.Clear root := by
  have steps : Function.swap (Worklist.Step g.radjList) = g.Edge := funext₂ fun _ _ => propext step_radjList
  constructor
  · intro ends x path cycle
    rw [← steps] at path cycle
    exact (ends.reaches (Relation.reflTransGen_swap.mp path)).not_cycle (Relation.transGen_swap.mp cycle)
  · intro clear
    refine Worklist.ends_of_not_cycle g.nodes (fun n m step => (g.inside _ (step_radjList.mp step)).1) fun x path cycle => ?_
    have up := Relation.reflTransGen_swap.mpr path
    have back := Relation.transGen_swap.mpr cycle
    rw [steps] at up back
    exact clear x up back

/-- A source reaches every node to which no cycle leads. -/
theorem Clear.exists_source (clear : g.Clear root) (node : root ∈ g.nodes) : ∃ s ∈ g.sources, Reaches g.Edge s root := by
  have ends := ends_iff_clear.mpr clear
  clear clear
  induction ends with
  | intro u _ ih =>
      by_cases child : ∃ w, g.Edge w u
      · obtain ⟨w, edge⟩ := child
        obtain ⟨s, source, path⟩ := ih w (step_radjList.mpr edge) (g.inside _ edge).1
        exact ⟨s, source, path.tail edge⟩
      · refine ⟨u, (g.mem_sources u).mpr ⟨node, fun member => ?_⟩, .refl⟩
        obtain ⟨⟨w, u⟩, edge, rfl⟩ := List.mem_map.mp member
        exact child ⟨w, edge⟩

omit [DecidableEq N] in
theorem Clear.upstream (clear : g.Clear root) (path : Reaches g.Edge u root) : g.Clear u :=
  fun x up => clear x (up.trans path)

omit [DecidableEq N] in
theorem clear_source (source : u ∈ g.sources) : g.Clear u := by
  intro x path cycle
  rcases Relation.reflTransGen_iff_eq_or_transGen.mp path with rfl | path
  · exact not_transGen_source source cycle
  · exact not_transGen_source source path

end Failures

section Root

/-- The search from the root has an answer for all sources, and it needs none for a single source. -/
def Joins (g : JSGraph N) (root : N) : Prop := (∃ s, g.sources = [s]) ∨ ∀ s ∈ g.sources, Reaches g.Edge s root

omit [DecidableEq N] in
theorem keepsSources_resetState (g : JSGraph N) (root : N) :
    KeepsSources g root (fun _ => false) (Candidate [] g.sources) := by
  have same (n : N) : Candidate [] g.sources n ↔ n ∈ g.sources := by simp [Candidate]
  refine ⟨fun n candidate => Or.inl ((same n).mp candidate), fun s source _ => ⟨(same s).mpr source, ?_⟩, ?_⟩
  · by_cases other : ∃ n ∈ g.sources, n ≠ s
    · obtain ⟨n, member, apart⟩ := other
      exact Or.inr ⟨n, (same n).mpr member, apart⟩
    · have all (n : N) (member : n ∈ g.sources) : n = s := by_contra fun apart => other ⟨n, member, apart⟩
      left
      apply List.perm_singleton.mp
      apply (List.perm_ext_iff_of_nodup g.sources_nodup (List.nodup_singleton s)).mpr
      exact fun n => ⟨fun member => List.mem_singleton.mpr (all n member), fun member =>
        List.mem_singleton.mp member ▸ source⟩
  · intro s only n candidate
    exact List.mem_singleton.mp (only ▸ (same n).mp candidate)

variable (root) in
/-- At the start the sources are paired, and nothing is black. -/
theorem exists_paired (g : JSGraph N) (pick : ℕ → ℕ) (draws : ℕ) :
    ∃ dict lcas draws' pairs, pairAll pick (g.sources.length + 1) (g.resetState draws) =
        .ok { g.resetState draws with pairs := dict, lcas := lcas, draws := draws' } ∧
      Served g (KeepsSources g root fun _ => false) (Busy [] fun _ => false) pairs
        { g.resetState draws with pairs := dict, lcas := lcas, draws := draws' } := by
  have reset : Ledger g (KeepsSources g root fun _ => false) [] (g.resetState draws) := by
    refine ⟨fun _ => List.Perm.nil, by simp, g.sources_nodup, ?_, by simp [resetState], keepsSources_resetState g root⟩
    simpa [resetState] using List.length_pos_iff.mpr g.sources_ne
  obtain ⟨dict, lcas, draws', pairs, paired, short, ledger, keyed⟩ :=
    reset.pairAll pick (g.sources.length + 1) (Nat.lt_succ_self _)
  exact ⟨dict, lcas, draws', pairs, paired, ledger, keyed fun n => by simp [resetState],
    fun pair _ => Or.inl (Or.inl rfl), short⟩

/-- A visit from a root to which no cycle leads makes exactly the nodes black that reach it. -/
theorem exists_visited (clear : g.Clear root) (node : root ∈ g.nodes) (pick : ℕ → ℕ) (draws : ℕ) :
    ∃ start final pairs, pairAll pick (g.sources.length + 1) (g.resetState draws) = .ok start ∧
      g.computeLcas pick true g.nodes.length root start = .ok final ∧
      Served g (KeepsSources g root final.black) (Busy [] final.black) pairs final ∧
      ∀ v, final.black v = true ↔ Reaches g.Edge v root := by
  obtain ⟨dict, lcas, draws', pairs, paired, start⟩ := exists_paired root g pick draws
  have enough : (below g.Edge g.nodes.toFinset root).card ≤ g.nodes.length := by
    refine (Finset.card_le_card fun v member => (mem_below.mp member).1).trans ?_
    exact List.toFinset_card_le _
  have gathered : Gathered g [] { g.resetState draws with pairs := dict, lcas := lcas, draws := draws' } := by
    refine ⟨⟨fun y known => absurd rfl known, fun y known => absurd rfl known⟩, ?_, ?_, ?_⟩
    · exact fun a member => absurd member List.not_mem_nil
    · exact fun r own => absurd own.symm (Option.some_ne_none r)
    · exact fun v dark => absurd dark Bool.false_ne_true
  obtain ⟨final, pairs', visited, -, served, black⟩ := computeLcas_completes clear pick node .refl enough [] pairs _
    (fun a member => absurd member List.not_mem_nil) (fun a member => absurd member List.not_mem_nil) gathered start
  refine ⟨_, final, pairs', paired, visited, served, fun v => (black v).trans ?_⟩
  exact or_iff_right fun dark => absurd dark Bool.false_ne_true

/-- A visit from a root to which a cycle leads fails. -/
theorem exists_failed (cyclic : ¬ g.Clear root) (pick : ℕ → ℕ) (draws : ℕ) :
    ∃ start error, pairAll pick (g.sources.length + 1) (g.resetState draws) = .ok start ∧
      g.computeLcas pick true g.nodes.length root start = .error error ∧ ∀ message, error ≠ .schemaError message := by
  obtain ⟨dict, lcas, draws', pairs, paired, -⟩ := exists_paired root g pick draws
  cases visited : g.computeLcas pick true g.nodes.length root
      { g.resetState draws with pairs := dict, lcas := lcas, draws := draws' } with
  | ok final => exact absurd (ends_iff_clear.mp (ends_of_computeLcas visited)) cyclic
  | error error =>
      refine ⟨_, error, paired, visited, fun message same => ?_⟩
      exact avoids_computeLcas pick true g _ _ _ error ⟨message, same⟩ visited

variable (served : Served g (KeepsSources g root final.black) (Busy [] final.black) pairs final)
  (black : ∀ v, final.black v = true ↔ Reaches g.Edge v root)

include served black in
/-- From a root for all sources every pair is answered, and one candidate is left. -/
theorem Joins.exists_lca (joins : g.Joins root) :
    (∀ n, final.pairs n = none) ∧ ∃ n, final.lcas = [n] ∧ (n ∈ g.sources ∨ Reaches g.Edge n root) := by
  have upstream := served.ledger.candidates.upstream
  have first (pair : N × N) (member : pair ∈ pairs) : Candidate pairs final.lcas pair.1 :=
    Or.inr ⟨pair, member, Or.inl rfl⟩
  have second (pair : N × N) (member : pair ∈ pairs) : Candidate pairs final.lcas pair.2 :=
    Or.inr ⟨pair, member, Or.inr rfl⟩
  have none : pairs = [] := by
    apply List.eq_nil_iff_forall_not_mem.mpr
    intro pair member
    rcases joins with ⟨s, only⟩ | all
    · have alone := served.ledger.candidates.alone s only
      exact served.ledger.distinct pair member ((alone _ (first pair member)).trans (alone _ (second pair member)).symm)
    · have dark {n : N} (candidate : Candidate pairs final.lcas n) : ¬ Busy [] final.black n := by
        rintro (white | member)
        · have reaches := (upstream n candidate).elim (all n) id
          exact Bool.false_ne_true (white.symm.trans ((black n).mpr reaches))
        · exact List.not_mem_nil member
      exact (served.waiting pair member).elim (dark (first pair member)) (dark (second pair member))
  subst none
  have one : final.lcas.length = 1 := by
    have atLeast := served.ledger.some
    have atMost := served.short
    rw [List.length_nil] at atLeast
    omega
  obtain ⟨n, only⟩ := List.length_eq_one_iff.mp one
  exact ⟨served.pairs_eq_none, n, only, upstream n (Or.inl (by simp [only]))⟩

include served black in
/-- A source that does not reach the root leaves an open pair. -/
theorem exists_open (node : root ∈ g.nodes) (apart : ¬ g.Joins root) : ∃ n ∈ g.nodes, final.pairs n ≠ none := by
  obtain ⟨several, some⟩ := not_or.mp apart
  obtain ⟨s, source, unreached⟩ : ∃ s ∈ g.sources, ¬ Reaches g.Edge s root := by
    by_contra all
    exact some fun s source => by_contra fun unreached => all ⟨s, source, unreached⟩
  have white : final.black s = false := Bool.eq_false_iff.mpr fun dark => unreached ((black s).mp dark)
  obtain ⟨candidate, more⟩ := served.ledger.candidates.kept s source white
  obtain ⟨n, other, different⟩ := more.resolve_left fun only => several ⟨s, only⟩
  have nonempty : pairs ≠ [] := by
    rintro rfl
    have inLcas {m : N} (candidate : Candidate [] final.lcas m) : m ∈ final.lcas := by simpa [Candidate] using candidate
    obtain ⟨m, only⟩ : ∃ m, final.lcas = [m] := by
      apply List.length_eq_one_iff.mp
      have positive := List.length_pos_of_mem (inLcas candidate)
      have short := served.short
      omega
    have first := inLcas candidate
    have second := inLcas other
    rw [only, List.mem_singleton] at first second
    exact different (second.trans first.symm)
  obtain ⟨pair, rest, rfl⟩ := List.exists_cons_of_ne_nil nonempty
  refine ⟨pair.1, ?_, fun none => ?_⟩
  · rcases served.ledger.candidates.upstream pair.1 (Or.inr ⟨pair, List.mem_cons_self, Or.inl rfl⟩) with source | path
    · exact ((g.mem_sources _).mp source).1
    · exact mem_nodes_of_reaches node path
  · have listed := served.ledger.tracks pair.1
    rw [none, Option.getD_none, List.nil_perm] at listed
    exact List.ne_nil_of_mem (mem_partners.mpr (Or.inl List.mem_cons_self)) listed

end Root

section Roots

/-- The search tries the roots in turn. It returns at the first root for all sources, it rejects the request when there
is no such root, and it fails at a root to which a cycle leads. -/
theorem tryRoots_cases (pick : ℕ → ℕ) (roots : List N) (nodes : ∀ r ∈ roots, r ∈ g.nodes) (draws : ℕ) :
    (∃ before root after, roots = before ++ root :: after ∧ (∀ r ∈ before, g.Clear r ∧ ¬ g.Joins r) ∧ g.Clear root ∧
        g.Joins root ∧ ∃ n, g.tryRoots pick roots draws = .ok n ∧ (n ∈ g.sources ∨ Reaches g.Edge n root)) ∨
      ((∀ r ∈ roots, g.Clear r ∧ ¬ g.Joins r) ∧
        ∃ message, g.tryRoots pick roots draws = .error (.schemaError message)) ∨
      ∃ before root after, roots = before ++ root :: after ∧ (∀ r ∈ before, g.Clear r ∧ ¬ g.Joins r) ∧
        ¬ g.Clear root ∧ ∃ error, g.tryRoots pick roots draws = .error error ∧ ∀ message, error ≠ .schemaError message := by
  induction roots generalizing draws with
  | nil => exact Or.inr (Or.inl ⟨fun r member => absurd member List.not_mem_nil, _, rfl⟩)
  | cons root rest ih =>
      obtain ⟨node, others⟩ := List.forall_mem_cons.mp nodes
      by_cases clear : g.Clear root
      · obtain ⟨start, final, pairs, paired, visited, served, black⟩ := exists_visited clear node pick draws
        by_cases joins : g.Joins root
        · obtain ⟨answered, n, only, upstream⟩ := joins.exists_lca served black
          have popped : popLca pick final = .ok (n, { final with lcas := [], draws := final.draws + 1 }) := by
            obtain ⟨m, member, pop⟩ := popLca_spec pick final (by simp [only])
            rw [only, List.mem_singleton] at member
            rw [pop, member, only, List.erase_cons_head]
          refine Or.inl ⟨[], root, rest, rfl, by simp, clear, joins, n, ?_, upstream⟩
          rw [tryRoots, paired]
          simp only [Except.bind, visited]
          simp [answered, only, popped, Except.map]
        · obtain ⟨n, inside, isOpen⟩ := exists_open served black node joins
          have notAll : (g.nodes.all fun n => (final.pairs n).isNone) = false := by
            rw [List.all_eq_false]
            exact ⟨n, inside, by simpa using isOpen⟩
          have next : g.tryRoots pick (root :: rest) draws = g.tryRoots pick rest final.draws := by
            rw [tryRoots, paired]
            simp only [Except.bind, visited, notAll, if_neg Bool.false_ne_true]
          have front {before : List N} (clears : ∀ r ∈ before, g.Clear r ∧ ¬ g.Joins r) :
              ∀ r ∈ root :: before, g.Clear r ∧ ¬ g.Joins r := List.forall_mem_cons.mpr ⟨⟨clear, joins⟩, clears⟩
          rw [next]
          rcases ih others final.draws with ⟨before, r, after, split, clears, found⟩ | ⟨clears, rejected⟩ |
            ⟨before, r, after, split, clears, failed⟩
          · exact Or.inl ⟨root :: before, r, after, by rw [split, List.cons_append], front clears, found⟩
          · exact Or.inr (Or.inl ⟨front clears, rejected⟩)
          · exact Or.inr (Or.inr ⟨root :: before, r, after, by rw [split, List.cons_append], front clears, failed⟩)
      · refine Or.inr (Or.inr ⟨[], root, rest, rfl, by simp, clear, ?_⟩)
        obtain ⟨start, error, paired, failed, other⟩ := exists_failed clear pick draws
        refine ⟨error, ?_, other⟩
        rw [tryRoots, paired]
        simp only [Except.bind, failed]

end Roots

end JSGraph

end JetStream
