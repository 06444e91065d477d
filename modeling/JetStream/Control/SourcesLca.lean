import JetStream.Control.LcaTurns

namespace JetStream

namespace JSGraph

open IsForest

variable {N : Type} [DecidableEq N] {g : JSGraph N} {u : N} {members : Finset N} {root : N → N}
  {state : LcaState N}

/-- The visited nodes are in disjoint sets, and the ancestor of a set is the join of each of its nodes with the current
node. -/
structure Located (g : JSGraph N) (u : N) (members : Finset N) (root : N → N) (state : LcaState N) : Prop where
  represents : state.sets.Represents members root
  ancestor : ∀ v ∈ members, ∃ a, state.ancestor (root v) = some a ∧ IsJoin g.Edge v u a
  separate : ∀ v ∈ members, ∀ w ∈ members, state.ancestor (root v) = state.ancestor (root w) → root v = root w
  nodes : ∀ v ∈ members, v ∈ g.nodes
  black : ∀ v, state.black v = true → v ∈ members

theorem Located.card_le (located : Located g u members root state) : members.card ≤ g.nodes.length := by
  refine (Finset.card_le_card fun v member => List.mem_toFinset.mpr (located.nodes v member)).trans ?_
  exact List.toFinset_card_le _

omit [DecidableEq N] in
/-- Only the sets, the ancestors and the colours matter for the place of the visited nodes. -/
theorem Located.of_sets (located : Located g u members root state) {next : LcaState N}
    (represents : next.sets.Represents members root) (sameAncestor : next.ancestor = state.ancestor)
    (sameBlack : next.black = state.black) : Located g u members root next := by
  refine ⟨represents, ?_, ?_, located.nodes, ?_⟩
  · rw [sameAncestor]
    exact located.ancestor
  · rw [sameAncestor]
    exact located.separate
  · rw [sameBlack]
    exact located.black

section Answering

/-- While a node answers its pairs, every other pair waits for a node that is not black. -/
structure Answering (g : JSGraph N) (u : N) (i : ℕ) (mine : List N) (pairs : List (N × N)) (state : LcaState N) :
    Prop where
  pending : Pending g pairs state
  own : state.pairs u = some mine
  keyed : ∀ n, n ≠ u → state.pairs n ≠ some []
  waiting : ∀ pair ∈ pairs, (pair.1 = u ∨ pair.2 = u) ∨ state.black pair.1 = false ∨ state.black pair.2 = false
  skipped : ∀ v ∈ mine.take i, state.black v = false
  short : state.lcas.length ≤ 1

variable {i : ℕ} {mine : List N} {pairs : List (N × N)}

theorem Answering.serving (answering : Answering g u i mine pairs state) :
    Serving g (SameBounds g) (fun n => state.black n = false) u i mine pairs state :=
  ⟨answering.pending.ledger, answering.own, answering.keyed, answering.waiting, answering.skipped, answering.short⟩

/-- Every open pair waits for a node that is not black, and no node has an empty list. -/
structure Waiting (g : JSGraph N) (pairs : List (N × N)) (state : LcaState N) : Prop where
  pending : Pending g pairs state
  keyed : ∀ n, state.pairs n ≠ some []
  waiting : ∀ pair ∈ pairs, state.black pair.1 = false ∨ state.black pair.2 = false
  short : state.lcas.length ≤ 1

theorem Waiting.served {pairs : List (N × N)} (waiting : Waiting g pairs state) :
    Served g (SameBounds g) (fun n => state.black n = false) pairs state :=
  ⟨waiting.pending.ledger, waiting.keyed, waiting.waiting, waiting.short⟩

/-- A node without pairs can become black, and the open pairs still wait. -/
theorem Waiting.blacken {pairs : List (N × N)} (waiting : Waiting g pairs state) (own : state.pairs u = none) :
    Waiting g pairs { state with black := Function.update state.black u true } := by
  refine ⟨{ waiting.pending with }, waiting.keyed, ?_, waiting.short⟩
  intro pair member
  have apart : pair.1 ≠ u ∧ pair.2 ≠ u := by
    have listed := waiting.pending.tracks u
    rw [own, Option.getD_none, List.nil_perm] at listed
    constructor
    · rintro rfl
      exact List.ne_nil_of_mem (mem_partners.mpr (Or.inl member)) listed
    · rintro rfl
      exact List.ne_nil_of_mem (mem_partners.mpr (Or.inr member)) listed
  dsimp only
  rw [Function.update_of_ne apart.1, Function.update_of_ne apart.2]
  exact waiting.waiting pair member

/-- A node with pairs that becomes black starts to answer them, and it has turns enough. -/
theorem Waiting.answering {pairs : List (N × N)} (waiting : Waiting g pairs state) {mine : List N}
    (own : state.pairs u = some mine) :
    Answering g u 0 mine pairs { state with black := Function.update state.black u true } ∧
      turnsLeft 0 mine pairs state.lcas < g.pairTurns := by
  have others {n : N} (white : state.black n = false) : n = u ∨ Function.update state.black u true n = false := by
    by_cases own : n = u
    · exact Or.inl own
    · rw [Function.update_of_ne own]
      exact Or.inr white
  refine ⟨⟨{ waiting.pending with }, own, fun n _ => waiting.keyed n, ?_, ?_, waiting.short⟩, ?_⟩
  · intro pair member
    rcases waiting.waiting pair member with white | white
    · rcases others white with own | white
      · exact Or.inl (Or.inl own)
      · exact Or.inr (Or.inl white)
    · rcases others white with own | white
      · exact Or.inl (Or.inr own)
      · exact Or.inr (Or.inr white)
  · intro v member
    rw [List.take_zero] at member
    cases member
  · have few := waiting.pending.few
    have short := waiting.short
    have listed := (waiting.pending.tracks u).length_eq
    have bound := partners_length_le waiting.pending.distinct u
    rw [own, Option.getD_some] at listed
    rw [turnsLeft, pairTurns]
    omega

variable (members root state) in
/-- The ancestor of a black node answers its pair, and it is the node itself or not black. -/
theorem resolves_located (node : u ∈ g.nodes) (above : ∀ a, Reaches g.Edge u a → a ≠ u → state.black a = false) :
    Resolves g (SameBounds g) (fun n => state.black n = false) u
      fun next => Located g u members root next ∧ next.black = state.black := by
  rintro next v ⟨located, sameBlack⟩ dark -
  obtain ⟨sets, found, represents⟩ := located.represents.find located.card_le (located.black v dark)
  obtain ⟨lca, known, join⟩ := located.ancestor v (located.black v dark)
  refine ⟨sets, root v, lca, found, known, answers_of_isJoin join node, ?_, ?_⟩
  · by_cases own : lca = u
    · exact Or.inl own
    · exact Or.inr (above lca join.2.1 own)
  · rintro last rfl sameAncestor stillBlack
    exact ⟨located.of_sets represents sameAncestor stillBlack, stillBlack.trans sameBlack⟩

/-- A node that has just become black answers all of its pairs whose other node is black. -/
theorem Waiting.answerPairs {pairs : List (N × N)} (waiting : Waiting g pairs state)
    (located : Located g u members root { state with black := Function.update state.black u true })
    (node : u ∈ g.nodes) (above : ∀ a, Reaches g.Edge u a → a ≠ u → state.black a = false) (pick : ℕ → ℕ) :
    ∃ final pairs', g.answerPairs pick true u { state with black := Function.update state.black u true } = .ok final ∧
      Waiting g pairs' final ∧ Located g u members root final ∧ final.black = Function.update state.black u true := by
  cases own : state.pairs u with
  | none =>
      exact ⟨_, pairs, by simp only [JSGraph.answerPairs, own], waiting.blacken own, located, rfl⟩
  | some mine =>
      obtain ⟨answering, enough⟩ := waiting.answering own
      have resolves := resolves_located members root { state with black := Function.update state.black u true } node
        fun a path other => (Function.update_of_ne other _ _).trans (above a path other)
      obtain ⟨final, i, mine', pairs', ran, answered, done, ⟨located', -⟩, sameBlack⟩ :=
        answering.serving.pairLoop resolves ⟨located, rfl⟩ pick enough
      have served := answered.finish done (sameBlack ▸ fun _ white => white)
      refine ⟨_, pairs', ?_, ⟨served.ledger.pending, served.keyed, ?_, served.short⟩, ?_, ?_⟩
      · simp only [JSGraph.answerPairs, own, ran, Except.bind, answered.own]
      · have still : (if mine' = [] then { final with pairs := Function.update final.pairs u none } else final).black =
            Function.update state.black u true := by
          split <;> exact sameBlack
        rw [still]
        exact served.waiting
      · split
        · exact located'.of_sets located'.represents rfl rfl
        · exact located'
      · split <;> exact sameBlack

end Answering

section Visit

variable {top : N} {w : N} {pairs : List (N × N)}

omit [DecidableEq N] in
/-- The places of nodes outside the part below a child stay the same when the visit goes to the child. -/
theorem Located.descend (located : Located g u members root state) (forest : IsForest g.Edge) (edge : g.Edge w u)
    (fresh : ∀ v ∈ members, ¬ Reaches g.Edge v w) : Located g w members root state := by
  refine ⟨located.represents, ?_, located.separate, located.nodes, located.black⟩
  intro v member
  obtain ⟨a, known, join⟩ := located.ancestor v member
  exact ⟨a, known, (forest.isJoin_child_iff edge (fresh v member)).mpr join⟩

/-- A node that is visited is its own ancestor. -/
theorem Located.makeSet (located : Located g u members root state) (node : u ∈ g.nodes)
    (fresh : ∀ v ∈ members, ¬ Reaches g.Edge v u) :
    Located g u (insert u members) (Function.update root u u) { state with
      sets := state.sets.makeSet u
      ancestor := Function.update state.ancestor u (some u) } := by
  have new : u ∉ members := fun member => fresh u member .refl
  have kept : ∀ v ∈ members, Function.update state.ancestor u (some u) (Function.update root u u v) =
      state.ancestor (root v) := by
    intro v member
    have other : v ≠ u := fun same => new (same ▸ member)
    have otherRoot : root v ≠ u := fun same => new (same ▸ located.represents.root_mem v member)
    rw [Function.update_of_ne other, Function.update_of_ne otherRoot]
  have apart : ∀ v ∈ members, state.ancestor (root v) ≠ some u := by
    intro v member same
    obtain ⟨a, known, join⟩ := located.ancestor v member
    rw [same, Option.some.injEq] at known
    exact fresh v member (known ▸ join.1)
  have own : Function.update state.ancestor u (some u) (Function.update root u u u) = some u := by
    rw [Function.update_self, Function.update_self]
  refine ⟨located.represents.makeSet new, ?_, ?_, ?_, ?_⟩
  · intro v member
    rcases Finset.mem_insert.mp member with rfl | member
    · exact ⟨v, own, isJoin_self v⟩
    · obtain ⟨a, known, join⟩ := located.ancestor v member
      exact ⟨a, (kept v member).trans known, join⟩
  · intro v vMember x xMember same
    dsimp only at same
    rcases Finset.mem_insert.mp vMember with rfl | vOld
    · rcases Finset.mem_insert.mp xMember with rfl | xOld
      · rfl
      · rw [own, kept x xOld] at same
        exact absurd same.symm (apart x xOld)
    · rcases Finset.mem_insert.mp xMember with rfl | xOld
      · rw [own, kept v vOld] at same
        exact absurd same (apart v vOld)
      · rw [kept v vOld, kept x xOld] at same
        have vOther : v ≠ u := fun same => new (same ▸ vOld)
        have xOther : x ≠ u := fun same => new (same ▸ xOld)
        rw [Function.update_of_ne vOther, Function.update_of_ne xOther]
        exact located.separate v vOld x xOld same
  · intro v member
    rcases Finset.mem_insert.mp member with rfl | member
    · exact node
    · exact located.nodes v member
  · intro v dark
    exact Finset.mem_insert_of_mem (located.black v dark)

/-- Uniting a visited child with its parent moves the places of all visited nodes to the parent. -/
theorem Located.uniteNeighbour (located : Located g w members root state) (forest : IsForest g.Edge)
    (edge : g.Edge w u) (uMember : u ∈ members) (wMember : w ∈ members) :
    ∃ sets ancestor root', g.uniteNeighbour u w state = .ok { state with sets := sets, ancestor := ancestor } ∧
      Located g u members root' { state with sets := sets, ancestor := ancestor } := by
  obtain ⟨united, joint, ran, isRoot, represents⟩ := located.represents.union located.card_le uMember wMember
  obtain ⟨sets, found, represents⟩ := represents.find located.card_le uMember
  rw [if_pos (Or.inl rfl)] at found
  have ofU : state.ancestor (root u) = some u := by
    obtain ⟨a, known, join⟩ := located.ancestor u uMember
    rw [known, join.eq forest (isJoin_above_left (.single edge))]
  have ofW : state.ancestor (root w) = some w := by
    obtain ⟨a, known, join⟩ := located.ancestor w wMember
    rw [known, join.eq forest (isJoin_self w)]
  have other : ∀ v, ¬ (root v = root u ∨ root v = root w) → root v ≠ joint := by
    rintro v apart rfl
    exact apart isRoot
  refine ⟨sets, Function.update state.ancestor joint (some u), _, ?_, represents, ?_, ?_, located.nodes, located.black⟩
  · simp only [JSGraph.uniteNeighbour, ran, found]
  · intro v member
    obtain ⟨a, known, join⟩ := located.ancestor v member
    dsimp only
    split_ifs with merged
    · refine ⟨u, Function.update_self _ _ _, isJoin_above ?_⟩
      rcases merged with same | same
      · rw [same, ofU, Option.some.injEq] at known
        exact known ▸ join.1
      · rw [same, ofW, Option.some.injEq] at known
        exact (known ▸ join.1 : Reaches g.Edge v w).tail edge
    · refine ⟨a, (Function.update_of_ne (other v merged) _ _).trans known, ?_⟩
      refine (forest.isJoin_child_iff edge ?_).mp join
      intro path
      have same := join.eq forest (isJoin_above path)
      refine merged (Or.inr (located.separate v member w wMember ?_))
      rw [known, ofW, same]
  · intro v vMember x xMember same
    dsimp only at same ⊢
    split_ifs at same ⊢ with vMerged xMerged xMerged
    · rfl
    · rw [Function.update_self, Function.update_of_ne (other x xMerged), ← ofU] at same
      exact absurd (Or.inl (located.separate u uMember x xMember same).symm) xMerged
    · rw [Function.update_self, Function.update_of_ne (other v vMerged), ← ofU] at same
      exact absurd (Or.inl (located.separate v vMember u uMember same)) vMerged
    · rw [Function.update_of_ne (other v vMerged), Function.update_of_ne (other x xMerged)] at same
      exact located.separate v vMember x xMember same

/-- After a visit the nodes of a part are visited and black in addition, and all open pairs wait. -/
def Visited (g : JSGraph N) (u : N) (members : Finset N) (part : N → Prop) (before final : LcaState N) : Prop :=
  ∃ members' root' pairs', Located g u members' root' final ∧ Waiting g pairs' final ∧
    (∀ v, v ∈ members' ↔ v ∈ members ∨ part v) ∧ ∀ v, final.black v = true ↔ before.black v = true ∨ part v

/-- A visit succeeds when no node below the given node is visited yet and no node above it is black. -/
def VisitSpec (g : JSGraph N) (visit : N → LcaState N → Except GraphError (LcaState N)) (u : N) : Prop :=
  ∀ (members : Finset N) (root : N → N) (pairs : List (N × N)) (state : LcaState N), Located g u members root state →
    Waiting g pairs state → (∀ v ∈ members, ¬ Reaches g.Edge v u) →
    (∀ a, Reaches g.Edge u a → state.black a = false) →
    ∃ final, visit u state = .ok final ∧ Visited g u members (fun v => Reaches g.Edge v u) state final

/-- The loop visits the parts below all of its children. -/
theorem neighbourLoop_spec (forest : IsForest g.Edge) (visit : N → LcaState N → Except GraphError (LcaState N))
    (children : List N) (edges : ∀ w ∈ children, g.Edge w u) (spec : ∀ w ∈ children, VisitSpec g visit w)
    (nodup : children.Nodup) (located : Located g u members root state) (waiting : Waiting g pairs state)
    (uMember : u ∈ members) (fresh : ∀ w ∈ children, ∀ v ∈ members, ¬ Reaches g.Edge v w)
    (above : ∀ a, Reaches g.Edge u a → state.black a = false) :
    ∃ final, g.neighbourLoop visit u children state = .ok final ∧
      Visited g u members (fun v => ∃ w ∈ children, Reaches g.Edge v w) state final := by
  induction children generalizing members root pairs state with
  | nil => exact ⟨state, rfl, members, root, pairs, located, waiting, by simp, by simp⟩
  | cons w children ih =>
      have edge := edges w List.mem_cons_self
      have wFresh := fresh w List.mem_cons_self
      have wAbove : ∀ a, Reaches g.Edge w a → state.black a = false := by
        intro a path
        by_cases same : a = w
        · apply Bool.eq_false_iff.mpr
          intro dark
          exact wFresh w (located.black w (same ▸ dark)) .refl
        · exact above a (forest.reaches_parent edge path same)
      obtain ⟨middle, ran, members₁, root₁, pairs₁, located₁, waiting₁, mem₁, black₁⟩ :=
        spec w List.mem_cons_self members root pairs state (located.descend forest edge wFresh) waiting wFresh wAbove
      obtain ⟨sets, ancestor, root₂, unites, located₂⟩ := located₁.uniteNeighbour forest edge
        ((mem₁ u).mpr (Or.inl uMember)) ((mem₁ w).mpr (Or.inr .refl))
      have waiting₂ : Waiting g pairs₁ { middle with sets := sets, ancestor := ancestor } :=
        { waiting₁ with pending := { waiting₁.pending with } }
      obtain ⟨final, rest, members', root', pairs', located', waiting', mem', black'⟩ := ih
        (fun x member => edges x (List.mem_cons_of_mem _ member))
        (fun x member => spec x (List.mem_cons_of_mem _ member)) (List.nodup_cons.mp nodup).2 located₂ waiting₂
        ((mem₁ u).mpr (Or.inl uMember)) (by
          intro x child v member path
          rcases (mem₁ v).mp member with old | below
          · exact fresh x (List.mem_cons_of_mem _ child) v old path
          · have same := forest.child_eq_of_reaches edge (edges x (List.mem_cons_of_mem _ child)) below path
            exact (List.nodup_cons.mp nodup).1 (same ▸ child)) (by
          intro a path
          apply Bool.eq_false_iff.mpr
          intro dark
          rcases (black₁ a).mp dark with old | below
          · exact Bool.false_ne_true ((above a path).symm.trans old)
          · exact forest.not_reaches_child edge (path.trans below))
      refine ⟨final, ?_, members', root', pairs', located', waiting', ?_, ?_⟩
      · rw [neighbourLoop, ran]
        simp only [Except.bind, unites]
        exact rest
      · intro v
        rw [mem', mem₁, or_assoc]
        simp only [List.mem_cons, exists_eq_or_imp]
      · intro v
        rw [black', black₁, or_assoc]
        simp only [List.mem_cons, exists_eq_or_imp]

/-- The part below a node is the node with the parts below its children. -/
theorem reaches_iff_child {v : N} : Reaches g.Edge v u ↔ v = u ∨ ∃ w ∈ g.radjList u, Reaches g.Edge v w := by
  constructor
  · intro path
    rcases path.cases_tail with same | ⟨w, before, edge⟩
    · exact Or.inl same.symm
    · exact Or.inr ⟨w, mem_radjList.mpr edge, before⟩
  · rintro (rfl | ⟨w, child, path⟩)
    · exact .refl
    · exact path.tail (mem_radjList.mp child)

/-- A visit with enough fuel for the part below the node succeeds. -/
theorem computeLcas_spec (tree : g.IsInTree top) (pick : ℕ → ℕ) {fuel : ℕ} (node : u ∈ g.nodes)
    (enough : (below g.Edge g.nodes.toFinset u).card ≤ fuel) :
    VisitSpec g (g.computeLcas pick true fuel) u := by
  induction fuel generalizing u with
  | zero =>
      have member : u ∈ below g.Edge g.nodes.toFinset u := mem_below.mpr ⟨List.mem_toFinset.mpr node, .refl⟩
      exact absurd (Finset.card_pos.mpr ⟨u, member⟩) (by omega)
  | succ fuel ih =>
      intro members root pairs state located waiting fresh above
      have forest := tree.forest
      have waiting₀ : Waiting g pairs { state with
          sets := state.sets.makeSet u
          ancestor := Function.update state.ancestor u (some u) } :=
        { waiting with pending := { waiting.pending with } }
      obtain ⟨middle, ran, members₁, root₁, pairs₁, located₁, waiting₁, mem₁, black₁⟩ :=
        neighbourLoop_spec forest (g.computeLcas pick true fuel) (g.radjList u)
          (fun w child => mem_radjList.mp child) (by
            intro w child
            have edge := mem_radjList.mp child
            have less := card_below_lt edge (forest.not_reaches_child edge) (List.mem_toFinset.mpr node)
            exact ih (g.inside _ edge).1 (by omega)) (tree.radjList_nodup u) (located.makeSet node fresh) waiting₀
          (Finset.mem_insert_self _ _) (by
            intro w child v member path
            have edge := mem_radjList.mp child
            rcases Finset.mem_insert.mp member with rfl | old
            · exact forest.not_reaches_child edge path
            · exact fresh v old (path.tail edge)) above
      have uMember : u ∈ members₁ := (mem₁ u).mpr (Or.inl (Finset.mem_insert_self _ _))
      have located₂ : Located g u members₁ root₁ { middle with black := Function.update middle.black u true } := by
        refine ⟨located₁.represents, located₁.ancestor, located₁.separate, located₁.nodes, ?_⟩
        intro v dark
        by_cases same : v = u
        · exact same ▸ uMember
        · exact located₁.black v ((Function.update_of_ne same _ _).symm.trans dark)
      obtain ⟨final, pairs', answers, waiting', located', sameBlack⟩ :=
        waiting₁.answerPairs located₂ node (by
          intro a path other
          apply Bool.eq_false_iff.mpr
          intro dark
          rcases (black₁ a).mp dark with old | ⟨w, child, toChild⟩
          · exact Bool.false_ne_true ((above a path).symm.trans old)
          · exact forest.not_reaches_child (mem_radjList.mp child) (path.trans toChild)) pick
      refine ⟨final, ?_, members₁, root₁, pairs', located', waiting', ?_, ?_⟩
      · simp only [computeLcas, ran, Except.bind]
        exact answers
      · intro v
        rw [mem₁]
        dsimp only
        rw [reaches_iff_child, Finset.mem_insert, or_comm (a := v = u), or_assoc]
      · intro v
        rw [sameBlack]
        dsimp only
        rw [reaches_iff_child]
        by_cases same : v = u
        · simp [same]
        · rw [Function.update_of_ne same, black₁]
          simp [same]

end Visit

section SourcesLca

variable {top : N}

/-- At the start the sources are the candidates. -/
theorem pending_resetState (g : JSGraph N) (draws : ℕ) : Pending g [] (g.resetState draws) := by
  have same (n : N) : Candidate [] g.sources n ↔ n ∈ g.sources := by simp [Candidate]
  refine ⟨fun _ => List.Perm.nil, by simp, ?_, g.sources_nodup, ?_, ?_, ?_⟩
  · intro n candidate
    exact ((g.mem_sources n).mp ((same n).mp candidate)).1
  · simpa [resetState] using List.length_pos_iff.mpr g.sources_ne
  · simp [resetState]
  · intro x
    exact forall_congr' fun n => by rw [resetState, same]

/-- When all nodes are black, one candidate is left and it is the union point. -/
theorem Waiting.isUnionPoint {pairs : List (N × N)} {final : LcaState N} (waiting : Waiting g pairs final)
    (black : ∀ n ∈ g.nodes, final.black n = true) :
    (∀ n, final.pairs n = none) ∧ ∃ n, final.lcas = [n] ∧ g.IsUnionPoint n := by
  have none : pairs = [] := by
    apply List.eq_nil_iff_forall_not_mem.mpr
    intro pair member
    have first := black pair.1 (waiting.pending.inside _ (Or.inr ⟨pair, member, Or.inl rfl⟩))
    have second := black pair.2 (waiting.pending.inside _ (Or.inr ⟨pair, member, Or.inr rfl⟩))
    rcases waiting.waiting pair member with white | white
    · exact Bool.false_ne_true (white.symm.trans first)
    · exact Bool.false_ne_true (white.symm.trans second)
  subst none
  constructor
  · exact waiting.served.pairs_eq_none
  · have one : final.lcas.length = 1 := by
      have atLeast := waiting.pending.some
      have atMost := waiting.short
      rw [List.length_nil] at atLeast
      omega
    obtain ⟨n, only⟩ := List.length_eq_one_iff.mp one
    have bounds (x : N) : Reaches g.Edge n x ↔ ∀ s ∈ g.sources, Reaches g.Edge s x := by
      rw [← waiting.pending.bounds x, only]
      simp [Candidate]
    exact ⟨n, only, (bounds n).mp .refl, fun x reached => (bounds x).mpr reached⟩

/-- The visit from the sink answers all pairs, and the last candidate is returned. -/
theorem IsInTree.getSourcesLca_ok (tree : g.IsInTree top) (pick : ℕ → ℕ) :
    ∃ n, g.getSourcesLca pick = .ok n ∧ g.IsUnionPoint n := by
  have start := pending_resetState g 0
  obtain ⟨dict, lcas, draws, pairs, paired, short, ledger, keyed⟩ :=
    start.ledger.pairAll pick (g.sources.length + 1) (Nat.lt_succ_self _)
  have located : Located g top ∅ id { g.resetState 0 with pairs := dict, lcas := lcas, draws := draws } := by
    refine ⟨.empty id, by simp, by simp, by simp, ?_⟩
    intro v dark
    exact absurd dark Bool.false_ne_true
  have waiting : Waiting g pairs { g.resetState 0 with pairs := dict, lcas := lcas, draws := draws } :=
    ⟨ledger.pending, keyed fun n => by simp [resetState], fun pair _ => Or.inl rfl, short⟩
  have enough : (below g.Edge g.nodes.toFinset top).card ≤ g.nodes.length := by
    refine (Finset.card_le_card fun v member => (mem_below.mp member).1).trans ?_
    exact List.toFinset_card_le _
  obtain ⟨final, visited, members, root, pairs', -, waiting', -, black⟩ :=
    computeLcas_spec tree pick tree.root_mem enough ∅ id pairs _ located waiting (by simp) fun _ _ => rfl
  obtain ⟨answered, n, only, unionPoint⟩ := waiting'.isUnionPoint fun n node =>
    (black n).mpr (Or.inr (tree.reaches_root node))
  refine ⟨n, ?_, unionPoint⟩
  have popped : popLca pick final = .ok (n, { final with lcas := [], draws := final.draws + 1 }) := by
    obtain ⟨m, member, pop⟩ := popLca_spec pick final (by simp [only])
    rw [only, List.mem_singleton] at member
    rw [pop, member, only, List.erase_cons_head]
  rw [getSourcesLca, tree.sinks, tryRoots, paired]
  simp only [Except.bind, visited]
  simp [answered, only, popped, Except.map]

/-- In every in-tree and for every order of the draws, the search returns the only union point of the sources. -/
theorem getSourcesLca_isUnionPoint (g : JSGraph N) (top : N) (tree : g.IsInTree top) (pick : ℕ → ℕ) :
    ∃ n, g.getSourcesLca pick = .ok n ∧ g.IsUnionPoint n ∧ ∀ x, g.IsUnionPoint x → x = n := by
  obtain ⟨n, found, point⟩ := tree.getSourcesLca_ok pick
  exact ⟨n, found, point, fun _ other => point.eq tree.forest other⟩

end SourcesLca

/-- Two pairs of sources meet one after the other before the sink. -/
def twoJoins : JSGraph (Fin 7) where
  nodes := [0, 1, 2, 3, 4, 5, 6]
  edges := [(0, 3), (1, 3), (3, 5), (2, 4), (4, 5), (5, 6)]
  sources := [2, 0, 1]
  sinks := [6]
  nodes_nodup := by decide
  inside := by decide
  sources_nodup := by decide
  mem_sources := by decide
  sinks_nodup := by decide
  mem_sinks := by decide
  sources_ne := by decide
  sinks_ne := by decide

theorem twoJoins_isInTree : twoJoins.IsInTree 6 := by
  refine ⟨rfl, by decide, IsForest.acyclic_of_lt fun v u edge => ?_⟩
  have increasing : ∀ edge ∈ twoJoins.edges, edge.1 < edge.2 := by decide
  exact increasing (v, u) edge

/-- The sources of this graph meet before its sink. -/
theorem getSourcesLca_isUnionPoint_twoJoins : twoJoins.IsInTree 6 ∧
    ∃ n, twoJoins.getSourcesLca (fun draw => draw + 1) = .ok n ∧ twoJoins.IsUnionPoint n ∧
      ∀ x, twoJoins.IsUnionPoint x → x = n :=
  ⟨twoJoins_isInTree, getSourcesLca_isUnionPoint twoJoins 6 twoJoins_isInTree fun draw => draw + 1⟩

example : twoJoins.getSourcesLca (fun _ => 0) = .ok 5 := by decide

end JSGraph

end JetStream
