import JetStream.Control.SourcesLca
import JetStream.Lib.DisjointForest

namespace JetStream

namespace JSGraph

open IsForest DisjointSets

variable {N : Type} [DecidableEq N] {g : JSGraph N} {u v root : N} {stack : List N} {pairs : List (N × N)}
  {state : LcaState N}

section Gathered

/-- The ancestor of each set is on the way from the first node to the current one, and it points to the root of the
set. A node may be visited again, so nothing is said about the ranks. -/
structure Gathered (g : JSGraph N) (stack : List N) (state : LcaState N) : Prop where
  rooted : state.sets.Rooted g.nodes.toFinset
  entered : ∀ a ∈ stack, state.sets.parent a ≠ none
  ancestor : ∀ r, state.sets.parent r = some r → ∃ a ∈ stack, state.ancestor r = some a ∧ state.sets.parent a = some r
  black : ∀ v, state.black v = true → state.sets.parent v ≠ none

theorem card_toFinset_nodes_le (g : JSGraph N) : g.nodes.toFinset.card ≤ g.nodes.length := List.toFinset_card_le _

/-- A search in the sets changes nothing that matters. -/
theorem Gathered.compressed (gathered : Gathered g stack state) {next : LcaState N}
    (compressed : Compressed state.sets next.sets) (sameAncestor : next.ancestor = state.ancestor)
    (sameBlack : next.black = state.black) : Gathered g stack next := by
  refine ⟨gathered.rooted.compressed compressed, fun a member => ?_, fun r own => ?_, fun v dark => ?_⟩
  · exact (compressed.parent_ne_none a).mpr (gathered.entered a member)
  · have before := compressed.parent_self own
    obtain ⟨a, member, known, points⟩ := gathered.ancestor r before
    exact ⟨a, member, (congrFun sameAncestor r).trans known, compressed.parent_eq points before⟩
  · rw [sameBlack] at dark
    exact (compressed.parent_ne_none v).mpr (gathered.black v dark)

/-- A node that is visited is its own ancestor, also when it is visited again. -/
theorem Gathered.makeSet (gathered : Gathered g stack state) (node : u ∈ g.nodes) (fresh : u ∉ stack) :
    Gathered g (u :: stack) { state with
      sets := state.sets.makeSet u
      ancestor := Function.update state.ancestor u (some u) } := by
  have self : (state.sets.makeSet u).parent u = some u := Function.update_self _ _ _
  have other {x : N} (apart : x ≠ u) : (state.sets.makeSet u).parent x = state.sets.parent x :=
    Function.update_of_ne apart _ _
  have known {x : N} (before : state.sets.parent x ≠ none) : (state.sets.makeSet u).parent x ≠ none := by
    by_cases same : x = u
    · simp [same, self]
    · rwa [other same]
  refine ⟨⟨fun x there => ?_, fun x there => ?_⟩, ?_, fun r own => ?_, fun x dark => known (gathered.black x dark)⟩
  · by_cases same : x = u
    · exact same ▸ List.mem_toFinset.mpr node
    · exact gathered.rooted.inside x (by rwa [← other same])
  · by_cases same : x = u
    · subst same
      exact ⟨x, root_self self⟩
    · obtain ⟨r, isRoot⟩ := gathered.rooted.root x (by rwa [← other same])
      rcases isRoot.makeSet u with before | now
      · exact ⟨r, before⟩
      · exact ⟨u, now⟩
  · rintro a (_ | ⟨_, member⟩)
    · exact self ▸ Option.some_ne_none u
    · exact known (gathered.entered a member)
  · by_cases same : r = u
    · subst same
      exact ⟨r, List.mem_cons_self, Function.update_self _ _ _, self⟩
    · obtain ⟨a, member, isAncestor, points⟩ := gathered.ancestor r (by rwa [← other same])
      refine ⟨a, List.mem_cons_of_mem _ member, (Function.update_of_ne same _ _).trans isAncestor, ?_⟩
      rw [other (fun same => fresh (same ▸ member)), points]

/-- The set of a visited neighbour becomes a part of the set of the current node. -/
theorem Gathered.uniteNeighbour (gathered : Gathered g (v :: u :: stack) state) :
    ∃ sets ancestor, g.uniteNeighbour u v state = .ok { state with sets := sets, ancestor := ancestor } ∧
      Gathered g (u :: stack) { state with sets := sets, ancestor := ancestor } := by
  have enough := card_toFinset_nodes_le g
  obtain ⟨mid, r, q, top, united, rootU, rootV, either, rooted, toTop, tops, kept, known⟩ := gathered.rooted.union enough
    (gathered.entered u (by simp)) (gathered.entered v (by simp))
  obtain ⟨last, p, found, isRoot, compressed, points⟩ := rooted.find enough
    ((known u).mpr (gathered.entered u (by simp)))
  obtain rfl := toTop.unique isRoot
  have knownAfter (x : N) (before : state.sets.parent x ≠ none) : last.parent x ≠ none :=
    (compressed.parent_ne_none x).mpr ((known x).mpr before)
  refine ⟨last, Function.update state.ancestor top (some u), ?_, rooted.compressed compressed, fun a member => ?_,
    fun z own => ?_, fun x dark => knownAfter x (gathered.black x dark)⟩
  · simp only [JSGraph.uniteNeighbour, united, found]
  · exact knownAfter a (gathered.entered a (List.mem_cons_of_mem _ member))
  · rcases tops z (compressed.parent_self own) with rfl | ⟨apart, before⟩
    · exact ⟨u, List.mem_cons_self, Function.update_self _ _ _, points⟩
    · have other : z ≠ top := by
        rintro rfl
        exact apart either
      obtain ⟨a, member, isAncestor, toRoot⟩ := gathered.ancestor z before
      refine ⟨a, ?_, (Function.update_of_ne other _ _).trans isAncestor, ?_⟩
      · rcases List.mem_cons.mp member with rfl | member
        · exact absurd (Or.inr ((root_of_parent toRoot before).unique rootV)) apart
        · exact member
      · exact compressed.parent_eq (kept a z toRoot before apart) (kept z z before before apart)

end Gathered

section Visit

/-- A node will answer its pairs when it is not black or when its visit has not ended. -/
def Busy (stack : List N) (black : N → Bool) (n : N) : Prop := black n = false ∨ n ∈ stack

/-- The candidates are sources or reach the root. A source that is not black is still a candidate, and it is the only
candidate exactly when it is the only source. -/
structure KeepsSources (g : JSGraph N) (root : N) (black : N → Bool) (candidate : N → Prop) : Prop where
  upstream : ∀ n, candidate n → n ∈ g.sources ∨ Reaches g.Edge n root
  kept : ∀ s ∈ g.sources, black s = false → candidate s ∧ (g.sources = [s] ∨ ∃ n, candidate n ∧ n ≠ s)
  alone : ∀ s, g.sources = [s] → ∀ n, candidate n → n = s

variable {black : N → Bool}

omit [DecidableEq N] in
theorem answers_of_black {lca : N} (uDark : black u = true) (vDark : black v = true) (different : u ≠ v)
    (path : Reaches g.Edge lca root) (apart : ∀ s ∈ g.sources, black s = false → lca ≠ s) :
    Answers (KeepsSources g root black) u v lca := by
  rintro rest ⟨upstream, kept, alone⟩
  refine ⟨?_, fun s source white => ?_, fun s only => ?_⟩
  · rintro n (rfl | other)
    · exact Or.inr path
    · exact upstream n (Or.inr other)
  · refine ⟨Or.inr ?_, Or.inr ⟨lca, Or.inl rfl, apart s source white⟩⟩
    rcases (kept s source white).1 with (rfl | rfl) | other
    · exact absurd (white.symm.trans uDark) Bool.false_ne_true
    · exact absurd (white.symm.trans vDark) Bool.false_ne_true
    · exact other
  · have first := alone s only u (Or.inl (Or.inl rfl))
    have second := alone s only v (Or.inl (Or.inr rfl))
    exact absurd (first.trans second.symm) different

/-- The ancestor of a black node is on the stack, so it answers the pair and will answer its own ones. -/
theorem resolves_gathered (dark : black u = true) (below : ∀ a ∈ stack, Relation.TransGen g.Edge u a)
    (up : ∀ a ∈ u :: stack, Reaches g.Edge a root) :
    Resolves g (KeepsSources g root black) (Busy stack black) u
      fun next => Gathered g (u :: stack) next ∧ next.black = black := by
  rintro next v ⟨gathered, rfl⟩ vDark different
  obtain ⟨sets, r, found, isRoot, compressed, -⟩ :=
    gathered.rooted.find (card_toFinset_nodes_le g) (gathered.black v vDark)
  obtain ⟨lca, member, known, -⟩ := gathered.ancestor r isRoot.parent_root
  refine ⟨sets, r, lca, found, known, answers_of_black dark vDark different (up lca member) ?_, ?_, ?_⟩
  · rintro s source white rfl
    rcases List.mem_cons.mp member with rfl | member
    · exact absurd (white.symm.trans dark) Bool.false_ne_true
    · exact not_transGen_source source (below lca member)
  · exact (List.mem_cons.mp member).imp_right Or.inr
  · rintro last rfl sameAncestor sameBlack
    exact ⟨gathered.compressed compressed sameAncestor sameBlack, sameBlack⟩

/-- A visit of a node succeeds at every time, and afterwards the nodes that reach it are black in addition. -/
def Completes (g : JSGraph N) (root : N) (visit : N → LcaState N → Except GraphError (LcaState N)) (u : N) : Prop :=
  ∀ (stack : List N) (pairs : List (N × N)) (state : LcaState N), (∀ a ∈ stack, Relation.TransGen g.Edge u a) →
    (∀ a ∈ stack, Reaches g.Edge a root) → Gathered g stack state →
    Served g (KeepsSources g root state.black) (Busy stack state.black) pairs state →
    ∃ final pairs', visit u state = .ok final ∧ Gathered g (u :: stack) final ∧
      Served g (KeepsSources g root final.black) (Busy stack final.black) pairs' final ∧
      ∀ v, final.black v = true ↔ state.black v = true ∨ Reaches g.Edge v u

theorem neighbourLoop_completes (visit : N → LcaState N → Except GraphError (LcaState N)) (children : List N)
    (edges : ∀ w ∈ children, g.Edge w u) (spec : ∀ w ∈ children, Completes g root visit w)
    (below : ∀ a ∈ stack, Relation.TransGen g.Edge u a) (up : ∀ a ∈ u :: stack, Reaches g.Edge a root)
    (gathered : Gathered g (u :: stack) state)
    (served : Served g (KeepsSources g root state.black) (Busy (u :: stack) state.black) pairs state) :
    ∃ final pairs', g.neighbourLoop visit u children state = .ok final ∧ Gathered g (u :: stack) final ∧
      Served g (KeepsSources g root final.black) (Busy (u :: stack) final.black) pairs' final ∧
      ∀ v, final.black v = true ↔ state.black v = true ∨ ∃ w ∈ children, Reaches g.Edge v w := by
  induction children generalizing pairs state with
  | nil => exact ⟨state, pairs, rfl, gathered, served, by simp⟩
  | cons w children ih =>
      have edge := edges w List.mem_cons_self
      have wBelow : ∀ a ∈ u :: stack, Relation.TransGen g.Edge w a := by
        rintro a (_ | ⟨_, member⟩)
        · exact .single edge
        · exact (below a member).head edge
      obtain ⟨middle, pairs₁, ran, gathered₁, served₁, black₁⟩ :=
        spec w List.mem_cons_self (u :: stack) pairs state wBelow up gathered served
      obtain ⟨sets, ancestor, unites, gathered₂⟩ := gathered₁.uniteNeighbour
      have served₂ : Served g (KeepsSources g root middle.black) (Busy (u :: stack) middle.black) pairs₁
          { middle with sets := sets, ancestor := ancestor } :=
        served₁.imp (fun _ keeps => keeps) (fun _ busy => busy) rfl rfl
      obtain ⟨final, pairs', rest, gathered', served', black'⟩ := ih
        (fun x member => edges x (List.mem_cons_of_mem _ member))
        (fun x member => spec x (List.mem_cons_of_mem _ member)) gathered₂ served₂
      refine ⟨final, pairs', ?_, gathered', served', fun v => ?_⟩
      · rw [neighbourLoop, ran]
        simp only [Except.bind, unites]
        exact rest
      · rw [black', black₁, or_assoc]
        simp only [List.mem_cons, exists_eq_or_imp]

omit [DecidableEq N] in
theorem KeepsSources.darker {darker : N → Bool} (more : ∀ n, black n = true → darker n = true) {candidate : N → Prop}
    (keeps : KeepsSources g root black candidate) : KeepsSources g root darker candidate := by
  refine ⟨keeps.upstream, fun s source white => keeps.kept s source ?_, keeps.alone⟩
  apply Bool.eq_false_iff.mpr
  intro dark
  exact absurd (white.symm.trans (more s dark)) Bool.false_ne_true

/-- No cycle leads to the node. -/
def Clear (g : JSGraph N) (root : N) : Prop := ∀ x, Reaches g.Edge x root → ¬ Relation.TransGen g.Edge x x

/-- A visit with enough fuel for the part below the node succeeds when no cycle leads to the root. -/
theorem computeLcas_completes (clear : g.Clear root) (pick : ℕ → ℕ) {fuel : ℕ} (node : u ∈ g.nodes)
    (toRoot : Reaches g.Edge u root) (enough : (below g.Edge g.nodes.toFinset u).card ≤ fuel) :
    Completes g root (g.computeLcas pick true fuel) u := by
  induction fuel generalizing u with
  | zero =>
      have member : u ∈ below g.Edge g.nodes.toFinset u := mem_below.mpr ⟨List.mem_toFinset.mpr node, .refl⟩
      exact absurd (Finset.card_pos.mpr ⟨u, member⟩) (by omega)
  | succ fuel ih =>
      intro stack pairs state below up gathered served
      have fresh : u ∉ stack := fun member => clear u toRoot (below u member)
      have upAll : ∀ a ∈ u :: stack, Reaches g.Edge a root := List.forall_mem_cons.mpr ⟨toRoot, up⟩
      have entered : Served g (KeepsSources g root state.black) (Busy (u :: stack) state.black) pairs { state with
          sets := state.sets.makeSet u
          ancestor := Function.update state.ancestor u (some u) } :=
        served.imp (fun _ keeps => keeps) (fun _ busy => busy.imp_right (List.mem_cons_of_mem u)) rfl rfl
      obtain ⟨middle, pairs₁, ran, gathered₁, served₁, black₁⟩ :=
        neighbourLoop_completes (g.computeLcas pick true fuel) (g.radjList u) (fun w child => mem_radjList.mp child)
          (by
            intro w child
            have edge := mem_radjList.mp child
            have apart : ¬ Reaches g.Edge u w := fun path => clear u toRoot (.tail' path edge)
            have less := card_below_lt edge apart (List.mem_toFinset.mpr node)
            exact ih (g.inside _ edge).1 (toRoot.head edge) (by omega)) below upAll (gathered.makeSet node fresh) entered
      have gathered₂ : Gathered g (u :: stack) { middle with black := Function.update middle.black u true } := by
        refine { gathered₁ with black := fun v dark => ?_ }
        by_cases same : v = u
        · exact same ▸ gathered₁.entered u List.mem_cons_self
        · exact gathered₁.black v ((Function.update_of_ne same _ _).symm.trans dark)
      have served₂ : Served g (KeepsSources g root (Function.update middle.black u true))
          (fun n => n = u ∨ Busy stack (Function.update middle.black u true) n) pairs₁
          { middle with black := Function.update middle.black u true } := by
        refine served₁.imp (fun _ keeps => keeps.darker fun n dark => ?_) (fun n busy => ?_) rfl rfl
        · by_cases same : n = u
          · rw [same, Function.update_self]
          · rw [Function.update_of_ne same, dark]
        · by_cases same : n = u
          · exact Or.inl same
          · refine Or.inr (busy.imp (fun white => ?_) fun member => (List.mem_cons.mp member).resolve_left same)
            rw [Function.update_of_ne same, white]
      obtain ⟨final, pairs', answers, served', ⟨gathered', -⟩, sameBlack⟩ := served₂.answerPairs
        (resolves_gathered (Function.update_self _ _ _) below upAll) ⟨gathered₂, rfl⟩
        (fun _ _ here => ⟨{ here.1 with }, here.2⟩) (fun _ white => Or.inl white) pick
      refine ⟨final, pairs', ?_, gathered', sameBlack ▸ served', fun v => ?_⟩
      · simp only [computeLcas, ran, Except.bind]
        exact answers
      · rw [sameBlack, reaches_iff_child]
        dsimp only
        by_cases same : v = u
        · simp [same]
        · rw [Function.update_of_ne same, black₁]
          simp [same]

end Visit

end JSGraph

end JetStream
