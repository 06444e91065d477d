import JetStream.Dataplane.AlterRefusal

namespace JetStream.Node

open Attempt
open CubeManager (toCanonical)

section Edges

variable {env : Surroundings} {state next : Wiring} {edge : Edge}

theorem liveType_eq_some {operators : OperatorTable} {id : TaskID} {op : COperator}
    (alive : operators.get? id = some (some op)) : liveType operators id = some op.type := by
  rw [liveType, alive]
  rfl

theorem liveType_eq_none {operators after : OperatorTable} {id : TaskID}
    (missing : getOperator operators id = (none, after)) : liveType operators id = none := by
  rcases getOperator_none missing with ⟨null, -⟩ | ⟨absent, -⟩
  · rw [liveType, null]
    rfl
  · rw [liveType, absent]
    rfl

theorem liveType_set {operators : OperatorTable} {id : TaskID} {op later : COperator}
    (alive : operators.get? id = some (some op)) (same : later.type = op.type) :
    liveType (operators.set id (some later)) = liveType operators := by
  funext other
  rw [liveType, OrderedMap.get?_set]
  split
  · rename_i here
    rw [here, liveType_eq_some alive, ← same]
    rfl
  · rfl

/-- An edge that is accepted can be connected. -/
theorem connectEdge_connectable (ran : connectEdge env state edge = .done next) :
    Connectable (liveType state.operators) state.cubeMgr edge := by
  rcases connectEdge_done ran with ⟨task, starts, operator⟩ | ⟨noSource, srcCube, starts, attached⟩
  · obtain ⟨⟨op, alive⟩, ends, -⟩ := connectOperator_done operator
    rw [Connectable, starts]
    refine ⟨?_, ?_⟩
    · rw [liveType_eq_some alive]
      nofun
    · intro dest here
      obtain ⟨destOp, destAlive⟩ := ends dest here
      rw [liveType_eq_some destAlive]
      nofun
  · obtain ⟨cube, sub, listed, alive, subscribes, -, -⟩ := connectCube_done attached
    rw [Connectable, noSource, starts]
    refine ⟨?_, sub.type, liveType_eq_some alive, subscribes⟩
    rw [listed]
    nofun

/-- An edge that is refused cannot be connected. -/
theorem connectEdge_not_connectable {err : String} (ran : connectEdge env state edge = .refused err next) :
    ¬Connectable (liveType state.operators) state.cubeMgr edge := by
  intro connectable
  unfold connectEdge at ran
  split at ran
  · rename_i task starts
    rw [Connectable, starts] at connectable
    unfold connectOperator at ran
    split at ran
    · rename_i after missing
      exact connectable.1 (liveType_eq_none missing)
    · dsimp only at ran
      split at ran
      · cases ran
      · rename_i dest ends
        split at ran
        · rename_i after missing
          exact connectable.2 dest ends (liveType_eq_none missing)
        · cases ran
  · rename_i noSource noCube
    rw [Connectable, noSource, noCube] at connectable
    exact connectable
  · rename_i srcCube noSource starts
    rw [Connectable, noSource, starts] at connectable
    obtain ⟨listed, type, alive, subscribes⟩ := connectable
    unfold connectCube at ran
    dsimp only at ran
    split at ran
    · rename_i missing
      exact listed missing
    · rename_i cube here missing
      rw [liveType] at alive
      obtain ⟨op, found, rfl⟩ := Option.map_eq_some_iff.mp alive
      have looked : (getOperator state.operators (subscriberOf edge)).1 = some op := by
        rw [getOperator]
        cases entry : state.operators.get? (subscriberOf edge) with
        | none =>
            rw [entry] at found
            cases found
        | some known =>
            rw [entry] at found
            exact found
      rw [looked, Option.filter_some, if_pos subscribes] at missing
      cases missing
    · split at ran
      · cases ran
      · cases ran

/-- The same names are in the tables, and the operators that are alive have the same classes. -/
structure SameNames (before after : Wiring) : Prop where
  types : liveType after.operators = liveType before.operators
  keys : ∀ id, after.operators.get? id = none ↔ before.operators.get? id = none
  cubes : ∀ name, after.cubeMgr.getCube name = none ↔ before.cubeMgr.getCube name = none

theorem SameNames.trans {first second third : Wiring} (left : SameNames first second) (right : SameNames second third) :
    SameNames first third where
  types := right.types.trans left.types
  keys id := (right.keys id).trans (left.keys id)
  cubes name := (right.cubes name).trans (left.cubes name)

theorem connectEdge_sameNames (ran : connectEdge env state edge = .done next) : SameNames state next := by
  rcases connectEdge_done ran with ⟨task, -, operator⟩ | ⟨-, srcCube, -, attached⟩
  · obtain ⟨-, -, rfl⟩ := connectOperator_done operator
    exact ⟨rfl, fun _ => Iff.rfl, fun _ => Iff.rfl⟩
  · obtain ⟨cube, sub, listed, alive, -, -, rfl⟩ := connectCube_done attached
    constructor
    · exact liveType_set alive rfl
    · intro id
      dsimp only
      rw [OrderedMap.get?_set]
      split
      · rename_i same
        simp [same, alive]
      · exact Iff.rfl
    · intro name
      dsimp only
      rw [CubeManager.getCube, CubeManager.addSubscriber, OrderedMap.get?_set]
      split
      · rename_i same
        rw [CubeManager.getCube] at listed ⊢
        simp [same, listed]
      · exact Iff.rfl

theorem loop_connectEdge_sameNames {edges : List Edge} (ran : loop (connectEdge env) state edges = .done next) :
    SameNames state next := by
  apply loop_invariant (SameNames state) _ ⟨rfl, fun _ => Iff.rfl, fun _ => Iff.rfl⟩ ran
  intro edge member reached later kept stepped
  exact kept.trans (connectEdge_sameNames stepped)

/-- Refused edges neither create nor destroy a cube. -/
theorem loop_connectEdge_refused_cubes {edges : List Edge} {err : String}
    (ran : loop (connectEdge env) state edges = .refused err next) (name : String) :
    next.cubeMgr.getCube name = none ↔ state.cubeMgr.getCube name = none := by
  obtain ⟨before, edge, after, reached, -, done, refused⟩ := loop_refused ran
  rw [(connectEdge_refused refused).1]
  exact (loop_connectEdge_sameNames done).cubes name

theorem SameNames.connectable_iff {before after : Wiring} (same : SameNames before after) (edge : Edge) :
    Connectable (liveType after.operators) after.cubeMgr edge ↔
      Connectable (liveType before.operators) before.cubeMgr edge := by
  rw [Connectable, Connectable, same.types]
  cases edge.src with
  | some task => exact Iff.rfl
  | none =>
      cases edge.srcCube with
      | none => exact Iff.rfl
      | some srcCube => exact and_congr_left' (not_congr (same.cubes srcCube))

variable (env) in
/-- The edges are connected as long as they can be. -/
theorem connectEdge_decides (start : Wiring) :
    Decides (connectEdge env) start fun _ => Connectable (liveType start.operators) start.cubeMgr where
  done _ edge _ _ ran stepped :=
    ((loop_connectEdge_sameNames ran).connectable_iff edge).mp (connectEdge_connectable stepped)
  refused _ edge _ _ _ ran stepped connectable :=
    connectEdge_not_connectable stepped (((loop_connectEdge_sameNames ran).connectable_iff edge).mpr connectable)

/-- The last edge from an operator is kept for its chain. -/
theorem loop_connectEdge_outedge {edges : List Edge} {operators : OperatorTable} {cubes : CubeManager}
    {opToPred : OrderedMap TaskID TaskID} {final : Wiring}
    (ran : loop (connectEdge env) ⟨operators, cubes, .empty, opToPred⟩ edges = .done final) (id : TaskID) :
    final.opToOutedge.get? id = outedge edges id := by
  apply loop_prefix (fun edges (state : Wiring) => state.opToOutedge.get? id = outedge edges id) _ rfl ran
  intro before edge state next kept stepped
  rw [outedge, List.reverse_append, List.reverse_singleton, List.singleton_append, List.find?_cons]
  rcases connectEdge_done stepped with ⟨task, starts, operator⟩ | ⟨noSource, srcCube, -, attached⟩
  · obtain ⟨-, -, rfl⟩ := connectOperator_done operator
    dsimp only
    rw [OrderedMap.get?_set, starts]
    by_cases same : id = toLex (edge.computation, task)
    · simp [same]
    · rw [if_neg same, kept]
      simp [Ne.symm same, outedge]
  · obtain ⟨cube, sub, -, -, -, -, rfl⟩ := connectCube_done attached
    rw [noSource]
    exact kept

/-- A cube has a subscriber that it did not have, and the subscriber knows it. -/
def Grown (cubes : CubeManager) (state : Wiring) : Prop :=
  ∃ name cube id number op, state.cubeMgr.cubeMap.get? name = some cube ∧ cube.subscribers.get? id = some number ∧
    (∀ old, cubes.cubeMap.get? name = some old → old.subscribers.get? id ≠ some number) ∧
    state.operators.get? id = some (some op) ∧ op.cube ≠ none

theorem Grown.ne {cubes : CubeManager} (grown : Grown cubes state) : state.cubeMgr ≠ cubes := by
  intro same
  obtain ⟨name, cube, id, number, op, listed, subscribed, new, -⟩ := grown
  rw [same] at listed
  exact new cube listed subscribed

theorem Grown.step {cubes : CubeManager} (grown : Grown cubes state) (ran : connectEdge env state edge = .done next) :
    Grown cubes next := by
  obtain ⟨name, cube, id, number, op, listed, subscribed, new, alive, attached⟩ := grown
  rcases connectEdge_done ran with ⟨task, -, operator⟩ | ⟨-, srcCube, -, other⟩
  · obtain ⟨-, -, rfl⟩ := connectOperator_done operator
    exact ⟨name, cube, id, number, op, listed, subscribed, new, alive, attached⟩
  · obtain ⟨found, sub, here, subAlive, -, free, rfl⟩ := connectCube_done other
    have different : id ≠ subscriberOf edge := by
      rintro rfl
      obtain rfl := Option.some.inj (Option.some.inj (alive.symm.trans subAlive))
      exact attached free
    have stays : (state.operators.set (subscriberOf edge) (some {sub with cube := some found.name})).get? id =
        some (some op) := by
      rw [OrderedMap.get?_set, if_neg different]
      exact alive
    by_cases same : name = toCanonical srcCube
    · rw [CubeManager.getCube, ← same] at here
      obtain rfl := Option.some.inj (listed.symm.trans here)
      refine ⟨name, cube.addSubscriber (subscriberOf edge) sub.request, id, number, op, ?_, ?_, new, stays, attached⟩
      · dsimp only
        rw [CubeManager.addSubscriber, OrderedMap.get?_set, if_pos same]
      · rw [CubeManager.DataCube.addSubscriber, OrderedMap.get?_set, if_neg different]
        exact subscribed
    · refine ⟨name, cube, id, number, op, ?_, subscribed, new, stays, attached⟩
      dsimp only
      rw [CubeManager.addSubscriber, OrderedMap.get?_set, if_neg same]
      exact listed

/-- An edge from a cube brings a new subscriber. -/
theorem connectEdge_grown (attached : state.cubeMgr.Attached state.operators) (noSource : edge.src = none)
    (ran : connectEdge env state edge = .done next) : Grown state.cubeMgr next := by
  rcases connectEdge_done ran with ⟨task, starts, -⟩ | ⟨-, srcCube, -, connected⟩
  · exact absurd (noSource.symm.trans starts) nofun
  · obtain ⟨cube, sub, listed, alive, -, free, rfl⟩ := connectCube_done connected
    refine ⟨toCanonical srcCube, cube.addSubscriber (subscriberOf edge) sub.request, subscriberOf edge, sub.request,
      {sub with cube := some cube.name}, ?_, ?_, ?_, ?_, nofun⟩
    · dsimp only
      rw [CubeManager.addSubscriber, OrderedMap.get?_set, if_pos rfl]
    · rw [CubeManager.DataCube.addSubscriber, OrderedMap.get?_set, if_pos rfl]
    · intro old found subscribed
      exact attached _ old _ _ sub found subscribed alive rfl free
    · dsimp only
      rw [OrderedMap.get?_set, if_pos rfl]

theorem connectEdge_sameCubes (starts : edge.src ≠ none) (ran : connectEdge env state edge = .done next) :
    next.operators = state.operators ∧ next.cubeMgr = state.cubeMgr := by
  rcases connectEdge_done ran with ⟨task, -, operator⟩ | ⟨noSource, -⟩
  · obtain ⟨-, -, rfl⟩ := connectOperator_done operator
    exact ⟨rfl, rfl⟩
  · exact absurd noSource starts

/-- The edges leave operators and cubes as they were exactly when none of them starts at a cube. -/
theorem loop_connectEdge_cubes_iff {edges : List Edge} {final : Wiring} (attached : state.cubeMgr.Attached state.operators)
    (ran : loop (connectEdge env) state edges = .done final) :
    (final.cubeMgr = state.cubeMgr ↔ ∀ edge ∈ edges, edge.src ≠ none) ∧
      ((∀ edge ∈ edges, edge.src ≠ none) → final.operators = state.operators) := by
  induction edges generalizing state with
  | nil =>
      obtain rfl := Attempt.done.inj ran
      simp
  | cons edge rest ih =>
      obtain ⟨next, stepped, following⟩ := bind_eq_done.mp ran
      by_cases starts : edge.src = none
      · have grown : Grown state.cubeMgr final := by
          apply loop_invariant (Grown state.cubeMgr) _ (connectEdge_grown attached starts stepped) following
          intro other member reached later kept stepped
          exact kept.step stepped
        refine ⟨iff_of_false grown.ne ?_, ?_⟩
        · intro every
          exact every edge List.mem_cons_self starts
        · intro every
          exact absurd starts (every edge List.mem_cons_self)
      · obtain ⟨operators, cubes⟩ := connectEdge_sameCubes starts stepped
        rw [← operators, ← cubes] at attached
        have rest := ih attached following
        rw [operators, cubes] at rest
        rw [List.forall_mem_cons, and_iff_right starts]
        exact rest

end Edges

section Chains

variable {env : Surroundings} {fuel : ℕ} {operators : OperatorTable} {cubeMgr : CubeManager}
  {opToOutedge : OrderedMap TaskID Edge} {opToPred : OrderedMap TaskID TaskID} {edges : List Edge}

theorem follows_iff {types : TaskID → Option OperatorType} {id passed : TaskID} {hitEnd : Bool} :
    Follows types edges id hitEnd passed ↔
      passed = id ∨ hitEnd = false ∧ ∃ edge dest type, outedge edges id = some edge ∧ localDest edge = some dest ∧
        types dest = some type ∧ Follows types edges dest type.isChainEnd passed := by
  constructor
  · intro follows
    cases follows with
    | here => exact Or.inl rfl
    | next leaves ends alive rest => exact Or.inr ⟨rfl, _, _, _, leaves, ends, alive, rest⟩
  · intro either
    rcases either with rfl | ⟨rfl, edge, dest, type, leaves, ends, alive, rest⟩
    · exact Follows.here passed hitEnd
    · exact Follows.next leaves ends alive rest

/-- The next member is an operator at the local end of the edge, or the chain leaves the operators. -/
theorem nextMember_some {opID nextID : TaskID} {edge : Edge} {next : ChainMember} {nextEnd : Bool}
    (found : nextMember operators cubeMgr opID edge = some (nextID, next, nextEnd)) :
    (localDest edge = none ∧ nextID = opID ∧ ∀ id, next ≠ .operator id) ∨
      ∃ op, localDest edge = some nextID ∧ operators.get? nextID = some (some op) ∧ next = .operator nextID ∧
        nextEnd = op.type.isChainEnd := by
  obtain ⟨computation, src, srcCube, dest, destCube, destAddr⟩ := edge
  cases destAddr with
  | some away =>
      obtain ⟨rfl, rfl, rfl⟩ : opID = nextID ∧ _ = next ∧ false = nextEnd := by simpa [nextMember] using found
      cases dest with
      | none => exact Or.inl ⟨rfl, rfl, nofun⟩
      | some task => exact Or.inl ⟨rfl, rfl, nofun⟩
  | none =>
      cases dest with
      | some task =>
          unfold nextMember at found
          dsimp only at found
          split at found
          · rename_i op alive
            obtain ⟨rfl, rfl, rfl⟩ : toLex (computation, task) = nextID ∧ _ = next ∧ _ = nextEnd := by simpa using found
            exact Or.inr ⟨op, rfl, alive, rfl, rfl⟩
          · cases found
      | none =>
          cases destCube with
          | none => cases found
          | some name =>
              obtain ⟨cube, -, same⟩ := Option.map_eq_some_iff.mp found
              obtain ⟨rfl, rfl, rfl⟩ : opID = nextID ∧ _ = next ∧ false = nextEnd := by simpa using same
              exact Or.inl ⟨rfl, rfl, nofun⟩

/-- Behind a member that is no operator the chain ends. -/
theorem followChain_ends {opID : TaskID} {member : ChainMember} {hitEnd : Bool} {found : List ChainMember × List TaskID}
    (outside : ∀ id, member ≠ .operator id)
    (followed : followChain operators cubeMgr opToOutedge fuel opID member hitEnd = .done found) : found.2 = [opID] := by
  cases fuel with
  | zero => cases followed
  | succ fuel =>
      unfold followChain at followed
      split at followed
      · exact absurd rfl (outside _)
      · obtain rfl := Attempt.done.inj followed
        rfl

/-- The loop passes the operators that the edges lead to. -/
theorem followChain_passes (outedges : ∀ id, opToOutedge.get? id = outedge edges id) {opID : TaskID} {hitEnd : Bool}
    {found : List ChainMember × List TaskID}
    (followed : followChain operators cubeMgr opToOutedge fuel opID (.operator opID) hitEnd = .done found) (id : TaskID) :
    id ∈ found.2 ↔ Follows (liveType operators) edges opID hitEnd id := by
  induction fuel generalizing opID hitEnd found with
  | zero => cases followed
  | succ fuel ih =>
      unfold followChain at followed
      split at followed
      · rename_i edge _ leaves same
        split at followed
        · cases followed
        · rename_i nextID next nextEnd moved
          obtain ⟨rest, following, rfl⟩ := map_eq_done.mp followed
          rw [List.mem_cons, follows_iff, ← outedges, leaves]
          rcases nextMember_some moved with ⟨nowhere, rfl, outside⟩ | ⟨op, ends, alive, rfl, rfl⟩
          · simp [followChain_ends outside following, nowhere]
          · rw [ih following]
            apply or_congr_right
            constructor
            · intro later
              exact ⟨rfl, edge, nextID, op.type, rfl, ends, liveType_eq_some alive, later⟩
            · rintro ⟨-, other, dest, type, here, otherEnds, otherAlive, later⟩
              obtain rfl := Option.some.inj here
              obtain rfl := Option.some.inj (ends.symm.trans otherEnds)
              obtain rfl := Option.some.inj ((liveType_eq_some alive).symm.trans otherAlive)
              exact later
      · rename_i stops
        obtain rfl := Attempt.done.inj followed
        rw [List.mem_singleton, follows_iff]
        constructor
        · intro same
          exact Or.inl same
        · intro either
          rcases either with same | ⟨rfl, edge, dest, type, leaves, -⟩
          · exact same
          · rw [← outedges] at leaves
            exact (stops edge _ leaves rfl rfl).elim

theorem get?_foldl_set_eq_none {chain : OperatorChain} (passed : List TaskID) (opToChain : OrderedMap TaskID OperatorChain)
    (id : TaskID) :
    (passed.foldl (fun opToChain opID => opToChain.set opID chain) opToChain).get? id = none ↔
      opToChain.get? id = none ∧ id ∉ passed := by
  induction passed generalizing opToChain with
  | nil => simp
  | cons opID rest ih =>
      rw [List.foldl_cons, ih, OrderedMap.get?_set, List.mem_cons]
      by_cases same : id = opID
      · simp [same]
      · simp [same]

/-- The table has no chain under the name that could be let go. -/
def NoChain (chains : ChainTable) (id : TaskID) : Prop := ∀ chain, chains.get? id ≠ some (some chain)

theorem NoChain.replaceChain {chains : ChainTable} {id : TaskID} (absent : NoChain chains id) :
    replaceChain env operators chains id = operators := by
  unfold Node.replaceChain
  split
  · rename_i old found
    exact absurd found (absent old)
  · rfl

/-- A new chain under an unused name changes no operator, and it covers the operators it passes. -/
theorem buildChain_passes {isSource : TaskID → Bool} {state next : Building} {id : TaskID}
    (outedges : ∀ id, opToOutedge.get? id = outedge edges id) (typed : SourcesAs isSource state.operators)
    (sourceless : NoChain state.sourcelessChain id) (sources : NoChain state.chainSources id)
    (ran : buildChain env fuel cubeMgr opToOutedge opToPred state id = .done next) :
    next.operators = state.operators ∧
      ∀ other, next.opToChain.get? other = none ↔ state.opToChain.get? other = none ∧
        (StartsChain isSource opToPred id → ¬Follows (liveType state.operators) edges id false other) := by
  obtain ⟨chainOp, alive, ⟨notHead, rfl⟩ | ⟨head, members, passed, followed, registered⟩⟩ := buildChain_done ran
  · rw [typed id chainOp alive] at notHead
    refine ⟨rfl, ?_⟩
    intro other
    exact (and_iff_left fun head => absurd head notHead).symm
  · obtain ⟨conns, -, rfl⟩ := registerChain_done registered
    rw [typed id chainOp alive] at head
    refine ⟨?_, ?_⟩
    · cases chainOp.type.isSource with
      | false => exact sourceless.replaceChain
      | true => exact sources.replaceChain
    · intro other
      dsimp only
      rw [get?_foldl_set_eq_none, followChain_passes outedges followed]
      exact and_congr_right fun _ => ⟨fun notPassed _ => notPassed, fun starts => starts head⟩

/-- The chains of the new operators cover the operators they pass. -/
theorem loop_buildChain_passes {isSource : TaskID → Bool} {ids : List TaskID} {state final : Building}
    (outedges : ∀ id, opToOutedge.get? id = outedge edges id) (typed : SourcesAs isSource state.operators)
    (distinct : ids.Nodup) (idle : ∀ id ∈ ids, NoChain state.sourcelessChain id ∧ NoChain state.chainSources id)
    (ran : loop (buildChain env fuel cubeMgr opToOutedge opToPred) state ids = .done final) :
    final.operators = state.operators ∧
      ∀ other, final.opToChain.get? other = none ↔ state.opToChain.get? other = none ∧
        ∀ id ∈ ids, StartsChain isSource opToPred id → ¬Follows (liveType state.operators) edges id false other := by
  induction ids generalizing state with
  | nil =>
      obtain rfl := Attempt.done.inj ran
      simp
  | cons id rest ih =>
      obtain ⟨fresh, restDistinct⟩ := List.nodup_cons.mp distinct
      obtain ⟨next, stepped, following⟩ := bind_eq_done.mp ran
      obtain ⟨sourceless, sources⟩ := idle id List.mem_cons_self
      obtain ⟨sameOperators, covers⟩ := buildChain_passes outedges typed sourceless sources stepped
      obtain ⟨-, -, -, -, -, same, -⟩ := buildChain_announces typed stepped
      have idleRest : ∀ other ∈ rest, NoChain next.sourcelessChain other ∧ NoChain next.chainSources other := by
        intro other member
        have unchanged : SameAt state next other := same other fun here => ne_of_mem_of_not_mem member fresh here.1
        obtain ⟨noSourceless, noSources⟩ := idle other (List.mem_cons_of_mem id member)
        refine ⟨?_, ?_⟩
        · intro chain
          rw [unchanged.1]
          exact noSourceless chain
        · intro chain
          rw [unchanged.2]
          exact noSources chain
      rw [← sameOperators] at typed
      obtain ⟨restOperators, restCovers⟩ := ih typed restDistinct idleRest following
      refine ⟨restOperators.trans sameOperators, ?_⟩
      intro other
      rw [restCovers, covers, sameOperators, List.forall_mem_cons, and_assoc]

end Chains

section Governed

variable {opToChain : OrderedMap TaskID OperatorChain} {operators : OperatorTable} {ids : List TaskID}
  {state next : Policies}

/-- The look-ups have left null entries under the names that were not in the table. -/
def LookedUp (operators : OperatorTable) (ids : List TaskID) (after : OperatorTable) : Prop :=
  ∀ id, after.get? id = if operators.get? id = none ∧ id ∈ ids then some none else operators.get? id

theorem lookedUp_nil : LookedUp operators [] operators := by
  intro id
  simp

theorem LookedUp.step {after : OperatorTable} (lookedUp : LookedUp operators ids after) (id : TaskID) :
    LookedUp operators (ids ++ [id]) (getOperator after id).2 := by
  intro other
  have before := lookedUp other
  unfold getOperator
  split
  · rename_i entry found
    dsimp only
    rw [before]
    by_cases same : other = id
    · subst same
      rw [found] at before
      cases listed : operators.get? other with
      | some known => simp
      | none =>
          have early : other ∈ ids := by
            by_contra absent
            simp [listed, absent] at before
          simp [early]
    · simp [same]
  · rename_i missing
    dsimp only
    rw [OrderedMap.get?_set]
    by_cases same : other = id
    · subst same
      rw [missing] at before
      cases listed : operators.get? other with
      | some known => simp [listed] at before
      | none => simp
    · simp [same, before]

theorem LookedUp.liveType_eq {after : OperatorTable} (lookedUp : LookedUp operators ids after) :
    liveType after = liveType operators := by
  funext id
  rw [liveType, liveType, lookedUp id]
  split
  · rename_i missing
    rw [missing.1]
    rfl
  · rfl

/-- The policies up to here name missing operators and operators of the new chains. -/
structure Policied (opToChain : OrderedMap TaskID OperatorChain) (operators : OperatorTable) (ids : List TaskID)
    (state : Policies) : Prop where
  lookedUp : LookedUp operators ids state.operators
  covered : ∀ id ∈ ids, liveType operators id = none ∨ opToChain.get? id ≠ none

theorem Policied.addPolicy {id : TaskID} (policied : Policied opToChain operators ids state)
    (ran : addPolicy opToChain state id = .done next) : Policied opToChain operators (ids ++ [id]) next := by
  have covers (covered : liveType operators id = none ∨ opToChain.get? id ≠ none) :
      ∀ other ∈ ids ++ [id], liveType operators other = none ∨ opToChain.get? other ≠ none := by
    intro other member
    rcases List.mem_append.mp member with early | last
    · exact policied.covered other early
    · rw [List.mem_singleton.mp last]
      exact covered
  have looked := policied.lookedUp.step id
  unfold Node.addPolicy at ran
  split at ran
  · rename_i after missing
    obtain rfl := Attempt.done.inj ran
    rw [missing] at looked
    refine ⟨looked, covers (Or.inl ?_)⟩
    rw [← policied.lookedUp.liveType_eq]
    exact liveType_eq_none missing
  · rename_i op after found
    rw [found, (getOperator_some found).2] at looked
    split at ran
    · cases ran
    · rename_i chain passed
      obtain rfl := Attempt.done.inj ran
      exact ⟨looked, covers (Or.inr (by rw [passed]; nofun))⟩

/-- A refused policy names an operator that is alive but on no new chain. -/
theorem Policied.addPolicy_refused {id : TaskID} {err : String} (policied : Policied opToChain operators ids state)
    (ran : Node.addPolicy opToChain state id = .refused err next) :
    next = state ∧ ¬(liveType operators id = none ∨ opToChain.get? id ≠ none) := by
  unfold Node.addPolicy at ran
  split at ran
  · cases ran
  · rename_i op after found
    split at ran
    · rename_i uncovered
      obtain ⟨-, rfl⟩ := Attempt.refused.inj ran
      refine ⟨rfl, ?_⟩
      rw [← policied.lookedUp.liveType_eq, liveType_eq_some (getOperator_some found).1, uncovered]
      simp
    · cases ran

theorem Policied.loop_addPolicy {spec : List TaskID} (policied : Policied opToChain operators ids state)
    (ran : loop (Node.addPolicy opToChain) state spec = .done next) : Policied opToChain operators (ids ++ spec) next := by
  apply loop_prefix (fun spec => Policied opToChain operators (ids ++ spec)) _ (by rwa [List.append_nil]) ran
  intro before id reached later kept stepped
  rw [← List.append_assoc]
  exact kept.addPolicy stepped

theorem Policied.loop_addPolicy_refused {spec : List TaskID} {err : String}
    (policied : Policied opToChain operators ids state)
    (ran : loop (Node.addPolicy opToChain) state spec = .refused err next) :
    ∃ before id, before ++ [id] <+: spec ∧ Policied opToChain operators (ids ++ before) next ∧
      ¬(liveType operators id = none ∨ opToChain.get? id ≠ none) := by
  obtain ⟨before, id, after, reached, rfl, done, refused⟩ := loop_refused ran
  have kept := policied.loop_addPolicy done
  obtain ⟨rfl, uncovered⟩ := kept.addPolicy_refused refused
  exact ⟨before, id, ⟨after, by simp⟩, kept, uncovered⟩

theorem Policied.addPolicySpec {spec : List TaskID} (policied : Policied opToChain operators ids state)
    (ran : addPolicySpec opToChain state spec = .done next) : Policied opToChain operators (ids ++ spec) next := by
  obtain ⟨reached, looped, checked⟩ := bind_eq_done.mp ran
  have start : Policied opToChain operators ids {state with chain := none} := ⟨policied.lookedUp, policied.covered⟩
  split at checked
  · cases checked
  · obtain rfl := Attempt.done.inj checked
    exact start.loop_addPolicy looped

theorem Policied.addPolicySpec_refused {spec : List TaskID} {err : String}
    (policied : Policied opToChain operators ids state) (ran : Node.addPolicySpec opToChain state spec = .refused err next) :
    ∃ before id, before ++ [id] <+: spec ∧ Policied opToChain operators (ids ++ before) next ∧
      ¬(liveType operators id = none ∨ opToChain.get? id ≠ none) := by
  have start : Policied opToChain operators ids {state with chain := none} := ⟨policied.lookedUp, policied.covered⟩
  rcases bind_eq_refused.mp ran with refused | ⟨reached, -, checked⟩
  · exact start.loop_addPolicy_refused refused
  · split at checked
    · cases checked
    · cases checked

theorem Policied.loop_addPolicySpec {specs : List (List TaskID)} (policied : Policied opToChain operators [] state)
    (ran : loop (Node.addPolicySpec opToChain) state specs = .done next) :
    Policied opToChain operators specs.flatten next := by
  apply loop_prefix (fun specs => Policied opToChain operators specs.flatten) _ policied ran
  intro before spec reached later kept stepped
  rw [List.flatten_append, List.flatten_singleton]
  exact kept.addPolicySpec stepped

/-- The policies before a refused one leave only null entries. -/
theorem Policied.loop_addPolicySpec_refused {specs : List (List TaskID)} {err : String}
    (policied : Policied opToChain operators [] state)
    (ran : loop (Node.addPolicySpec opToChain) state specs = .refused err next) :
    ∃ before id, before ++ [id] <+: specs.flatten ∧ Policied opToChain operators before next ∧
      ¬(liveType operators id = none ∨ opToChain.get? id ≠ none) := by
  obtain ⟨earlier, spec, after, reached, rfl, done, refused⟩ := loop_refused ran
  obtain ⟨before, id, ⟨rest, rfl⟩, kept, uncovered⟩ := (policied.loop_addPolicySpec done).addPolicySpec_refused refused
  exact ⟨earlier.flatten ++ before, id, ⟨rest ++ after.flatten, by simp⟩, kept, uncovered⟩

/-- The policies of the new operators look up only what is in the table. -/
theorem loop_addDefaultPolicy_same (listed : ∀ id ∈ ids, state.operators.get? id ≠ none)
    (ends : (loop (addDefaultPolicy opToChain) state ids).EndsIn next) : next.operators = state.operators := by
  apply loop_keeps (fun reached : Policies => reached.operators = state.operators) _ rfl ends
  intro id member reached kept later stepped
  unfold addDefaultPolicy at stepped
  split at stepped
  · obtain rfl : reached = later := by simpa [EndsIn] using stepped
    exact kept
  · split at stepped
    · obtain rfl : reached = later := by simpa [EndsIn] using stepped
      exact kept
    · obtain rfl : {reached with operators := (getOperator reached.operators id).2} = later := by
        simpa [EndsIn] using stepped
      dsimp only
      rw [getOperator, kept]
      split
      · rfl
      · rename_i missing
        exact absurd missing (listed id member)

/-- A request that is refused by its policies has looked up the longest run of names that can have one. -/
theorem establishCongestPolicies_refused {topo : AlterTopo} {vars final : Altering} {err : String}
    (listed : ∀ id ∈ vars.operatorIDsToStart, vars.node.operators.get? id ≠ none)
    (ran : establishCongestPolicies topo vars = .refused err final) :
    ∃ before, before <+: topo.congestPolicies.flatten ∧
      (∀ id ∈ before, liveType vars.node.operators id = none ∨ vars.opToChain.get? id ≠ none) ∧
      (∀ id, before ++ [id] <+: topo.congestPolicies.flatten →
        ¬(liveType vars.node.operators id = none ∨ vars.opToChain.get? id ≠ none)) ∧
      ∃ operators, LookedUp vars.node.operators before operators ∧
        final = {vars with node := {vars.node with operators := operators}} := by
  obtain ⟨state, refused, rfl⟩ := map_eq_refused.mp ran
  have start : Policied vars.opToChain vars.node.operators [] ⟨vars.node.operators, [], none⟩ := ⟨lookedUp_nil, nofun⟩
  rcases bind_eq_refused.mp refused with inSpecs | ⟨reached, specs, inDefaults⟩
  · obtain ⟨before, id, within, kept, uncovered⟩ := start.loop_addPolicySpec_refused inSpecs
    refine ⟨before, List.IsPrefix.trans ⟨[id], rfl⟩ within, kept.covered, ?_, _, kept.lookedUp, rfl⟩
    intro other longer
    rw [eq_of_append_singletons longer within]
    exact uncovered
  · have kept := start.loop_addPolicySpec specs
    have known : ∀ id ∈ vars.operatorIDsToStart, reached.operators.get? id ≠ none := by
      intro id member
      rw [kept.lookedUp id]
      split
      · nofun
      · exact listed id member
    have same := loop_addDefaultPolicy_same known (Or.inr ⟨err, inDefaults⟩)
    refine ⟨_, List.prefix_refl _, kept.covered, ?_, _, same ▸ kept.lookedUp, rfl⟩
    intro id longer
    exact absurd longer.length_le (by simp)

end Governed

end JetStream.Node
