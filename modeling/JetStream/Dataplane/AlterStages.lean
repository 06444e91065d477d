import JetStream.Dataplane.Node

namespace JetStream.Node

open Attempt

section Operators

/-- No operator appears in the table, and those that stay are as they were. -/
def Shrinks (before after : OperatorTable) : Prop :=
  ∀ id op, after.get? id = some (some op) → before.get? id = some (some op)

theorem Shrinks.trans {first second third : OperatorTable} (left : Shrinks first second) (right : Shrinks second third) :
    Shrinks first third := fun id op found => left id op (right id op found)

theorem get?_expire (operators : OperatorTable) (dies : TaskID → Bool) (id : TaskID) :
    (expire operators dies).get? id = (operators.get? id).map fun entry => if dies id then none else entry :=
  OrderedMap.get?_mapWithKey operators _ id

theorem shrinks_expire (operators : OperatorTable) (dies : TaskID → Bool) : Shrinks operators (expire operators dies) := by
  intro id op found
  rw [get?_expire, Option.map_eq_some_iff] at found
  obtain ⟨entry, listed, same⟩ := found
  split at same
  · cases same
  · rw [listed, same]

theorem shrinks_erase (operators : OperatorTable) (id : TaskID) : Shrinks operators (operators.erase id) := by
  intro other op found
  rw [OrderedMap.get?_erase] at found
  split at found
  · cases found
  · exact found

theorem shrinks_replaceChain (env : Surroundings) (operators : OperatorTable) (chains : ChainTable) (id : TaskID) :
    Shrinks operators (replaceChain env operators chains id) := by
  unfold replaceChain
  split
  · exact shrinks_expire operators _
  · exact fun _ _ found => found

/-- A look-up adds at most a null entry. -/
theorem shrinks_getOperator (operators : OperatorTable) (name : TaskID) :
    Shrinks operators (getOperator operators name).2 := by
  unfold getOperator
  intro id op found
  split at found
  · exact found
  · rcases OrderedMap.get?_set_cases found with ⟨-, here⟩ | ⟨-, before⟩
    · cases here
    · exact before

theorem getOperator_some {operators after : OperatorTable} {name : TaskID} {op : COperator}
    (found : getOperator operators name = (some op, after)) :
    operators.get? name = some (some op) ∧ after = operators := by
  unfold getOperator at found
  split at found
  · rename_i entry listed
    obtain ⟨rfl, rfl⟩ := Prod.mk.inj found
    exact ⟨listed, rfl⟩
  · cases found

/-- A look-up fails at a null entry, or it leaves one. -/
theorem getOperator_none {operators after : OperatorTable} {name : TaskID}
    (missing : getOperator operators name = (none, after)) :
    operators.get? name = some none ∧ after = operators ∨
      operators.get? name = none ∧ after = operators.set name none := by
  unfold getOperator at missing
  split at missing
  · rename_i entry listed
    obtain ⟨rfl, rfl⟩ := Prod.mk.inj missing
    exact Or.inl ⟨listed, rfl⟩
  · rename_i absent
    exact Or.inr ⟨absent, (Prod.mk.inj missing).2.symm⟩

end Operators

section Wired

/-- The operator at the start of an edge is alive, and so is the one at its local end. -/
theorem connectOperator_done {state next : Wiring} {edge : Edge} {src : TaskID}
    (ran : connectOperator state edge src = .done next) :
    (∃ op, state.operators.get? src = some (some op)) ∧
      (∀ dest, localDest edge = some dest → ∃ op, state.operators.get? dest = some (some op)) ∧
      next =
        {state with
          opToOutedge := state.opToOutedge.set src edge
          opToPred := (localDest edge).elim state.opToPred fun dest => state.opToPred.set dest src} := by
  unfold connectOperator at ran
  split at ran
  · cases ran
  · rename_i op after found
    dsimp only at ran
    cases ends : localDest edge with
    | none =>
        rw [ends] at ran
        exact ⟨⟨op, (getOperator_some found).1⟩, nofun, (Attempt.done.inj ran).symm⟩
    | some dest =>
        rw [ends] at ran
        dsimp only at ran
        split at ran
        · cases ran
        · rename_i destOp destAfter destFound
          refine ⟨⟨op, (getOperator_some found).1⟩, ?_, (Attempt.done.inj ran).symm⟩
          intro other same
          obtain rfl := Option.some.inj same
          exact ⟨destOp, (getOperator_some destFound).1⟩

/-- A subscriber without a cube is attached to the cube at the start of the edge. -/
theorem connectCube_done {state next : Wiring} {edge : Edge} {srcCube : String}
    (ran : connectCube state edge srcCube = .done next) :
    ∃ cube sub, state.cubeMgr.getCube srcCube = some cube ∧
      state.operators.get? (subscriberOf edge) = some (some sub) ∧ sub.type.isSubscriber ∧ sub.cube = none ∧
      next =
        {state with
          operators := state.operators.set (subscriberOf edge) (some {sub with cube := some cube.name})
          cubeMgr := state.cubeMgr.addSubscriber srcCube cube (subscriberOf edge) sub.request} := by
  unfold connectCube at ran
  dsimp only at ran
  split at ran
  · cases ran
  · cases ran
  · rename_i cube sub listed filtered
    obtain ⟨found, subscribes⟩ := Option.filter_eq_some_iff.mp filtered
    obtain ⟨alive, same⟩ := getOperator_some (Prod.ext found rfl)
    split at ran
    · cases ran
    · rename_i free
      refine ⟨cube, sub, listed, alive, subscribes, free, ?_⟩
      rw [← Attempt.done.inj ran]
      simp only [same]

variable {env : Surroundings}

/-- An edge that is accepted starts at an operator or attaches a subscriber to a cube. -/
theorem connectEdge_done {state next : Wiring} {edge : Edge} (ran : connectEdge env state edge = .done next) :
    (∃ task, edge.src = some task ∧ connectOperator state edge (toLex (edge.computation, task)) = .done next) ∨
      edge.src = none ∧ ∃ srcCube, edge.srcCube = some srcCube ∧ connectCube state edge srcCube = .done next := by
  unfold connectEdge at ran
  split at ran
  · rename_i task starts
    exact Or.inl ⟨task, starts, ran⟩
  · cases ran
  · rename_i srcCube noSource starts
    exact Or.inr ⟨noSource, srcCube, starts, ran⟩

/-- This is the class of the operator under the name while it is alive. -/
def liveType (operators : OperatorTable) (id : TaskID) : Option OperatorType :=
  (operators.get? id).join.map COperator.type

/-- These operators are looked up for an edge, the second one only when the first one is alive. -/
def lookups (types : TaskID → Option OperatorType) (edge : Edge) : List TaskID :=
  match edge.src, edge.srcCube with
  | some task, _ =>
      let src : TaskID := toLex (edge.computation, task)
      src :: if types src = none then [] else (localDest edge).toList
  | none, none => []
  | none, some _ => [subscriberOf edge]

/-- Looking operators up leaves a null entry under the first one that is not in the table, if there is one. -/
def LooksUp (operators after : OperatorTable) (ids : List TaskID) : Prop :=
  (∀ id ∈ ids, operators.get? id ≠ none) ∧ after = operators ∨
    ∃ id ∈ ids, operators.get? id = none ∧ after = operators.set id none

/-- A refused edge from an operator has looked up the operator, and when that one is alive its destination too. -/
theorem connectOperator_refused {state next : Wiring} {edge : Edge} {src : TaskID} {err : String}
    (ran : connectOperator state edge src = .refused err next) :
    next.cubeMgr = state.cubeMgr ∧ LooksUp state.operators next.operators
      (src :: if liveType state.operators src = none then [] else (localDest edge).toList) := by
  unfold connectOperator at ran
  split at ran
  · rename_i after missing
    obtain ⟨-, rfl⟩ := Attempt.refused.inj ran
    refine ⟨rfl, ?_⟩
    rcases getOperator_none missing with ⟨null, rfl⟩ | ⟨absent, rfl⟩
    · exact Or.inl ⟨by simp [liveType, null], rfl⟩
    · exact Or.inr ⟨_, List.mem_cons_self, absent, rfl⟩
  · rename_i op after found
    obtain ⟨alive, -⟩ := getOperator_some found
    dsimp only at ran
    split at ran
    · cases ran
    · rename_i dest ends
      split at ran
      · rename_i destAfter missing
        obtain ⟨-, rfl⟩ := Attempt.refused.inj ran
        refine ⟨rfl, ?_⟩
        rcases getOperator_none missing with ⟨null, rfl⟩ | ⟨absent, rfl⟩
        · exact Or.inl ⟨by simp [liveType, alive, ends, null], rfl⟩
        · exact Or.inr ⟨dest, by simp [liveType, alive, ends], absent, rfl⟩
      · cases ran

/-- A refused edge from a cube has looked up its subscriber. -/
theorem connectCube_refused {state next : Wiring} {edge : Edge} {srcCube err : String}
    (ran : connectCube state edge srcCube = .refused err next) :
    next.cubeMgr = state.cubeMgr ∧ LooksUp state.operators next.operators [subscriberOf edge] := by
  have table : next.cubeMgr = state.cubeMgr ∧ next.operators = (getOperator state.operators (subscriberOf edge)).2 := by
    unfold connectCube at ran
    dsimp only at ran
    split at ran
    · obtain ⟨-, rfl⟩ := Attempt.refused.inj ran
      exact ⟨rfl, rfl⟩
    · obtain ⟨-, rfl⟩ := Attempt.refused.inj ran
      exact ⟨rfl, rfl⟩
    · split at ran
      · cases ran
      · cases ran
  refine ⟨table.1, ?_⟩
  rw [LooksUp, table.2]
  unfold getOperator
  cases listed : state.operators.get? (subscriberOf edge) with
  | none => exact Or.inr ⟨_, List.mem_singleton_self _, listed, rfl⟩
  | some entry =>
      refine Or.inl ⟨?_, rfl⟩
      intro id member
      rw [List.mem_singleton.mp member, listed]
      nofun

/-- A refused edge leaves a null entry when it has looked up an operator that is not in the table. -/
theorem connectEdge_refused {state next : Wiring} {edge : Edge} {err : String}
    (ran : connectEdge env state edge = .refused err next) :
    next.cubeMgr = state.cubeMgr ∧
      LooksUp state.operators next.operators (lookups (liveType state.operators) edge) := by
  unfold connectEdge at ran
  split at ran
  · rename_i task starts
    have refused := connectOperator_refused ran
    rwa [lookups, starts]
  · rename_i noSource noCube
    obtain ⟨-, rfl⟩ := Attempt.refused.inj ran
    exact ⟨rfl, Or.inl ⟨by simp [lookups, noSource, noCube], rfl⟩⟩
  · rename_i srcCube noSource starts
    have refused := connectCube_refused ran
    rwa [lookups, noSource, starts]

/-- The edge makes an operator of this node the predecessor of the given one. -/
def Precedes (edge : Edge) (id : TaskID) : Prop := edge.src ≠ none ∧ localDest edge = some id

/-- An operator has a predecessor after the edges exactly when one of them precedes it. -/
theorem loop_connectEdge_opToPred {edges : List Edge} {state final : Wiring} (id : TaskID)
    (ran : loop (connectEdge env) state edges = .done final) :
    final.opToPred.get? id = none ↔ state.opToPred.get? id = none ∧ ∀ edge ∈ edges, ¬Precedes edge id := by
  induction edges generalizing state with
  | nil =>
      obtain rfl := Attempt.done.inj ran
      simp
  | cons edge rest ih =>
      obtain ⟨next, stepped, following⟩ := bind_eq_done.mp ran
      have first : next.opToPred.get? id = none ↔ state.opToPred.get? id = none ∧ ¬Precedes edge id := by
        rcases connectEdge_done stepped with ⟨task, starts, operator⟩ | ⟨noSource, srcCube, -, attached⟩
        · obtain ⟨-, -, rfl⟩ := connectOperator_done operator
          cases ends : localDest edge with
          | none => simp [Precedes, ends]
          | some dest =>
              dsimp only [Option.elim_some]
              rw [OrderedMap.get?_set]
              by_cases same : id = dest
              · simp [Precedes, starts, ends, same]
              · simp [Precedes, ends, same, Ne.symm same]
        · obtain ⟨cube, sub, -, -, -, -, rfl⟩ := connectCube_done attached
          simp [Precedes, noSource]
      rw [ih following, first, List.forall_mem_cons, and_assoc]

end Wired

section Followed

variable {operators : OperatorTable} {cubeMgr : CubeManager} {opToOutedge : OrderedMap TaskID Edge}

/-- A followed chain starts with its first member and passes its first operator. -/
theorem followChain_done {fuel : ℕ} {opID : TaskID} {member : ChainMember} {hitEnd : Bool}
    {found : List ChainMember × List TaskID}
    (followed : followChain operators cubeMgr opToOutedge fuel opID member hitEnd = .done found) :
    (∃ rest, found.1 = member :: rest) ∧ ∃ rest, found.2 = opID :: rest := by
  cases fuel with
  | zero => cases followed
  | succ fuel =>
      unfold followChain at followed
      split at followed
      · split at followed
        · cases followed
        · obtain ⟨rest, -, rfl⟩ := map_eq_done.mp followed
          exact ⟨⟨_, rfl⟩, _, rfl⟩
      · obtain rfl := Attempt.done.inj followed
        exact ⟨⟨_, rfl⟩, _, rfl⟩

end Followed

section Started

variable {env : Surroundings} {request : ℕ}

/-- A new operator has the class that the loader gives for its name. -/
theorem createOperator_ok {operators : OperatorTable} {opTypename : String} {name : TaskID}
    {cfg : OrderedMap String String} {op : COperator}
    (created : createOperator env request operators opTypename name cfg = .ok op) :
    ∃ type, env.newOp opTypename = some type ∧ env.configure opTypename name cfg = .ok () ∧ op = ⟨type, request, none⟩ := by
  unfold createOperator at created
  split at created
  · cases created
  · split at created
    · cases created
    · rename_i type loaded
      cases configured : env.configure opTypename name cfg with
      | error err =>
          rw [configured] at created
          cases created
      | ok configurable =>
          rw [configured] at created
          exact ⟨type, loaded, rfl, (Except.ok.inj created).symm⟩

/-- A task is either there already with a fitting class, or it is new and can be configured. -/
theorem startOperator_done {state next : Starting} {task : TaskMeta}
    (ran : startOperator env request state task = .done next) :
    (task.id ∉ state.ids ∧ (∃ prevOp, state.operators.get? task.id = some (some prevOp) ∧
        task.opTypename.toList <:+: prevOp.type.cppName.toList) ∧
        next = {state with started := state.started ++ [startedTask task]}) ∨
      state.operators.get? task.id = none ∧ ∃ type, env.newOp task.opTypename = some type ∧
        env.configure task.opTypename task.id (taskConfig task) = .ok () ∧
        next =
          ⟨state.operators.set task.id (some ⟨type, request, none⟩), state.ids ++ [task.id],
            state.started ++ [startedTask task]⟩ := by
  unfold startOperator at ran
  split at ran
  · rename_i entry found
    split_ifs at ran with again
    split at ran
    · cases ran
    · rename_i prevOp
      split_ifs at ran with fits
      exact Or.inl ⟨again, ⟨prevOp, found, fits⟩, (Attempt.done.inj ran).symm⟩
  · rename_i missing
    split at ran
    · cases ran
    · rename_i op created
      obtain ⟨type, loaded, configured, rfl⟩ := createOperator_ok created
      exact Or.inr ⟨missing, type, loaded, configured, (Attempt.done.inj ran).symm⟩

/-- A refused task has changed nothing. -/
theorem startOperator_refused {state next : Starting} {task : TaskMeta} {err : String}
    (ran : startOperator env request state task = .refused err next) : next = state := by
  unfold startOperator at ran
  split at ran
  · split_ifs at ran
    · exact (Attempt.refused.inj ran).2.symm
    · split at ran
      · cases ran
      · split at ran
        · cases ran
        · exact (Attempt.refused.inj ran).2.symm
  · split at ran
    · exact (Attempt.refused.inj ran).2.symm
    · cases ran

/-- The tasks that were not in the table are new in it, each once, and the other entries are as before. -/
structure Started (env : Surroundings) (request : ℕ) (operators : OperatorTable) (tasks : List TaskMeta)
    (state : Starting) : Prop where
  mem_ids : ∀ id, id ∈ state.ids ↔ operators.get? id = none ∧ ∃ task ∈ tasks, task.id = id
  nodup : state.ids.Nodup
  old : ∀ id, id ∉ state.ids → state.operators.get? id = operators.get? id
  new : ∀ task ∈ tasks, task.id ∈ state.ids → ∃ type, env.newOp task.opTypename = some type ∧
    state.operators.get? task.id = some (some ⟨type, request, none⟩)

theorem Started.not_mem_of_missing {operators : OperatorTable} {tasks : List TaskMeta} {state : Starting} {id : TaskID}
    (started : Started env request operators tasks state) (missing : state.operators.get? id = none) : id ∉ state.ids := by
  intro isNew
  obtain ⟨-, task, member, rfl⟩ := (started.mem_ids id).mp isNew
  obtain ⟨type, -, found⟩ := started.new task member isNew
  exact absurd (missing.symm.trans found) nofun

theorem Started.step {operators : OperatorTable} {tasks : List TaskMeta} {state next : Starting} {task : TaskMeta}
    (started : Started env request operators tasks state) (ran : startOperator env request state task = .done next) :
    Started env request operators (tasks ++ [task]) next := by
  rcases startOperator_done ran with ⟨fresh, ⟨prevOp, found, -⟩, rfl⟩ | ⟨missing, type, loaded, -, rfl⟩
  · have listed : operators.get? task.id ≠ none := by
      rw [← started.old task.id fresh, found]
      nofun
    constructor
    · intro id
      rw [started.mem_ids]
      apply and_congr_right
      intro absent
      constructor
      · rintro ⟨other, member, same⟩
        exact ⟨other, List.mem_append_left _ member, same⟩
      · rintro ⟨other, member, rfl⟩
        rcases List.mem_append.mp member with before | last
        · exact ⟨other, before, rfl⟩
        · obtain rfl := List.mem_singleton.mp last
          exact absurd absent listed
    · exact started.nodup
    · exact started.old
    · intro other member isNew
      rcases List.mem_append.mp member with before | last
      · exact started.new other before isNew
      · obtain rfl := List.mem_singleton.mp last
        exact absurd isNew fresh
  · have fresh : task.id ∉ state.ids := started.not_mem_of_missing missing
    constructor
    · intro id
      rw [List.mem_append, List.mem_singleton, started.mem_ids]
      constructor
      · rintro (⟨absent, other, member, same⟩ | rfl)
        · exact ⟨absent, other, List.mem_append_left _ member, same⟩
        · exact ⟨(started.old _ fresh).symm.trans missing, task, List.mem_append_right _ List.mem_cons_self, rfl⟩
      · rintro ⟨absent, other, member, rfl⟩
        rcases List.mem_append.mp member with before | last
        · exact Or.inl ⟨absent, other, before, rfl⟩
        · exact Or.inr (congrArg TaskMeta.id (List.mem_singleton.mp last))
    · rw [List.nodup_append]
      exact ⟨started.nodup, List.nodup_singleton _, fun id member other last =>
        ne_of_mem_of_not_mem member (List.mem_singleton.mp last ▸ fresh)⟩
    · intro id absent
      rw [List.mem_append, not_or, List.mem_singleton] at absent
      rw [OrderedMap.get?_set, if_neg absent.2]
      exact started.old id absent.1
    · intro other member isNew
      rw [OrderedMap.get?_set]
      by_cases same : other.id = task.id
      · rcases List.mem_append.mp member with before | last
        · have again : task.id ∈ state.ids :=
            same ▸ (started.mem_ids other.id).mpr
              ⟨by rw [same]; exact (started.old _ fresh).symm.trans missing, other, before, rfl⟩
          exact absurd again fresh
        · obtain rfl := List.mem_singleton.mp last
          exact ⟨type, loaded, if_pos rfl⟩
      · rcases List.mem_append.mp member with before | last
        · rw [if_neg same]
          apply started.new other before
          rcases List.mem_append.mp isNew with here | last
          · exact here
          · exact absurd (List.mem_singleton.mp last) same
        · exact absurd (congrArg TaskMeta.id (List.mem_singleton.mp last)) same

theorem started_of_loop {operators : OperatorTable} {tasks : List TaskMeta} {state : Starting}
    (ran : loop (startOperator env request) ⟨operators, [], []⟩ tasks = .done state) :
    Started env request operators tasks state := by
  apply loop_prefix (Started env request operators) _ _ ran
  · intro before task state next started stepped
    exact started.step stepped
  · exact ⟨fun id => by simp, List.nodup_nil, fun _ _ => rfl, nofun⟩

/-- The tasks before a refused one are started. -/
theorem started_of_refused {operators : OperatorTable} {tasks : List TaskMeta} {state : Starting} {err : String}
    (ran : loop (startOperator env request) ⟨operators, [], []⟩ tasks = .refused err state) :
    ∃ before task after, tasks = before ++ task :: after ∧ Started env request operators before state ∧
      startOperator env request state task = .refused err state := by
  obtain ⟨before, task, after, reached, split, done, refused⟩ := loop_refused ran
  obtain rfl := startOperator_refused refused
  exact ⟨before, task, after, split, started_of_loop done, refused⟩

end Started

section Stages

variable {env : Surroundings} {fuel request : ℕ} {topo : AlterTopo}

theorem destroyCube_ne_refused {node final : Node} {name err : String} : destroyCube env node name ≠ .refused err final := by
  unfold destroyCube
  split <;> nofun

theorem destroyCubes_ne_refused {vars final : Altering} {err : String} :
    destroyCubes env topo vars ≠ .refused err final := by
  intro ran
  obtain ⟨node, refused, -⟩ := map_eq_refused.mp ran
  exact loop_ne_refused (fun node name error next => destroyCube_ne_refused) refused

theorem registerChain_ne_refused {state : Building} {id : TaskID} {isStartable : Bool} {chain : OperatorChain}
    {opToChain : OrderedMap TaskID OperatorChain} {error : String} {next : Building} :
    registerChain env state id isStartable chain opToChain ≠ .refused error next := by
  unfold registerChain
  split
  · nofun
  · split <;> nofun

/-- A chain is registered in the table that fits its start, under the name of that start. -/
theorem registerChain_done {state next : Building} {id : TaskID} {isStartable : Bool} {chain : OperatorChain}
    {opToChain : OrderedMap TaskID OperatorChain}
    (ran : registerChain env state id isStartable chain opToChain = .done next) :
    ∃ conns, state.dataConnMgr.createdChain chain = some conns ∧
      next =
        ⟨replaceChain env state.operators (if isStartable then state.chainSources else state.sourcelessChain) id,
          if isStartable then state.sourcelessChain else state.sourcelessChain.set id (some chain),
          if isStartable then state.chainSources.set id (some chain) else state.chainSources, conns, opToChain⟩ := by
  unfold registerChain at ran
  split at ran
  · cases ran
  · rename_i conns told
    refine ⟨conns, told, ?_⟩
    cases isStartable with
    | false => exact (Attempt.done.inj ran).symm
    | true => exact (Attempt.done.inj ran).symm

/-- Only an operator that is alive starts a chain, and it starts one when it is a source or has no predecessor. -/
theorem buildChain_done {cubeMgr : CubeManager} {opToOutedge : OrderedMap TaskID Edge}
    {opToPred : OrderedMap TaskID TaskID} {state next : Building} {id : TaskID}
    (ran : buildChain env fuel cubeMgr opToOutedge opToPred state id = .done next) :
    ∃ chainOp, state.operators.get? id = some (some chainOp) ∧
      (¬(opToPred.get? id = none ∨ chainOp.type.isSource) ∧ next = state ∨
        (opToPred.get? id = none ∨ chainOp.type.isSource) ∧ ∃ members passed,
          followChain state.operators cubeMgr opToOutedge fuel id (.operator id) false = .done (members, passed) ∧
            registerChain env state id chainOp.type.isSource ⟨members.map some⟩
              (passed.foldl (fun opToChain opID => opToChain.set opID ⟨members.map some⟩) state.opToChain) =
                .done next) := by
  unfold buildChain at ran
  split at ran
  · rename_i chainOp alive
    refine ⟨chainOp, alive, ?_⟩
    split_ifs at ran with starts
    · split at ran
      · rename_i members passed followed
        exact Or.inr ⟨starts, members, passed, followed, ran⟩
      all_goals cases ran
    · exact Or.inl ⟨starts, (Attempt.done.inj ran).symm⟩
  · cases ran

theorem buildChains_ne_refused {vars final : Altering} {err : String} : buildChains env fuel vars ≠ .refused err final := by
  intro ran
  obtain ⟨state, refused, -⟩ := map_eq_refused.mp ran
  apply loop_ne_refused _ refused
  intro state id error next
  unfold buildChain
  split
  · split
    · split
      · exact registerChain_ne_refused
      all_goals nofun
    · nofun
  · nofun

theorem announceCubes_ne_refused {vars final : Altering} {err : String} : announceCubes topo vars ≠ .refused err final := by
  intro ran
  obtain ⟨conns, refused, -⟩ := map_eq_refused.mp ran
  apply loop_ne_refused _ refused
  intro conns task error next
  exact ofOption_ne_refused

/-- A destroyed cube was in the table. -/
theorem destroyCube_done {node next : Node} {name : String} (ran : destroyCube env node name = .done next) :
    ∃ cube, node.cubeMgr.getCube name = some cube ∧
      next =
        {node with
          cubeMgr := ⟨node.cubeMgr.cubeMap.erase (CubeManager.toCanonical name)⟩
          operators :=
            if cube.subscribers.entries = [] then node.operators
            else expire node.operators (env.diesWithCube cube)} := by
  unfold destroyCube at ran
  split at ran
  · cases ran
  · rename_i cube cubeMgr destroyed
    obtain ⟨found, listed, same⟩ := Option.map_eq_some_iff.mp destroyed
    obtain ⟨rfl, rfl⟩ := Prod.mk.inj same
    exact ⟨found, listed, (Attempt.done.inj ran).symm⟩

/-- The stages of a request that goes through are done one after the other. -/
theorem alterTables_done {vars final : Altering} (ran : alterTables env fuel request topo vars = .done final) :
    ∃ started created destroyed wired built governed,
      startOperators env request topo vars = .done started ∧ createCubes env topo started = .done created ∧
        destroyCubes env topo (stopTasks env topo created) = .done destroyed ∧
        connectEdges env topo destroyed = .done wired ∧ buildChains env fuel wired = .done built ∧
        establishCongestPolicies topo built = .done governed ∧ announceCubes topo governed = .done final := by
  obtain ⟨started, start, ran⟩ := bind_eq_done.mp ran
  obtain ⟨created, create, ran⟩ := bind_eq_done.mp ran
  obtain ⟨destroyed, destroy, ran⟩ := bind_eq_done.mp ran
  obtain ⟨built, chains, ran⟩ := bind_eq_done.mp ran
  obtain ⟨wired, wire, build⟩ := bind_eq_done.mp chains
  obtain ⟨governed, govern, announce⟩ := bind_eq_done.mp ran
  exact ⟨started, created, destroyed, wired, built, governed, start, create, destroy, wire, build, govern, announce⟩

/-- A request is refused by the operators, by the cubes, by the edges or by the policies. -/
theorem alterTables_refused {vars final : Altering} {err : String}
    (ran : alterTables env fuel request topo vars = .refused err final) :
    startOperators env request topo vars = .refused err final ∨
      ∃ started, startOperators env request topo vars = .done started ∧
        (createCubes env topo started = .refused err final ∨
          ∃ created destroyed, createCubes env topo started = .done created ∧
            destroyCubes env topo (stopTasks env topo created) = .done destroyed ∧
            (connectEdges env topo destroyed = .refused err final ∨
              ∃ wired built, connectEdges env topo destroyed = .done wired ∧ buildChains env fuel wired = .done built ∧
                establishCongestPolicies topo built = .refused err final)) := by
  rcases bind_eq_refused.mp ran with refused | ⟨started, start, ran⟩
  · exact Or.inl refused
  refine Or.inr ⟨started, start, ?_⟩
  rcases bind_eq_refused.mp ran with refused | ⟨created, create, ran⟩
  · exact Or.inl refused
  rcases bind_eq_refused.mp ran with refused | ⟨destroyed, destroy, ran⟩
  · exact absurd refused destroyCubes_ne_refused
  refine Or.inr ⟨created, destroyed, create, destroy, ?_⟩
  rcases bind_eq_refused.mp ran with refused | ⟨built, chains, ran⟩
  · rcases bind_eq_refused.mp refused with refused | ⟨wired, -, refused⟩
    · exact Or.inl refused
    · exact absurd refused buildChains_ne_refused
  obtain ⟨wired, wire, build⟩ := bind_eq_done.mp chains
  rcases bind_eq_refused.mp ran with refused | ⟨governed, -, refused⟩
  · exact Or.inr ⟨wired, built, wire, build, refused⟩
  · exact absurd refused announceCubes_ne_refused

/-- What every stage after the start of the operators keeps is kept by all of them. -/
theorem alterTables_keeps {vars final : Altering} (Inv : Altering → Prop)
    (start : ∀ started, (startOperators env request topo vars).EndsIn started → Inv started)
    (create : ∀ vars, Inv vars → ∀ next, (createCubes env topo vars).EndsIn next → Inv next)
    (stop : ∀ vars, Inv vars → Inv (stopTasks env topo vars))
    (destroy : ∀ vars, Inv vars → ∀ next, (destroyCubes env topo vars).EndsIn next → Inv next)
    (wire : ∀ vars, Inv vars → ∀ next, (connectEdges env topo vars).EndsIn next → Inv next)
    (build : ∀ vars, Inv vars → ∀ next, (buildChains env fuel vars).EndsIn next → Inv next)
    (govern : ∀ vars, Inv vars → ∀ next, (establishCongestPolicies topo vars).EndsIn next → Inv next)
    (tell : ∀ vars, Inv vars → ∀ next, (announceCubes topo vars).EndsIn next → Inv next)
    (ends : (alterTables env fuel request topo vars).EndsIn final) : Inv final := by
  apply bind_keeps Inv start _ ends
  intro started kept last ends
  apply bind_keeps Inv (create started kept) _ ends
  intro created kept last ends
  apply bind_keeps Inv (destroy _ (stop created kept)) _ ends
  intro destroyed kept last ends
  apply bind_keeps Inv _ _ ends
  · intro built ends
    exact bind_keeps Inv (wire destroyed kept) build ends
  · intro built kept last ends
    exact bind_keeps Inv (govern built kept) tell ends

theorem handleAlter_done {node next : Node} {resp : AlterTopo}
    (ran : node.handleAlter env fuel request topo = .done (resp, next)) :
    ∃ vars, alterTables env fuel request topo (node.startAlter topo) = .done vars ∧ vars.respTopo = resp ∧
      vars.node = next := by
  unfold handleAlter at ran
  split at ran
  · rename_i vars altered
    obtain ⟨responded, reached⟩ := Prod.mk.inj (Attempt.done.inj ran)
    exact ⟨vars, altered, responded, reached⟩
  all_goals cases ran

theorem handleAlter_refused {node next : Node} {resp : AlterTopo} {err : String}
    (ran : node.handleAlter env fuel request topo = .refused err (resp, next)) :
    ∃ vars, alterTables env fuel request topo (node.startAlter topo) = .refused err vars ∧
      (rollBack env node vars).node = next := by
  unfold handleAlter at ran
  split at ran
  · cases ran
  · rename_i reason vars altered
    obtain ⟨rfl, answered⟩ := Attempt.refused.inj ran
    exact ⟨vars, altered, (Prod.mk.inj answered).2⟩
  all_goals cases ran

end Stages

end JetStream.Node
