import JetStream.Dataplane.ChainWalk

namespace JetStream.Node

open Attempt

/-- The operator is in the table and has not expired. -/
def Alive (operators : OperatorTable) (id : TaskID) : Prop := ∃ op, operators.get? id = some (some op)

section Condition

variable (env : Surroundings) (types : TaskID → Option OperatorType) (edges : List Edge)

/-- The operator is a source, or no edge from an operator leads to it. -/
def Heads (id : TaskID) : Prop :=
  (∀ edge ∈ edges, ¬Precedes edge id) ∨ ∃ type, types id = some type ∧ type.isSource

/-- These operators must be alive when it is the turn of the first one. -/
def Uses (id other : TaskID) : Prop := other = id ∨ Heads types edges id ∧ Follows types edges id false other

/-- This is the older chain that a new one at the operator replaces. -/
def replaced (sourceless sources : ChainTable) (id : TaskID) : Option OperatorChain :=
  ((if (types id).any OperatorType.isSource then sources else sourceless).get? id).join

/-- The second operator dies with the chain that a new one at the first operator replaces. -/
def LetsGo (sourceless sources : ChainTable) (id other : TaskID) : Prop :=
  Heads types edges id ∧ ∃ old, replaced types sourceless sources id = some old ∧ env.diesWithChain old other

end Condition

section Built

variable {env : Surroundings} {fuel : ℕ} {cubeMgr : CubeManager} {opToOutedge : OrderedMap TaskID Edge}
  {opToPred : OrderedMap TaskID TaskID} {edges : List Edge} {before : OperatorTable}

theorem alive_replaceChain {operators : OperatorTable} {chains : ChainTable} {id other : TaskID} :
    Alive (replaceChain env operators chains id) other ↔
      Alive operators other ∧ ∀ old, (chains.get? id).join = some old → ¬env.diesWithChain old other := by
  unfold replaceChain Alive
  split
  · rename_i old listed
    rw [get?_expire, listed]
    constructor
    · rintro ⟨op, found⟩
      obtain ⟨entry, here, same⟩ := Option.map_eq_some_iff.mp found
      split at same
      · cases same
      · rename_i lives
        refine ⟨⟨op, by rw [here, same]⟩, fun last only => ?_⟩
        obtain rfl : old = last := Option.some.inj only
        exact lives
    · rintro ⟨⟨op, found⟩, lives⟩
      exact ⟨op, by rw [found, Option.map_some, if_neg (lives old rfl)]⟩
  · rename_i none
    refine (and_iff_left fun old listed => ?_).symm
    exact absurd (Option.join_eq_some_iff.mp listed) (none old)

/-- The tables of the edges are those of the given ones, whose ends are there. -/
structure Wired (operators : OperatorTable) (cubeMgr : CubeManager) (opToOutedge : OrderedMap TaskID Edge)
    (opToPred : OrderedMap TaskID TaskID) (edges : List Edge) : Prop where
  outedges : ∀ id, opToOutedge.get? id = outedge edges id
  preds : ∀ id, opToPred.get? id = none ↔ ∀ edge ∈ edges, ¬Precedes edge id
  complete : ∀ edge ∈ edges, edge.src ≠ none → (destMember cubeMgr edge).isSome ∧
    ∀ dest, localDest edge = some dest → Alive operators dest

/-- The table has this chain for its kind of start. -/
def Registered (types : TaskID → Option OperatorType) (state : Building) (id : TaskID) (chain : OperatorChain) : Prop :=
  (if (types id).any OperatorType.isSource then state.chainSources else state.sourcelessChain).get? id = some (some chain)

variable (wired : Wired before cubeMgr opToOutedge opToPred edges)

include wired

theorem Wired.heads_iff {id : TaskID} {op : COperator} (alive : before.get? id = some (some op)) :
    opToPred.get? id = none ∨ op.type.isSource ↔ Heads (liveType before) edges id := by
  rw [Heads, wired.preds, liveType_eq_some alive]
  simp

/-- A complete chain needs operators that are alive, and its start does not lead into a cycle. -/
theorem Wired.followChain_iff {operators : OperatorTable} (shrinks : Shrinks before operators) {id : TaskID}
    (alive : Alive operators id) :
    (∃ fuel found, followChain operators cubeMgr opToOutedge fuel id (.operator id) false = .done found) ↔
      Worklist.Ends (passesTo (liveType before) edges) id ∧
        ∀ other, Follows (liveType before) edges id false other → Alive operators other := by
  constructor
  · rintro ⟨fuel, found, followed⟩
    obtain ⟨earlier, passed⟩ := (followChain_shrinks shrinks alive).mp followed
    refine ⟨ends_of_followChain wired.outedges earlier, fun other follows => ?_⟩
    exact passed other ((followChain_passes wired.outedges earlier other).mpr follows)
  · rintro ⟨ends, passed⟩
    obtain ⟨fuel, found, followed⟩ := followChain_of_ends wired.outedges wired.complete ends
    refine ⟨fuel, found, (followChain_shrinks shrinks alive).mpr ⟨followed, fun other member => ?_⟩⟩
    exact passed other ((followChain_passes wired.outedges followed other).mp member)

/-- A new operator is passed over, or its chain is complete and is registered. -/
theorem Wired.buildChain_iff {state : Building} (shrinks : Shrinks before state.operators)
    (conns : state.dataConnMgr.Distinct) {id : TaskID} :
    (∃ fuel next, buildChain env fuel cubeMgr opToOutedge opToPred state id = .done next) ↔
      (Heads (liveType before) edges id → Worklist.Ends (passesTo (liveType before) edges) id) ∧
        ∀ other, Uses (liveType before) edges id other → Alive state.operators other := by
  constructor
  · rintro ⟨fuel, next, ran⟩
    obtain ⟨op, alive, ⟨notHead, -⟩ | ⟨head, members, passed, followed, -⟩⟩ := buildChain_done ran
    · rw [wired.heads_iff (shrinks id op alive)] at notHead
      refine ⟨fun head => absurd head notHead, ?_⟩
      rintro other (rfl | ⟨head, -⟩)
      · exact ⟨op, alive⟩
      · exact absurd head notHead
    · obtain ⟨ends, live⟩ := (wired.followChain_iff shrinks ⟨op, alive⟩).mp ⟨fuel, _, followed⟩
      refine ⟨fun _ => ends, ?_⟩
      rintro other (rfl | ⟨-, follows⟩)
      · exact ⟨op, alive⟩
      · exact live other follows
  · rintro ⟨ends, live⟩
    obtain ⟨op, alive⟩ := live id (Or.inl rfl)
    have head_iff := wired.heads_iff (shrinks id op alive)
    by_cases head : Heads (liveType before) edges id
    · obtain ⟨fuel, ⟨members, passed⟩, followed⟩ := (wired.followChain_iff shrinks ⟨op, alive⟩).mpr
        ⟨ends head, fun other follows => live other (Or.inr ⟨head, follows⟩)⟩
      obtain ⟨rest, rfl⟩ := (followChain_done followed).1
      obtain ⟨told, created, -⟩ := @DataplaneConnManager.createdChain_released _
        ⟨(.operator id :: rest).map some⟩ id.asString conns rfl (by simp)
      refine ⟨fuel, ?_⟩
      simp only [buildChain, alive, head_iff.mpr head, if_true, followed, registerChain, created]
      cases op.type.isSource <;> exact ⟨_, rfl⟩
    · refine ⟨0, state, ?_⟩
      simp only [buildChain, alive, if_neg (mt head_iff.mp head)]

/-- What one new operator does to the operators, the tables and the connections. -/
theorem Wired.buildChain_spec {state next : Building} (shrinks : Shrinks before state.operators)
    (conns : state.dataConnMgr.Distinct) {id : TaskID}
    (ran : buildChain env fuel cubeMgr opToOutedge opToPred state id = .done next) :
    Shrinks before next.operators ∧ next.dataConnMgr.Distinct ∧
      (∀ other, Alive next.operators other ↔ Alive state.operators other ∧
        ¬LetsGo env (liveType before) edges state.sourcelessChain state.chainSources id other) ∧
      (∀ other, other ≠ id → SameAt state next other) ∧
      (Heads (liveType before) edges id → ∃ found, followChain before cubeMgr opToOutedge fuel id (.operator id) false =
        .done found ∧ Registered (liveType before) next id ⟨found.1.map some⟩) := by
  obtain ⟨op, alive, ⟨notHead, rfl⟩ | ⟨head, members, passed, followed, registered⟩⟩ := buildChain_done ran
  · rw [wired.heads_iff (shrinks id op alive)] at notHead
    exact ⟨shrinks, conns, fun other => (and_iff_left fun letsGo => notHead letsGo.1).symm, fun _ _ => ⟨rfl, rfl⟩,
      fun head => absurd head notHead⟩
  · have source : (liveType before id).any OperatorType.isSource = op.type.isSource := by
      rw [liveType_eq_some (shrinks id op alive), Option.any_some]
    rw [wired.heads_iff (shrinks id op alive)] at head
    have earlier := ((followChain_shrinks shrinks ⟨op, alive⟩).mp followed).1
    obtain ⟨told, created, rfl⟩ := registerChain_done registered
    obtain ⟨rest, rfl⟩ := (followChain_done followed).1
    refine ⟨fun other found here => shrinks other found (shrinks_replaceChain env _ _ id other found here), ?_, ?_, ?_, ?_⟩
    · obtain ⟨released, same, spec⟩ := @DataplaneConnManager.createdChain_released _
        ⟨(.operator id :: rest).map some⟩ id.asString conns rfl (by simp)
      obtain rfl := Option.some.inj (same.symm.trans created)
      exact spec.distinct conns
    · intro other
      dsimp only
      rw [alive_replaceChain, LetsGo, replaced, source, not_and, not_exists]
      exact and_congr_right fun _ => ⟨fun lives _ old both => lives old both.1 both.2,
        fun lives old listed dies => lives head old ⟨listed, dies⟩⟩
    · intro other different
      rw [SameAt]
      cases op.type.isSource with
      | false => exact ⟨(OrderedMap.get?_set _ _ _ _).trans (if_neg different), rfl⟩
      | true => exact ⟨rfl, (OrderedMap.get?_set _ _ _ _).trans (if_neg different)⟩
    · intro _
      refine ⟨_, earlier, ?_⟩
      rw [Registered, source]
      cases op.type.isSource with
      | false => exact (OrderedMap.get?_set _ _ _ _).trans (if_pos rfl)
      | true => exact (OrderedMap.get?_set _ _ _ _).trans (if_pos rfl)

omit wired in
theorem buildChain_mono {more : ℕ} (enough : fuel ≤ more) {state next : Building} {id : TaskID}
    (ran : buildChain env fuel cubeMgr opToOutedge opToPred state id = .done next) :
    buildChain env more cubeMgr opToOutedge opToPred state id = .done next := by
  obtain ⟨op, alive, ⟨notHead, rfl⟩ | ⟨head, members, passed, followed, registered⟩⟩ := buildChain_done ran
  · simp only [buildChain, alive, if_neg notHead]
  · simp only [buildChain, alive, if_pos head, followChain_mono enough followed, registered]

/-- The new operators are built when their chains end and need only operators that are alive, also behind those that
die with the chains that were replaced before. -/
theorem Wired.loop_buildChain_iff {ids : List TaskID} {state : Building} (shrinks : Shrinks before state.operators)
    (conns : state.dataConnMgr.Distinct) (distinct : ids.Nodup) :
    (∃ fuel final, loop (buildChain env fuel cubeMgr opToOutedge opToPred) state ids = .done final) ↔
      (∀ id ∈ ids, (Heads (liveType before) edges id → Worklist.Ends (passesTo (liveType before) edges) id) ∧
        ∀ other, Uses (liveType before) edges id other → Alive state.operators other) ∧
      ids.Pairwise fun id later => ∀ other, Uses (liveType before) edges later other →
        ¬LetsGo env (liveType before) edges state.sourcelessChain state.chainSources id other := by
  induction ids generalizing state with
  | nil => exact iff_of_true ⟨0, state, rfl⟩ ⟨nofun, .nil⟩
  | cons id rest ih =>
      obtain ⟨fresh, restDistinct⟩ := List.nodup_cons.mp distinct
      rw [List.forall_mem_cons, List.pairwise_cons, ← wired.buildChain_iff shrinks conns]
      -- behind the first operator fewer operators are alive, and the tables differ at its name only
      have later {fuel : ℕ} {next : Building}
          (stepped : buildChain env fuel cubeMgr opToOutedge opToPred state id = .done next) :
          (∃ fuel final, loop (buildChain env fuel cubeMgr opToOutedge opToPred) next rest = .done final) ↔
            (∀ other ∈ rest,
              (Heads (liveType before) edges other → Worklist.Ends (passesTo (liveType before) edges) other) ∧
              ∀ used, Uses (liveType before) edges other used → Alive state.operators used) ∧
            (∀ other ∈ rest, ∀ used, Uses (liveType before) edges other used →
              ¬LetsGo env (liveType before) edges state.sourcelessChain state.chainSources id used) ∧
            rest.Pairwise fun other last => ∀ used, Uses (liveType before) edges last used →
              ¬LetsGo env (liveType before) edges state.sourcelessChain state.chainSources other used := by
        obtain ⟨nextShrinks, nextConns, live, same, -⟩ := wired.buildChain_spec shrinks conns stepped
        rw [ih nextShrinks nextConns restDistinct]
        have letsGo (other : TaskID) (member : other ∈ rest) (used : TaskID) :
            LetsGo env (liveType before) edges next.sourcelessChain next.chainSources other used ↔
              LetsGo env (liveType before) edges state.sourcelessChain state.chainSources other used := by
          obtain ⟨sourceless, sources⟩ := same other (ne_of_mem_of_not_mem member fresh)
          unfold LetsGo replaced
          split <;> simp only [sourceless, sources]
        have pairs := List.Pairwise.iff_of_mem (l := rest)
          (R := fun other last => ∀ used, Uses (liveType before) edges last used →
            ¬LetsGo env (liveType before) edges next.sourcelessChain next.chainSources other used)
          (S := fun other last => ∀ used, Uses (liveType before) edges last used →
            ¬LetsGo env (liveType before) edges state.sourcelessChain state.chainSources other used)
          fun {other last} member _ => forall_congr' fun used => imp_congr_right fun _ =>
            not_congr (letsGo other member used)
        rw [pairs, ← and_assoc]
        apply and_congr_left'
        simp only [live]
        constructor
        · intro all
          exact ⟨fun other member => ⟨(all other member).1, fun used uses => ((all other member).2 used uses).1⟩,
            fun other member used uses => ((all other member).2 used uses).2⟩
        · intro all other member
          exact ⟨(all.1 other member).1, fun used uses => ⟨(all.1 other member).2 used uses, all.2 other member used uses⟩⟩
      constructor
      · rintro ⟨fuel, final, ran⟩
        obtain ⟨next, stepped, following⟩ := bind_eq_done.mp ran
        obtain ⟨each, first, pairs⟩ := (later stepped).mp ⟨fuel, final, following⟩
        exact ⟨⟨⟨fuel, next, stepped⟩, each⟩, first, pairs⟩
      · rintro ⟨⟨⟨fuel, next, stepped⟩, each⟩, first, pairs⟩
        obtain ⟨more, final, following⟩ := (later stepped).mpr ⟨each, first, pairs⟩
        refine ⟨max fuel more, final, bind_eq_done.mpr ⟨next, buildChain_mono (le_max_left _ _) stepped, ?_⟩⟩
        exact loop_mono (fun _ _ _ => buildChain_mono (le_max_right _ _)) following

/-- Every new operator that starts a chain has the chain that the edges give under its name. -/
theorem Wired.loop_buildChain_registered {ids : List TaskID} {state final : Building}
    (shrinks : Shrinks before state.operators) (conns : state.dataConnMgr.Distinct) (distinct : ids.Nodup)
    (ran : loop (buildChain env fuel cubeMgr opToOutedge opToPred) state ids = .done final) :
    (∀ id ∈ ids, Heads (liveType before) edges id → ∃ found,
      followChain before cubeMgr opToOutedge fuel id (.operator id) false = .done found ∧
        Registered (liveType before) final id ⟨found.1.map some⟩) ∧
      ∀ other, other ∉ ids → SameAt state final other := by
  induction ids generalizing state with
  | nil =>
      obtain rfl := Attempt.done.inj ran
      exact ⟨nofun, fun _ _ => ⟨rfl, rfl⟩⟩
  | cons id rest ih =>
      obtain ⟨fresh, restDistinct⟩ := List.nodup_cons.mp distinct
      obtain ⟨next, stepped, following⟩ := bind_eq_done.mp ran
      obtain ⟨nextShrinks, nextConns, -, same, first⟩ := wired.buildChain_spec shrinks conns stepped
      obtain ⟨others, restSame⟩ := ih nextShrinks nextConns restDistinct following
      refine ⟨List.forall_mem_cons.mpr ⟨fun head => ?_, others⟩, fun other outside => ?_⟩
      · obtain ⟨found, followed, registered⟩ := first head
        obtain ⟨sourceless, sources⟩ := restSame id fresh
        refine ⟨found, followed, ?_⟩
        unfold Registered at registered ⊢
        split at registered
        · rename_i source
          rw [if_pos source, sources, registered]
        · rename_i source
          rw [if_neg source, sourceless, registered]
      · rw [List.mem_cons, not_or] at outside
        obtain ⟨sourceless, sources⟩ := same other outside.1
        obtain ⟨restSourceless, restSources⟩ := restSame other outside.2
        exact ⟨restSourceless.trans sourceless, restSources.trans sources⟩

end Built

end JetStream.Node
