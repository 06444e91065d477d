import JetStream.Dataplane.RefusedStages
import JetStream.Lib.Worklist

namespace JetStream.Node

open Attempt

/-- The edge puts this member behind its source. -/
def destMember (cubeMgr : CubeManager) (edge : Edge) : Option ChainMember :=
  match edge.destAddr, edge.dest, edge.destCube with
  | some _, _, _ => some (.remoteDest edge)
  | none, some task, _ => some (.operator (toLex (edge.computation, task)))
  | none, none, some destCube => (cubeMgr.getCube destCube).map fun cube => .cube cube.name
  | none, none, none => none

/-- A chain goes on at the local end of the last edge unless a chain ends there. -/
def passesTo (types : TaskID → Option OperatorType) (edges : List Edge) (id : TaskID) : List TaskID :=
  (((outedge edges id).bind localDest).filter fun dest => (types dest).any fun type => !type.isChainEnd).toList

theorem step_passesTo {types : TaskID → Option OperatorType} {edges : List Edge} {id dest : TaskID} :
    Worklist.Step (passesTo types edges) id dest ↔ ∃ edge type, outedge edges id = some edge ∧
      localDest edge = some dest ∧ types dest = some type ∧ type.isChainEnd = false := by
  simp only [Worklist.Step, passesTo, Option.mem_toList, Option.filter_eq_some_iff,
    Option.bind_eq_some_iff, Option.any_eq_true_iff_get]
  constructor
  · rintro ⟨⟨edge, leaves, ends⟩, alive, goesOn⟩
    exact ⟨edge, _, leaves, ends, (Option.some_get alive).symm, by simpa using goesOn⟩
  · rintro ⟨edge, type, leaves, ends, typed, goesOn⟩
    exact ⟨⟨edge, leaves, ends⟩, by simp [typed], by simp [typed, goesOn]⟩

section Walk

variable {fuel : ℕ} {operators : OperatorTable} {cubeMgr : CubeManager} {opToOutedge : OrderedMap TaskID Edge}
  {edges : List Edge} {opID : TaskID} {member : ChainMember} {hitEnd : Bool} {found : List ChainMember × List TaskID}

/-- The chain leaves the operator on the edge. -/
def GoesOn (opToOutedge : OrderedMap TaskID Edge) (opID : TaskID) (member : ChainMember) (hitEnd : Bool) (edge : Edge) :
    Prop :=
  opToOutedge.get? opID = some edge ∧ (∃ id, member = .operator id) ∧ hitEnd = false

theorem followChain_succ_iff : followChain operators cubeMgr opToOutedge (fuel + 1) opID member hitEnd = .done found ↔
    (∃ edge nextID next nextEnd rest, GoesOn opToOutedge opID member hitEnd edge ∧
      nextMember operators cubeMgr opID edge = some (nextID, next, nextEnd) ∧
      followChain operators cubeMgr opToOutedge fuel nextID next nextEnd = .done rest ∧
      found = (member :: rest.1, opID :: rest.2)) ∨
    (∀ edge, ¬GoesOn opToOutedge opID member hitEnd edge) ∧ found = ([member], [opID]) := by
  conv_lhs => unfold followChain
  split
  · rename_i edge id leaves
    have goesOn : GoesOn opToOutedge opID (.operator id) false edge := ⟨leaves, ⟨id, rfl⟩, rfl⟩
    rw [or_iff_left fun stops => stops.1 edge goesOn]
    constructor
    · intro ran
      split at ran
      · cases ran
      · rename_i nextID next nextEnd moved
        obtain ⟨rest, followed, rfl⟩ := map_eq_done.mp ran
        exact ⟨edge, nextID, next, nextEnd, rest, goesOn, moved, followed, rfl⟩
    · rintro ⟨other, nextID, next, nextEnd, rest, ⟨same, -⟩, moved, followed, rfl⟩
      obtain rfl := Option.some.inj (leaves.symm.trans same)
      rw [moved]
      exact map_eq_done.mpr ⟨rest, followed, rfl⟩
  · rename_i member hitEnd _ _ _ stops
    have never : ∀ edge, ¬GoesOn opToOutedge opID member hitEnd edge := by
      rintro edge ⟨leaves, ⟨id, rfl⟩, rfl⟩
      exact stops edge id leaves rfl rfl
    have stays : ¬∃ edge nextID next nextEnd rest, GoesOn opToOutedge opID member hitEnd edge ∧
        nextMember operators cubeMgr opID edge = some (nextID, next, nextEnd) ∧
        followChain operators cubeMgr opToOutedge fuel nextID next nextEnd = .done rest ∧
        found = (member :: rest.1, opID :: rest.2) := by
      rintro ⟨edge, _, _, _, _, goesOn, -⟩
      exact never edge goesOn
    rw [or_iff_right stays, and_iff_right never]
    constructor
    · intro ran
      exact (Attempt.done.inj ran).symm
    · rintro rfl
      rfl

theorem nextMember_destMember {edge : Edge} {nextID : TaskID} {next : ChainMember} {nextEnd : Bool}
    (moved : nextMember operators cubeMgr opID edge = some (nextID, next, nextEnd)) :
    destMember cubeMgr edge = some next := by
  unfold nextMember at moved
  unfold destMember
  split at moved
  · obtain ⟨rfl, rfl, rfl⟩ : opID = nextID ∧ _ = next ∧ false = nextEnd := by simpa using moved
    simp [*]
  · split at moved
    · obtain ⟨rfl, rfl, rfl⟩ : _ = nextID ∧ _ = next ∧ _ = nextEnd := by simpa using moved
      simp [*]
    · cases moved
  · obtain ⟨cube, listed, same⟩ := Option.map_eq_some_iff.mp moved
    obtain ⟨rfl, rfl, rfl⟩ : opID = nextID ∧ _ = next ∧ false = nextEnd := by simpa using same
    simp [*]
  · cases moved

/-- An edge that leaves the operators does not look them up. -/
theorem nextMember_congr {before : OperatorTable} {edge : Edge} (nowhere : localDest edge = none) :
    nextMember before cubeMgr opID edge = nextMember operators cubeMgr opID edge := by
  obtain ⟨computation, src, srcCube, task, destCube, destAddr⟩ := edge
  cases task <;> cases destAddr <;> simp only [localDest, reduceCtorEq] at nowhere <;>
    cases destCube <;> rfl

theorem nextMember_operator {edge : Edge} {dest : TaskID} {op : COperator} (ends : localDest edge = some dest)
    (alive : operators.get? dest = some (some op)) :
    nextMember operators cubeMgr opID edge = some (dest, .operator dest, op.type.isChainEnd) := by
  obtain ⟨computation, src, srcCube, task, destCube, destAddr⟩ := edge
  cases task <;> cases destAddr <;> simp only [localDest, reduceCtorEq, Option.some.injEq] at ends
  subst ends
  simp [nextMember, alive]

/-- An edge that ends outside of the operators puts a member there that is no operator. -/
theorem nextMember_outside {edge : Edge} (ends : localDest edge = none) (there : (destMember cubeMgr edge).isSome) :
    ∃ next, nextMember operators cubeMgr opID edge = some (opID, next, false) ∧ ∀ id, next ≠ .operator id := by
  obtain ⟨computation, src, srcCube, dest, destCube, destAddr⟩ := edge
  cases destAddr with
  | some away => exact ⟨_, rfl, nofun⟩
  | none =>
      cases dest with
      | some task => cases ends
      | none =>
          cases destCube with
          | none => cases there
          | some name =>
              obtain ⟨next, found⟩ := Option.isSome_iff_exists.mp there
              obtain ⟨cube, listed, rfl⟩ := Option.map_eq_some_iff.mp found
              refine ⟨.cube cube.name, ?_, nofun⟩
              simp [nextMember, listed]

/-- The last edge from an operator is one of the edges. -/
theorem outedge_some {edge : Edge} (leaves : outedge edges opID = some edge) :
    edge ∈ edges ∧ ∃ task, edge.src = some task ∧ toLex (edge.computation, task) = opID := by
  have listed := List.mem_of_find?_eq_some leaves
  have starts := List.find?_some leaves
  refine ⟨List.mem_reverse.mp listed, ?_⟩
  cases source : edge.src with
  | none =>
      rw [source] at starts
      cases starts
  | some task =>
      rw [source] at starts
      exact ⟨task, rfl, of_decide_eq_true starts⟩

/-- A chain does not go on behind a member that is no operator. -/
theorem followChain_outside (outside : ∀ id, member ≠ .operator id)
    (followed : followChain operators cubeMgr opToOutedge fuel opID member hitEnd = .done found) :
    found = ([member], [opID]) := by
  cases fuel with
  | zero => cases followed
  | succ fuel =>
      rcases followChain_succ_iff.mp followed with ⟨edge, _, _, _, _, ⟨-, ⟨id, same⟩, -⟩, -⟩ | ⟨-, stops⟩
      · exact absurd same (outside id)
      · exact stops

/-- More fuel does not change a chain that is complete. -/
theorem followChain_mono {more : ℕ} (enough : fuel ≤ more)
    (followed : followChain operators cubeMgr opToOutedge fuel opID member hitEnd = .done found) :
    followChain operators cubeMgr opToOutedge more opID member hitEnd = .done found := by
  induction fuel generalizing more opID member hitEnd found with
  | zero => cases followed
  | succ fuel ih =>
      obtain ⟨more, rfl⟩ : ∃ less, more = less + 1 := ⟨more - 1, by omega⟩
      rw [followChain_succ_iff] at followed ⊢
      refine followed.imp_left ?_
      rintro ⟨edge, nextID, next, nextEnd, rest, goesOn, moved, followed, same⟩
      exact ⟨edge, nextID, next, nextEnd, rest, goesOn, moved, ih (by omega) followed, same⟩

/-- The members that stand behind each other are the operators that the chain leaves with the ends of their edges. -/
theorem followChain_adjacent (outedges : ∀ id, opToOutedge.get? id = outedge edges id)
    (followed : followChain operators cubeMgr opToOutedge fuel opID (.operator opID) hitEnd = .done found) (id : TaskID)
    (next : ChainMember) :
    [.operator id, next] <:+: found.1 ↔ hitEnd = false ∧
      Relation.ReflTransGen (Worklist.Step (passesTo (liveType operators) edges)) opID id ∧
      (outedge edges id).bind (destMember cubeMgr) = some next := by
  induction fuel generalizing opID hitEnd found with
  | zero => cases followed
  | succ fuel ih =>
      have step (x : TaskID) := @step_passesTo (liveType operators) edges opID x
      rcases followChain_succ_iff.mp followed with
        ⟨edge, nextID, behind, nextEnd, rest, ⟨leaves, -, rfl⟩, moved, following, rfl⟩ | ⟨stops, rfl⟩
      · rw [outedges] at leaves
        obtain ⟨front, later⟩ := (followChain_done following).1
        have here : [.operator id, next] <+: .operator opID :: rest.1 ↔ id = opID ∧ next = behind := by
          simp [List.cons_prefix_cons, later]
        have ends := nextMember_destMember moved
        rw [List.infix_cons_iff, here, Relation.ReflTransGen.cases_head_iff, and_iff_right rfl]
        have first : id = opID ∧ next = behind ↔ opID = id ∧ (outedge edges id).bind (destMember cubeMgr) = some next := by
          constructor
          · rintro ⟨rfl, rfl⟩
            exact ⟨rfl, by rw [leaves, Option.bind_some, ends]⟩
          · rintro ⟨rfl, behindIt⟩
            rw [leaves, Option.bind_some, ends] at behindIt
            exact ⟨rfl, (Option.some.inj behindIt).symm⟩
        rw [first, or_and_right]
        apply or_congr_right
        rcases nextMember_some moved with ⟨nowhere, rfl, outside⟩ | ⟨op, stays, alive, rfl, rfl⟩
        · obtain rfl := followChain_outside outside following
          refine iff_of_false (fun short => by simpa using short.length_le) ?_
          rintro ⟨⟨x, moves, -⟩, -⟩
          obtain ⟨other, type, same, elsewhere, -⟩ := (step x).mp moves
          obtain rfl := Option.some.inj (leaves.symm.trans same)
          cases nowhere.symm.trans elsewhere
        · rw [ih following]
          constructor
          · rintro ⟨goesOn, path, behindIt⟩
            exact ⟨⟨nextID, (step nextID).mpr ⟨edge, op.type, leaves, stays, liveType_eq_some alive, goesOn⟩, path⟩,
              behindIt⟩
          · rintro ⟨⟨x, moves, path⟩, behindIt⟩
            obtain ⟨other, type, same, elsewhere, typed, goesOn⟩ := (step x).mp moves
            obtain rfl := Option.some.inj (leaves.symm.trans same)
            obtain rfl := Option.some.inj (stays.symm.trans elsewhere)
            obtain rfl := Option.some.inj ((liveType_eq_some alive).symm.trans typed)
            exact ⟨goesOn, path, behindIt⟩
      · refine iff_of_false (fun short => by simpa using short.length_le) ?_
        rintro ⟨rfl, path, behindIt⟩
        have nowhere : outedge edges opID = none := by
          rw [← outedges, Option.eq_none_iff_forall_ne_some]
          intro edge leaves
          exact stops edge ⟨leaves, ⟨opID, rfl⟩, rfl⟩
        rcases Relation.ReflTransGen.cases_head_iff.mp path with rfl | ⟨x, moves, -⟩
        · rw [nowhere] at behindIt
          cases behindIt
        · obtain ⟨edge, -, leaves, -⟩ := (step x).mp moves
          cases nowhere.symm.trans leaves

/-- A chain is complete when every way on from its start ends and the ends of the edges are there. -/
theorem followChain_of_ends (outedges : ∀ id, opToOutedge.get? id = outedge edges id)
    (complete : ∀ edge ∈ edges, edge.src ≠ none → (destMember cubeMgr edge).isSome ∧
      ∀ dest, localDest edge = some dest → ∃ op, operators.get? dest = some (some op))
    (ends : Worklist.Ends (passesTo (liveType operators) edges) opID) :
    ∃ fuel found, followChain operators cubeMgr opToOutedge fuel opID (.operator opID) false = .done found := by
  induction ends with
  | intro opID _ ih =>
      cases leaves : outedge edges opID with
      | none =>
          refine ⟨1, _, followChain_succ_iff.mpr (Or.inr ⟨?_, rfl⟩)⟩
          rintro edge ⟨same, -⟩
          rw [outedges, leaves] at same
          cases same
      | some edge =>
          obtain ⟨listed, task, starts, -⟩ := outedge_some leaves
          have goesOn : GoesOn opToOutedge opID (.operator opID) false edge := ⟨(outedges opID).trans leaves, ⟨opID, rfl⟩, rfl⟩
          obtain ⟨there, live⟩ := complete edge listed (by rw [starts]; nofun)
          cases ends : localDest edge with
          | none =>
              obtain ⟨next, moved, outside⟩ := @nextMember_outside operators cubeMgr opID edge ends there
              refine ⟨2, _, followChain_succ_iff.mpr (Or.inl ⟨edge, _, _, _, _, goesOn, moved,
                followChain_succ_iff.mpr (Or.inr ⟨?_, rfl⟩), rfl⟩)⟩
              rintro other ⟨-, ⟨id, same⟩, -⟩
              exact outside id same
          | some dest =>
              obtain ⟨op, alive⟩ := live dest ends
              have moved := @nextMember_operator operators cubeMgr opID edge dest op ends alive
              cases stops : op.type.isChainEnd with
              | true =>
                  rw [stops] at moved
                  refine ⟨2, _, followChain_succ_iff.mpr (Or.inl ⟨edge, _, _, _, _, goesOn, moved,
                    followChain_succ_iff.mpr (Or.inr ⟨?_, rfl⟩), rfl⟩)⟩
                  rintro other ⟨-, -, same⟩
                  cases same
              | false =>
                  rw [stops] at moved
                  obtain ⟨fuel, found, followed⟩ :=
                    ih dest (step_passesTo.mpr ⟨edge, op.type, leaves, ends, liveType_eq_some alive, stops⟩)
                  exact ⟨fuel + 1, _, followChain_succ_iff.mpr (Or.inl ⟨edge, _, _, _, _, goesOn, moved, followed, rfl⟩)⟩

/-- The start of a complete chain does not lead into a cycle. -/
theorem ends_of_followChain (outedges : ∀ id, opToOutedge.get? id = outedge edges id)
    (followed : followChain operators cubeMgr opToOutedge fuel opID (.operator opID) false = .done found) :
    Worklist.Ends (passesTo (liveType operators) edges) opID := by
  induction fuel generalizing opID found with
  | zero => cases followed
  | succ fuel ih =>
      refine Acc.intro opID fun x moves => ?_
      obtain ⟨edge, type, leaves, elsewhere, typed, goesOn⟩ := step_passesTo.mp moves
      rw [← outedges] at leaves
      rcases followChain_succ_iff.mp followed with
        ⟨other, nextID, behind, nextEnd, rest, ⟨same, -⟩, moved, following, -⟩ | ⟨stops, -⟩
      · obtain rfl := Option.some.inj (leaves.symm.trans same)
        rcases nextMember_some moved with ⟨nowhere, -⟩ | ⟨op, stays, alive, rfl, rfl⟩
        · cases nowhere.symm.trans elsewhere
        · obtain rfl := Option.some.inj (stays.symm.trans elsewhere)
          obtain rfl := Option.some.inj ((liveType_eq_some alive).symm.trans typed)
          rw [goesOn] at following
          exact ih following
      · exact absurd ⟨leaves, ⟨opID, rfl⟩, rfl⟩ (stops edge)

/-- When operators have expired, a complete chain is the one of before, and the operators that it passes are alive. -/
theorem followChain_shrinks {before : OperatorTable} (shrinks : Shrinks before operators)
    (alive : ∃ op, operators.get? opID = some (some op)) :
    followChain operators cubeMgr opToOutedge fuel opID member hitEnd = .done found ↔
      followChain before cubeMgr opToOutedge fuel opID member hitEnd = .done found ∧
        ∀ id ∈ found.2, ∃ op, operators.get? id = some (some op) := by
  induction fuel generalizing opID member hitEnd found with
  | zero => exact iff_of_false nofun fun both => nomatch both.1
  | succ fuel ih =>
      rw [followChain_succ_iff, followChain_succ_iff]
      constructor
      · rintro (⟨edge, nextID, next, nextEnd, rest, goesOn, moved, followed, rfl⟩ | ⟨stops, rfl⟩)
        · obtain ⟨earlier, nextAlive⟩ : nextMember before cubeMgr opID edge = some (nextID, next, nextEnd) ∧
              ∃ op, operators.get? nextID = some (some op) := by
            rcases nextMember_some moved with ⟨nowhere, rfl, -⟩ | ⟨op, ends, live, rfl, rfl⟩
            · exact ⟨(nextMember_congr nowhere).trans moved, alive⟩
            · exact ⟨nextMember_operator ends (shrinks nextID op live), op, live⟩
          obtain ⟨earlierRest, restAlive⟩ := (ih nextAlive).mp followed
          exact ⟨Or.inl ⟨edge, nextID, next, nextEnd, rest, goesOn, earlier, earlierRest, rfl⟩,
            List.forall_mem_cons.mpr ⟨alive, restAlive⟩⟩
        · exact ⟨Or.inr ⟨stops, rfl⟩, List.forall_mem_cons.mpr ⟨alive, nofun⟩⟩
      · rintro ⟨⟨edge, nextID, next, nextEnd, rest, goesOn, moved, followed, rfl⟩ | ⟨stops, rfl⟩, live⟩
        · obtain ⟨later, passed⟩ := (followChain_done followed).2
          have restLive := (List.forall_mem_cons.mp live).2
          have nextLive := restLive nextID (by rw [passed]; exact List.mem_cons_self)
          refine Or.inl ⟨edge, nextID, next, nextEnd, rest, goesOn, ?_, (ih nextLive).mpr ⟨followed, restLive⟩, rfl⟩
          rcases nextMember_some moved with ⟨nowhere, -⟩ | ⟨op, ends, listed, rfl, rfl⟩
          · exact (nextMember_congr nowhere).trans moved
          · obtain ⟨found, here⟩ := nextLive
            obtain rfl := Option.some.inj (Option.some.inj (listed.symm.trans (shrinks nextID found here)))
            exact nextMember_operator ends here
        · exact Or.inr ⟨stops, rfl⟩

end Walk

end JetStream.Node
