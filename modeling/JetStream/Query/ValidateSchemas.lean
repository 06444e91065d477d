import Mathlib.Data.Fintype.EquivFin
import JetStream.Lib.Attempt
import JetStream.Lib.BreadthFirst
import JetStream.Query.QueryGraph

namespace JetStream

/-- A schema error is the only exception that a client expects. -/
def PyError.IsSchemaError : PyError → Prop
  | schemaError _ _ => True
  | _ => False

namespace CubeDesc

/-- What a cube accepts does not depend on the order of its columns. -/
theorem checkItems_perm {name : String} {inSchema : PySchema} {size : ℕ} {items others : List (ℤ × Field)}
    (same : items.Perm others) (accepted : checkItems name inSchema size items = .ok ()) :
    checkItems name inSchema size others = .ok () := by
  have every (items : List (ℤ × Field)) : checkItems name inSchema size items = .ok () ↔
      ∀ item ∈ items, item.1 < size → ∃ found, inSchema.get item.1 = .ok found ∧ found.code = item.2.code := by
    induction items with
    | nil => simp [checkItems]
    | cons item items ih =>
        rw [checkItems, List.forall_mem_cons]
        split_ifs with beyond
        · rw [ih, and_iff_right]
          intro below
          omega
        · cases read : inSchema.get item.1 with
          | error e =>
              simp [Except.bind]
              omega
          | ok found =>
              by_cases differs : found.code = item.2.code
              · simp [Except.bind, differs, ih]
              · simp [Except.bind, differs]
                omega
  rw [every] at accepted ⊢
  intro item member
  exact accepted item (same.mem_iff.mpr member)

theorem outSchema_perm {cube : CubeDesc} {items others : List (ℤ × Field)} {inSchema out : PySchema}
    (same : items.Perm others) (accepted : cube.outSchema items inSchema = .ok out) :
    cube.outSchema others inSchema = .ok out := by
  obtain ⟨dims, typed, rest⟩ := Except.exists_of_bind_eq_ok accepted
  unfold outSchema
  rw [typed]
  cases most : (cube.dims.map CubeDim.offset).max? with
  | none =>
      rw [most] at rest
      cases rest
  | some maxDim =>
      rw [most] at rest
      obtain ⟨size, length, checked⟩ := Except.exists_of_bind_eq_ok rest
      dsimp only [Except.bind]
      rw [length]
      dsimp only
      split_ifs at checked ⊢ with wide some_
      · obtain ⟨_, ran, rfl⟩ := exists_of_map_eq_ok checked
        rw [checkItems_perm same ran]
        rfl
      · exact checked

theorem exists_inSchemaMap {cube : CubeDesc} {items : List (ℤ × Field)} {inSchema out : PySchema}
    (accepted : cube.outSchema items inSchema = .ok out) : ∃ entries, cube.inSchemaMap = .ok entries := by
  obtain ⟨dims, typed, -⟩ := Except.exists_of_bind_eq_ok accepted
  unfold inSchemaMap
  rw [typed]
  exact ⟨_, rfl⟩

end CubeDesc

namespace QueryGraph

section FilterLoop

variable {isCube : ℕ → Bool} {inputs inputs' : ℕ → Option PySchema}

/-- Neither does the result of the filter's loop depend on the order of its inputs. -/
theorem filterLoop_perm {preds others : List ℕ} (same : preds.Perm others) (sawCube sawFilter : Bool) (ret : PySchema) :
    (filterLoop isCube inputs preds sawCube sawFilter ret).toOption =
      (filterLoop isCube inputs others sawCube sawFilter ret).toOption := by
  induction same generalizing sawCube sawFilter ret with
  | nil => rfl
  | cons pred _ ih =>
      unfold filterLoop
      split_ifs
      · rfl
      · cases inputs pred with
        | none => rfl
        | some schema => exact ih true sawFilter schema
      · rfl
      · exact ih sawCube true ret
  | swap first second rest =>
      cases kind : isCube first <;> cases kind' : isCube second <;> cases sawCube <;> cases sawFilter <;>
        cases found : inputs first <;> cases found' : inputs second <;>
        simp [filterLoop, kind, kind', found, found', Except.toOption]
  | trans _ _ first second => exact (first sawCube sawFilter ret).trans (second sawCube sawFilter ret)

/-- More known input schemas leave the result of the loop as it is. -/
theorem filterLoop_mono (grows : ∀ m schema, inputs m = some schema → inputs' m = some schema) {preds : List ℕ}
    {sawCube sawFilter : Bool} {ret : PySchema} {result : Bool × Bool × PySchema}
    (ran : filterLoop isCube inputs preds sawCube sawFilter ret = .ok result) :
    filterLoop isCube inputs' preds sawCube sawFilter ret = .ok result := by
  induction preds generalizing sawCube sawFilter ret with
  | nil => exact ran
  | cons pred preds ih =>
      unfold filterLoop at ran ⊢
      split_ifs at ran ⊢
      · cases known : inputs pred with
        | none =>
            rw [known] at ran
            cases ran
        | some schema =>
            rw [known] at ran
            rw [grows pred schema known]
            exact ih ran
      · exact ih ran

/-- After the cube has been seen the loop reads no input schema. -/
theorem filterLoop_sawCube {preds : List ℕ} {sawFilter : Bool} {ret : PySchema} :
    filterLoop isCube inputs preds true sawFilter ret = filterLoop isCube inputs' preds true sawFilter ret := by
  induction preds generalizing sawFilter with
  | nil => rfl
  | cons pred preds ih =>
      simp only [filterLoop, if_true]
      split_ifs
      · rfl
      · rfl
      · exact ih

/-- The loop comes to a cube behind at most so many other inputs, and the cube has its input schema. -/
def CubeKnown (isCube : ℕ → Bool) (known : ℕ → Prop) (preds : List ℕ) (others : ℕ) : Prop :=
  ∀ before c after, preds = before ++ c :: after → (∀ p ∈ before, ¬ isCube p) → before.length ≤ others → isCube c → known c

theorem cubeKnown_cons {known : ℕ → Prop} {pred : ℕ} {preds : List ℕ} {others : ℕ} (other : ¬ isCube pred) :
    CubeKnown isCube known (pred :: preds) (others + 1) ↔ CubeKnown isCube known preds others := by
  constructor
  · intro every before c after same plain few
    refine every (pred :: before) c after ?_ (List.forall_mem_cons.mpr ⟨other, plain⟩) (Nat.succ_le_succ few)
    rw [same, List.cons_append]
  · intro every before c after same plain few cube
    cases before with
    | nil =>
        obtain ⟨rfl, -⟩ := List.cons_eq_cons.mp same
        exact absurd cube other
    | cons first before =>
        obtain ⟨rfl, rest⟩ := List.cons_eq_cons.mp same
        exact every before c after rest (fun p member => plain p (List.mem_cons_of_mem _ member)) (Nat.le_of_succ_le_succ few)
          cube

/-- The loop misses an input schema exactly when it comes to a cube without one. -/
theorem filterLoop_cases (grows : ∀ m schema, inputs m = some schema → inputs' m = some schema) {preds : List ℕ}
    {sawFilter : Bool} {ret : PySchema} :
    let known := CubeKnown isCube (fun c => inputs c ≠ none) preds (if sawFilter then 0 else 1)
    filterLoop isCube inputs preds false sawFilter ret = filterLoop isCube inputs' preds false sawFilter ret ∧ known ∨
      filterLoop isCube inputs preds false sawFilter ret = .error .keyError ∧ ¬ known := by
  induction preds generalizing sawFilter with
  | nil => exact Or.inl ⟨rfl, fun before c after same => absurd same (by simp)⟩
  | cons pred preds ih =>
      by_cases cube : isCube pred
      · cases found : inputs pred with
        | none =>
            refine Or.inr ⟨by simp [filterLoop, cube, found], fun every => ?_⟩
            exact every [] pred preds rfl nofun (Nat.zero_le _) cube found
        | some schema =>
            refine Or.inl ⟨?_, ?_⟩
            · simp only [filterLoop, cube, found, grows pred schema found, if_true, Bool.false_eq_true, if_false]
              exact filterLoop_sawCube
            · intro before c after same plain few isCube_
              cases before with
              | nil =>
                  obtain ⟨rfl, -⟩ := List.cons_eq_cons.mp same
                  rw [found]
                  exact Option.some_ne_none schema
              | cons first before =>
                  obtain ⟨rfl, -⟩ := List.cons_eq_cons.mp same
                  exact absurd cube (plain _ List.mem_cons_self)
      · cases sawFilter with
        | true =>
            refine Or.inl ⟨by simp [filterLoop, cube], ?_⟩
            intro before c after same plain few isCube_
            obtain rfl : before = [] := List.length_eq_zero_iff.mp (Nat.le_zero.mp few)
            obtain ⟨rfl, -⟩ := List.cons_eq_cons.mp same
            exact absurd isCube_ cube
        | false =>
            have later := @ih true
            simp only [filterLoop, cube, Bool.false_eq_true, if_false, if_true, cubeKnown_cons cube] at later ⊢
            exact later

end FilterLoop

variable {g : QueryGraph} {order : g.IterationOrder}

/-- A schema is carried by every edge but those from a cube to a filter subscriber. -/
def Carries (g : QueryGraph) (p n : ℕ) : Prop := (p, n) ∈ g.edges ∧ ¬ (g.isFilteringSubsc n ∧ g.isCube p)

def IsSource (g : QueryGraph) (n : ℕ) : Prop := n ∈ g.nodes ∧ ∀ p, (p, n) ∉ g.edges

/-- A check that succeeds does so in every order and with more known input schemas. -/
theorem checkNode_mono (order' : g.IterationOrder) {inputs inputs' : ℕ → Option PySchema} {n : ℕ} {out : PySchema}
    (grows : ∀ m schema, inputs m = some schema → inputs' m = some schema) (known : inputs n ≠ none)
    (accepted : g.checkNode order inputs n = .ok out) : g.checkNode order' inputs' n = .ok out := by
  obtain ⟨schema, input⟩ := Option.ne_none_iff_exists'.mp known
  unfold checkNode at accepted ⊢
  cases kind : g.node n with
  | operator type outSchema =>
      simp only [kind, input, grows n schema input] at accepted ⊢
      exact accepted
  | cube desc =>
      simp only [kind, input, grows n schema input] at accepted ⊢
      obtain ⟨entries, entered⟩ := CubeDesc.exists_inSchemaMap accepted
      have one := order.cubeItems_perm n desc entries kind entered
      have other := order'.cubeItems_perm n desc entries kind entered
      exact CubeDesc.outSchema_perm (one.trans other.symm) accepted
  | filterSubscriber cfg =>
      simp only [kind] at accepted ⊢
      have same : (order.preds n).Perm (order'.preds n) := by
        apply (List.perm_ext_iff_of_nodup (order.preds_nodup n) (order'.preds_nodup n)).mpr
        intro p
        rw [order.mem_preds, order'.mem_preds]
      unfold filterSubscValidate at accepted ⊢
      split_ifs at accepted with empty
      have some_ : order'.preds n ≠ [] := by
        intro none_
        rw [none_] at same
        exact empty same.eq_nil
      rw [if_neg some_]
      obtain ⟨⟨sawCube, sawFilter, ret⟩, looped, rest⟩ := Except.exists_of_bind_eq_ok accepted
      have swapped := @filterLoop_perm g.isCube inputs _ _ same false false (.columns [])
      rw [looped] at swapped
      have again : filterLoop g.isCube inputs (order'.preds n) false false (.columns []) = .ok (sawCube, sawFilter, ret) := by
        cases result : filterLoop g.isCube inputs (order'.preds n) false false (.columns []) with
        | error e =>
            rw [result] at swapped
            cases swapped
        | ok value =>
            rw [result] at swapped
            rw [Option.some.inj swapped]
      rw [filterLoop_mono grows again]
      dsimp only [Except.bind] at rest ⊢
      rw [← same.length_eq, grows n schema input]
      rw [input] at rest
      exact rest

/-- An assignment gives each node the schema that its in-edges carry, and every node's check succeeds on it. -/
def IsAssignment (g : QueryGraph) (assign : ℕ → PySchema) : Prop :=
  (∀ n, g.IsSource n → assign n = .unit) ∧ ∀ n ∈ g.nodes, ∃ out,
    (∀ order : g.IterationOrder, g.checkNode order (fun m => some (assign m)) n = .ok out) ∧
      ∀ o, g.Carries n o → assign o = out

/-- Every check succeeds, and the in-edges of a node that carry a schema carry the same one. -/
def Valid (g : QueryGraph) : Prop := ∃ assign, g.IsAssignment assign

/-- These are the successors that a node gives its schema to. -/
def carried (order : g.IterationOrder) (n : ℕ) : List ℕ :=
  (forwardEdges order n).filter fun o => ¬ (g.isFilteringSubsc o ∧ g.isCube n)

/-- The worklist takes the nodes in this order, whatever their schemas are. -/
def visitOrder (order : g.IterationOrder) : List ℕ :=
  BreadthFirst.search (carried order) (g.nodes.card + 1) [] (getSources order)

/-- The checks of these nodes succeed on an assignment that gives each successor its schema. -/
def Accepts (order : g.IterationOrder) (visited : List ℕ) (assign : ℕ → PySchema) : Prop :=
  (∀ n, g.IsSource n → assign n = .unit) ∧ ∀ n ∈ visited, ∃ out,
    g.checkNode order (fun m => some (assign m)) n = .ok out ∧ ∀ o, g.Carries n o → assign o = out

theorem Accepts.mono {order : g.IterationOrder} {visited earlier : List ℕ} {assign : ℕ → PySchema}
    (accepts : Accepts order visited assign) (fewer : earlier ⊆ visited) : Accepts order earlier assign :=
  ⟨accepts.1, fun n member => accepts.2 n (fewer member)⟩

/-- These nodes and the sources have given the node an input schema. -/
def Given (g : QueryGraph) (visited : List ℕ) (n : ℕ) : Prop := g.IsSource n ∨ ∃ p ∈ visited, g.Carries p n

/-- The cube that a filter subscriber reads has its input schema by then. A second input of either kind stops the loop
before it reads the cube. -/
def CubeGiven (order : g.IterationOrder) (visited : List ℕ) (n : ℕ) : Prop :=
  g.isFilteringSubsc n → CubeKnown g.isCube (g.Given visited) (order.preds n) 1

/-- Every filter subscriber with inputs has one that is not a cube. -/
def Fed (g : QueryGraph) : Prop :=
  ∀ n, g.isFilteringSubsc n → (∃ p, (p, n) ∈ g.edges) → ∃ p, (p, n) ∈ g.edges ∧ ¬ g.isCube p

/-- When all nodes before it have passed, a filter subscriber's cube has its schema, and the node's own check raises
nothing but a schema error. When all nodes have passed that the worklist comes to, no filter subscriber was left out. -/
structure Orderly (order : g.IterationOrder) : Prop where
  passed : ∀ before n after, visitOrder order = before ++ n :: after → ∀ assign, Accepts order before assign →
    CubeGiven order before n ∧
      ∀ e, g.checkNode order (fun m => some (assign m)) n = .error e → e.IsSchemaError
  fed : (∃ assign, Accepts order (visitOrder order) assign) → g.Fed

/-- A check that finds its cube is the same with all input schemas, and else it raises a key error. -/
theorem checkNode_cases {inputs : ℕ → Option PySchema} {assign : ℕ → PySchema} {n : ℕ}
    (agree : ∀ m schema, inputs m = some schema → assign m = schema) (known : inputs n ≠ none) :
    let cubes := g.isFilteringSubsc n → CubeKnown g.isCube (fun c => inputs c ≠ none) (order.preds n) 1
    g.checkNode order inputs n = g.checkNode order (fun m => some (assign m)) n ∧ cubes ∨
      g.checkNode order inputs n = .error .keyError ∧ ¬ cubes := by
  obtain ⟨schema, found⟩ := Option.ne_none_iff_exists'.mp known
  have same : assign n = schema := agree n schema found
  unfold checkNode isFilteringSubsc
  cases kind : g.node n with
  | operator type outSchema => simp [found, same, QueryNode.isFilteringSubsc]
  | cube desc => simp [found, same, QueryNode.isFilteringSubsc]
  | filterSubscriber cfg =>
      have grows (m : ℕ) (schema : PySchema) (known : inputs m = some schema) :
          (fun m => some (assign m)) m = some schema := congrArg some (agree m schema known)
      have looped := @filterLoop_cases g.isCube inputs _ grows (order.preds n) false (.columns [])
      simp only [filterSubscValidate, found, same, QueryNode.isFilteringSubsc, forall_const, Bool.false_eq_true,
        if_false] at looped ⊢
      split_ifs with empty
      · refine Or.inl ⟨rfl, ?_⟩
        intro before c after split
        rw [empty] at split
        exact absurd split (by simp)
      · rcases looped with ⟨equal, cubes⟩ | ⟨missing, cubes⟩
        · exact Or.inl ⟨by rw [equal], cubes⟩
        · exact Or.inr ⟨by rw [missing]; rfl, cubes⟩

/-- A pushed schema goes to fresh targets, which are appended, and every target that it is carried to has it. -/
structure Pushed (g : QueryGraph) (n : ℕ) (out : PySchema) (targets : List ℕ) (state next : CheckState)
    (fresh : List ℕ) : Prop where
  visited : next.visited = state.visited
  worklist : next.worklist = state.worklist ++ fresh
  distinct : fresh.Nodup
  new : ∀ o ∈ fresh, o ∈ targets ∧ ¬ (g.isFilteringSubsc o ∧ g.isCube n) ∧ state.inputs o = none
  inputs : ∀ m, next.inputs m = if m ∈ fresh then some out else state.inputs m
  given : ∀ o ∈ targets, ¬ (g.isFilteringSubsc o ∧ g.isCube n) → next.inputs o = some out
  listed : targets.Nodup → fresh = (targets.filter fun o => ¬ (g.isFilteringSubsc o ∧ g.isCube n)).filter fun o =>
    (state.inputs o).isNone

namespace Pushed

variable {n : ℕ} {out : PySchema} {targets fresh : List ℕ} {state next : CheckState}

/-- A known input schema is kept. -/
theorem grows (pushed : g.Pushed n out targets state next fresh) (m : ℕ) (schema : PySchema)
    (known : state.inputs m = some schema) : next.inputs m = some schema := by
  rw [pushed.inputs, if_neg, known]
  intro member
  rw [(pushed.new m member).2.2] at known
  cases known

/-- An input schema was pushed or known. -/
theorem cases (pushed : g.Pushed n out targets state next fresh) {m : ℕ} {schema : PySchema}
    (known : next.inputs m = some schema) : m ∈ fresh ∧ out = schema ∨ state.inputs m = some schema := by
  rw [pushed.inputs] at known
  split_ifs at known with member
  · exact Or.inl ⟨member, Option.some.inj known⟩
  · exact Or.inr known

/-- A target that is passed over has the schema already or is not to have it. -/
theorem pass {target : ℕ} (pushed : g.Pushed n out targets state next fresh)
    (has : ¬ (g.isFilteringSubsc target ∧ g.isCube n) → next.inputs target = some out)
    (known : ¬ (g.isFilteringSubsc target ∧ g.isCube n) → state.inputs target ≠ none) :
    g.Pushed n out (target :: targets) state next fresh where
  visited := pushed.visited
  worklist := pushed.worklist
  distinct := pushed.distinct
  new o member := ⟨List.mem_cons_of_mem _ (pushed.new o member).1, (pushed.new o member).2⟩
  inputs := pushed.inputs
  given := List.forall_mem_cons.mpr ⟨has, pushed.given⟩
  listed := by
    intro distinct
    rw [List.filter_cons, pushed.listed (List.nodup_cons.mp distinct).2]
    split_ifs with carries
    · rw [List.filter_cons_of_neg]
      simpa using known (of_decide_eq_true carries)
    · rfl

/-- A target without an input schema gets the schema and is appended. -/
theorem push {target : ℕ} (carried : ¬ (g.isFilteringSubsc target ∧ g.isCube n)) (unknown : state.inputs target = none)
    (pushed : g.Pushed n out targets { state with
      inputs := Function.update state.inputs target (some out)
      worklist := state.worklist ++ [target] } next fresh) :
    g.Pushed n out (target :: targets) state next (target :: fresh) := by
  have other : target ∉ fresh := by
    intro member
    have unknown := (pushed.new target member).2.2
    exact Option.some_ne_none out ((Function.update_self target (some out) state.inputs).symm.trans unknown)
  constructor
  · exact pushed.visited
  · rw [pushed.worklist, List.append_assoc, List.singleton_append]
  · exact List.nodup_cons.mpr ⟨other, pushed.distinct⟩
  · refine List.forall_mem_cons.mpr ⟨⟨List.mem_cons_self, carried, unknown⟩, fun o later => ?_⟩
    obtain ⟨inside, carries, unknown⟩ := pushed.new o later
    have apart : o ≠ target := fun same => other (same ▸ later)
    exact ⟨List.mem_cons_of_mem _ inside, carries, (Function.update_of_ne apart _ _).symm.trans unknown⟩
  · intro m
    rw [pushed.inputs]
    dsimp only
    rw [Function.update_apply]
    by_cases first : m = target
    · simp [first]
    · simp [first]
  · refine List.forall_mem_cons.mpr ⟨fun _ => ?_, pushed.given⟩
    rw [pushed.inputs, if_neg other]
    exact Function.update_self _ _ _
  · intro distinct
    obtain ⟨first, distinct⟩ := List.nodup_cons.mp distinct
    rw [List.filter_cons, if_pos (decide_eq_true carried), List.filter_cons_of_pos (by simp [unknown]),
      pushed.listed distinct]
    congr 1
    apply List.filter_congr
    intro o member
    have apart : o ≠ target := fun same => first (same ▸ (List.mem_filter.mp member).1)
    dsimp only
    rw [Function.update_of_ne apart]

end Pushed

/-- The successors that carry the schema and had no input schema are appended once. -/
theorem pushEdges_eq_ok {n : ℕ} {out : PySchema} {targets : List ℕ} {state next : CheckState}
    (ran : g.pushEdges n out targets state = .ok next) : ∃ fresh, g.Pushed n out targets state next fresh := by
  induction targets generalizing state with
  | nil =>
      obtain rfl := Except.ok.inj ran
      exact ⟨[], ⟨rfl, by simp, List.nodup_nil, by simp, by simp, by simp, fun _ => rfl⟩⟩
  | cons target targets ih =>
      unfold pushEdges at ran
      split_ifs at ran with skipped
      · obtain ⟨fresh, pushed⟩ := ih ran
        exact ⟨fresh, pushed.pass (fun carried => absurd skipped carried) fun carried => absurd skipped carried⟩
      · cases found : state.inputs target with
        | some existing =>
            simp only [found] at ran
            split_ifs at ran with differs
            obtain rfl := not_not.mp differs
            obtain ⟨fresh, pushed⟩ := ih ran
            exact ⟨fresh, pushed.pass (fun _ => pushed.grows target _ found) fun _ => by simp [found]⟩
        | none =>
            simp only [found] at ran
            obtain ⟨fresh, pushed⟩ := ih ran
            exact ⟨target :: fresh, .push skipped found pushed⟩

/-- An edge is refused when its target has another input schema. -/
theorem pushEdges_eq_error {n : ℕ} {out : PySchema} {targets : List ℕ} {state : CheckState} {e : PyError}
    (refused : g.pushEdges n out targets state = .error e) :
    e.IsSchemaError ∧ ∃ o ∈ targets, ¬ (g.isFilteringSubsc o ∧ g.isCube n) ∧
      ∃ existing, state.inputs o = some existing ∧ existing ≠ out := by
  induction targets generalizing state with
  | nil => cases refused
  | cons target targets ih =>
      unfold pushEdges at refused
      split_ifs at refused with skipped
      · obtain ⟨schemaError, o, member, rest⟩ := ih refused
        exact ⟨schemaError, o, List.mem_cons_of_mem _ member, rest⟩
      · cases found : state.inputs target with
        | some existing =>
            simp only [found] at refused
            split_ifs at refused with differs
            · obtain rfl := Except.error.inj refused
              exact ⟨trivial, target, List.mem_cons_self, skipped, existing, found, differs⟩
            · obtain ⟨schemaError, o, member, rest⟩ := ih refused
              exact ⟨schemaError, o, List.mem_cons_of_mem _ member, rest⟩
        | none =>
            simp only [found] at refused
            obtain ⟨schemaError, o, member, carried, existing, known, differs⟩ := ih refused
            refine ⟨schemaError, o, List.mem_cons_of_mem _ member, carried, existing, ?_, differs⟩
            dsimp only at known
            rw [Function.update_apply] at known
            split_ifs at known
            · exact absurd (Option.some.inj known).symm differs
            · exact known

theorem nodup_forwardEdges (order : g.IterationOrder) (n : ℕ) : (forwardEdges order n).Nodup := by
  apply List.Nodup.map_on _ (order.edgeKeys_nodup.filter _)
  rintro ⟨p, o⟩ member ⟨p', o'⟩ member' same
  have first : p = n := by simpa using (List.mem_filter.mp member).2
  have first' : p' = n := by simpa using (List.mem_filter.mp member').2
  rw [first, first', show o = o' from same]

theorem mem_forwardEdges {n o : ℕ} : o ∈ forwardEdges order n ↔ (n, o) ∈ g.edges := by
  simp [forwardEdges, order.mem_edgeKeys]

theorem mem_getSources {n : ℕ} : n ∈ getSources order ↔ g.IsSource n := by
  simp only [getSources, List.mem_filter, List.mem_append, order.mem_operatorKeys, order.mem_cubeKeys, List.mem_map,
    Prod.exists, exists_eq_right, order.mem_edgeKeys, decide_eq_true_eq, not_exists, IsSource]
  cases g.isCube n <;> simp

/-- What the worklist has found so far follows from the graph alone. -/
structure Sound (order : g.IterationOrder) (state : CheckState) : Prop where
  inside : ∀ m, state.inputs m ≠ none → m ∈ g.nodes
  queued : ∀ m, state.inputs m ≠ none ↔ m ∈ state.visited ∨ m ∈ state.worklist
  nodup : (state.visited ++ state.worklist).Nodup
  sources : ∀ n, g.IsSource n → state.inputs n = some .unit
  given : ∀ m, state.inputs m ≠ none → g.Given state.visited m
  checked : ∀ m ∈ state.visited, ∃ out, g.checkNode order state.inputs m = .ok out ∧
    ∀ o, g.Carries m o → state.inputs o = some out
  assigned : ∀ assign, Accepts order state.visited assign → ∀ m schema, state.inputs m = some schema → assign m = schema

theorem sound_initialState (order : g.IterationOrder) : Sound order (initialState order) where
  inside := by
    intro m known
    simp only [initialState, ne_eq, ite_eq_right_iff, reduceCtorEq, imp_false, not_not] at known
    exact (mem_getSources.mp known).1
  queued := by
    intro m
    simp [initialState]
  nodup := order.keys_nodup.filter _
  sources := by
    intro n isSource
    exact if_pos (mem_getSources.mpr isSource)
  given := by
    intro m known
    simp only [initialState, ne_eq, ite_eq_right_iff, reduceCtorEq, imp_false, not_not] at known
    exact Or.inl (mem_getSources.mp known)
  checked := by
    intro m member
    cases member
  assigned := by
    intro assign accepts m schema known
    simp only [initialState, Option.ite_none_right_eq_some] at known
    obtain rfl := Option.some.inj known.2
    exact accepts.1 m (mem_getSources.mp known.1)

namespace Sound

variable {state next : CheckState} {n : ℕ} {rest : List ℕ}

theorem given_iff (sound : Sound order state) (m : ℕ) : state.inputs m ≠ none ↔ g.Given state.visited m := by
  constructor
  · exact sound.given m
  · rintro (isSource | ⟨p, visited, carries⟩)
    · rw [sound.sources m isSource]
      exact Option.some_ne_none _
    · obtain ⟨out, -, given⟩ := sound.checked p visited
      rw [given m carries]
      exact Option.some_ne_none out

theorem head_known (sound : Sound order state) (waiting : state.worklist = n :: rest) : state.inputs n ≠ none := by
  rw [sound.queued, waiting]
  exact Or.inr List.mem_cons_self

/-- The next check is that with the assignment, or its cube has no input schema yet. -/
theorem checkNode_cases (sound : Sound order state) (waiting : state.worklist = n :: rest) {assign : ℕ → PySchema}
    (accepts : Accepts order state.visited assign) :
    g.checkNode order state.inputs n = g.checkNode order (fun m => some (assign m)) n ∧ CubeGiven order state.visited n ∨
      g.checkNode order state.inputs n = .error .keyError ∧ ¬ CubeGiven order state.visited n := by
  have cases_ := @QueryGraph.checkNode_cases g order _ _ n (sound.assigned assign accepts) (sound.head_known waiting)
  have same : (fun c => state.inputs c ≠ none) = g.Given state.visited := funext fun c => propext (sound.given_iff c)
  dsimp only at cases_
  rw [same] at cases_
  exact cases_

/-- The known input schemas are an assignment that the checks accept. -/
theorem accepts (sound : Sound order state) :
    Accepts order state.visited fun m => (state.inputs m).getD .unit := by
  constructor
  · intro n isSource
    dsimp only
    rw [sound.sources n isSource, Option.getD_some]
  · intro m member
    obtain ⟨out, checked, given⟩ := sound.checked m member
    refine ⟨out, checkNode_mono order (fun o schema known => ?_) ((sound.queued m).mpr (Or.inl member)) checked, ?_⟩
    · dsimp only
      rw [known, Option.getD_some]
    · intro o carries
      dsimp only
      rw [given o carries, Option.getD_some]

/-- An accepted assignment gives the schema that the head's check computes to everything that the head carries it to. -/
theorem followed (sound : Sound order state) (waiting : state.worklist = n :: rest) {out : PySchema}
    (checked : g.checkNode order state.inputs n = .ok out) {assign : ℕ → PySchema}
    (accepts : Accepts order (state.visited ++ [n]) assign) {o : ℕ} (carries : g.Carries n o) : assign o = out := by
  have before : Accepts order state.visited assign := accepts.mono (List.subset_append_left _ _)
  obtain ⟨out', checked', given⟩ := accepts.2 n (by simp)
  have again := checkNode_mono order
    (fun o schema found => congrArg some (sound.assigned assign before o schema found)) (sound.head_known waiting) checked
  rw [again] at checked'
  rw [Except.ok.inj checked']
  exact given o carries

/-- A turn that succeeds keeps what the worklist has found, and it appends what the search appends. -/
theorem turn (sound : Sound order state) (waiting : state.worklist = n :: rest)
    (turned : g.checkTurn order state n rest = .ok next) :
    Sound order next ∧ next.visited = state.visited ++ [n] ∧
      next.worklist = rest ++ (carried order n).filter fun m => m ∉ state.visited ++ n :: rest := by
  have known := sound.head_known waiting
  have queued := sound.queued
  have nodup := sound.nodup
  rw [waiting] at queued nodup
  obtain ⟨out, accepted, ran⟩ := Except.exists_of_bind_eq_ok turned
  obtain ⟨fresh, pushed⟩ := pushEdges_eq_ok ran
  have grows (m : ℕ) (schema : PySchema) (known : state.inputs m = some schema) : next.inputs m = some schema :=
    pushed.grows m schema known
  have cases_ {m : ℕ} {schema : PySchema} (known : next.inputs m = some schema) :
      m ∈ fresh ∧ out = schema ∨ state.inputs m = some schema := pushed.cases known
  have visited : next.visited = state.visited ++ [n] := pushed.visited
  have worklist : next.worklist = rest ++ fresh := pushed.worklist
  have unknown (o : ℕ) (member : o ∈ fresh) : state.inputs o = none := (pushed.new o member).2.2
  have carries (o : ℕ) (member : o ∈ fresh) : g.Carries n o :=
    ⟨mem_forwardEdges.mp (pushed.new o member).1, (pushed.new o member).2.1⟩
  refine ⟨?_, visited, ?_⟩
  · constructor
    · intro m known
      obtain ⟨schema, found⟩ := Option.ne_none_iff_exists'.mp known
      rcases cases_ found with ⟨member, -⟩ | old
      · exact (g.inside _ (carries m member).1).2
      · exact sound.inside m (old ▸ Option.some_ne_none schema)
    · intro m
      have before := queued m
      rw [visited, worklist, List.mem_append, List.mem_append, List.mem_singleton, pushed.inputs]
      rw [List.mem_cons] at before
      split_ifs with member
      · simp [member]
      · simp only [member, or_false]
        rw [before, or_assoc]
    · rw [visited, worklist, List.append_assoc, List.singleton_append, ← List.cons_append, ← List.append_assoc]
      apply nodup.append pushed.distinct
      intro m old member
      exact (queued m).mpr (List.mem_append.mp old) (unknown m member)
    · intro m isSource
      exact grows m _ (sound.sources m isSource)
    · intro m known
      rw [visited]
      obtain ⟨schema, found⟩ := Option.ne_none_iff_exists'.mp known
      rcases cases_ found with ⟨member, -⟩ | old
      · exact Or.inr ⟨n, by simp, carries m member⟩
      · refine (sound.given m (old ▸ Option.some_ne_none schema)).imp_right ?_
        rintro ⟨p, earlier, edge⟩
        exact ⟨p, List.mem_append_left _ earlier, edge⟩
    · intro m member
      rw [visited, List.mem_append, List.mem_singleton] at member
      rcases member with old | rfl
      · obtain ⟨out', before, followed⟩ := sound.checked m old
        exact ⟨out', checkNode_mono order grows ((queued m).mpr (Or.inl old)) before,
          fun o edge => grows o _ (followed o edge)⟩
      · exact ⟨out, checkNode_mono order grows known accepted,
          fun o edge => pushed.given o (mem_forwardEdges.mpr edge.1) edge.2⟩
    · intro assign accepts m schema known'
      have before : Accepts order state.visited assign := accepts.mono (visited ▸ List.subset_append_left _ _)
      rcases cases_ known' with ⟨member, rfl⟩ | old
      · exact sound.followed waiting accepted (visited ▸ accepts) (carries m member)
      · exact sound.assigned assign before m schema old
  · rw [worklist, pushed.listed (nodup_forwardEdges order n)]
    congr 1
    apply List.filter_congr
    intro m _
    have before := queued m
    rw [← List.mem_append] at before
    rw [Bool.eq_iff_iff, Option.isNone_iff_eq_none, decide_eq_true_iff, ← before, not_not]

/-- A check that succeeds had its cube and succeeds with the assignment. -/
theorem passes (sound : Sound order state) (waiting : state.worklist = n :: rest) {out : PySchema}
    (checked : g.checkNode order state.inputs n = .ok out) {assign : ℕ → PySchema}
    (accepts : Accepts order state.visited assign) : CubeGiven order state.visited n ∧
      ∀ e, g.checkNode order (fun m => some (assign m)) n = .error e → e.IsSchemaError := by
  rcases sound.checkNode_cases waiting accepts with ⟨same, cube⟩ | ⟨missing, -⟩
  · refine ⟨cube, fun e raised => ?_⟩
    rw [← same, checked] at raised
    cases raised
  · rw [checked] at missing
    cases missing

/-- A turn whose check succeeds fails with a schema error, and no assignment accepts the node. -/
theorem pushEdges_error (sound : Sound order state) (waiting : state.worklist = n :: rest) {out : PySchema} {e : PyError}
    (checked : g.checkNode order state.inputs n = .ok out)
    (failed : g.pushEdges n out (forwardEdges order n)
      { state with visited := state.visited ++ [n], worklist := rest } = .error e) :
    e.IsSchemaError ∧ ∀ assign, ¬ Accepts order (state.visited ++ [n]) assign := by
  obtain ⟨schemaError, o, member, carries, existing, known, differs⟩ := pushEdges_eq_error failed
  refine ⟨schemaError, fun assign accepts => differs ?_⟩
  have before : Accepts order state.visited assign := accepts.mono (List.subset_append_left _ _)
  rw [← sound.assigned assign before o existing known]
  exact sound.followed waiting checked accepts ⟨mem_forwardEdges.mp member, carries⟩

/-- The checked nodes are distinct nodes of the graph. -/
theorem visited_le (sound : Sound order state) : (state.visited ++ state.worklist).length ≤ g.nodes.card := by
  rw [← List.toFinset_card_of_nodup sound.nodup]
  apply Finset.card_le_card
  intro m member
  rw [List.mem_toFinset, List.mem_append] at member
  exact sound.inside m ((sound.queued m).mpr member)

end Sound

/-- An acyclic graph is searched from its sources. -/
theorem induction_of_acyclic (acyclic : ∀ n, ¬ Relation.TransGen (fun p n => (p, n) ∈ g.edges) n n) {motive : ℕ → Prop}
    (step : ∀ n ∈ g.nodes, (∀ p, (p, n) ∈ g.edges → motive p) → motive n) : ∀ n ∈ g.nodes, motive n := by
  let before (p n : g.nodes) : Prop := Relation.TransGen (fun p n => (p, n) ∈ g.edges) p.1 n.1
  have : IsTrans g.nodes before := ⟨fun _ _ _ first second => first.trans second⟩
  have : Std.Irrefl before := ⟨fun n cycle => acyclic n.1 cycle⟩
  have founded : WellFounded before := Finite.wellFounded_of_trans_of_irrefl before
  intro n node
  apply founded.induction (C := fun n => motive n.1) ⟨n, node⟩
  intro n ih
  apply step n.1 n.2
  intro p edge
  exact ih ⟨p, (g.inside _ edge).1⟩ (.single edge)

/-- When the worklist of an acyclic graph is empty and no filter subscriber was left out, every node has been checked and
the graph is valid. -/
theorem Sound.valid_of_done {state : CheckState} (sound : Sound order state) (fed : g.Fed)
    (acyclic : ∀ n, ¬ Relation.TransGen (fun p n => (p, n) ∈ g.edges) n n) (done : state.worklist = []) :
    (∀ n, n ∈ state.visited ↔ n ∈ g.nodes) ∧ g.Valid := by
  have queued (m : ℕ) : state.inputs m ≠ none ↔ m ∈ state.visited := by
    rw [sound.queued, done]
    simp
  have known (n : ℕ) (node : n ∈ g.nodes) : state.inputs n ≠ none := by
    apply induction_of_acyclic acyclic _ n node
    intro n node ih
    rw [sound.given_iff]
    by_cases edge : ∃ p, (p, n) ∈ g.edges
    · right
      by_cases filter : g.isFilteringSubsc n
      · obtain ⟨p, into, other⟩ := fed n filter edge
        exact ⟨p, (queued p).mp (ih p into), into, fun both => other both.2⟩
      · obtain ⟨p, into⟩ := edge
        exact ⟨p, (queued p).mp (ih p into), into, fun both => filter both.1⟩
    · exact Or.inl ⟨node, fun p into => edge ⟨p, into⟩⟩
  constructor
  · intro n
    rw [← queued]
    exact ⟨sound.inside n, known n⟩
  · refine ⟨fun m => (state.inputs m).getD .unit, sound.accepts.1, ?_⟩
    intro n node
    obtain ⟨out, accepted, carried⟩ := sound.checked n ((queued n).mp (known n node))
    refine ⟨out, ?_, ?_⟩
    · intro other
      apply checkNode_mono _ _ (known n node) accepted
      intro m schema found
      dsimp only
      rw [found, Option.getD_some]
    · intro o edge
      dsimp only
      rw [carried o edge, Option.getD_some]

/-- When the worklist is empty and every node has been checked, no filter subscriber was left out. -/
theorem Sound.fed_of_done {state : CheckState} (sound : Sound order state)
    (every : ∀ n, n ∈ state.visited ↔ n ∈ g.nodes) : g.Fed := by
  rintro n filter ⟨p, edge⟩
  have visited : n ∈ state.visited := (every n).mpr (g.inside _ edge).2
  rcases sound.given n ((sound.queued n).mpr (Or.inl visited)) with isSource | ⟨p', -, carries⟩
  · exact absurd edge (isSource.2 p)
  · exact ⟨p', carries.1, fun cube => carries.2 ⟨filter, cube⟩⟩

/-- The call returns exactly for the valid graphs, after a check of every node, and it raises only a schema error. -/
def Right (g : QueryGraph) (outcome : Except PyError (List ℕ)) : Prop :=
  ((∃ visited, outcome = .ok visited) ↔ g.Valid) ∧
    (∀ visited, outcome = .ok visited → visited.Nodup ∧ ∀ n, n ∈ visited ↔ n ∈ g.nodes) ∧
    ∀ e, outcome = .error e → e.IsSchemaError

theorem right_ok {visited : List ℕ} :
    g.Right (.ok visited) ↔ g.Valid ∧ visited.Nodup ∧ ∀ n, n ∈ visited ↔ n ∈ g.nodes := by
  simp [Right]

theorem right_error {e : PyError} : g.Right (.error e) ↔ ¬ g.Valid ∧ e.IsSchemaError := by
  simp [Right]

/-- A valid graph is accepted by the checks of any nodes of it. -/
theorem Valid.accepts (valid : g.Valid) (order : g.IterationOrder) {visited : List ℕ} (inside : ∀ n ∈ visited, n ∈ g.nodes) :
    ∃ assign, Accepts order visited assign := by
  obtain ⟨assign, sources, checks⟩ := valid
  refine ⟨assign, sources, fun n member => ?_⟩
  obtain ⟨out, accepted, carries⟩ := checks n (inside n member)
  exact ⟨out, accepted order, carries⟩

/-- The checks from a turn on go well when all nodes before them have passed. -/
def PassedFrom (order : g.IterationOrder) (visited : List ℕ) : Prop :=
  ∀ before n after, visitOrder order = before ++ n :: after → visited <+: before → ∀ assign, Accepts order before assign →
    CubeGiven order before n ∧ ∀ e, g.checkNode order (fun m => some (assign m)) n = .error e → e.IsSchemaError

/-- The checks from a turn on are that of the turn and those of the later ones. -/
theorem passedFrom_iff {visited later : List ℕ} {n : ℕ} (split : visitOrder order = visited ++ n :: later) :
    PassedFrom order visited ↔ (∀ assign, Accepts order visited assign → CubeGiven order visited n ∧
        ∀ e, g.checkNode order (fun m => some (assign m)) n = .error e → e.IsSchemaError) ∧
      PassedFrom order (visited ++ [n]) := by
  constructor
  · intro passed
    refine ⟨passed visited n later split List.prefix_rfl, fun before m after same further => ?_⟩
    exact passed before m after same ((List.prefix_append _ _).trans further)
  · rintro ⟨here, passed⟩ before m after same further
    obtain ⟨between, rfl⟩ := further
    rw [split, List.append_assoc] at same
    cases between with
    | nil =>
        obtain ⟨rfl, -⟩ := List.cons_eq_cons.mp (List.append_cancel_left same)
        rw [List.append_nil]
        exact here
    | cons first between =>
        obtain ⟨rfl, -⟩ := List.cons_eq_cons.mp (List.append_cancel_left same)
        refine passed _ m after ?_ ⟨between, by simp⟩
        rw [split, same, List.append_assoc]

/-- Where no assignment accepts the next node, nothing is asked of the later ones. -/
theorem passedFrom_of_refused {visited : List ℕ} (refused : ∀ assign, ¬ Accepts order visited assign) :
    PassedFrom order visited := by
  intro before n after _ further assign accepts
  exact absurd (accepts.mono further.subset) (refused assign)

/-- When the check of the next node fails with its cube at hand, no assignment accepts the node. -/
theorem Sound.refused_of_error {state : CheckState} {n : ℕ} {rest : List ℕ} {e : PyError} (sound : Sound order state)
    (waiting : state.worklist = n :: rest) (failed : g.checkNode order state.inputs n = .error e)
    (cube : CubeGiven order state.visited n) (assign : ℕ → PySchema) : ¬ Accepts order (state.visited ++ [n]) assign := by
  intro accepts
  obtain ⟨out, checked, -⟩ := accepts.2 n (by simp)
  rcases sound.checkNode_cases waiting (accepts.mono (List.subset_append_left _ _)) with ⟨same, -⟩ | ⟨-, missing⟩
  · rw [← same, failed] at checked
    cases checked
  · exact missing cube

/-- A turn that fails makes the call right exactly when the checks from it on go well. -/
theorem Sound.turn_error {state : CheckState} {n : ℕ} {rest later : List ℕ} {e : PyError} (sound : Sound order state)
    (waiting : state.worklist = n :: rest) (split : visitOrder order = state.visited ++ n :: later)
    (failed : g.checkTurn order state n rest = .error e) :
    g.Right (.error e) ↔
      PassedFrom order state.visited ∧ ((∃ assign, Accepts order (visitOrder order) assign) → g.Fed) := by
  have inside : ∀ m ∈ state.visited ++ [n], m ∈ g.nodes := by
    intro m member
    apply sound.inside m
    rw [sound.queued, waiting]
    rcases List.mem_append.mp member with old | head
    · exact Or.inl old
    · exact Or.inr (List.mem_cons.mpr (Or.inl (List.mem_singleton.mp head)))
  have begins : state.visited ++ [n] ⊆ visitOrder order := by
    rw [split, show state.visited ++ n :: later = state.visited ++ [n] ++ later by simp]
    exact List.subset_append_left _ _
  rw [right_error, passedFrom_iff split]
  unfold checkTurn at failed
  cases checked : g.checkNode order state.inputs n with
  | error e' =>
      rw [checked] at failed
      obtain rfl := Except.error.inj failed
      constructor
      · rintro ⟨-, schemaError⟩
        have here : ∀ assign, Accepts order state.visited assign → CubeGiven order state.visited n ∧
            ∀ e, g.checkNode order (fun m => some (assign m)) n = .error e → e.IsSchemaError := by
          intro assign accepts
          rcases sound.checkNode_cases waiting accepts with ⟨same, cube⟩ | ⟨missing, -⟩
          · refine ⟨cube, fun e raised => ?_⟩
            rw [← same, checked] at raised
            exact Except.error.inj raised ▸ schemaError
          · rw [checked] at missing
            rw [Except.error.inj missing] at schemaError
            exact schemaError.elim
        have refused := sound.refused_of_error waiting checked (here _ sound.accepts).1
        exact ⟨⟨here, passedFrom_of_refused refused⟩, fun ⟨assign, accepts⟩ => absurd (accepts.mono begins) (refused assign)⟩
      · rintro ⟨⟨here, -⟩, -⟩
        obtain ⟨cube, raises⟩ := here _ sound.accepts
        have refused := sound.refused_of_error waiting checked cube
        constructor
        · intro valid
          obtain ⟨assign, accepts⟩ := valid.accepts order inside
          exact refused assign accepts
        · rcases sound.checkNode_cases waiting sound.accepts with ⟨same, -⟩ | ⟨-, missing⟩
          · exact raises e' (same.symm.trans checked)
          · exact absurd cube missing
  | ok out =>
      rw [checked] at failed
      obtain ⟨schemaError, refused⟩ := sound.pushEdges_error waiting checked failed
      refine iff_of_true ⟨fun valid => ?_, schemaError⟩ ⟨⟨?_, passedFrom_of_refused refused⟩, ?_⟩
      · obtain ⟨assign, accepts⟩ := valid.accepts order inside
        exact refused assign accepts
      · exact fun assign accepts => sound.passes waiting checked accepts
      · exact fun ⟨assign, accepts⟩ => absurd (accepts.mono begins) (refused assign)

/-- From a state of the loop on, the call is right exactly when the checks that are left go well. -/
theorem Sound.checkLoop_spec (acyclic : ∀ n, ¬ Relation.TransGen (fun p n => (p, n) ∈ g.edges) n n) (turns : ℕ)
    {state : CheckState} (sound : Sound order state) (enough : g.nodes.card < state.visited.length + turns)
    (search : BreadthFirst.search (carried order) turns state.visited state.worklist = visitOrder order) :
    ∃ outcome, g.checkLoop order turns state = some outcome ∧ (g.Right outcome ↔
      PassedFrom order state.visited ∧ ((∃ assign, Accepts order (visitOrder order) assign) → g.Fed)) := by
  induction turns generalizing state with
  | zero =>
      have bound := sound.visited_le
      rw [List.length_append] at bound
      omega
  | succ turns ih =>
      cases waiting : state.worklist with
      | nil =>
          rw [waiting, BreadthFirst.search] at search
          refine ⟨.ok state.visited, by simp [checkLoop, waiting], ?_⟩
          have passed : PassedFrom order state.visited := by
            rintro before n after same ⟨between, rfl⟩
            rw [← search] at same
            exact absurd same (by simp)
          have nodup := sound.nodup
          rw [waiting, List.append_nil] at nodup
          rw [right_ok, and_iff_right passed, ← search]
          constructor
          · rintro ⟨-, -, every⟩ -
            exact sound.fed_of_done every
          · intro fed
            obtain ⟨every, valid⟩ := sound.valid_of_done (fed ⟨_, sound.accepts⟩) acyclic waiting
            exact ⟨valid, nodup, every⟩
      | cons n rest =>
          rw [waiting] at search
          obtain ⟨later, split⟩ := BreadthFirst.exists_search_cons (carried order) turns state.visited rest n
          rw [search] at split
          cases turned : g.checkTurn order state n rest with
          | error e => exact ⟨.error e, by simp [checkLoop, waiting, turned], sound.turn_error waiting split turned⟩
          | ok next =>
              obtain ⟨after, visited, worklist⟩ := sound.turn waiting turned
              have more : g.nodes.card < next.visited.length + turns := by
                rw [visited, List.length_append, List.length_singleton]
                omega
              obtain ⟨outcome, ran, right⟩ := ih after more (by rw [visited, worklist]; exact search)
              refine ⟨outcome, by simpa [checkLoop, waiting, turned] using ran, ?_⟩
              obtain ⟨out, checked, -⟩ := Except.exists_of_bind_eq_ok turned
              rw [right, visited, passedFrom_iff split, and_iff_right fun assign accepts => sound.passes waiting checked accepts]

/-- In every order of an acyclic graph the loop ends, and it returns exactly for the valid graphs after a check of every
node, and fails only with a schema error. -/
def ChecksWholeGraph (g : QueryGraph) (order : g.IterationOrder) : Prop :=
  ∃ outcome, g.validateSchemas order = some outcome ∧ g.Right outcome

/-- The whole graph is checked exactly when each check that a run comes to finds what it needs and raises only schema
errors, and a run that passes leaves no filter subscriber out. -/
theorem checksWholeGraph_iff (acyclic : ∀ n, ¬ Relation.TransGen (fun p n => (p, n) ∈ g.edges) n n)
    (order : g.IterationOrder) : g.ChecksWholeGraph order ↔ Orderly order := by
  obtain ⟨outcome, ran, right⟩ := (sound_initialState order).checkLoop_spec acyclic (g.nodes.card + 1)
    (by simp [initialState]) rfl
  have whole : g.ChecksWholeGraph order ↔ g.Right outcome := by
    constructor
    · rintro ⟨outcome', ran', right'⟩
      exact Option.some.inj (ran'.symm.trans ran) ▸ right'
    · exact fun right => ⟨outcome, ran, right⟩
  rw [whole, right]
  constructor
  · rintro ⟨passed, fed⟩
    exact ⟨fun before n after same => passed before n after same (List.nil_prefix), fed⟩
  · rintro ⟨passed, fed⟩
    exact ⟨fun before n after same _ => passed before n after same, fed⟩

/-- Edges that lead to larger ids make no cycle. -/
theorem acyclic_of_lt (increasing : ∀ edge ∈ g.edges, edge.1 < edge.2) :
    ∀ n, ¬ Relation.TransGen (fun p n => (p, n) ∈ g.edges) n n := by
  have larger (p n : ℕ) (path : Relation.TransGen (fun p n => (p, n) ∈ g.edges) p n) : p < n := by
    induction path with
    | single edge => exact increasing _ edge
    | tail _ edge ih => exact ih.trans (increasing _ edge)
  intro n cycle
  exact absurd (larger n n cycle) (Nat.lt_irrefl n)

/-- This source announces one `int` column. -/
def sendK : QueryNode := .operator "SendK" fun _ => .ok (.columns [⟨.int, "K"⟩])

/-- This cube stores the numbers of its input. -/
def numberCube : QueryNode := .cube ⟨"numbers", [⟨"K", .int32, 0⟩], []⟩

/-- The quantile's rule takes an empty tuple for an empty list. -/
def medianRule : QueryNode := .operator "QuantileOperator" fun schema =>
  match schema with
  | .unit => (validateQuantile 0 "0.5" []).map .columns
  | .columns fields => (validateQuantile 0 "0.5" fields).map .columns
  | .none => .error .typeError

/-- A source feeds a cube and the filter subscriber of the cube. -/
def levelGraph : QueryGraph where
  nodes := {1, 2, 3}
  node n := if n = 2 then numberCube else if n = 3 then .filterSubscriber ⟨some 0, some 0⟩ else sendK
  edges := {(1, 2), (1, 3), (2, 3)}
  inside := by decide

def levelOrder : levelGraph.IterationOrder where
  operatorKeys := [1, 3]
  cubeKeys := [2]
  edgeKeys := [(1, 2), (1, 3), (2, 3)]
  preds n := if n = 2 then [1] else if n = 3 then [1, 2] else []
  cubeItems _ := [(0, ⟨.int, "K"⟩)]
  keys_nodup := by decide
  mem_operatorKeys := by
    intro n
    simp only [levelGraph, isCube]
    split_ifs <;> simp_all [numberCube, sendK, QueryNode.isCube]
  mem_cubeKeys := by
    intro n
    simp only [levelGraph, isCube]
    split_ifs <;> simp_all [numberCube, sendK, QueryNode.isCube]
  edgeKeys_nodup := by decide
  mem_edgeKeys := by simp [levelGraph]
  preds_nodup := by
    intro n
    split_ifs <;> decide
  mem_preds := by
    intro p n
    simp only [levelGraph]
    split_ifs <;> simp_all
  cubeItems_perm := by
    intro n desc items kind entered
    simp only [levelGraph, numberCube, sendK] at kind
    split_ifs at kind
    obtain rfl := QueryNode.cube.inj kind
    obtain rfl := Except.ok.inj entered
    exact List.Perm.refl _

/-- The source's column comes to the cube and to the filter subscriber. -/
theorem levelGraph_valid : levelGraph.Valid := by
  refine ⟨fun m => if m = 1 then .unit else .columns [⟨.int, "K"⟩], ?_, ?_⟩
  · rintro n ⟨node, unfed⟩
    simp only [levelGraph, Finset.mem_insert, Finset.mem_singleton] at node
    rcases node with rfl | rfl | rfl
    · rfl
    · exact absurd (by decide) (unfed 1)
    · exact absurd (by decide) (unfed 1)
  · intro n node
    refine ⟨.columns [⟨.int, "K"⟩], fun order => ?_, ?_⟩
    · simp only [levelGraph, Finset.mem_insert, Finset.mem_singleton] at node
      have accepted : levelGraph.checkNode levelOrder (fun m => some (if m = 1 then .unit else .columns [⟨.int, "K"⟩])) n =
          .ok (.columns [⟨.int, "K"⟩]) := by
        rcases node with rfl | rfl | rfl <;> rfl
      exact checkNode_mono order (fun _ _ found => found) (Option.some_ne_none _) accepted
    · rintro o ⟨edge, carried⟩
      simp only [levelGraph, Finset.mem_insert, Finset.mem_singleton, Prod.mk.injEq] at edge
      rcases edge with ⟨-, rfl⟩ | ⟨-, rfl⟩ | ⟨-, rfl⟩ <;> rfl

/-- The cube of the filter subscriber has its schema in time, and every node is checked. -/
theorem checksWholeGraph_iff_level : levelGraph.ChecksWholeGraph levelOrder ∧ Orderly levelOrder := by
  have whole : levelGraph.ChecksWholeGraph levelOrder := by
    refine ⟨.ok [1, 2, 3], rfl, right_ok.mpr ⟨levelGraph_valid, by decide, ?_⟩⟩
    intro n
    simp [levelGraph]
  exact ⟨whole, (checksWholeGraph_iff (acyclic_of_lt (by decide)) levelOrder).mp whole⟩

/-- The filter subscriber of a cube has no other input and feeds a quantile that needs a summary. -/
def cubeOnlyGraph : QueryGraph where
  nodes := {1, 2, 3, 4}
  node n := if n = 2 then numberCube else if n = 3 then .filterSubscriber ⟨none, none⟩
    else if n = 4 then medianRule else sendK
  edges := {(1, 2), (2, 3), (3, 4)}
  inside := by decide

def cubeOnlyOrder : cubeOnlyGraph.IterationOrder where
  operatorKeys := [1, 3, 4]
  cubeKeys := [2]
  edgeKeys := [(1, 2), (2, 3), (3, 4)]
  preds n := if n = 2 then [1] else if n = 3 then [2] else if n = 4 then [3] else []
  cubeItems _ := [(0, ⟨.int, "K"⟩)]
  keys_nodup := by decide
  mem_operatorKeys := by
    intro n
    simp only [cubeOnlyGraph, isCube]
    split_ifs <;> simp_all [numberCube, medianRule, sendK, QueryNode.isCube]
  mem_cubeKeys := by
    intro n
    simp only [cubeOnlyGraph, isCube]
    split_ifs <;> simp_all [numberCube, medianRule, sendK, QueryNode.isCube]
  edgeKeys_nodup := by decide
  mem_edgeKeys := by simp [cubeOnlyGraph]
  preds_nodup := by
    intro n
    split_ifs <;> decide
  mem_preds := by
    intro p n
    simp only [cubeOnlyGraph]
    split_ifs <;> simp_all
  cubeItems_perm := by
    intro n desc items kind entered
    simp only [cubeOnlyGraph, numberCube, medianRule, sendK] at kind
    split_ifs at kind
    obtain rfl := QueryNode.cube.inj kind
    obtain rfl := Except.ok.inj entered
    exact List.Perm.refl _

/-- The check returns without having looked at the filter subscriber or at the quantile. -/
theorem validateSchemas_skips_cubeOnly :
    ¬ ∀ g : QueryGraph, (∀ n, ¬ Relation.TransGen (fun p n => (p, n) ∈ g.edges) n n) →
      ∀ order : g.IterationOrder, g.ChecksWholeGraph order := by
  intro every
  have ran : cubeOnlyGraph.validateSchemas cubeOnlyOrder = some (.ok [1, 2]) := rfl
  obtain ⟨outcome, same, right⟩ := every cubeOnlyGraph (acyclic_of_lt (by decide)) cubeOnlyOrder
  obtain rfl := Option.some.inj (ran.symm.trans same)
  have missing : (4 : ℕ) ∈ [1, 2] := ((right_ok.mp right).2.2 4).mpr (by decide)
  exact absurd missing (by decide)

end QueryGraph

end JetStream
