import JetStream.Cube.MysqlCube
import JetStream.Lib.EventSystem

namespace JetStream

/-- These are the types of a dataplane message. -/
inductive DataplaneMessageType where
  | error
  | data
  | ack
  | chainConnect
  | chainReady
  | noMoreData
  | tsEcho
  | congestStatus
  | setBackoff
  | endOfWindow
  | rollupLevels
  | tputStart
  | tputRound2
  | tputRound3
  | delta
  deriving DecidableEq

/-- The message that comes with plain tuples has no type. -/
structure ChainMessage where
  type : Option DataplaneMessageType
  rollupLevels : List ℤ
  deriving DecidableEq

/-- The cube hands tuples with their levels and the flushes of its subscribers to its processors. -/
inductive CubeTask (C F : Type) where
  | insertion (chain : Option C) (t : Tuple ℚ) (key : List Char) (levels : List ℕ)
  | flush (flush : F)

/-- The cube is itself a member of the chains that pass through it. -/
structure LeveledCube (M : Type) where
  self : M
  dimensions : List Dimension
  cubeMaxStage : ℕ

/-- The table maps each chain to its rollup levels, and the tasks are kept in the order in which they were pushed. -/
structure LevelState (C F : Type) where
  inChainCount : ℕ
  currentLevels : C → Option (List ℕ)
  tasks : List (CubeTask C F)

/-- A processed message comes with the flushes that the subscribers answer it with. -/
inductive ChainEvent (C M F : Type) where
  | addChain (chain : C) (members : List M)
  | process (chain : Option C) (tuples : List (Option (Tuple ℚ))) (msg : ChainMessage) (flushes : List F)
  | chainStopping (chain : C) (members : List M) (flushes : List F)

namespace LevelState

variable {C F : Type} [DecidableEq C]

omit [DecidableEq C] in
def new : LevelState C F := ⟨0, fun _ => none, []⟩

def setCurrentLevels (state : LevelState C F) (chain : C) (levels : List ℕ) : LevelState C F :=
  { state with currentLevels := Function.update state.currentLevels chain (some levels) }

def eraseCurrentLevels (state : LevelState C F) (chain : C) : LevelState C F :=
  { state with currentLevels := Function.update state.currentLevels chain none }

end LevelState

namespace LeveledCube

variable {C M F : Type} [DecidableEq C] (cube : LeveledCube M)

def getLeafLevels : List ℕ := cube.dimensions.map fun dimension => dimension.type.leafLevel

omit [DecidableEq C] in
/-- A chain that is not in the table has the leaf levels. -/
def levelsFor (state : LevelState C F) (chain : Option C) : List ℕ :=
  (chain.bind state.currentLevels).getD cube.getLeafLevels

omit [DecidableEq C] in
/-- The stages of the configuration cut the processing short. -/
def processTuple (chain : Option C) (state : LevelState C F) (t : Tuple ℚ) : Option (LevelState C F) :=
  if cube.cubeMaxStage < 1 then some state
  else do
    let levels := cube.levelsFor state chain
    let key ← getDimensionKey cube.dimensions t levels
    if cube.cubeMaxStage < 2 then some state
    else some { state with tasks := state.tasks ++ [.insertion chain t key levels] }

omit [DecidableEq C] in
/-- Metadata without a chain is fatal. -/
def incomingMeta (state : LevelState C F) (chain : Option C) (msg : ChainMessage) (flushes : List F) :
    Option (LevelState C F) :=
  if msg.type.isSome ∧ msg.type ≠ some .data then
    if chain.isSome then some { state with tasks := state.tasks ++ flushes.map .flush } else none
  else some state

/-- The levels of a chain that the table has are ignored, and a wrong number of levels is fatal. -/
def rollupLevels (state : LevelState C F) (chain : Option C) (msg : ChainMessage) : Option (LevelState C F) :=
  chain.elim (some state) fun chain =>
    if (state.currentLevels chain).isSome then some state
    else if msg.rollupLevels = [] then some (state.setCurrentLevels chain cube.getLeafLevels)
    else if msg.rollupLevels.length = cube.dimensions.length then
      some (state.setCurrentLevels chain (msg.rollupLevels.map toUInt32))
    else none

/-- The tuples that are not null are processed before the message. -/
def process (state : LevelState C F) (chain : Option C) (tuples : List (Option (Tuple ℚ))) (msg : ChainMessage)
    (flushes : List F) : Option (LevelState C F) := do
  let processed ← (tuples.filterMap id).foldlM (cube.processTuple chain) state
  let asked ← incomingMeta processed chain msg flushes
  let updated ← (if msg.type = some .rollupLevels then cube.rollupLevels asked chain msg else some asked)
  some (if msg.type = some .noMoreData then chain.elim updated updated.eraseCurrentLevels else updated)

variable [DecidableEq M]

/-- A chain that starts in the cube is not counted and gets no entry. -/
def addChain (state : LevelState C F) (chain : C) (members : List M) : LevelState C F :=
  if ∃ first ∈ members.head?, first ≠ cube.self then
    { state with inChainCount := (state.inChainCount + 1) % 2 ^ 32 }.setCurrentLevels chain cube.getLeafLevels
  else state

/-- The end of a chain is processed like its last message, and a chain without members has no first member to read. -/
def chainStopping (state : LevelState C F) (chain : C) (members : List M) (flushes : List F) :
    Option (LevelState C F) :=
  members.head?.bind fun first =>
    cube.process (if first ≠ cube.self then { state with inChainCount := unsignedPred state.inChainCount } else state)
      (some chain) [] ⟨some .noMoreData, []⟩ flushes

def step (state : LevelState C F) : ChainEvent C M F → Option (LevelState C F)
  | .addChain chain members => some (cube.addChain state chain members)
  | .process chain tuples msg flushes => cube.process state chain tuples msg flushes
  | .chainStopping chain members flushes => cube.chainStopping state chain members flushes

/-- The cube starts without chains. -/
def system : EventSystem (LevelState C F) (ChainEvent C M F) := ⟨LevelState.new, cube.step⟩

/-- These events register a chain or end it. -/
def registration (chain : C) : ChainEvent C M F → Option Bool
  | .addChain other members => if other = chain ∧ ∃ first ∈ members.head?, first ≠ cube.self then some true else none
  | .process other _ msg _ => if other = some chain ∧ msg.type = some .noMoreData then some false else none
  | .chainStopping other _ _ => if other = chain then some false else none

/-- A chain is registered when it was added after its last end. -/
def Registered (history : List (ChainEvent C M F)) (chain : C) : Prop :=
  (history.filterMap (cube.registration chain)).getLast? = some true

omit [DecidableEq M] in
/-- The chain announces its levels in these messages. -/
def announcement (chain : C) : ChainEvent C M F → Option (List ℤ)
  | .process other _ msg _ =>
      if other = some chain ∧ msg.type = some .rollupLevels then some msg.rollupLevels else none
  | .addChain _ _ | .chainStopping _ _ _ => none

omit [DecidableEq M] in
/-- The last announcement of the chain holds, and the leaf levels hold when there is none or an empty one. -/
def announced (history : List (ChainEvent C M F)) (chain : C) : List ℕ :=
  let last := (history.filterMap (announcement chain)).getLast?.getD []
  if last = [] then cube.getLeafLevels else last.map toUInt32

/-- Each tuple of a registered chain that the event hands on has the levels that the chain has announced before it. -/
def Follows (state : LevelState C F × List (ChainEvent C M F)) (event : ChainEvent C M F) : Prop :=
  ∀ next, cube.step state.1 event = some next → ∀ pushed, next.tasks = state.1.tasks ++ pushed →
    ∀ chain t key levels, .insertion (some chain) t key levels ∈ pushed → cube.Registered state.2 chain →
      levels = cube.announced state.2 chain

/-- A registered chain that sends a tuple has announced nothing but the leaf levels last. -/
def NamesLeaves (state : LevelState C F × List (ChainEvent C M F)) (event : ChainEvent C M F) : Prop :=
  ∀ chain tuples msg flushes, event = .process (some chain) tuples msg flushes → 2 ≤ cube.cubeMaxStage →
    (∃ t, some t ∈ tuples) → cube.Registered state.2 chain → cube.announced state.2 chain = cube.getLeafLevels

section Process

omit [DecidableEq M]

variable {cube} {state next : LevelState C F} {chain : Option C} {tuples : List (Option (Tuple ℚ))}
  {msg : ChainMessage} {flushes : List F}

omit [DecidableEq C] in
/-- Each processed tuple gets the levels of its chain. -/
def insertions (cube : LeveledCube M) (state : LevelState C F) (chain : Option C) (tuples : List (Tuple ℚ)) :
    List (CubeTask C F) :=
  if 2 ≤ cube.cubeMaxStage then
    tuples.map fun t => .insertion chain t
      ((getDimensionKey cube.dimensions t (cube.levelsFor state chain)).getD []) (cube.levelsFor state chain)
  else []

omit [DecidableEq C] in
/-- An inserted tuple is one of those that the cube hands on, with the levels of its chain. -/
theorem mem_insertions {other : Option C} {t : Tuple ℚ} {key : List Char} {levels : List ℕ} {tuples : List (Tuple ℚ)}
    (inserted : .insertion other t key levels ∈ cube.insertions state chain tuples) :
    2 ≤ cube.cubeMaxStage ∧ chain = other ∧ t ∈ tuples ∧ levels = cube.levelsFor state chain := by
  rw [insertions] at inserted
  by_cases hands : 2 ≤ cube.cubeMaxStage
  · rw [if_pos hands] at inserted
    obtain ⟨sent, listed, same⟩ := List.mem_map.mp inserted
    obtain ⟨rfl, rfl, rfl, rfl⟩ := CubeTask.insertion.inj same
    exact ⟨hands, rfl, listed, rfl⟩
  · rw [if_neg hands] at inserted
    exact absurd inserted List.not_mem_nil

omit [DecidableEq C] in
theorem processTuple_eq {t : Tuple ℚ} (processed : cube.processTuple chain state t = some next) :
    next = { state with tasks := state.tasks ++ cube.insertions state chain [t] } := by
  rw [processTuple] at processed
  by_cases first : cube.cubeMaxStage < 1
  · rw [if_pos first] at processed
    obtain rfl := Option.some.inj processed
    rw [insertions, if_neg (by omega), List.append_nil]
  · rw [if_neg first] at processed
    obtain ⟨key, found, processed⟩ := Option.bind_eq_some_iff.mp processed
    by_cases second : cube.cubeMaxStage < 2
    · rw [if_pos second] at processed
      obtain rfl := Option.some.inj processed
      rw [insertions, if_neg (by omega), List.append_nil]
    · rw [if_neg second] at processed
      obtain rfl := Option.some.inj processed
      rw [insertions, if_pos (by omega), List.map_singleton, found, Option.getD_some]

omit [DecidableEq C] in
theorem insertions_cons (t : Tuple ℚ) (tuples : List (Tuple ℚ)) :
    cube.insertions state chain (t :: tuples) =
      cube.insertions state chain [t] ++ cube.insertions state chain tuples := by
  unfold insertions
  split <;> rfl

omit [DecidableEq C] in
/-- The tuples of one event all get the levels that their chain has before it. -/
theorem foldlM_processTuple {tuples : List (Tuple ℚ)}
    (ran : tuples.foldlM (cube.processTuple chain) state = some next) :
    next = { state with tasks := state.tasks ++ cube.insertions state chain tuples } := by
  induction tuples generalizing state with
  | nil =>
      obtain rfl := Option.some.inj ran
      simp [insertions]
  | cons t tuples ih =>
      rw [List.foldlM_cons] at ran
      obtain ⟨first, processed, rest⟩ := Option.bind_eq_some_iff.mp ran
      obtain rfl := processTuple_eq processed
      rw [ih rest, insertions_cons t tuples, ← List.append_assoc]
      rfl

omit [DecidableEq C] in
/-- Metadata pushes the flushes that the subscribers answer it with. -/
theorem incomingMeta_eq (asked : incomingMeta state chain msg flushes = some next) :
    ∃ later : List F, next = { state with tasks := state.tasks ++ later.map .flush } := by
  rw [incomingMeta] at asked
  by_cases isMeta : msg.type.isSome ∧ msg.type ≠ some .data
  · rw [if_pos isMeta, Option.ite_none_right_eq_some, Option.some_inj] at asked
    exact ⟨flushes, asked.2.symm⟩
  · rw [if_neg isMeta] at asked
    obtain rfl := Option.some.inj asked
    exact ⟨[], by simp⟩

/-- Announced levels push nothing and leave the entry of a chain that has one. -/
theorem rollupLevels_spec (updated : cube.rollupLevels state chain msg = some next) :
    next.tasks = state.tasks ∧
      ∀ other levels, state.currentLevels other = some levels → next.currentLevels other = some levels := by
  cases chain with
  | none =>
      obtain rfl := Option.some.inj updated
      exact ⟨rfl, fun _ _ entry => entry⟩
  | some chain =>
      rw [rollupLevels, Option.elim_some] at updated
      by_cases known : (state.currentLevels chain).isSome
      · rw [if_pos known] at updated
        obtain rfl := Option.some.inj updated
        exact ⟨rfl, fun _ _ entry => entry⟩
      · rw [if_neg known] at updated
        have set : ∃ levels, next = state.setCurrentLevels chain levels := by
          by_cases isEmpty : msg.rollupLevels = []
          · rw [if_pos isEmpty] at updated
            exact ⟨_, (Option.some.inj updated).symm⟩
          · rw [if_neg isEmpty, Option.ite_none_right_eq_some, Option.some_inj] at updated
            exact ⟨_, updated.2.symm⟩
        obtain ⟨levels, rfl⟩ := set
        refine ⟨rfl, fun other kept entry => ?_⟩
        have different : other ≠ chain := by
          rintro rfl
          exact known (by rw [entry, Option.isSome_some])
        exact (Function.update_of_ne different _ _).trans entry

/-- A processed event pushes its tuples and then the flushes of the subscribers, and the table keeps the entry of a
chain until its last message. -/
theorem process_spec (processed : cube.process state chain tuples msg flushes = some next) :
    (∃ later : List F, next.tasks =
      state.tasks ++ (cube.insertions state chain (tuples.filterMap id) ++ later.map .flush)) ∧
    ∀ other levels, state.currentLevels other = some levels → ¬ (chain = some other ∧ msg.type = some .noMoreData) →
      next.currentLevels other = some levels := by
  obtain ⟨first, ran, processed⟩ := Option.bind_eq_some_iff.mp processed
  obtain ⟨second, asked, processed⟩ := Option.bind_eq_some_iff.mp processed
  obtain ⟨third, updated, same⟩ := Option.bind_eq_some_iff.mp processed
  obtain rfl := foldlM_processTuple ran
  obtain ⟨later, rfl⟩ := incomingMeta_eq asked
  have kept : third.tasks = state.tasks ++ (cube.insertions state chain (tuples.filterMap id) ++ later.map .flush) ∧
      ∀ other levels, state.currentLevels other = some levels → third.currentLevels other = some levels := by
    by_cases announces : msg.type = some .rollupLevels
    · rw [if_pos announces] at updated
      obtain ⟨tasks, table⟩ := rollupLevels_spec updated
      exact ⟨tasks.trans (List.append_assoc _ _ _), table⟩
    · rw [if_neg announces] at updated
      obtain rfl := Option.some.inj updated
      exact ⟨List.append_assoc _ _ _, fun _ _ entry => entry⟩
  have erased : next = if msg.type = some .noMoreData then chain.elim third third.eraseCurrentLevels else third :=
    (Option.some.inj same).symm
  by_cases ends : msg.type = some .noMoreData
  · rw [if_pos ends] at erased
    cases chain with
    | none => exact erased ▸ ⟨⟨later, kept.1⟩, fun other levels entry _ => kept.2 other levels entry⟩
    | some chain =>
        rw [Option.elim_some] at erased
        rw [erased]
        refine ⟨⟨later, kept.1⟩, fun other levels entry goesOn => ?_⟩
        have different : other ≠ chain := fun same => goesOn ⟨by rw [same], ends⟩
        exact (Function.update_of_ne different _ _).trans (kept.2 other levels entry)
  · rw [if_neg ends] at erased
    exact erased ▸ ⟨⟨later, kept.1⟩, fun other levels entry _ => kept.2 other levels entry⟩

end Process

section Registered

variable {cube} {state next : LevelState C F} {history : List (ChainEvent C M F)} {event : ChainEvent C M F}

/-- The last event decides about the chain or leaves it as it was. -/
theorem registered_concat (chain : C) : cube.Registered (history ++ [event]) chain ↔
    cube.registration chain event = some true ∨
      cube.registration chain event = none ∧ cube.Registered history chain := by
  rw [Registered, List.filterMap_append]
  cases decided : cube.registration chain event with
  | none => simp [decided, Registered]
  | some registered => simp [decided]

/-- The table has the leaf levels for every registered chain. -/
def LeavesRegistered (cube : LeveledCube M) (state : LevelState C F) (history : List (ChainEvent C M F)) : Prop :=
  ∀ chain, cube.Registered history chain → state.currentLevels chain = some cube.getLeafLevels

/-- Adding a chain writes the leaf levels for it exactly when it registers the chain. -/
theorem currentLevels_addChain (chain other : C) (members : List M) :
    (cube.addChain state other members).currentLevels chain =
      if other = chain ∧ ∃ first ∈ members.head?, first ≠ cube.self then some cube.getLeafLevels
      else state.currentLevels chain := by
  rw [addChain]
  by_cases counted : ∃ first ∈ members.head?, first ≠ cube.self
  · rw [if_pos counted]
    by_cases same : other = chain
    · rw [if_pos ⟨same, counted⟩, ← same]
      exact Function.update_self _ _ _
    · rw [if_neg fun registers => same registers.1]
      exact Function.update_of_ne (Ne.symm same) _ _
  · rw [if_neg counted, if_neg fun registers => counted registers.2]

theorem tasks_addChain (chain : C) (members : List M) : (cube.addChain state chain members).tasks = state.tasks := by
  unfold addChain
  split <;> rfl

/-- Stopping a chain pushes no tuples and leaves the entries of the other chains. -/
theorem chainStopping_spec {other : C} {members : List M} {flushes : List F}
    (stopped : cube.chainStopping state other members flushes = some next) :
    (∃ later : List F, next.tasks = state.tasks ++ later.map .flush) ∧
    ∀ chain levels, state.currentLevels chain = some levels → other ≠ chain →
      next.currentLevels chain = some levels := by
  obtain ⟨first, -, processed⟩ := Option.bind_eq_some_iff.mp stopped
  have counted : ∃ count, (if first ≠ cube.self then { state with inChainCount := unsignedPred state.inChainCount }
      else state) = { state with inChainCount := count } := by
    by_cases counts : first ≠ cube.self
    · exact ⟨_, if_pos counts⟩
    · exact ⟨_, if_neg counts⟩
  obtain ⟨count, same⟩ := counted
  rw [same] at processed
  obtain ⟨⟨later, tasks⟩, table⟩ := process_spec processed
  refine ⟨⟨later, ?_⟩, fun chain levels entry different => ?_⟩
  · rw [tasks]
    simp [insertions]
  · exact table chain levels entry fun ends => different (Option.some.inj ends.1)

/-- Every step keeps the leaf levels of the registered chains. -/
theorem leavesRegistered_step (leaves : cube.LeavesRegistered state history)
    (stepped : cube.step state event = some next) : cube.LeavesRegistered next (history ++ [event]) := by
  intro chain registered
  rw [registered_concat] at registered
  cases event with
  | addChain other members =>
      obtain rfl := Option.some.inj stepped
      rw [currentLevels_addChain]
      rw [registration] at registered
      by_cases registers : other = chain ∧ ∃ first ∈ members.head?, first ≠ cube.self
      · rw [if_pos registers]
      · rw [if_neg registers] at registered ⊢
        exact leaves chain (registered.resolve_left (Option.some_ne_none _).symm).2
  | process other tuples msg flushes =>
      rw [registration] at registered
      by_cases ends : other = some chain ∧ msg.type = some .noMoreData
      · simp [ends] at registered
      · rw [if_neg ends] at registered
        have before := leaves chain (registered.resolve_left (Option.some_ne_none _).symm).2
        exact (process_spec stepped).2 chain _ before ends
  | chainStopping other members flushes =>
      rw [registration] at registered
      by_cases ends : other = chain
      · simp [ends] at registered
      · rw [if_neg ends] at registered
        have before := leaves chain (registered.resolve_left (Option.some_ne_none _).symm).2
        exact (chainStopping_spec stepped).2 chain _ before ends

/-- The tuples of a registered chain get the leaf levels. -/
theorem levelsFor_registered (leaves : cube.LeavesRegistered state history) {chain : C}
    (registered : cube.Registered history chain) : cube.levelsFor state (some chain) = cube.getLeafLevels := by
  rw [levelsFor, Option.bind_some, leaves chain registered, Option.getD_some]

/-- A step that attaches the announced levels comes from chains that have announced the leaf levels. -/
theorem Follows.namesLeaves (follows : cube.Follows (state, history) event)
    (leaves : cube.LeavesRegistered state history) (stepped : cube.step state event = some next) :
    cube.NamesLeaves (state, history) event := by
  rintro chain tuples msg flushes rfl hands ⟨t, sent⟩ registered
  obtain ⟨later, tasks⟩ := (process_spec stepped).1
  have member : t ∈ tuples.filterMap id := List.mem_filterMap.mpr ⟨some t, sent, rfl⟩
  have inserted : .insertion (some chain) t
      ((getDimensionKey cube.dimensions t (cube.levelsFor state (some chain))).getD [])
      (cube.levelsFor state (some chain)) ∈ cube.insertions state (some chain) (tuples.filterMap id) := by
    rw [insertions, if_pos hands]
    exact List.mem_map_of_mem member
  have attached := follows next stepped _ tasks chain t _ _ (List.mem_append_left _ inserted) registered
  exact attached.symm.trans (levelsFor_registered leaves registered)

/-- A step of chains that have announced the leaf levels attaches the announced levels. -/
theorem NamesLeaves.follows (names : cube.NamesLeaves (state, history) event)
    (leaves : cube.LeavesRegistered state history) : cube.Follows (state, history) event := by
  intro next stepped pushed grown chain t key attached member registered
  cases event with
  | addChain other members =>
      obtain rfl := Option.some.inj stepped
      obtain rfl := List.self_eq_append_right.mp ((tasks_addChain other members).symm.trans grown)
      exact absurd member List.not_mem_nil
  | process other tuples msg flushes =>
      obtain ⟨later, tasks⟩ := (process_spec stepped).1
      obtain rfl := List.append_cancel_left (grown.symm.trans tasks)
      have inserted : .insertion (some chain) t key attached ∈ cube.insertions state other (tuples.filterMap id) := by
        simpa using member
      obtain ⟨hands, rfl, listed, rfl⟩ := mem_insertions inserted
      obtain ⟨_, given, rfl⟩ := List.mem_filterMap.mp listed
      have announced := names chain tuples msg flushes rfl hands ⟨t, given⟩ registered
      exact (levelsFor_registered leaves registered).trans announced.symm
  | chainStopping other members flushes =>
      obtain ⟨later, tasks⟩ := (chainStopping_spec stepped).1
      obtain rfl := List.append_cancel_left (grown.symm.trans tasks)
      simp at member

end Registered

/-- In every run the tuples of the registered chains have the announced levels exactly when each registered chain that
sends a tuple has announced nothing but the leaf levels last. -/
theorem everyStep_follows_iff (cube : LeveledCube M) (events : List (ChainEvent C M F)) :
    cube.system.recorded.EveryStep cube.Follows (LevelState.new, []) events ↔
      cube.system.recorded.EveryStep cube.NamesLeaves (LevelState.new, []) events := by
  apply EventSystem.everyStep_congr fun state => cube.LeavesRegistered state.1 state.2
  · intro state event next leaves stepped
    obtain ⟨stepped, recorded⟩ := EventSystem.recorded_step.mp stepped
    rw [recorded]
    exact leavesRegistered_step leaves stepped
  · intro state event next leaves stepped
    obtain ⟨stepped, -⟩ := EventSystem.recorded_step.mp stepped
    exact ⟨fun follows => follows.namesLeaves leaves stepped, fun names => names.follows leaves⟩
  · intro chain registered
    exact absurd registered (Option.some_ne_none true).symm

/-- This cube has one dimension. -/
def hostCube : LeveledCube ℕ := ⟨0, [⟨.string, 0⟩], 10⟩

/-- A chain is added, announces that it is rolled up, and sends a tuple. -/
def rolledUpChain : List (ChainEvent ℕ ℕ ℕ) :=
  [.addChain 1 [7, 0], .process (some 1) [] ⟨some .rollupLevels, [0]⟩ [],
    .process (some 1) [some ⟨[{ sVal := some [] }]⟩] ⟨none, []⟩ []]

/-- The tuple of the rolled-up chain has the leaf level. -/
theorem not_follows_rolledUpChain :
    (hostCube.system.runFrom LevelState.new rolledUpChain).map LevelState.tasks =
      some [.insertion (some 1) ⟨[{ sVal := some [] }]⟩ ['|', '1', '|'] [1]] ∧
    ¬ hostCube.system.recorded.EveryStep hostCube.Follows (LevelState.new, []) rolledUpChain := by
  refine ⟨rfl, fun every => ?_⟩
  have follows := (((every _ rfl).2 _ rfl).2 _ rfl).1
  have attached : [1] = [0] := follows _ rfl
    [.insertion (some 1) ⟨[{ sVal := some [] }]⟩ ['|', '1', '|'] [1]] rfl 1 _ _ [1] List.mem_cons_self rfl
  exact absurd attached (by decide)

end LeveledCube

end JetStream
