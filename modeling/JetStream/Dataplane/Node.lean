import JetStream.Dataplane.ConnManager
import JetStream.Dataplane.CubeManager
import Mathlib.Data.List.Infix

namespace JetStream

/-- These are the traits of an operator class that the node asks for. -/
structure OperatorType where
  cppName : String
  isSource : Bool
  isChainEnd : Bool
  isSubscriber : Bool
  deriving DecidableEq

/-- An operator object is known by the request that created it, and a subscriber can be attached to one cube. -/
structure COperator where
  type : OperatorType
  request : ℕ
  cube : Option String
  deriving DecidableEq

/-- The loader, the operators' own code and the ownership of operators lie outside of the node. -/
structure Surroundings where
  newOp : String → Option OperatorType
  configure : String → TaskID → OrderedMap String String → Except String Unit
  longDescription : TaskID → COperator → String
  constructs : CubeSchema → String → Bool → Bool
  debugString : Edge → String
  diesWithChain : OperatorChain → TaskID → Bool
  diesWithCube : CubeManager.DataCube → TaskID → Bool

/-- An entry without an operator is a weak pointer that is null or has expired. -/
abbrev OperatorTable := OrderedMap TaskID (Option COperator)

/-- An entry without a chain is a null pointer. -/
abbrev ChainTable := OrderedMap TaskID (Option OperatorChain)

structure Node where
  operators : OperatorTable
  sourcelessChain : ChainTable
  chainSources : ChainTable
  cubeMgr : CubeManager
  dataConnMgr : DataplaneConnManager

/-- These are the local variables of `handle_alter`. -/
structure Altering where
  node : Node
  operatorIDsToStart : List TaskID
  respTopo : AlterTopo
  opToOutedge : OrderedMap TaskID Edge
  opToPred : OrderedMap TaskID TaskID
  opToChain : OrderedMap TaskID OperatorChain

namespace Node

def new : Node := ⟨.empty, .empty, .empty, ⟨.empty⟩, .new⟩

section Operators

/-- The look-up of an unknown name leaves a null entry under it. -/
def getOperator (operators : OperatorTable) (name : TaskID) : Option COperator × OperatorTable :=
  match operators.get? name with
  | some entry => (entry, operators)
  | none => (none, operators.set name none)

/-- The operators that nothing else keeps alive expire. -/
def expire (operators : OperatorTable) (dies : TaskID → Bool) : OperatorTable :=
  operators.mapWithKey fun id entry => if dies id then none else entry

def createOperator (env : Surroundings) (request : ℕ) (operators : OperatorTable) (opTypename : String) (name : TaskID)
    (cfg : OrderedMap String String) : Except String COperator :=
  match operators.get? name with
  | some _ => .error ("operator " ++ name.asString ++ "  already exists")
  | none =>
      match env.newOp opTypename with
      | none => .error ("Loader failed to create operator of type " ++ opTypename)
      | some type => (env.configure opTypename name cfg).map fun _ => ⟨type, request, none⟩

end Operators

section Stages

variable (env : Surroundings) (fuel request : ℕ)

/-- The answer repeats the name and the class of the task. -/
def startedTask (task : TaskMeta) : TaskMeta := ⟨task.id, task.opTypename, none, []⟩

def taskConfig (task : TaskMeta) : OrderedMap String String :=
  task.config.foldl (fun config param => config.set param.1 param.2) .empty

structure Starting where
  operators : OperatorTable
  ids : List TaskID
  started : List TaskMeta

/-- An operator that exists must be of the requested class, and its weak pointer must not have expired. -/
def startOperator (state : Starting) (task : TaskMeta) : Attempt String Starting :=
  match state.operators.get? task.id with
  | some entry =>
      if task.id ∈ state.ids then .refused ("Operator " ++ task.id.asString ++ " already defined in this alter") state
      else
        match entry with
        | none => .crashed
        | some prevOp =>
            if task.opTypename.toList <:+: prevOp.type.cppName.toList then
              .done {state with started := state.started ++ [startedTask task]}
            else
              .refused ("operator " ++ task.id.asString ++ " clashes with " ++ env.longDescription task.id prevOp) state
  | none =>
      match createOperator env request state.operators task.opTypename task.id (taskConfig task) with
      | .error err => .refused err state
      | .ok op =>
          .done ⟨state.operators.set task.id (some op), state.ids ++ [task.id], state.started ++ [startedTask task]⟩

def startOperators (topo : AlterTopo) (vars : Altering) : Attempt String Altering :=
  (Attempt.loop (startOperator env request) ⟨vars.node.operators, [], []⟩ topo.toStart).map fun state =>
    {vars with
      node := {vars.node with operators := state.operators}
      operatorIDsToStart := state.ids
      respTopo := {vars.respTopo with toStart := state.started}}

/-- The answer repeats each cube that was created. -/
def createCube (state : CubeManager × List CubeMeta) (task : CubeMeta) : Attempt String (CubeManager × List CubeMeta) :=
  match state.1.createCube env.constructs task.name task.schema task.overwriteOld with
  | .done cubeMgr => .done (cubeMgr, state.2 ++ [task])
  | .refused _ cubeMgr => .refused ("Failed to create cube " ++ task.name) (cubeMgr, state.2)
  | .crashed => .crashed
  | .running => .running

def createCubes (topo : AlterTopo) (vars : Altering) : Attempt String Altering :=
  (Attempt.loop (createCube env) (vars.node.cubeMgr, []) topo.toCreate).map fun state =>
    {vars with
      node := {vars.node with cubeMgr := state.1}
      respTopo := {vars.respTopo with toCreate := state.2}}

/-- The tables forget the operator at the head of the chain. -/
def unregisterChain (node : Node) (chain : OperatorChain) : Node :=
  match chain.members with
  | some (.operator id) :: _ =>
      {node with operators := node.operators.erase id, chainSources := node.chainSources.erase id}
  | _ => node

/-- The index into the table of chains leaves a null entry under an unknown name. -/
def stopTask (node : Node) (id : TaskID) : Node :=
  match node.chainSources.get? id with
  | none => {node with chainSources := node.chainSources.set id none}
  | some none => node
  | some (some chain) =>
      let unregistered := node.unregisterChain chain
      {unregistered with operators := expire unregistered.operators (env.diesWithChain chain)}

def stopTasks (topo : AlterTopo) (vars : Altering) : Altering :=
  {vars with
    node := topo.taskToStop.foldl (stopTask env) vars.node
    respTopo := {vars.respTopo with taskToStop := topo.taskToStop}}

/-- The subscribers that only the cube keeps alive die with it. -/
def destroyCube (node : Node) (name : String) : Attempt String Node :=
  match node.cubeMgr.destroyCube name with
  | none => .crashed
  | some (cube, cubeMgr) =>
      .done
        {node with
          cubeMgr := cubeMgr
          operators :=
            if cube.subscribers.entries = [] then node.operators else expire node.operators (env.diesWithCube cube)}

def destroyCubes (topo : AlterTopo) (vars : Altering) : Attempt String Altering :=
  (Attempt.loop (destroyCube env) vars.node topo.cubesToStop).map fun node => {vars with node := node}

structure Wiring where
  operators : OperatorTable
  cubeMgr : CubeManager
  opToOutedge : OrderedMap TaskID Edge
  opToPred : OrderedMap TaskID TaskID

/-- This is the operator at the end of an edge that stays on the node. -/
def localDest (edge : Edge) : Option TaskID :=
  match edge.dest, edge.destAddr with
  | some task, none => some (toLex (edge.computation, task))
  | _, _ => none

/-- An edge from an operator is kept for the chains, and its local destination must exist. -/
def connectOperator (state : Wiring) (edge : Edge) (src : TaskID) : Attempt String Wiring :=
  match getOperator state.operators src with
  | (none, operators) =>
      .refused ("unknown source operator " ++ src.asString ++ " for edge.") {state with operators := operators}
  | (some _, _) =>
      let kept := {state with opToOutedge := state.opToOutedge.set src edge}
      match localDest edge with
      | none => .done kept
      | some dest =>
          match getOperator state.operators dest with
          | (none, operators) =>
              .refused ("Edge from " ++ src.asString ++ " to unknown dest " ++ dest.asString)
                {kept with operators := operators}
          | (some _, _) => .done {kept with opToPred := state.opToPred.set dest src}

/-- An edge from a cube ends at this operator. -/
def subscriberOf (edge : Edge) : TaskID := toLex (edge.computation, edge.dest.getD 0)

/-- An edge from a cube attaches a subscriber, and it is fatal when the subscriber has a cube already. -/
def connectCube (state : Wiring) (edge : Edge) (srcCube : String) : Attempt String Wiring :=
  let refusal := "Can't add edge from " ++ srcCube ++ " to " ++ String.ofList (Printing.decimal (edge.dest.getD 0))
  let found := (getOperator state.operators (subscriberOf edge)).1
  let operators := (getOperator state.operators (subscriberOf edge)).2
  match state.cubeMgr.getCube srcCube, found.filter (·.type.isSubscriber) with
  | none, _ => .refused (refusal ++ ": no such cube") {state with operators := operators}
  | some _, none =>
      .refused (refusal ++ ": no such destination (or dest not a subscriber)") {state with operators := operators}
  | some cube, some sub =>
      match sub.cube with
      | some _ => .crashed
      | none =>
          .done
            {state with
              operators := operators.set (subscriberOf edge) (some {sub with cube := some cube.name})
              cubeMgr := state.cubeMgr.addSubscriber srcCube cube (subscriberOf edge) sub.request}

/-- The test for a destination is always true, so an edge without a source operator needs a source cube. -/
def connectEdge (state : Wiring) (edge : Edge) : Attempt String Wiring :=
  match edge.src, edge.srcCube with
  | some task, _ => connectOperator state edge (toLex (edge.computation, task))
  | none, none =>
      .refused ("edges without src op must connect cubes to operators. Instead, got " ++ env.debugString edge) state
  | none, some srcCube => connectCube state edge srcCube

def connectEdges (topo : AlterTopo) (vars : Altering) : Attempt String Altering :=
  (Attempt.loop (connectEdge env) ⟨vars.node.operators, vars.node.cubeMgr, .empty, .empty⟩ topo.edges).map fun state =>
    {vars with
      node := {vars.node with operators := state.operators, cubeMgr := state.cubeMgr}
      opToOutedge := state.opToOutedge
      opToPred := state.opToPred}

/-- The next member is a remote adaptor, an operator or a cube, and a null pointer is fatal. -/
def nextMember (operators : OperatorTable) (cubeMgr : CubeManager) (opID : TaskID) (edge : Edge) :
    Option (TaskID × ChainMember × Bool) :=
  match edge.destAddr, edge.dest, edge.destCube with
  | some _, _, _ => some (opID, .remoteDest edge, false)
  | none, some task, _ =>
      match operators.get? (toLex (edge.computation, task)) with
      | some (some nextOp) =>
          some (toLex (edge.computation, task), .operator (toLex (edge.computation, task)), nextOp.type.isChainEnd)
      | _ => none
  | none, none, some destCube => (cubeMgr.getCube destCube).map fun cube => (opID, .cube cube.name, false)
  | none, none, none => none

/-- The chain follows the edges until it leaves the operators or hits an end, and it also lists the operators it passes. -/
def followChain (operators : OperatorTable) (cubeMgr : CubeManager) (opToOutedge : OrderedMap TaskID Edge) :
    ℕ → TaskID → ChainMember → Bool → Attempt String (List ChainMember × List TaskID)
  | 0, _, _, _ => .running
  | fuel + 1, opID, member, hitEnd =>
      match opToOutedge.get? opID, member, hitEnd with
      | some edge, .operator _, false =>
          match nextMember operators cubeMgr opID edge with
          | none => .crashed
          | some (nextID, next, nextEnd) =>
              (followChain operators cubeMgr opToOutedge fuel nextID next nextEnd).map fun rest =>
                (member :: rest.1, opID :: rest.2)
      | _, _, _ => .done ([member], [opID])

structure Building where
  operators : OperatorTable
  sourcelessChain : ChainTable
  chainSources : ChainTable
  dataConnMgr : DataplaneConnManager
  opToChain : OrderedMap TaskID OperatorChain

/-- A chain that stood under the name before is let go. -/
def replaceChain (operators : OperatorTable) (chains : ChainTable) (id : TaskID) : OperatorTable :=
  match chains.get? id with
  | some (some old) => expire operators (env.diesWithChain old)
  | _ => operators

/-- The chain goes to the sources or to the chains that wait for one, and those who wait for it are told. -/
def registerChain (state : Building) (id : TaskID) (isStartable : Bool) (chain : OperatorChain)
    (opToChain : OrderedMap TaskID OperatorChain) : Attempt String Building :=
  match state.dataConnMgr.createdChain chain with
  | none => .crashed
  | some dataConnMgr =>
      if isStartable then
        .done
          {state with
            operators := replaceChain env state.operators state.chainSources id
            chainSources := state.chainSources.set id (some chain)
            dataConnMgr := dataConnMgr
            opToChain := opToChain}
      else
        .done
          {state with
            operators := replaceChain env state.operators state.sourcelessChain id
            sourcelessChain := state.sourcelessChain.set id (some chain)
            dataConnMgr := dataConnMgr
            opToChain := opToChain}

/-- A new operator without a predecessor starts a chain, and so does every source. -/
def buildChain (cubeMgr : CubeManager) (opToOutedge : OrderedMap TaskID Edge) (opToPred : OrderedMap TaskID TaskID)
    (state : Building) (id : TaskID) : Attempt String Building :=
  match state.operators.get? id with
  | some (some chainOp) =>
      if opToPred.get? id = none ∨ chainOp.type.isSource then
        match followChain state.operators cubeMgr opToOutedge fuel id (.operator id) false with
        | .done (members, passed) =>
            let chain : OperatorChain := ⟨members.map some⟩
            registerChain env state id chainOp.type.isSource chain
              (passed.foldl (fun opToChain opID => opToChain.set opID chain) state.opToChain)
        | .refused _ _ => .crashed
        | .crashed => .crashed
        | .running => .running
      else .done state
  | _ => .crashed

def buildChains (vars : Altering) : Attempt String Altering :=
  (Attempt.loop (buildChain env fuel vars.node.cubeMgr vars.opToOutedge vars.opToPred)
      ⟨vars.node.operators, vars.node.sourcelessChain, vars.node.chainSources, vars.node.dataConnMgr, .empty⟩
      vars.operatorIDsToStart).map fun state =>
    {vars with
      node := ⟨state.operators, state.sourcelessChain, state.chainSources, vars.node.cubeMgr, state.dataConnMgr⟩
      opToChain := state.opToChain}

def createChains (topo : AlterTopo) (vars : Altering) : Attempt String Altering :=
  (connectEdges env topo vars).bind (buildChains env fuel)

structure Policies where
  operators : OperatorTable
  operatorsWithPolicies : List TaskID
  chain : Option OperatorChain

/-- A policy can name only operators of the new chains, and a missing operator is passed over. -/
def addPolicy (opToChain : OrderedMap TaskID OperatorChain) (state : Policies) (id : TaskID) : Attempt String Policies :=
  match getOperator state.operators id with
  | (none, operators) => .done {state with operators := operators}
  | (some _, _) =>
      match opToChain.get? id with
      | none => .refused ("Operator " ++ id.asString ++ " not created in this Alter") state
      | some chain =>
          .done {state with operatorsWithPolicies := state.operatorsWithPolicies ++ [id], chain := some chain}

/-- A policy without an operator that exists has no chain to ask for its monitor. -/
def addPolicySpec (opToChain : OrderedMap TaskID OperatorChain) (state : Policies) (spec : List TaskID) :
    Attempt String Policies :=
  (Attempt.loop (addPolicy opToChain) {state with chain := none} spec).bind fun state =>
    match state.chain with
    | none => .crashed
    | some _ => .done state

/-- An operator without a policy gets one of its own. -/
def addDefaultPolicy (opToChain : OrderedMap TaskID OperatorChain) (state : Policies) (id : TaskID) :
    Attempt String Policies :=
  if id ∈ state.operatorsWithPolicies then .done state
  else
    match opToChain.get? id with
    | none => .refused ("Can't add policy to " ++ id.asString ++ "; no chain with operator.") state
    | some _ => .done {state with operators := (getOperator state.operators id).2}

def establishCongestPolicies (topo : AlterTopo) (vars : Altering) : Attempt String Altering :=
  ((Attempt.loop (addPolicySpec vars.opToChain) ⟨vars.node.operators, [], none⟩ topo.congestPolicies).bind fun state =>
      Attempt.loop (addDefaultPolicy vars.opToChain) state vars.operatorIDsToStart).map fun state =>
    {vars with node := {vars.node with operators := state.operators}}

/-- Each requested cube starts a chain for the connections that wait for it. -/
def announceCube (cubeMgr : CubeManager) (conns : DataplaneConnManager) (task : CubeMeta) :
    Attempt String DataplaneConnManager :=
  Attempt.ofOption do
    let cube ← cubeMgr.getCube task.name
    conns.createdChain ⟨[some (.cube cube.name)]⟩

def announceCubes (topo : AlterTopo) (vars : Altering) : Attempt String Altering :=
  (Attempt.loop (announceCube vars.node.cubeMgr) vars.node.dataConnMgr topo.toCreate).map fun conns =>
    {vars with node := {vars.node with dataConnMgr := conns}}

/-- These stages stand in the `try` block. -/
def alterTables (topo : AlterTopo) (vars : Altering) : Attempt String Altering :=
  (startOperators env request topo vars).bind fun vars =>
  (createCubes env topo vars).bind fun vars =>
  (destroyCubes env topo (stopTasks env topo vars)).bind fun vars =>
  (createChains env fuel topo vars).bind fun vars =>
  (establishCongestPolicies topo vars).bind fun vars =>
  announceCubes topo vars

/-- The tables forget the operators that the request created, with the chains under their names. -/
def forgetOperator (node : Node) (name : TaskID) : Node :=
  {node with
    operators := (getOperator node.operators name).2.erase name
    sourcelessChain := node.sourcelessChain.erase name
    chainSources := node.chainSources.erase name}

/-- The chains that stood under the names before the request are let go together with the new ones. -/
def rollBack (before : Node) (vars : Altering) : Altering :=
  let forgotten := vars.operatorIDsToStart.foldl forgetOperator vars.node
  {vars with
    node :=
      {forgotten with
        operators :=
          vars.operatorIDsToStart.foldl
            (fun operators id =>
              replaceChain env (replaceChain env operators before.sourcelessChain id) before.chainSources id)
            forgotten.operators}}

/-- The answer starts with the number of the computation. -/
def startAlter (node : Node) (topo : AlterTopo) : Altering :=
  ⟨node, [], ⟨topo.computationID, [], [], [], [], [], []⟩, .empty, .empty, .empty⟩

/-- The answer is an error after a roll-back, or it repeats what was started and stopped. -/
def handleAlter (node : Node) (topo : AlterTopo) : Attempt String (AlterTopo × Node) :=
  match alterTables env fuel request topo (node.startAlter topo) with
  | .done vars => .done (vars.respTopo, vars.node)
  | .refused err vars => .refused err (vars.respTopo, (rollBack env node vars).node)
  | .crashed => .crashed
  | .running => .running

/-- Stopping a chain of the computation dereferences its entry. -/
def purgeChains (compID : ℤ) (chains : ChainTable) (stoppedOps : List ℤ) : Option (List ℤ) :=
  chains.entries.foldlM
    (fun stopped entry =>
      if entry.1.computationID = compID then entry.2.map fun _ => stopped ++ [entry.1.task] else some stopped)
    stoppedOps

/-- An operator of the computation goes away with its chains, and so does an operator that has expired. -/
def purgeOperator (compID : ℤ) (node : Node) (oid : TaskID) : Node :=
  match node.operators.get? oid with
  | none => node
  | some entry =>
      if entry = none ∨ oid.computationID = compID then
        {node with
          operators :=
            replaceChain env (replaceChain env (node.operators.erase oid) node.sourcelessChain oid) node.chainSources oid
          sourcelessChain := node.sourcelessChain.erase oid
          chainSources := node.chainSources.erase oid}
      else node

/-- The answer lists the tasks at the heads of the stopped chains. -/
def stopComputation (node : Node) (compID : ℤ) : Option (List ℤ × Node) := do
  let sourceless ← purgeChains compID node.sourcelessChain []
  let stoppedOps ← purgeChains compID node.chainSources sourceless
  return (stoppedOps, (node.operators.entries.map Prod.fst).foldl (purgeOperator env compID) node)

/-- The node stops every chain that has a source. -/
def stop (node : Node) : Option Unit :=
  node.chainSources.entries.foldlM (fun _ entry => entry.2.map fun _ => ()) ()

end Stages

section Connections

inductive DataplaneMessage where
  | chainConnect (chainLink : Edge)
  | unexpected
  deriving DecidableEq

/-- A null entry or a null member is fatal, and an unknown operator gives no chain. -/
def cloneChainFrom (chainMap : ChainTable) (destOperatorID : TaskID) : Option (Option OperatorChain) :=
  match chainMap.get? destOperatorID with
  | none => some none
  | some none => none
  | some (some chain) => if none ∈ chain.members then none else some (some chain.cloneBehindStart)

/-- The chains that wait for a source are searched first. -/
def operatorChainFor (node : Node) (destOperatorID : TaskID) : Option (Option OperatorChain) := do
  match ← cloneChainFrom node.sourcelessChain destOperatorID with
  | some chain => return some chain
  | none => cloneChainFrom node.chainSources destOperatorID

/-- A request without a destination is answered with an error. -/
def destinationFor (node : Node) (c : ClientConnection) (e : Edge) :
    Option (DataplaneConnManager × String × Option OperatorChain) :=
  match e.dest, e.destCube with
  | some task, _ => do
      let newChain ← node.operatorChainFor (toLex (e.computation, task))
      return (node.dataConnMgr, TaskID.asString (toLex (e.computation, task)), newChain)
  | none, some destCube =>
      some (node.dataConnMgr, destCube, (node.cubeMgr.getCube destCube).map fun cube => ⟨[none, some (.cube cube.name)]⟩)
  | none, none => some (node.dataConnMgr.sendMsg c .error, "", none)

/-- The connection is enabled when its destination is ready, and it waits under the requested name otherwise. -/
def receivedDataMsg (node : Node) (c : ClientConnection) : DataplaneMessage → Option Node
  | .unexpected => some node
  | .chainConnect e => do
      let srcOpID : TaskID := toLex (e.computation, e.src.getD 0)
      let (conns, destAsStr, newChain) ← node.destinationFor c e
      match newChain with
      | some chain => (conns.enableConnection c chain srcOpID).map fun enabled => {node with dataConnMgr := enabled}
      | none => return {node with dataConnMgr := conns.pendingConnection c destAsStr srcOpID}

end Connections

end Node

end JetStream
