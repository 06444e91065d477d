import JetStream.Control.QueryPlanner
import JetStream.Lib.EventSystem

namespace JetStream

/-- A heartbeat carries the address that the node listens on for data. -/
structure Heartbeat where
  dataplaneAddr : NodeID
  deriving DecidableEq

/-- The controller knows a worker by its connection, its last heartbeat and its assignments. -/
structure CWorker where
  endpoint : NodeID
  lastHeard : ℤ
  lastHB : Heartbeat
  assignments : OrderedMap ℕ WorkerAssignment

namespace CWorker

/-- A worker that has been silent for longer is taken for dead. -/
def hbTimeout : ℤ := 30

/-- The host is the one that the controller sees, and the port is the one that the worker reports. -/
def getDataplaneEp (worker : CWorker) : NodeID :=
  toLex ((ofLex worker.endpoint).1, (ofLex worker.lastHB.dataplaneAddr).2)

def receiveHb (worker : CWorker) (hb : Heartbeat) (now : ℤ) : CWorker := {worker with lastHB := hb, lastHeard := now}

/-- The new worker has no assignments. -/
def connected (endpoint : NodeID) (hb : Heartbeat) (now : ℤ) : CWorker := ⟨endpoint, now, hb, .empty⟩

end CWorker

/-- A computation maps the dataplane address of each of its workers to that worker's assignment. -/
structure Computation where
  workerAssignments : OrderedMap NodeID WorkerAssignment

/-- Only workers with operators count as in use. -/
def Computation.workersInUse (computation : Computation) : List NodeID :=
  (computation.workerAssignments.entries.filter fun entry => 0 < entry.2.operators.length).map Prod.fst

/-- The number of the next computation is larger than all numbers in the table. -/
structure Controller where
  workers : OrderedMap NodeID CWorker
  nodeIDToLocal : OrderedMap NodeID NodeID
  computations : OrderedMap ℕ Computation
  nextCompID : ℕ
  fresh : ∀ id, nextCompID ≤ id → computations.get? id = none

/-- These exceptions can leave a handler. -/
inductive PyException where
  | attributeError
  | unboundLocalError
  | keyError
  | assertionError
  | planner
  deriving DecidableEq

inductive ControlType where
  | ok
  | error
  deriving DecidableEq

/-- A reply has a type and may carry the number of the started computation and an error message. -/
structure ControlReply where
  type : ControlType
  startedCompID : Option ℕ
  errorMsg : Option String
  deriving DecidableEq

namespace Controller

def new : Controller := ⟨.empty, .empty, .empty, 1, fun _ _ => rfl⟩

/-- The dead worker leaves the table, and the entry of its dataplane address is deleted with it. -/
def workerDied (controller : Controller) (workerConnID : NodeID) : Controller :=
  match controller.workers.get? workerConnID with
  | none => controller
  | some worker => {controller with
      nodeIDToLocal := controller.nodeIDToLocal.erase worker.getDataplaneEp
      workers := controller.workers.erase workerConnID}

/-- A connection that belongs to no worker may close without effect. -/
def handleConnectionClose (controller : Controller) (cliAddr : NodeID) : Controller := controller.workerDied cliAddr

/-- The check goes through the workers that were in the table at its start. -/
def livenessCheck (controller : Controller) (now : ℤ) : Controller :=
  controller.workers.entries.foldl (fun current entry =>
    if CWorker.hbTimeout < now - entry.2.lastHeard then current.workerDied entry.1 else current) controller

/-- The first heartbeat of a connection adds a worker, and no work is pending since failed work is not restarted. -/
def handleHeartbeat (controller : Controller) (hb : Heartbeat) (clientEndpoint : NodeID) (now : ℤ) : Controller :=
  match controller.workers.get? clientEndpoint with
  | none => {controller with
      workers := controller.workers.set clientEndpoint (.connected clientEndpoint hb now)
      nodeIDToLocal := controller.nodeIDToLocal.set (CWorker.connected clientEndpoint hb now).getDataplaneEp
        clientEndpoint}
  | some worker => {controller with workers := controller.workers.set clientEndpoint (worker.receiveHb hb now)}

/-- The computation is in the table from here on. -/
def assignCompID (controller : Controller) : Controller where
  workers := controller.workers
  nodeIDToLocal := controller.nodeIDToLocal
  computations := controller.computations.set controller.nextCompID ⟨.empty⟩
  nextCompID := controller.nextCompID + 1
  fresh := by
    intro id late
    rw [OrderedMap.get?_set, if_neg (by omega)]
    exact controller.fresh id (by omega)

/-- The planner is given the dataplane address of every worker. -/
def workerLocations (controller : Controller) : OrderedMap NodeID NodeID :=
  controller.workers.map CWorker.getDataplaneEp

/-- The computation is replaced by its new state. -/
def setComputation (controller : Controller) (compID : ℕ) (known : compID < controller.nextCompID)
    (computation : Computation) : Controller where
  workers := controller.workers
  nodeIDToLocal := controller.nodeIDToLocal
  computations := controller.computations.set compID computation
  nextCompID := controller.nextCompID
  fresh := by
    intro id late
    rw [OrderedMap.get?_set, if_neg (by omega)]
    exact controller.fresh id late

def delComputation (controller : Controller) (compID : ℕ) : Controller where
  workers := controller.workers
  nodeIDToLocal := controller.nodeIDToLocal
  computations := controller.computations.erase compID
  nextCompID := controller.nextCompID
  fresh := by
    intro id late
    rw [OrderedMap.get?_erase, controller.fresh id late, ite_self]

/-- The loop gives each worker its assignment, and an exception keeps what was done before it. -/
def assignWorkers (locations : OrderedMap NodeID NodeID) (compID : ℕ) :
    List (NodeID × WorkerAssignment) → OrderedMap NodeID CWorker → Computation →
      OrderedMap NodeID CWorker × Computation × Option PyException
  | [], workers, comp => (workers, comp, none)
  | (workerID, assignment) :: rest, workers, comp =>
      match locations.get? workerID with
      | none => (workers, comp, some .keyError)
      | some location =>
          if (comp.workerAssignments.get? location).isSome then (workers, comp, some .assertionError)
          else
            let comp : Computation := ⟨comp.workerAssignments.set location assignment⟩
            match workers.get? workerID with
            | none => (workers, comp, some .keyError)
            | some worker =>
                if (worker.assignments.get? compID).isSome then (workers, comp, some .assertionError)
                else assignWorkers locations compID rest
                  (workers.set workerID {worker with assignments := worker.assignments.set compID assignment}) comp

/-- The plan is carried out for a computation that is already in the table. -/
def deploy (controller : Controller) (compID : ℕ) (known : compID < controller.nextCompID)
    (locations : OrderedMap NodeID NodeID) (plan : OrderedMap NodeID WorkerAssignment) :
    Controller × Except PyException ControlReply :=
  match assignWorkers locations compID plan.entries controller.workers ⟨.empty⟩ with
  | (workers, comp, failure) =>
      let after := {controller.setComputation compID known comp with workers := workers}
      match failure with
      | some exception => (after, .error exception)
      | none => (after, .ok ⟨.ok, some compID, none⟩)

/-- The request is planned after its computation has been registered, and an invalid one leaves the planner without it. -/
def handleAlter (getAssignments : OrderedMap NodeID NodeID → AlterTopo → ℕ → PlanResult) (controller : Controller)
    (altertopo : AlterTopo) : Controller × Except PyException ControlReply :=
  if controller.workers.entries.isEmpty then
    (controller, .ok ⟨.error, none, some "No workers available to deploy the topology"⟩)
  else
    match (QueryPlanner.takeRawTopo altertopo).2 with
    | none => (controller.assignCompID, .error .attributeError)
    | some alter =>
        match getAssignments controller.workerLocations alter controller.nextCompID with
        | .raised => (controller.assignCompID, .error .planner)
        | .schemaError message =>
            if 0 < message.length then
              (controller.assignCompID, .ok ⟨.error, some controller.nextCompID, some message⟩)
            else (controller.assignCompID, .error .unboundLocalError)
        | .assignments plan =>
            controller.assignCompID.deploy controller.nextCompID (Nat.lt_succ_self _) controller.workerLocations plan

/-- Each connected worker in use drops its assignment, and a missing entry ends the loop with an exception. -/
def cleanupWorkers (nodeIDToLocal : OrderedMap NodeID NodeID) (compID : ℕ) :
    List NodeID → OrderedMap NodeID CWorker → OrderedMap NodeID CWorker × Option PyException
  | [], workers => (workers, none)
  | nodeID :: rest, workers =>
      match nodeIDToLocal.get? nodeID with
      | none => cleanupWorkers nodeIDToLocal compID rest workers
      | some conn =>
          match workers.get? conn with
          | none => (workers, some .keyError)
          | some worker =>
              if (worker.assignments.get? compID).isSome then
                cleanupWorkers nodeIDToLocal compID rest
                  (workers.set conn {worker with assignments := worker.assignments.erase compID})
              else (workers, some .keyError)

def stopComputation (controller : Controller) (compToStop : ℕ) : Controller × Except PyException ControlReply :=
  match controller.computations.get? compToStop with
  | none => (controller, .ok ⟨.error, none, some s!"No such computation {compToStop}"⟩)
  | some computation =>
      match cleanupWorkers controller.nodeIDToLocal compToStop computation.workersInUse controller.workers with
      | (workers, some exception) => ({controller with workers := workers}, .error exception)
      | (workers, none) =>
          ({controller.delComputation compToStop with workers := workers}, .ok ⟨.ok, none, none⟩)

end Controller

/-- The controller handles requests of clients, heartbeats and closed connections, and checks for silent workers. -/
inductive ControlEvent where
  | alter (altertopo : AlterTopo)
  | heartbeat (hb : Heartbeat) (clientEndpoint : NodeID) (now : ℤ)
  | connectionClose (cliAddr : NodeID)
  | liveness (now : ℤ)
  | stop (compToStop : ℕ)
  deriving DecidableEq

namespace Controller

section Planner

variable (getAssignments : OrderedMap NodeID NodeID → AlterTopo → ℕ → PlanResult)

/-- An exception in a handler costs the reply and keeps the state that it leaves. -/
def step (controller : Controller) : ControlEvent → Controller
  | .alter altertopo => (controller.handleAlter getAssignments altertopo).1
  | .heartbeat hb clientEndpoint now => controller.handleHeartbeat hb clientEndpoint now
  | .connectionClose cliAddr => controller.handleConnectionClose cliAddr
  | .liveness now => controller.livenessCheck now
  | .stop compToStop => (controller.stopComputation compToStop).1

def system : EventSystem Controller ControlEvent := ⟨new, fun controller event => some (controller.step getAssignments event)⟩

end Planner

end Controller

end JetStream
