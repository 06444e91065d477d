import JetStream.Control.WorkerMap

namespace JetStream

namespace Controller

/-- Every computation of the table can be stopped, and then no worker holds an assignment of it. -/
def StopsCompletely (controller : Controller) : Prop :=
  ∀ compID, controller.computations.get? compID ≠ none →
    (∃ reply, (controller.stopComputation compID).2 = .ok reply ∧ reply.type = .ok) ∧
      (controller.stopComputation compID).1.computations.get? compID = none ∧
      ∀ conn worker, (controller.stopComputation compID).1.workers.get? conn = some worker →
        worker.assignments.get? compID = none

section Planner

variable (getAssignments : OrderedMap NodeID NodeID → AlterTopo → ℕ → PlanResult)

/-- Nothing in the controller refers to the node of this address. -/
def Unused (controller : Controller) (ep : NodeID) : Prop :=
  (∀ entry ∈ controller.workers.entries, entry.2.getDataplaneEp ≠ ep) ∧
    ∀ entry ∈ controller.computations.entries, entry.2.workerAssignments.get? ep = none

instance (controller : Controller) (ep : NodeID) : Decidable (controller.Unused ep) :=
  inferInstanceAs (Decidable (_ ∧ _))

/-- New connections come from unused nodes, connections keep their ports, and every used worker gets an operator. -/
def KeepsWork (controller : Controller) : ControlEvent → Prop
  | .heartbeat hb clientEndpoint now =>
      (∀ worker ∈ controller.workers.get? clientEndpoint,
          (worker.receiveHb hb now).getDataplaneEp = worker.getDataplaneEp) ∧
        (controller.endpointAt clientEndpoint = none →
          controller.Unused (CWorker.connected clientEndpoint hb now).getDataplaneEp)
  | .alter altertopo =>
      ∀ entry ∈ (getAssignments controller.workerLocations altertopo controller.nextCompID).entries,
        0 < entry.2.operators.length
  | _ => True

instance (controller : Controller) : DecidablePred (controller.KeepsWork getAssignments)
  | .heartbeat hb clientEndpoint now => inferInstanceAs (Decidable
      ((∀ worker ∈ controller.workers.get? clientEndpoint,
          (worker.receiveHb hb now).getDataplaneEp = worker.getDataplaneEp) ∧
        (controller.endpointAt clientEndpoint = none →
          controller.Unused (CWorker.connected clientEndpoint hb now).getDataplaneEp)))
  | .alter altertopo => inferInstanceAs (Decidable
      (∀ entry ∈ (getAssignments controller.workerLocations altertopo controller.nextCompID).entries,
        0 < entry.2.operators.length))
  | .connectionClose _ => isTrue trivial
  | .liveness _ => isTrue trivial
  | .stop _ => isTrue trivial

end Planner

/-- A computation and the workers agree on who takes part in it, and each of these has an operator. -/
structure Linked (workers : OrderedMap NodeID CWorker) (compID : ℕ) (computation : Computation) : Prop where
  staffed : ∀ ep assignment, computation.workerAssignments.get? ep = some assignment →
    0 < assignment.operators.length
  assigned : ∀ conn worker, workers.get? conn = some worker →
    computation.workerAssignments.get? worker.getDataplaneEp ≠ none → worker.assignments.get? compID ≠ none
  listed : ∀ conn worker, workers.get? conn = some worker → worker.assignments.get? compID ≠ none →
    computation.workerAssignments.get? worker.getDataplaneEp ≠ none

/-- The workers that remain have kept their address and their assignment of one computation. -/
def KeepsAssignment (compID : ℕ) (workers after : OrderedMap NodeID CWorker) : Prop :=
  ∀ conn worker, after.get? conn = some worker → ∃ old, workers.get? conn = some old ∧
    worker.getDataplaneEp = old.getDataplaneEp ∧ worker.assignments.get? compID = old.assignments.get? compID

theorem Linked.frame {workers after : OrderedMap NodeID CWorker} {compID : ℕ} {computation : Computation}
    (linked : Linked workers compID computation) (keeps : KeepsAssignment compID workers after) :
    Linked after compID computation where
  staffed := linked.staffed
  assigned := by
    intro conn worker found
    obtain ⟨old, before, ep, same⟩ := keeps conn worker found
    rw [ep, same]
    exact linked.assigned conn old before
  listed := by
    intro conn worker found
    obtain ⟨old, before, ep, same⟩ := keeps conn worker found
    rw [ep, same]
    exact linked.listed conn old before

/-- Addresses and connections correspond one to one, and the workers agree with all computations. -/
structure Inv (controller : Controller) : Prop where
  table : ∀ ep conn, controller.nodeIDToLocal.get? ep = some conn ↔ controller.endpointAt conn = some ep
  linked : ∀ compID computation, controller.computations.get? compID = some computation →
    Linked controller.workers compID computation
  known : ∀ conn worker compID, controller.workers.get? conn = some worker →
    worker.assignments.get? compID ≠ none → controller.computations.get? compID ≠ none

theorem new_inv : new.Inv where
  table := by
    intro ep conn
    constructor <;> exact nofun
  linked := nofun
  known := nofun

/-- Two connections never have the same address. -/
theorem Inv.unique {controller : Controller} (inv : controller.Inv) {first second ep : NodeID}
    (here : controller.endpointAt first = some ep) (there : controller.endpointAt second = some ep) : first = second :=
  Option.some.inj (((inv.table ep first).mpr here).symm.trans ((inv.table ep second).mpr there))

theorem Inv.workerDied {controller : Controller} (inv : controller.Inv) (dead : NodeID) :
    (controller.workerDied dead).Inv := by
  have remaining (conn : NodeID) (worker : CWorker) (found : (controller.workerDied dead).workers.get? conn = some worker) :
      controller.workers.get? conn = some worker := by
    unfold Controller.workerDied at found
    split at found
    · exact found
    · rw [OrderedMap.get?_erase] at found
      split_ifs at found
      exact found
  have computations : (controller.workerDied dead).computations = controller.computations := by
    unfold Controller.workerDied
    split <;> rfl
  constructor
  · intro ep conn
    rw [workerDied_nodeIDToLocal, workerDied_endpointAt]
    by_cases gone : controller.endpointAt dead = some ep
    · rw [if_pos gone]
      split_ifs with same
      · exact Iff.rfl
      · exact iff_of_false nofun fun here => same (inv.unique here gone)
    · rw [if_neg gone, inv.table]
      split_ifs with same
      · rw [same]
        exact iff_of_false gone nofun
      · exact Iff.rfl
  · intro compID computation found
    rw [computations] at found
    exact (inv.linked compID computation found).frame fun conn worker here =>
      ⟨worker, remaining conn worker here, rfl, rfl⟩
  · intro conn worker compID here holds
    rw [computations]
    exact inv.known conn worker compID (remaining conn worker here) holds

theorem Inv.livenessCheck {controller : Controller} (inv : controller.Inv) (now : ℤ) :
    (controller.livenessCheck now).Inv := by
  rw [livenessCheck_eq]
  generalize controller.silentWorkers now = dead
  induction dead generalizing controller with
  | nil => exact inv
  | cons first rest ih => exact ih (inv.workerDied first)

/-- Each worker keeps its address and its other assignments when it is given one. -/
theorem KeepsAssignment.set {workers : OrderedMap NodeID CWorker} {workerID : NodeID} {worker next : CWorker} {compID : ℕ}
    (found : workers.get? workerID = some worker) (ep : next.getDataplaneEp = worker.getDataplaneEp)
    (same : next.assignments.get? compID = worker.assignments.get? compID) :
    KeepsAssignment compID workers (workers.set workerID next) := by
  intro conn other here
  rcases OrderedMap.get?_set_cases here with ⟨known, rfl⟩ | ⟨-, before⟩
  · exact ⟨worker, known ▸ found, ep, same⟩
  · exact ⟨other, before, rfl, rfl⟩

theorem KeepsAssignment.refl (compID : ℕ) (workers : OrderedMap NodeID CWorker) :
    KeepsAssignment compID workers workers := fun _ worker here => ⟨worker, here, rfl, rfl⟩

theorem KeepsAssignment.trans {compID : ℕ} {first second third : OrderedMap NodeID CWorker}
    (begins : KeepsAssignment compID first second) (goesOn : KeepsAssignment compID second third) :
    KeepsAssignment compID first third := by
  intro conn worker here
  obtain ⟨middle, there, ep, same⟩ := goesOn conn worker here
  obtain ⟨old, before, oldEp, oldSame⟩ := begins conn middle there
  exact ⟨old, before, ep.trans oldEp, same.trans oldSame⟩

/-- Giving out the assignments of one computation leaves those of the others alone. -/
theorem assignWorkers_keeps {locations : OrderedMap NodeID NodeID} {compID other : ℕ} (different : other ≠ compID)
    (plan : List (NodeID × WorkerAssignment)) (workers : OrderedMap NodeID CWorker) (comp : Computation) :
    KeepsAssignment other workers (assignWorkers locations compID plan workers comp).1 := by
  induction plan generalizing workers comp with
  | nil => exact .refl other workers
  | cons entry rest ih =>
      obtain ⟨workerID, assignment⟩ := entry
      unfold assignWorkers
      split
      · exact .refl other workers
      · split_ifs
        · exact .refl other workers
        · dsimp only
          split
          · exact .refl other workers
          · rename_i worker found
            split_ifs
            · exact .refl other workers
            · refine KeepsAssignment.trans ?_ (ih _ _)
              apply KeepsAssignment.set found
              · rfl
              · rw [OrderedMap.get?_set, if_neg different]

/-- An assignment that its worker and the computation both enter keeps them in agreement. -/
theorem Linked.give {workers : OrderedMap NodeID CWorker} {compID : ℕ} {comp : Computation} {workerID location : NodeID}
    {worker : CWorker} {assignment : WorkerAssignment} (linked : Linked workers compID comp)
    (ep : worker.getDataplaneEp = location)
    (alone : ∀ conn other, workers.get? conn = some other → other.getDataplaneEp = location → conn = workerID)
    (staffed : 0 < assignment.operators.length) :
    Linked (workers.set workerID {worker with assignments := worker.assignments.set compID assignment}) compID
      ⟨comp.workerAssignments.set location assignment⟩ where
  staffed := by
    intro other assigned taken
    rcases OrderedMap.get?_set_cases taken with ⟨-, rfl⟩ | ⟨-, before⟩
    · exact staffed
    · exact linked.staffed other assigned before
  assigned := by
    intro conn other registered takesPart
    rcases OrderedMap.get?_set_cases registered with ⟨-, rfl⟩ | ⟨apart, before⟩
    · simp [OrderedMap.get?_set]
    · rw [OrderedMap.get?_set, if_neg fun same => apart (alone conn other before same)] at takesPart
      exact linked.assigned conn other before takesPart
  listed := by
    intro conn other registered holds
    rw [OrderedMap.get?_set]
    rcases OrderedMap.get?_set_cases registered with ⟨-, rfl⟩ | ⟨apart, before⟩
    · exact (if_pos ep).trans_ne nofun
    · rw [if_neg fun same => apart (alone conn other before same)]
      exact linked.listed conn other before holds

/-- Every worker that gets an assignment is entered in the computation, also when the loop ends early. -/
theorem assignWorkers_linked {locations : OrderedMap NodeID NodeID} {compID : ℕ}
    {plan : List (NodeID × WorkerAssignment)} {workers : OrderedMap NodeID CWorker} {comp : Computation}
    (located : ∀ conn, locations.get? conn = (workers.get? conn).map CWorker.getDataplaneEp)
    (unique : ∀ first second ep, locations.get? first = some ep → locations.get? second = some ep → first = second)
    (staffed : ∀ entry ∈ plan, 0 < entry.2.operators.length) (linked : Linked workers compID comp) :
    Linked (assignWorkers locations compID plan workers comp).1 compID
      (assignWorkers locations compID plan workers comp).2.1 := by
  induction plan generalizing workers comp with
  | nil => exact linked
  | cons entry rest ih =>
      obtain ⟨workerID, assignment⟩ := entry
      obtain ⟨staffedFirst, staffedRest⟩ := List.forall_mem_cons.mp staffed
      unfold assignWorkers
      split
      · exact linked
      · rename_i location place
        split_ifs with taken
        · exact linked
        · have here := located workerID
          rw [place] at here
          obtain ⟨worker, found, ep⟩ := Option.map_eq_some_iff.mp here.symm
          have free : comp.workerAssignments.get? location = none := by simpa using taken
          have unassigned : worker.assignments.get? compID = none := by
            by_contra holds
            exact linked.listed workerID worker found holds (ep ▸ free)
          have alone (conn : NodeID) (other : CWorker) (registered : workers.get? conn = some other)
              (same : other.getDataplaneEp = location) : conn = workerID := by
            apply unique conn workerID location _ place
            rw [located conn, registered, Option.map_some, same]
          rw [found]
          dsimp only
          rw [if_neg (by simp [unassigned])]
          refine ih ?_ staffedRest (linked.give ep alone staffedFirst)
          intro conn
          rw [located conn, OrderedMap.get?_set]
          split_ifs with same
          · rw [same, found]
            rfl
          · rfl

theorem cleanupWorkers_keeps {nodeIDToLocal : OrderedMap NodeID NodeID} {compID other : ℕ} (different : other ≠ compID)
    (nodes : List NodeID) (workers : OrderedMap NodeID CWorker) :
    KeepsAssignment other workers (cleanupWorkers nodeIDToLocal compID nodes workers).1 := by
  induction nodes generalizing workers with
  | nil => exact .refl other workers
  | cons node rest ih =>
      unfold cleanupWorkers
      split
      · exact ih workers
      · split
        · exact .refl other workers
        · rename_i worker found
          split_ifs
          · refine KeepsAssignment.trans ?_ (ih _)
            apply KeepsAssignment.set found
            · rfl
            · rw [OrderedMap.get?_erase, if_neg different]
          · exact .refl other workers

/-- When every mapped node of the list still holds the computation, the loop ends and all of them have dropped it. -/
theorem cleanupWorkers_spec {nodeIDToLocal : OrderedMap NodeID NodeID} {compID : ℕ} {nodes : List NodeID}
    {workers : OrderedMap NodeID CWorker} (distinct : nodes.Nodup)
    (injective : ∀ first second conn, nodeIDToLocal.get? first = some conn → nodeIDToLocal.get? second = some conn →
      first = second)
    (ready : ∀ node ∈ nodes, ∀ conn, nodeIDToLocal.get? node = some conn →
      ∃ worker, workers.get? conn = some worker ∧ worker.assignments.get? compID ≠ none) :
    (cleanupWorkers nodeIDToLocal compID nodes workers).2 = none ∧
      ∀ conn worker, (cleanupWorkers nodeIDToLocal compID nodes workers).1.get? conn = some worker →
        worker.assignments.get? compID ≠ none →
          workers.get? conn = some worker ∧ ∀ node ∈ nodes, nodeIDToLocal.get? node ≠ some conn := by
  induction nodes generalizing workers with
  | nil => exact ⟨rfl, fun conn worker here _ => ⟨here, nofun⟩⟩
  | cons node rest ih =>
      obtain ⟨notAgain, restDistinct⟩ := List.nodup_cons.mp distinct
      unfold cleanupWorkers
      cases mapped : nodeIDToLocal.get? node with
      | none =>
          obtain ⟨ends, drops⟩ := ih restDistinct fun other member => ready other (List.mem_cons_of_mem _ member)
          refine ⟨ends, fun conn worker here holds => ?_⟩
          obtain ⟨before, apart⟩ := drops conn worker here holds
          refine ⟨before, List.forall_mem_cons.mpr ⟨?_, apart⟩⟩
          rw [mapped]
          intro same
          cases same
      | some registered =>
          obtain ⟨old, found, held⟩ := ready node List.mem_cons_self registered mapped
          dsimp only
          rw [found]
          dsimp only
          rw [if_pos (Option.isSome_iff_ne_none.mpr held)]
          obtain ⟨ends, drops⟩ := ih restDistinct (by
            intro other member conn leads
            have elsewhere : conn ≠ registered := by
              rintro rfl
              exact notAgain (injective other node conn leads mapped ▸ member)
            rw [OrderedMap.get?_set, if_neg elsewhere]
            exact ready other (List.mem_cons_of_mem _ member) conn leads)
          refine ⟨ends, fun conn worker here holds => ?_⟩
          obtain ⟨before, apart⟩ := drops conn worker here holds
          rw [OrderedMap.get?_set] at before
          split_ifs at before with same
          · rw [← Option.some.inj before, OrderedMap.get?_erase, if_pos rfl] at holds
            exact absurd rfl holds
          · refine ⟨before, List.forall_mem_cons.mpr ⟨?_, apart⟩⟩
            rw [mapped]
            exact fun here => same (Option.some.inj here).symm

theorem workersInUse_nodup (computation : Computation) : computation.workersInUse.Nodup := by
  have keys := computation.workerAssignments.sorted.filter fun entry => 0 < entry.2.operators.length
  exact (List.pairwise_map.mpr (keys.imp fun less => less)).imp fun less => less.ne

theorem mem_workersInUse {computation : Computation} {ep : NodeID} :
    ep ∈ computation.workersInUse ↔
      ∃ assignment, computation.workerAssignments.get? ep = some assignment ∧ 0 < assignment.operators.length := by
  simp [Computation.workersInUse, OrderedMap.mem_entries_iff]

/-- The workers in use of a computation are exactly those that hold an assignment of it. -/
theorem Inv.cleanup {controller : Controller} {compID : ℕ} {computation : Computation} (inv : controller.Inv)
    (registered : controller.computations.get? compID = some computation) :
    (cleanupWorkers controller.nodeIDToLocal compID computation.workersInUse controller.workers).2 = none ∧
      ∀ conn worker, (cleanupWorkers controller.nodeIDToLocal compID computation.workersInUse
        controller.workers).1.get? conn = some worker → worker.assignments.get? compID = none := by
  have linked := inv.linked compID computation registered
  have injective (first second conn : NodeID) (here : controller.nodeIDToLocal.get? first = some conn)
      (there : controller.nodeIDToLocal.get? second = some conn) : first = second := by
    have address := (inv.table first conn).mp here
    rw [(inv.table second conn).mp there] at address
    exact (Option.some.inj address).symm
  have ready (node : NodeID) (used : node ∈ computation.workersInUse) (conn : NodeID)
      (leads : controller.nodeIDToLocal.get? node = some conn) :
      ∃ worker, controller.workers.get? conn = some worker ∧ worker.assignments.get? compID ≠ none := by
    obtain ⟨assignment, taken, -⟩ := mem_workersInUse.mp used
    obtain ⟨worker, found, ep⟩ := Option.map_eq_some_iff.mp ((inv.table node conn).mp leads)
    refine ⟨worker, found, linked.assigned conn worker found ?_⟩
    rw [ep, taken]
    exact nofun
  obtain ⟨ends, drops⟩ := cleanupWorkers_spec (workersInUse_nodup computation) injective ready
  refine ⟨ends, fun conn worker here => ?_⟩
  by_contra holds
  obtain ⟨before, apart⟩ := drops conn worker here holds
  obtain ⟨assignment, taken⟩ := Option.ne_none_iff_exists'.mp (linked.listed conn worker before holds)
  apply apart worker.getDataplaneEp (mem_workersInUse.mpr ⟨assignment, taken, linked.staffed _ _ taken⟩)
  rw [inv.table, endpointAt, before]
  rfl

/-- A registered computation is stopped without an exception. -/
theorem Inv.stopComputation_eq {controller : Controller} {compID : ℕ} {computation : Computation} (inv : controller.Inv)
    (registered : controller.computations.get? compID = some computation) :
    controller.stopComputation compID = ({controller.delComputation compID with
      workers := (cleanupWorkers controller.nodeIDToLocal compID computation.workersInUse controller.workers).1},
      .ok ⟨.ok, none, none⟩) := by
  have ends := (inv.cleanup registered).1
  rw [stopComputation, registered]
  dsimp only
  split
  · rename_i workers exception cleaned
    rw [cleaned] at ends
    cases ends
  · rename_i workers cleaned
    rw [cleaned]

theorem Inv.stopsCompletely {controller : Controller} (inv : controller.Inv) : controller.StopsCompletely := by
  intro compID listed
  obtain ⟨computation, registered⟩ := Option.ne_none_iff_exists'.mp listed
  rw [inv.stopComputation_eq registered]
  refine ⟨⟨_, rfl, rfl⟩, ?_, (inv.cleanup registered).2⟩
  exact (OrderedMap.get?_erase _ _ _).trans (if_pos rfl)

theorem Inv.stopComputation {controller : Controller} (inv : controller.Inv) (compToStop : ℕ) :
    (controller.stopComputation compToStop).1.Inv := by
  cases registered : controller.computations.get? compToStop with
  | none =>
      rw [Controller.stopComputation, registered]
      exact inv
  | some computation =>
      have drops := (inv.cleanup registered).2
      have keeps (other : ℕ) (different : other ≠ compToStop) : KeepsAssignment other controller.workers
          (cleanupWorkers controller.nodeIDToLocal compToStop computation.workersInUse controller.workers).1 :=
        cleanupWorkers_keeps different _ _
      have endpoints := cleanupWorkers_endpoint controller.nodeIDToLocal compToStop computation.workersInUse
        controller.workers
      rw [inv.stopComputation_eq registered]
      constructor
      · intro ep conn
        exact (inv.table ep conn).trans (Eq.congr (endpoints conn).symm rfl)
      · intro other remaining found
        rw [delComputation, OrderedMap.get?_erase] at found
        split_ifs at found with same
        exact (inv.linked other remaining found).frame (keeps other same)
      · intro conn worker other here holds
        rw [delComputation, OrderedMap.get?_erase]
        split_ifs with same
        · exact absurd (drops conn worker here) (same ▸ holds)
        · obtain ⟨old, before, -, unchanged⟩ := keeps other same conn worker here
          exact inv.known conn old other before (unchanged ▸ holds)

section Planner

variable {getAssignments : OrderedMap NodeID NodeID → AlterTopo → ℕ → PlanResult}

/-- A known connection that beats at its own address keeps its assignments. -/
theorem Inv.handleHeartbeat_known {controller : Controller} {hb : Heartbeat} {clientEndpoint : NodeID} {now : ℤ}
    {old : CWorker} (inv : controller.Inv) (found : controller.workers.get? clientEndpoint = some old)
    (keepsPort : (old.receiveHb hb now).getDataplaneEp = old.getDataplaneEp) :
    (controller.handleHeartbeat hb clientEndpoint now).Inv := by
  have endpoints := handleHeartbeat_endpointAt_known found keepsPort
  have beats : controller.handleHeartbeat hb clientEndpoint now =
      {controller with workers := controller.workers.set clientEndpoint (old.receiveHb hb now)} := by
    rw [Controller.handleHeartbeat, found]
  have same (compID : ℕ) : KeepsAssignment compID controller.workers
      (controller.workers.set clientEndpoint (old.receiveHb hb now)) := .set found keepsPort rfl
  rw [beats] at endpoints ⊢
  constructor
  · rw [endpoints]
    exact inv.table
  · intro compID computation registered
    exact (inv.linked compID computation registered).frame (same compID)
  · intro conn worker compID here holds
    obtain ⟨before, there, -, assignments⟩ := same compID conn worker here
    exact inv.known conn before compID there (assignments ▸ holds)

/-- A new connection from an address that no computation uses keeps the workers and a computation in agreement. -/
theorem Linked.connect {workers : OrderedMap NodeID CWorker} {compID : ℕ} {computation : Computation}
    {hb : Heartbeat} {clientEndpoint : NodeID} {now : ℤ} (linked : Linked workers compID computation)
    (unassigned : computation.workerAssignments.get? (CWorker.connected clientEndpoint hb now).getDataplaneEp = none) :
    Linked (workers.set clientEndpoint (.connected clientEndpoint hb now)) compID computation where
  staffed := linked.staffed
  assigned := by
    intro conn worker here takesPart
    rcases OrderedMap.get?_set_cases here with ⟨-, rfl⟩ | ⟨-, before⟩
    · exact absurd unassigned takesPart
    · exact linked.assigned conn worker before takesPart
  listed := by
    intro conn worker here holds
    rcases OrderedMap.get?_set_cases here with ⟨-, rfl⟩ | ⟨-, before⟩
    · exact absurd rfl holds
    · exact linked.listed conn worker before holds

/-- A new connection from an unused address is entered under it. -/
theorem Inv.handleHeartbeat_new {controller : Controller} {hb : Heartbeat} {clientEndpoint : NodeID} {now : ℤ}
    (inv : controller.Inv) (found : controller.workers.get? clientEndpoint = none)
    (unused : controller.Unused (CWorker.connected clientEndpoint hb now).getDataplaneEp) :
    (controller.handleHeartbeat hb clientEndpoint now).Inv := by
  obtain ⟨otherNodes, otherWork⟩ := unused
  have absent : controller.endpointAt clientEndpoint = none := by
    rw [endpointAt, found]
    rfl
  have unowned (conn : NodeID) :
      controller.endpointAt conn ≠ some (CWorker.connected clientEndpoint hb now).getDataplaneEp := by
    intro owned
    obtain ⟨worker, member, same⟩ := endpointAt_eq_some.mp owned
    exact otherNodes (conn, worker) member same
  have beats : controller.handleHeartbeat hb clientEndpoint now = {controller with
      workers := controller.workers.set clientEndpoint (.connected clientEndpoint hb now)
      nodeIDToLocal := controller.nodeIDToLocal.set (CWorker.connected clientEndpoint hb now).getDataplaneEp
        clientEndpoint} := by
    rw [Controller.handleHeartbeat, found]
  have endpoints := handleHeartbeat_endpointAt controller hb clientEndpoint now
  rw [found, Option.elim_none] at endpoints
  rw [beats] at endpoints ⊢
  constructor
  · intro other conn
    rw [endpoints, OrderedMap.get?_set]
    by_cases here : other = (CWorker.connected clientEndpoint hb now).getDataplaneEp
    · rw [if_pos here, here, Option.some_inj]
      split_ifs with same
      · exact iff_of_true same.symm rfl
      · exact iff_of_false (Ne.symm same) (unowned conn)
    · rw [if_neg here, inv.table]
      split_ifs with same
      · rw [same, absent, Option.some_inj]
        exact iff_of_false (Option.some_ne_none other).symm (Ne.symm here)
      · exact Iff.rfl
  · intro compID computation registered
    have unassigned := otherWork (compID, computation) (controller.computations.mem_entries_iff.mpr registered)
    exact (inv.linked compID computation registered).connect unassigned
  · intro conn worker compID here holds
    rcases OrderedMap.get?_set_cases here with ⟨-, rfl⟩ | ⟨-, before⟩
    · exact absurd rfl holds
    · exact inv.known conn worker compID before holds

theorem Inv.handleHeartbeat {controller : Controller} {hb : Heartbeat} {clientEndpoint : NodeID} {now : ℤ}
    (inv : controller.Inv) (keeps : controller.KeepsWork getAssignments (.heartbeat hb clientEndpoint now)) :
    (controller.handleHeartbeat hb clientEndpoint now).Inv := by
  obtain ⟨keepsPort, newNode⟩ := keeps
  cases found : controller.workers.get? clientEndpoint with
  | some old => exact inv.handleHeartbeat_known found (keepsPort old found)
  | none =>
      refine inv.handleHeartbeat_new found (newNode ?_)
      rw [endpointAt, found]
      rfl

theorem Inv.assignCompID {controller : Controller} (inv : controller.Inv) : controller.assignCompID.Inv where
  table := inv.table
  linked := by
    intro compID computation registered
    rw [Controller.assignCompID] at registered
    rcases OrderedMap.get?_set_cases registered with ⟨fresh, rfl⟩ | ⟨-, before⟩
    · refine ⟨nofun, fun _ _ _ takesPart => absurd rfl takesPart, fun conn worker here holds => ?_⟩
      exact absurd (controller.fresh compID fresh.ge) (inv.known conn worker compID here holds)
    · exact inv.linked compID computation before
  known := by
    intro conn worker compID here holds
    rw [Controller.assignCompID, OrderedMap.get?_set]
    split_ifs
    · exact nofun
    · exact inv.known conn worker compID here holds

/-- No worker holds an assignment of a computation that has just been registered. -/
theorem Inv.deploy {controller : Controller} {compID : ℕ} {known : compID < controller.nextCompID}
    {plan : OrderedMap NodeID WorkerAssignment} (inv : controller.Inv)
    (registered : controller.computations.get? compID = some ⟨.empty⟩)
    (staffed : ∀ entry ∈ plan.entries, 0 < entry.2.operators.length) :
    (controller.deploy compID known controller.workerLocations plan).1.Inv := by
  have located (conn : NodeID) : controller.workerLocations.get? conn =
      (controller.workers.get? conn).map CWorker.getDataplaneEp := OrderedMap.get?_map _ _ _
  have unique (first second ep : NodeID) (here : controller.workerLocations.get? first = some ep)
      (there : controller.workerLocations.get? second = some ep) : first = second := by
    rw [located] at here there
    exact inv.unique here there
  have linked := assignWorkers_linked located unique staffed (inv.linked compID _ registered)
  have keeps (other : ℕ) (different : other ≠ compID) : KeepsAssignment other controller.workers
      (assignWorkers controller.workerLocations compID plan.entries controller.workers ⟨.empty⟩).1 :=
    assignWorkers_keeps different _ _ _
  have endpoints := assignWorkers_endpoint controller.workerLocations compID plan.entries controller.workers ⟨.empty⟩
  generalize assigned : assignWorkers controller.workerLocations compID plan.entries controller.workers ⟨.empty⟩ =
    result at linked keeps endpoints
  obtain ⟨workers, comp, failure⟩ := result
  have after : Inv {controller.setComputation compID known comp with workers := workers} := by
    constructor
    · intro ep conn
      exact (inv.table ep conn).trans (Eq.congr (endpoints conn).symm rfl)
    · intro other computation found
      rw [setComputation] at found
      rcases OrderedMap.get?_set_cases found with ⟨same, rfl⟩ | ⟨same, before⟩
      · rw [same]
        exact linked
      · exact (inv.linked other computation before).frame (keeps other same)
    · intro conn worker other here holds
      rw [setComputation, OrderedMap.get?_set]
      split_ifs with same
      · exact nofun
      · obtain ⟨old, before, -, unchanged⟩ := keeps other same conn worker here
        exact inv.known conn old other before (unchanged ▸ holds)
  rw [Controller.deploy, assigned]
  cases failure with
  | some exception => exact after
  | none => exact after

theorem Inv.handleAlter {controller : Controller} {altertopo : AlterTopo} (inv : controller.Inv)
    (keeps : controller.KeepsWork getAssignments (.alter altertopo)) :
    (controller.handleAlter getAssignments altertopo).1.Inv := by
  unfold Controller.handleAlter
  split_ifs
  · exact inv
  · split
    · exact inv.assignCompID
    · rename_i alter kept
      have same : alter = altertopo := by
        unfold QueryPlanner.takeRawTopo at kept
        split_ifs at kept
        exact (Option.some.inj kept).symm
      subst same
      split
      · exact inv.assignCompID
      · split_ifs
        · exact inv.assignCompID
        · exact inv.assignCompID
      · rename_i plan planned
        apply inv.assignCompID.deploy
        · rw [Controller.assignCompID, OrderedMap.get?_set, if_pos rfl]
        · unfold KeepsWork at keeps
          dsimp only at keeps
          rw [planned] at keeps
          exact keeps

/-- Every event that keeps the work apart keeps the workers and the computations in agreement. -/
theorem Inv.step {controller : Controller} {event : ControlEvent} (inv : controller.Inv)
    (keeps : controller.KeepsWork getAssignments event) : (controller.step getAssignments event).Inv := by
  cases event with
  | alter altertopo => exact inv.handleAlter keeps
  | heartbeat hb clientEndpoint now => exact inv.handleHeartbeat keeps
  | connectionClose cliAddr => exact inv.workerDied cliAddr
  | liveness now => exact inv.livenessCheck now
  | stop compToStop => exact inv.stopComputation compToStop

/-- Along every run that keeps the work apart, each registered computation can be stopped completely. -/
theorem everyState_stopsCompletely (getAssignments : OrderedMap NodeID NodeID → AlterTopo → ℕ → PlanResult)
    (events : List ControlEvent) (keeps : (system getAssignments).EveryStep (KeepsWork getAssignments) new events) :
    (system getAssignments).EveryState StopsCompletely new events := by
  apply EventSystem.EveryStep.everyState Inv _ _ new_inv keeps
  · intro controller event next inv met stepped
    obtain rfl := Option.some.inj stepped
    exact inv.step met
  · intro controller inv
    exact inv.stopsCompletely

end Planner

/-- A topology without pinned sites is placed on the default worker as a whole. -/
def placeOnDefault (locations : OrderedMap NodeID NodeID) (alter : AlterTopo) (_ : ℕ) : PlanResult :=
  match locations.entries with
  | [] => .raised
  | (worker, _) :: _ =>
      .assignments (OrderedMap.empty.set worker ⟨alter.toStart, alter.toCreate, alter.edges, alter.congestPolicies⟩)

/-- This request starts one operator. -/
def oneOperator : AlterTopo := ⟨0, [⟨toLex (0, 1), "SendK", none, []⟩], [], [], [], [], []⟩

/-- A worker dies with its work, and a new node comes before the computation is stopped. -/
theorem everyState_stopsCompletely_new_node :
    (system placeOnDefault).EveryStep (KeepsWork placeOnDefault) new
        [.heartbeat ⟨toLex ("n1", 3001)⟩ (toLex ("n1", 40000)) 0, .alter oneOperator,
          .connectionClose (toLex ("n1", 40000)), .heartbeat ⟨toLex ("n2", 3001)⟩ (toLex ("n2", 40000)) 5, .stop 1] ∧
      (system placeOnDefault).EveryState StopsCompletely new
        [.heartbeat ⟨toLex ("n1", 3001)⟩ (toLex ("n1", 40000)) 0, .alter oneOperator,
          .connectionClose (toLex ("n1", 40000)), .heartbeat ⟨toLex ("n2", 3001)⟩ (toLex ("n2", 40000)) 5, .stop 1] :=
  ⟨by decide, everyState_stopsCompletely _ _ (by decide)⟩

/-- The worker reconnects, and the stop then looks for an assignment that the new connection does not have. -/
theorem stopsCompletely_reconnect_fails :
    ¬∀ (getAssignments : OrderedMap NodeID NodeID → AlterTopo → ℕ → PlanResult) (events : List ControlEvent),
      (system getAssignments).EveryState StopsCompletely new events := by
  intro every
  have run := every placeOnDefault [.heartbeat ⟨toLex ("n1", 3001)⟩ (toLex ("n1", 40000)) 0, .alter oneOperator,
    .connectionClose (toLex ("n1", 40000)), .heartbeat ⟨toLex ("n1", 3001)⟩ (toLex ("n1", 40001)) 5]
  have reconnected : StopsCompletely _ := (((run.2 _ rfl).2 _ rfl).2 _ rfl).2 _ rfl
  obtain ⟨⟨reply, replied, -⟩, -⟩ := reconnected 1 (by decide)
  exact absurd replied nofun

end Controller

end JetStream
