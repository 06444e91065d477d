import JetStream.Control.Controller

namespace JetStream

namespace Controller

/-- This is the dataplane address of the worker on a connection. -/
def endpointAt (controller : Controller) (conn : NodeID) : Option NodeID :=
  (controller.workers.get? conn).map CWorker.getDataplaneEp

/-- The address of every worker leads to a registered connection of the same node. -/
def Mapped (controller : Controller) : Prop :=
  ∀ conn ep, controller.endpointAt conn = some ep →
    ∃ registered, controller.nodeIDToLocal.get? ep = some registered ∧ controller.endpointAt registered = some ep

section Frame

/-- Giving out assignments leaves the addresses of the workers alone. -/
theorem assignWorkers_endpoint (locations : OrderedMap NodeID NodeID) (compID : ℕ)
    (plan : List (NodeID × WorkerAssignment)) (workers : OrderedMap NodeID CWorker) (comp : Computation) (conn : NodeID) :
    ((assignWorkers locations compID plan workers comp).1.get? conn).map CWorker.getDataplaneEp =
      (workers.get? conn).map CWorker.getDataplaneEp := by
  induction plan generalizing workers comp with
  | nil => rfl
  | cons entry rest ih =>
      obtain ⟨workerID, assignment⟩ := entry
      unfold assignWorkers
      split
      · rfl
      · split_ifs
        · rfl
        · dsimp only
          split
          · rfl
          · rename_i worker found
            split_ifs
            · rfl
            · rw [ih, OrderedMap.get?_set]
              by_cases same : conn = workerID
              · rw [if_pos same, same, found]
                rfl
              · rw [if_neg same]

theorem cleanupWorkers_endpoint (nodeIDToLocal : OrderedMap NodeID NodeID) (compID : ℕ) (nodes : List NodeID)
    (workers : OrderedMap NodeID CWorker) (conn : NodeID) :
    ((cleanupWorkers nodeIDToLocal compID nodes workers).1.get? conn).map CWorker.getDataplaneEp =
      (workers.get? conn).map CWorker.getDataplaneEp := by
  induction nodes generalizing workers with
  | nil => rfl
  | cons nodeID rest ih =>
      unfold cleanupWorkers
      split
      · exact ih workers
      · rename_i registered _
        split
        · rfl
        · rename_i worker found
          split_ifs
          · rw [ih, OrderedMap.get?_set]
            by_cases same : conn = registered
            · rw [if_pos same, same, found]
              rfl
            · rw [if_neg same]
          · rfl

/-- A request, rejected or not, leaves the addresses of the workers alone. -/
theorem handleAlter_endpointAt (getAssignments : OrderedMap NodeID NodeID → AlterTopo → ℕ → PlanResult)
    (controller : Controller) (altertopo : AlterTopo) :
    (controller.handleAlter getAssignments altertopo).1.endpointAt = controller.endpointAt ∧
      (controller.handleAlter getAssignments altertopo).1.nodeIDToLocal = controller.nodeIDToLocal := by
  unfold handleAlter
  split_ifs
  · exact ⟨rfl, rfl⟩
  · split
    · exact ⟨rfl, rfl⟩
    · split
      · exact ⟨rfl, rfl⟩
      · split_ifs
        · exact ⟨rfl, rfl⟩
        · exact ⟨rfl, rfl⟩
      · rename_i plan _
        have workers := assignWorkers_endpoint controller.workerLocations controller.nextCompID plan.entries
          controller.workers ⟨.empty⟩
        unfold deploy
        split
        rename_i after comp failure assigned
        rw [show controller.assignCompID.workers = controller.workers from rfl] at assigned
        rw [assigned] at workers
        split
        · exact ⟨funext workers, rfl⟩
        · exact ⟨funext workers, rfl⟩

theorem stopComputation_endpointAt (controller : Controller) (compToStop : ℕ) :
    (controller.stopComputation compToStop).1.endpointAt = controller.endpointAt ∧
      (controller.stopComputation compToStop).1.nodeIDToLocal = controller.nodeIDToLocal := by
  unfold stopComputation
  split
  · exact ⟨rfl, rfl⟩
  · rename_i computation _
    have workers := cleanupWorkers_endpoint controller.nodeIDToLocal compToStop computation.workersInUse
      controller.workers
    split
    · rename_i after exception cleaned
      rw [cleaned] at workers
      exact ⟨funext workers, rfl⟩
    · rename_i after cleaned
      rw [cleaned] at workers
      exact ⟨funext workers, rfl⟩

theorem workerDied_endpointAt (controller : Controller) (dead conn : NodeID) :
    (controller.workerDied dead).endpointAt conn = if conn = dead then none else controller.endpointAt conn := by
  unfold workerDied
  split
  · rename_i absent
    split_ifs with same
    · rw [endpointAt, same, absent]
      rfl
    · rfl
  · rw [endpointAt, OrderedMap.get?_erase, endpointAt]
    split_ifs <;> rfl

/-- Only the address of the dead worker is deleted from the map. -/
theorem workerDied_nodeIDToLocal (controller : Controller) (dead ep : NodeID) :
    (controller.workerDied dead).nodeIDToLocal.get? ep =
      if controller.endpointAt dead = some ep then none else controller.nodeIDToLocal.get? ep := by
  unfold workerDied endpointAt
  split
  · rename_i absent
    rw [absent]
    rfl
  · rename_i worker found
    rw [found, OrderedMap.get?_erase]
    exact if_congr (eq_comm.trans Option.some_inj.symm) rfl rfl

end Frame

/-- The worker has been silent for longer than the timeout. -/
def Silent (controller : Controller) (now : ℤ) (conn : NodeID) : Prop :=
  ∃ worker ∈ controller.workers.get? conn, CWorker.hbTimeout < now - worker.lastHeard

instance (controller : Controller) (now : ℤ) (conn : NodeID) : Decidable (controller.Silent now conn) :=
  inferInstanceAs (Decidable (∃ worker ∈ controller.workers.get? conn, CWorker.hbTimeout < now - worker.lastHeard))

/-- No worker dies while another connection of its node stays, and no heartbeat changes the port of a connection. -/
def KeepsNodes (controller : Controller) : ControlEvent → Prop
  | .heartbeat hb clientEndpoint now => ∀ worker ∈ controller.workers.get? clientEndpoint,
      (worker.receiveHb hb now).getDataplaneEp = worker.getDataplaneEp
  | .connectionClose cliAddr => ∀ entry ∈ controller.workers.entries,
      controller.endpointAt cliAddr = some entry.2.getDataplaneEp → entry.1 = cliAddr
  | .liveness now => ∀ entry ∈ controller.workers.entries, ∀ other ∈ controller.workers.entries,
      other.2.getDataplaneEp = entry.2.getDataplaneEp → controller.Silent now entry.1 → controller.Silent now other.1
  | _ => True

instance (controller : Controller) : DecidablePred controller.KeepsNodes
  | .heartbeat hb clientEndpoint now => inferInstanceAs (Decidable (∀ worker ∈ controller.workers.get? clientEndpoint,
      (worker.receiveHb hb now).getDataplaneEp = worker.getDataplaneEp))
  | .connectionClose cliAddr => inferInstanceAs (Decidable (∀ entry ∈ controller.workers.entries,
      controller.endpointAt cliAddr = some entry.2.getDataplaneEp → entry.1 = cliAddr))
  | .liveness now => inferInstanceAs (Decidable (∀ entry ∈ controller.workers.entries,
      ∀ other ∈ controller.workers.entries, other.2.getDataplaneEp = entry.2.getDataplaneEp →
        controller.Silent now entry.1 → controller.Silent now other.1))
  | .alter _ => isTrue trivial
  | .stop _ => isTrue trivial

/-- The map is right for every worker that stays. -/
def MappedBut (leaving : NodeID → Prop) (controller : Controller) : Prop :=
  ∀ conn ep, ¬leaving conn → controller.endpointAt conn = some ep →
    ∃ registered, controller.nodeIDToLocal.get? ep = some registered ∧ controller.endpointAt registered = some ep

/-- A worker may go when its address belongs to none of those that stay. -/
theorem MappedBut.workerDied {leaving : NodeID → Prop} {controller : Controller} {dead : NodeID}
    (mapped : controller.MappedBut leaving)
    (apart : ∀ conn ep, ¬leaving conn → controller.endpointAt conn = some ep → controller.endpointAt dead = some ep →
      conn = dead) : (controller.workerDied dead).MappedBut leaving := by
  intro conn ep stays here
  rw [workerDied_endpointAt] at here
  split_ifs at here with same
  obtain ⟨registered, found, there⟩ := mapped conn ep stays here
  have elsewhere : controller.endpointAt dead ≠ some ep := fun gone => same (apart conn ep stays here gone)
  refine ⟨registered, ?_, ?_⟩
  · rw [workerDied_nodeIDToLocal, if_neg elsewhere, found]
  · rw [workerDied_endpointAt, if_neg, there]
    rintro rfl
    exact elsewhere there

theorem endpointAt_eq_some {controller : Controller} {conn ep : NodeID} :
    controller.endpointAt conn = some ep ↔ ∃ worker, (conn, worker) ∈ controller.workers.entries ∧
      worker.getDataplaneEp = ep := by
  simp only [endpointAt, Option.map_eq_some_iff, OrderedMap.mem_entries_iff]

theorem Mapped.handleConnectionClose {controller : Controller} {cliAddr : NodeID} (mapped : controller.Mapped)
    (keeps : controller.KeepsNodes (.connectionClose cliAddr)) : (controller.handleConnectionClose cliAddr).Mapped := by
  have stays : controller.MappedBut fun _ => False := fun conn ep _ here => mapped conn ep here
  intro conn ep here
  refine stays.workerDied (fun other shared _ there gone => ?_) conn ep id here
  obtain ⟨worker, member, rfl⟩ := endpointAt_eq_some.mp there
  exact keeps (other, worker) member gone

theorem foldl_workerDied_endpointAt (dead : List NodeID) (controller : Controller) (conn : NodeID) :
    (dead.foldl workerDied controller).endpointAt conn = if conn ∈ dead then none else controller.endpointAt conn := by
  induction dead generalizing controller with
  | nil => rfl
  | cons first rest ih =>
      rw [List.foldl_cons, ih, workerDied_endpointAt]
      by_cases later : conn ∈ rest
      · rw [if_pos later, if_pos (List.mem_cons_of_mem _ later)]
      · rw [if_neg later]
        exact if_congr (by simp [later]) rfl rfl

/-- Several workers may go one after another when their addresses belong to none of those that stay. -/
theorem MappedBut.foldl_workerDied {leaving : NodeID → Prop} {dead : List NodeID} {controller : Controller}
    (mapped : controller.MappedBut leaving)
    (apart : ∀ gone ∈ dead, ∀ conn ep, ¬leaving conn → controller.endpointAt conn = some ep →
      controller.endpointAt gone = some ep → conn = gone) :
    (dead.foldl Controller.workerDied controller).MappedBut leaving := by
  induction dead generalizing controller with
  | nil => exact mapped
  | cons first rest ih =>
      apply ih (mapped.workerDied (apart first List.mem_cons_self))
      intro gone member conn ep stays here there
      rw [workerDied_endpointAt] at here there
      split_ifs at here there
      exact apart gone (List.mem_cons_of_mem _ member) conn ep stays here there

/-- These connections have been silent for too long. -/
def silentWorkers (controller : Controller) (now : ℤ) : List NodeID :=
  (controller.workers.entries.filter fun entry => CWorker.hbTimeout < now - entry.2.lastHeard).map Prod.fst

theorem livenessCheck_eq (controller : Controller) (now : ℤ) :
    controller.livenessCheck now = (controller.silentWorkers now).foldl workerDied controller := by
  rw [silentWorkers, List.foldl_map, List.foldl_filter, livenessCheck]
  simp

theorem mem_silentWorkers {controller : Controller} {now : ℤ} {conn : NodeID} :
    conn ∈ controller.silentWorkers now ↔ controller.Silent now conn := by
  simp [silentWorkers, Silent, OrderedMap.mem_entries_iff]

theorem Mapped.livenessCheck {controller : Controller} {now : ℤ} (mapped : controller.Mapped)
    (keeps : controller.KeepsNodes (.liveness now)) : (controller.livenessCheck now).Mapped := by
  have stays : controller.MappedBut (controller.Silent now) := fun conn ep _ here => mapped conn ep here
  have after : (controller.livenessCheck now).MappedBut (controller.Silent now) := by
    rw [livenessCheck_eq]
    apply stays.foldl_workerDied
    intro gone member conn ep speaks here there
    obtain ⟨worker, found, rfl⟩ := endpointAt_eq_some.mp here
    obtain ⟨other, also, shared⟩ := endpointAt_eq_some.mp there
    exact absurd (keeps (gone, other) also (conn, worker) found shared.symm (mem_silentWorkers.mp member)) speaks
  intro conn ep here
  refine after conn ep (fun silent => ?_) here
  rw [livenessCheck_eq, foldl_workerDied_endpointAt, if_pos (mem_silentWorkers.mpr silent)] at here
  exact absurd here nofun

theorem handleHeartbeat_endpointAt (controller : Controller) (hb : Heartbeat) (clientEndpoint : NodeID) (now : ℤ)
    (conn : NodeID) :
    (controller.handleHeartbeat hb clientEndpoint now).endpointAt conn =
      if conn = clientEndpoint then some ((controller.workers.get? clientEndpoint).elim
        (CWorker.connected clientEndpoint hb now) fun worker => worker.receiveHb hb now).getDataplaneEp
      else controller.endpointAt conn := by
  unfold handleHeartbeat endpointAt
  split
  · rename_i absent
    rw [OrderedMap.get?_set, absent]
    split_ifs <;> rfl
  · rename_i worker found
    rw [OrderedMap.get?_set, found]
    split_ifs <;> rfl

/-- A heartbeat that reports the old port changes no address. -/
theorem handleHeartbeat_endpointAt_known {controller : Controller} {hb : Heartbeat} {clientEndpoint : NodeID} {now : ℤ}
    {worker : CWorker} (found : controller.workers.get? clientEndpoint = some worker)
    (keeps : (worker.receiveHb hb now).getDataplaneEp = worker.getDataplaneEp) :
    (controller.handleHeartbeat hb clientEndpoint now).endpointAt = controller.endpointAt := by
  funext conn
  rw [handleHeartbeat_endpointAt, found]
  split_ifs with here
  · rw [here, endpointAt, found]
    exact congrArg some keeps
  · rfl

theorem Mapped.handleHeartbeat {controller : Controller} {hb : Heartbeat} {clientEndpoint : NodeID} {now : ℤ}
    (mapped : controller.Mapped) (keeps : controller.KeepsNodes (.heartbeat hb clientEndpoint now)) :
    (controller.handleHeartbeat hb clientEndpoint now).Mapped := by
  cases found : controller.workers.get? clientEndpoint with
  | some worker =>
      have same := handleHeartbeat_endpointAt_known found (keeps worker found)
      have table : (controller.handleHeartbeat hb clientEndpoint now).nodeIDToLocal = controller.nodeIDToLocal := by
        rw [Controller.handleHeartbeat, found]
      rw [Mapped, same, table]
      exact mapped
  | none =>
      have absent : controller.endpointAt clientEndpoint = none := by
        rw [endpointAt, found]
        rfl
      intro conn ep here
      have table : (controller.handleHeartbeat hb clientEndpoint now).nodeIDToLocal = controller.nodeIDToLocal.set
          (CWorker.connected clientEndpoint hb now).getDataplaneEp clientEndpoint := by
        rw [Controller.handleHeartbeat, found]
      simp only [handleHeartbeat_endpointAt, found, Option.elim_none, table, OrderedMap.get?_set] at here ⊢
      by_cases fresh : ep = (CWorker.connected clientEndpoint hb now).getDataplaneEp
      · exact ⟨clientEndpoint, by rw [if_pos fresh], by rw [if_pos rfl, fresh]⟩
      · split_ifs at here with new
        · exact absurd (Option.some.inj here).symm fresh
        · obtain ⟨registered, leads, there⟩ := mapped conn ep here
          refine ⟨registered, by rw [if_neg fresh, leads], ?_⟩
          rw [if_neg, there]
          rintro rfl
          exact absurd (absent.symm.trans there) nofun

/-- Every event that keeps the nodes apart keeps the map right. -/
theorem Mapped.step {getAssignments : OrderedMap NodeID NodeID → AlterTopo → ℕ → PlanResult} {controller : Controller}
    {event : ControlEvent} (mapped : controller.Mapped) (keeps : controller.KeepsNodes event) :
    (controller.step getAssignments event).Mapped := by
  cases event with
  | alter altertopo =>
      obtain ⟨endpoints, table⟩ := handleAlter_endpointAt getAssignments controller altertopo
      unfold Mapped Controller.step
      dsimp only
      rw [endpoints, table]
      exact mapped
  | heartbeat hb clientEndpoint now => exact mapped.handleHeartbeat keeps
  | connectionClose cliAddr => exact mapped.handleConnectionClose keeps
  | liveness now => exact mapped.livenessCheck keeps
  | stop compToStop =>
      obtain ⟨endpoints, table⟩ := stopComputation_endpointAt controller compToStop
      unfold Mapped Controller.step
      dsimp only
      rw [endpoints, table]
      exact mapped

/-- The address map stays live along every run that keeps the nodes apart. -/
theorem everyState_mapped (getAssignments : OrderedMap NodeID NodeID → AlterTopo → ℕ → PlanResult)
    (events : List ControlEvent) (keeps : (system getAssignments).EveryStep KeepsNodes new events) :
    (system getAssignments).EveryState Mapped new events := by
  apply EventSystem.EveryStep.everyState Mapped _ _ _ keeps
  · intro controller event next mapped met stepped
    obtain rfl := Option.some.inj stepped
    exact mapped.step met
  · intro controller mapped
    exact mapped
  · intro conn ep here
    exact absurd here nofun

/-- Two nodes come, one of them reconnects after its old connection is closed, and the other falls silent. -/
theorem everyState_mapped_reconnect :
    (system fun _ _ _ => .raised).EveryStep KeepsNodes new
        [.heartbeat ⟨toLex ("n1", 3001)⟩ (toLex ("n1", 40000)) 0, .heartbeat ⟨toLex ("n2", 3001)⟩ (toLex ("n2", 40000)) 1,
          .connectionClose (toLex ("n1", 40000)), .heartbeat ⟨toLex ("n1", 3001)⟩ (toLex ("n1", 40001)) 20,
          .liveness 40] ∧
      (system fun _ _ _ => .raised).EveryState Mapped new
        [.heartbeat ⟨toLex ("n1", 3001)⟩ (toLex ("n1", 40000)) 0, .heartbeat ⟨toLex ("n2", 3001)⟩ (toLex ("n2", 40000)) 1,
          .connectionClose (toLex ("n1", 40000)), .heartbeat ⟨toLex ("n1", 3001)⟩ (toLex ("n1", 40001)) 20,
          .liveness 40] :=
  ⟨by decide, everyState_mapped _ _ (by decide)⟩

/-- A node reconnects before its old connection is closed, and the close then unmaps the new connection. -/
theorem mapped_overlap_lost : ¬∀ (getAssignments : OrderedMap NodeID NodeID → AlterTopo → ℕ → PlanResult)
    (events : List ControlEvent), (system getAssignments).EveryState Mapped new events := by
  intro every
  have run := every (fun _ _ _ => .raised) [.heartbeat ⟨toLex ("n1", 3001)⟩ (toLex ("n1", 40000)) 0,
    .heartbeat ⟨toLex ("n1", 3001)⟩ (toLex ("n1", 40001)) 1, .connectionClose (toLex ("n1", 40000))]
  have closed : Mapped _ := ((run.2 _ rfl).2 _ rfl).2 _ rfl
  obtain ⟨registered, leads, -⟩ := closed (toLex ("n1", 40001)) (toLex ("n1", 3001)) (by decide)
  have unmapped : (((new.handleHeartbeat ⟨toLex ("n1", 3001)⟩ (toLex ("n1", 40000)) 0).handleHeartbeat
      ⟨toLex ("n1", 3001)⟩ (toLex ("n1", 40001)) 1).handleConnectionClose (toLex ("n1", 40000))).nodeIDToLocal.get?
      (toLex ("n1", 3001)) = none := by decide
  exact absurd (unmapped.symm.trans leads) nofun

end Controller

end JetStream
