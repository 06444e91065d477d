import JetStream.Control.Controller

namespace JetStream

namespace Controller

variable (getAssignments : OrderedMap NodeID NodeID → AlterTopo → ℕ → PlanResult)

/-- The validation reports an error, or the planner gives no assignments. -/
def Rejects (controller : Controller) (altertopo : AlterTopo) : Prop :=
  0 < (QueryPlanner.validateRawTopo altertopo).length ∨
    ∀ plan, getAssignments controller.workerLocations altertopo controller.nextCompID ≠ .assignments plan

/-- A rejected request is answered with an error message and changes neither the computations nor any assignment. -/
def RejectsAtomically (controller : Controller) (altertopo : AlterTopo) : Prop :=
  controller.Rejects getAssignments altertopo →
    (∃ reply message, (controller.handleAlter getAssignments altertopo).2 = .ok reply ∧ reply.type = .error ∧
        reply.errorMsg = some message ∧ 0 < message.length) ∧
      (controller.handleAlter getAssignments altertopo).1.computations = controller.computations ∧
      ∀ conn, ((controller.handleAlter getAssignments altertopo).1.workers.get? conn).map CWorker.assignments =
        (controller.workers.get? conn).map CWorker.assignments

/-- The new computation was not in the table before. -/
theorem assignCompID_computations_ne (controller : Controller) :
    controller.assignCompID.computations ≠ controller.computations := by
  intro same
  have found : controller.assignCompID.computations.get? controller.nextCompID = some ⟨.empty⟩ := by
    rw [assignCompID, OrderedMap.get?_set, if_pos rfl]
  rw [same, controller.fresh controller.nextCompID le_rfl] at found
  exact absurd found nofun

/-- With workers around, a rejected request always leaves its computation in the table. -/
theorem handleAlter_rejected {controller : Controller} {altertopo : AlterTopo}
    (some_worker : controller.workers.entries ≠ []) (rejects : controller.Rejects getAssignments altertopo) :
    (controller.handleAlter getAssignments altertopo).1 = controller.assignCompID := by
  rw [handleAlter, if_neg (by simpa using some_worker)]
  by_cases invalid : 0 < (QueryPlanner.validateRawTopo altertopo).length
  · rw [QueryPlanner.takeRawTopo, if_pos invalid]
  · rw [QueryPlanner.takeRawTopo, if_neg invalid]
    have unplanned := rejects.resolve_left invalid
    cases planned : getAssignments controller.workerLocations altertopo controller.nextCompID with
    | assignments plan => exact absurd planned (unplanned plan)
    | schemaError message =>
        simp only [planned]
        split_ifs <;> rfl
    | raised => simp only [planned]

/-- Rejected requests are answered atomically exactly when there are no workers at all. -/
theorem rejectsAtomically_iff (controller : Controller) (altertopo : AlterTopo) :
    controller.RejectsAtomically getAssignments altertopo ↔
      (controller.Rejects getAssignments altertopo → controller.workers.entries = []) := by
  constructor
  · intro atomic rejects
    by_contra some_worker
    have unchanged := (atomic rejects).2.1
    rw [handleAlter_rejected getAssignments some_worker rejects] at unchanged
    exact assignCompID_computations_ne controller unchanged
  · intro idle rejects
    have early : controller.handleAlter getAssignments altertopo =
        (controller, .ok ⟨.error, none, some "No workers available to deploy the topology"⟩) := by
      rw [handleAlter, if_pos (by simpa using idle rejects)]
    rw [early]
    exact ⟨⟨_, _, rfl, rfl, rfl, by decide⟩, rfl, fun _ => rfl⟩

/-- One worker listens on port 3001 of its host. -/
def oneWorker : Controller :=
  new.handleHeartbeat ⟨toLex ("10.0.0.2", 3001)⟩ (toLex ("10.0.0.2", 40000)) 0

/-- A request without operators leaves an exception instead of a reply and a computation without workers. -/
theorem rejectsAtomically_no_operators : ¬∀ (getAssignments : OrderedMap NodeID NodeID → AlterTopo → ℕ → PlanResult)
    (controller : Controller) (altertopo : AlterTopo), controller.RejectsAtomically getAssignments altertopo := by
  intro every
  have atomic := every (fun _ _ _ => .raised) oneWorker ⟨0, [], [], [], [], [], []⟩
  obtain ⟨⟨reply, message, replied, -⟩, -⟩ := atomic (Or.inl (by decide))
  exact absurd replied nofun

end Controller

end JetStream
