import JetStream.Comm.ClientConnection
import JetStream.Lib.ListSum

namespace JetStream

variable {E : Type} {layer : SocketLayer E}

namespace ConnectAttempt

/-- The result was not made by a cancellation. -/
def live (op : AsyncOp (Option ConnectError)) : Bool := op.result?.any fun error => error ≠ some .operationAborted

/-- A handler with such a result will call back. -/
def waiting : AsyncOp (Option ConnectError) → ℕ
  | .queued error => (error ≠ some ConnectError.operationAborted : Bool).toNat
  | _ => 0

/-- These are the stages of an attempt, where each handler waits or has run. -/
inductive Stage : OutgoingConnection E → AsyncOp (Option ConnectError) → AsyncOp (Option ConnectError) → Prop
  | running (remote : E) : Stage ⟨remote, false, true, false, false⟩ .pending .pending
  | expired (remote : E) : Stage ⟨remote, false, true, false, false⟩ .pending (.queued none)
  | connected {conn : OutgoingConnection E} {error : Option ConnectError} (live : error ≠ some .operationAborted) :
      Stage conn (.queued error) .pending
  | both {conn : OutgoingConnection E} {error : Option ConnectError} (live : error ≠ some .operationAborted) :
      Stage conn (.queued error) (.queued none)
  | told {conn : OutgoingConnection E} {error : Option ConnectError} (live : error ≠ some .operationAborted) :
      Stage conn (.handled error) (.queued (some .operationAborted))
  | settled {conn : OutgoingConnection E} {error : Option ConnectError} (live : error ≠ some .operationAborted) :
      Stage conn (.handled error) (.handled (some .operationAborted))
  | first {conn : OutgoingConnection E} {error : Option ConnectError} (live : error ≠ some .operationAborted) :
      Stage conn (.handled error) (.queued none)
  | timedOut {conn : OutgoingConnection E} : Stage conn (.queued (some .operationAborted)) (.handled none)
  | aborted {conn : OutgoingConnection E} : Stage conn (.handled (some .operationAborted)) (.handled none)
  | late {conn : OutgoingConnection E} {error : Option ConnectError} (live : error ≠ some .operationAborted) :
      Stage conn (.queued error) (.handled none)
  | twice {conn : OutgoingConnection E} {error : Option ConnectError} (live : error ≠ some .operationAborted) :
      Stage conn (.handled error) (.handled none)

def Staged (attempt : ConnectAttempt E) : Prop := Stage attempt.conn attempt.connecting attempt.timer

/-- The connection was set up and its time expired, and neither handler was cancelled. -/
def Raced (attempt : ConnectAttempt E) : Bool := live attempt.connecting && live attempt.timer

/-- This is how often the attempt will still call back when no new race begins. -/
def awaited (attempt : ConnectAttempt E) : ℕ :=
  if attempt.connecting = .pending ∧ attempt.timer = .pending then 1
  else waiting attempt.connecting + waiting attempt.timer

section Steps

variable {attempt : ConnectAttempt E} {error : Option ConnectError}

theorem close_of_completed (completed : attempt.connecting ≠ .pending) :
    attempt.close.connecting = attempt.connecting ∧ attempt.close.timer = attempt.timer ∧
      attempt.close.resolved = attempt.resolved := by
  have kept : attempt.connecting.cancel (some .operationAborted) = attempt.connecting := by
    cases kind : attempt.connecting <;> simp_all [AsyncOp.cancel]
  unfold close
  split_ifs <;> simp [kept]

/-- A completed connect races only an expired timer. -/
theorem Staged.connects (staged : attempt.Staged) (pending : attempt.connecting = .pending)
    (live : error ≠ some .operationAborted) :
    let changed := { attempt with connecting := .queued error }
    changed.Staged ∧ changed.awaited + attempt.Raced.toNat = attempt.awaited + changed.Raced.toNat := by
  obtain ⟨conn, resolved, op, timer⟩ := attempt
  subst pending
  cases staged with
  | running remote => exact ⟨.connected live, by simp [awaited, Raced, waiting, ConnectAttempt.live, AsyncOp.result?, live]⟩
  | expired remote => exact ⟨.both live, by simp [awaited, Raced, waiting, ConnectAttempt.live, AsyncOp.result?, live]⟩

theorem Staged.expires (staged : attempt.Staged) (pending : attempt.timer = .pending) :
    let changed := { attempt with timer := .queued none }
    changed.Staged ∧ changed.awaited + attempt.Raced.toNat = attempt.awaited + changed.Raced.toNat := by
  obtain ⟨conn, resolved, connecting, op⟩ := attempt
  subst pending
  cases staged with
  | running remote => exact ⟨.expired remote, by simp [awaited, Raced, waiting, ConnectAttempt.live, AsyncOp.result?]⟩
  | connected live => exact ⟨.both live, by simp [awaited, Raced, waiting, ConnectAttempt.live, AsyncOp.result?, live]⟩

theorem connectCb_live (live : error ≠ some .operationAborted) (completed : attempt.connecting ≠ .pending) :
    (attempt.connectCb error).2 = some error ∧ (attempt.connectCb error).1.connecting = attempt.connecting ∧
      (attempt.connectCb error).1.timer = attempt.timer.cancel (some .operationAborted) ∧
      (attempt.connectCb error).1.resolved = attempt.resolved := by
  have kept := @close_of_completed E { attempt with timer := attempt.timer.cancel (some .operationAborted) } completed
  unfold connectCb
  rw [if_neg live]
  cases error with
  | none => exact ⟨rfl, rfl, rfl, rfl⟩
  | some error => exact ⟨rfl, kept⟩

/-- The handler of the connect operation calls back as often as it was awaited to. -/
theorem Staged.connectCb (staged : attempt.Staged) (queued : attempt.connecting = .queued error) :
    let result := ConnectAttempt.connectCb { attempt with connecting := .handled error } error
    result.1.Staged ∧ result.1.resolved = attempt.resolved ∧
      result.1.awaited + result.2.isSome.toNat + attempt.Raced.toNat = attempt.awaited + result.1.Raced.toNat := by
  obtain ⟨conn, resolved, op, timer⟩ := attempt
  subst queued
  by_cases aborted : error = some .operationAborted
  · subst aborted
    cases staged with
    | connected live => exact absurd rfl live
    | both live => exact absurd rfl live
    | late live => exact absurd rfl live
    | timedOut => exact ⟨.aborted, rfl, by simp [awaited, Raced, waiting, live, AsyncOp.result?, ConnectAttempt.connectCb]⟩
  · obtain ⟨calledEq, connectingEq, timerEq, resolvedEq⟩ :=
      @connectCb_live E ⟨conn, resolved, .handled error, timer⟩ error aborted (AsyncOp.handled_ne_pending _)
    generalize ConnectAttempt.connectCb ⟨conn, resolved, .handled error, timer⟩ error = result at *
    dsimp only at connectingEq timerEq resolvedEq
    refine ⟨?_, resolvedEq, ?_⟩
    · rw [Staged, connectingEq, timerEq]
      cases staged with
      | connected live => exact .told live
      | both live => exact .first live
      | late live => exact .twice live
      | timedOut => exact absurd rfl aborted
    · rw [calledEq]
      cases staged with
      | connected live => simp [awaited, Raced, waiting, ConnectAttempt.live, AsyncOp.result?, live, connectingEq, timerEq]
      | both live => simp [awaited, Raced, waiting, ConnectAttempt.live, AsyncOp.result?, live, connectingEq, timerEq]
      | late live => simp [awaited, Raced, waiting, ConnectAttempt.live, AsyncOp.result?, live, connectingEq, timerEq]
      | timedOut => exact absurd rfl aborted

/-- The handler of the timer calls back as often as it was awaited to. -/
theorem Staged.timeoutCb (staged : attempt.Staged) (queued : attempt.timer = .queued error) :
    let result := ConnectAttempt.timeoutCb { attempt with timer := .handled error } error
    result.1.Staged ∧ result.1.resolved = attempt.resolved ∧
      result.1.awaited + result.2.isSome.toNat + attempt.Raced.toNat = attempt.awaited + result.1.Raced.toNat := by
  obtain ⟨conn, resolved, connecting, op⟩ := attempt
  subst queued
  cases staged with
  | expired remote =>
      exact ⟨.timedOut, rfl, by simp [awaited, Raced, waiting, live, AsyncOp.result?, close, ConnectAttempt.timeoutCb]⟩
  | told live =>
      refine ⟨.settled live, rfl, ?_⟩
      simp [awaited, Raced, waiting, ConnectAttempt.live, AsyncOp.result?, live, ConnectAttempt.timeoutCb]
  | both live =>
      obtain ⟨connectingEq, timerEq, resolvedEq⟩ :=
        @close_of_completed E ⟨conn, resolved, .queued _, .handled none⟩ (AsyncOp.queued_ne_pending _)
      refine ⟨?_, resolvedEq, ?_⟩
      · exact (congrArg₂ (Stage _) connectingEq timerEq).mpr (.late live)
      · simp [awaited, Raced, waiting, ConnectAttempt.live, AsyncOp.result?, live, connectingEq, timerEq,
          ConnectAttempt.timeoutCb]
  | first live =>
      obtain ⟨connectingEq, timerEq, resolvedEq⟩ :=
        @close_of_completed E ⟨conn, resolved, .handled _, .handled none⟩ (AsyncOp.handled_ne_pending _)
      refine ⟨?_, resolvedEq, ?_⟩
      · exact (congrArg₂ (Stage _) connectingEq timerEq).mpr (.twice live)
      · simp [awaited, Raced, waiting, ConnectAttempt.live, AsyncOp.result?, live, connectingEq, timerEq,
          ConnectAttempt.timeoutCb]

end Steps

end ConnectAttempt

namespace ConnectionManager

variable {manager next : ConnectionManager E}

/-- The resolution goes on until its handler has run. -/
def resolutions : AsyncOp (Option ConnectError × List E) → ℕ
  | .pending => 1
  | .queued _ => 1
  | _ => 0

/-- These are the calls of the callback, made and still to come. -/
def total (manager : ConnectionManager E) : ℕ :=
  manager.calls.length + manager.tasks.length + resolutions manager.resolving +
    (manager.attempts.map ConnectAttempt.awaited).sum

def races (manager : ConnectionManager E) : ℕ := (manager.attempts.map fun attempt => attempt.Raced.toNat).sum

/-- The stages are kept, and each race adds one call. -/
structure Counted (manager : ConnectionManager E) : Prop where
  staged : ∀ attempt ∈ manager.attempts, attempt.Staged
  total : manager.total = 1 + manager.races

/-- The next steps of a request are worth one call. -/
structure Adds (manager next : ConnectionManager E) : Prop where
  staged : (∀ attempt ∈ manager.attempts, attempt.Staged) → ∀ attempt ∈ next.attempts, attempt.Staged
  total : next.total = manager.total + 1
  races : next.races = manager.races

theorem adds_post (manager : ConnectionManager E) (task : ConnectTask E) : Adds manager (manager.post task) where
  staged := id
  total := by simp only [ConnectionManager.total, post, List.length_append, List.length_singleton]; omega
  races := rfl

theorem adds_call (manager : ConnectionManager E) (conn : Option ℕ) (error : Option ConnectError) :
    Adds manager (manager.call conn error) where
  staged := id
  total := by simp only [ConnectionManager.total, call, List.length_append, List.length_singleton]; omega
  races := rfl

theorem adds_createConnection (manager : ConnectionManager E) (resolved : List E) :
    Adds manager (manager.createConnection layer resolved) := by
  cases resolved with
  | nil => exact adds_post manager _
  | cons remote resolved =>
      by_cases usable : OutgoingConnection.Usable layer remote
      · rw [createConnection_usable usable]
        constructor
        · intro staged attempt member
          rcases List.mem_append.mp member with old | new
          · exact staged attempt old
          · rw [List.mem_singleton.mp new]
            exact .running remote
        · simp only [total, begin, List.map_append, List.sum_append]
          rfl
        · simp only [ConnectionManager.races, begin, List.map_append, List.sum_append]
          rfl
      · rw [createConnection_unusable usable]
        exact adds_post manager _

theorem adds_createConnectionCb (manager : ConnectionManager E) (resolved : List E) (conn : ℕ)
    (error : Option ConnectError) : Adds manager (manager.createConnectionCb layer resolved conn error) := by
  rw [createConnectionCb]
  split_ifs
  · exact adds_call manager _ _
  · exact adds_createConnection manager resolved

theorem adds_domainResolved (manager : ConnectionManager E) (error : Option ConnectError) (resolved : List E) :
    Adds manager (manager.domainResolved layer error resolved) := by
  rw [domainResolved]
  split_ifs
  · exact adds_createConnection manager resolved
  · exact adds_call manager _ _

theorem adds_runTask (manager : ConnectionManager E) (task : ConnectTask E) :
    Adds manager (manager.runTask layer task) := by
  cases task with
  | createConnection resolved => exact adds_createConnection manager resolved
  | createConnectionCb resolved conn error => exact adds_createConnectionCb manager resolved conn error
  | cb conn error => exact adds_call manager conn error

/-- An attempt is exchanged for one that is worth as much. -/
theorem Counted.exchange (counted : manager.Counted) {number : ℕ} {attempt changed : ConnectAttempt E}
    (read : manager.attempts[number]? = some attempt) (staged : changed.Staged) {calls : ℕ}
    (worth : changed.awaited + calls + attempt.Raced.toNat = attempt.awaited + changed.Raced.toNat) :
    (∀ attempt ∈ manager.attempts.set number changed, attempt.Staged) ∧
      { manager with attempts := manager.attempts.set number changed }.total + calls =
        1 + { manager with attempts := manager.attempts.set number changed }.races := by
  have awaited := List.sum_map_set ConnectAttempt.awaited read changed
  have raced := List.sum_map_set (fun attempt => attempt.Raced.toNat) read changed
  have total := counted.total
  constructor
  · intro attempt member
    rcases List.mem_or_eq_of_mem_set member with old | rfl
    · exact counted.staged attempt old
    · exact staged
  · simp only [ConnectionManager.total, races] at total ⊢
    omega

theorem Counted.handled (counted : manager.Counted) {number : ℕ} {attempt changed : ConnectAttempt E}
    {called : Option (Option ConnectError)} (read : manager.attempts[number]? = some attempt) (staged : changed.Staged)
    (worth : changed.awaited + called.isSome.toNat + attempt.Raced.toNat = attempt.awaited + changed.Raced.toNat) :
    (manager.handled layer number changed called).Counted := by
  obtain ⟨stages, total⟩ := counted.exchange read staged worth
  cases called with
  | none => exact ⟨stages, total⟩
  | some error =>
      have adds := @adds_createConnectionCb E layer { manager with attempts := manager.attempts.set number changed }
        changed.resolved number error
      refine ⟨adds.staged stages, ?_⟩
      have more := adds.total
      have same := adds.races
      rw [Option.isSome_some, Bool.toNat_true] at total
      rw [ConnectionManager.handled]
      omega

/-- Every step keeps the number of calls. -/
theorem Counted.step (counted : manager.Counted) {event : ConnectEvent E}
    (stepped : step layer manager event = some next) : next.Counted := by
  have total := counted.total
  rw [ConnectionManager.total] at total
  cases event with
  | resolves error resolved =>
      obtain ⟨pending, rfl⟩ := step_resolves.mp stepped
      rw [pending] at total
      exact ⟨counted.staged, total⟩
  | connects number error =>
      obtain ⟨live, attempt, read, pending, rfl⟩ := step_connects.mp stepped
      obtain ⟨staged, worth⟩ := (counted.staged attempt (List.mem_of_getElem? read)).connects pending live
      exact @Counted.handled E layer manager counted number attempt _ none read staged worth
  | expires number =>
      obtain ⟨attempt, read, pending, rfl⟩ := step_expires.mp stepped
      obtain ⟨staged, worth⟩ := (counted.staged attempt (List.mem_of_getElem? read)).expires pending
      exact @Counted.handled E layer manager counted number attempt _ none read staged worth
  | domainResolved =>
      obtain ⟨error, resolved, queued, rfl⟩ := step_domainResolved.mp stepped
      rw [queued] at total
      have adds := @adds_domainResolved E layer { manager with resolving := .handled (error, resolved) } error resolved
      refine ⟨adds.staged counted.staged, ?_⟩
      rw [adds.total, adds.races, ConnectionManager.total]
      rw [show resolutions (.queued (error, resolved)) = 1 from rfl] at total
      rw [show resolutions (.handled (error, resolved)) = 0 from rfl]
      exact (Nat.add_right_comm _ _ _).trans total
  | connectCb number =>
      obtain ⟨attempt, error, read, queued, rfl⟩ := step_connectCb.mp stepped
      obtain ⟨staged, -, worth⟩ := (counted.staged attempt (List.mem_of_getElem? read)).connectCb queued
      exact counted.handled read staged worth
  | timeoutCb number =>
      obtain ⟨attempt, error, read, queued, rfl⟩ := step_timeoutCb.mp stepped
      obtain ⟨staged, -, worth⟩ := (counted.staged attempt (List.mem_of_getElem? read)).timeoutCb queued
      exact counted.handled read staged worth
  | runTask number =>
      obtain ⟨task, read, rfl⟩ := step_runTask.mp stepped
      have adds := @adds_runTask E layer { manager with tasks := manager.tasks.eraseIdx number } task
      refine ⟨adds.staged counted.staged, ?_⟩
      have one := List.length_eraseIdx_add_one (List.getElem?_eq_some_iff.mp read).1
      rw [adds.total, adds.races, ConnectionManager.total]
      rw [← one] at total
      dsimp only [races] at total ⊢
      omega

theorem counted_start (address : Option E) : (start layer address).Counted := by
  cases address with
  | none => exact ⟨fun _ member => absurd member List.not_mem_nil, rfl⟩
  | some remote =>
      have adds := @adds_createConnection E layer ⟨.idle, [], [], []⟩ [remote]
      refine ⟨adds.staged fun _ member => absurd member List.not_mem_nil, ?_⟩
      rw [start, adds.total, adds.races]
      rfl

/-- The operation has no handler left that could run. -/
def Quiet {R : Type} (op : AsyncOp R) : Prop := op ≠ .pending ∧ ∀ result, op ≠ .queued result

theorem quiet_handled {R : Type} (result : R) : Quiet (.handled result) := by
  simp [Quiet]

/-- No handler and no task is left. -/
structure Settled (manager : ConnectionManager E) : Prop where
  tasks : manager.tasks = []
  resolving : Quiet manager.resolving
  attempts : ∀ attempt ∈ manager.attempts, Quiet attempt.connecting ∧ Quiet attempt.timer

/-- A state without any possible event is settled. -/
theorem settled_of_stuck (stuck : ∀ event, step layer manager event = none) : manager.Settled := by
  have impossible {event : ConnectEvent E} {after : ConnectionManager E}
      (possible : step layer manager event = some after) : False := by
    rw [stuck] at possible
    cases possible
  constructor
  · cases kind : manager.tasks with
    | nil => rfl
    | cons task tasks =>
        have read : manager.tasks[0]? = some task := by rw [kind]; rfl
        exact (impossible (step_runTask.mpr ⟨task, read, rfl⟩)).elim
  · constructor
    · intro pending
      exact impossible ((@step_resolves E layer manager _ [] none).mpr ⟨pending, rfl⟩)
    · intro result queued
      exact impossible (step_domainResolved.mpr ⟨result.1, result.2, queued, rfl⟩)
  · intro attempt member
    obtain ⟨number, read⟩ := List.mem_iff_getElem?.mp member
    refine ⟨⟨?_, ?_⟩, ?_, ?_⟩
    · intro pending
      exact impossible ((@step_connects E layer manager _ number none).mpr ⟨by decide, attempt, read, pending, rfl⟩)
    · intro error queued
      exact impossible (step_connectCb.mpr ⟨attempt, error, read, queued, rfl⟩)
    · intro pending
      exact impossible (step_expires.mpr ⟨attempt, read, pending, rfl⟩)
    · intro error queued
      exact impossible (step_timeoutCb.mpr ⟨attempt, error, read, queued, rfl⟩)

/-- A settled state waits for nothing. -/
theorem Settled.stuck (settled : manager.Settled) (event : ConnectEvent E) : step layer manager event = none := by
  have attempt {number : ℕ} {attempt : ConnectAttempt E} (read : manager.attempts[number]? = some attempt) :=
    settled.attempts attempt (List.mem_of_getElem? read)
  rw [Option.eq_none_iff_forall_ne_some]
  intro after stepped
  cases event with
  | resolves error resolved => exact settled.resolving.1 (step_resolves.mp stepped).1
  | connects number error =>
      obtain ⟨-, _, read, pending, -⟩ := step_connects.mp stepped
      exact (attempt read).1.1 pending
  | expires number =>
      obtain ⟨_, read, pending, -⟩ := step_expires.mp stepped
      exact (attempt read).2.1 pending
  | domainResolved =>
      obtain ⟨_, _, queued, -⟩ := step_domainResolved.mp stepped
      exact settled.resolving.2 _ queued
  | connectCb number =>
      obtain ⟨_, _, read, queued, -⟩ := step_connectCb.mp stepped
      exact (attempt read).1.2 _ queued
  | timeoutCb number =>
      obtain ⟨_, _, read, queued, -⟩ := step_timeoutCb.mp stepped
      exact (attempt read).2.2 _ queued
  | runTask number =>
      obtain ⟨_, read, -⟩ := step_runTask.mp stepped
      rw [settled.tasks] at read
      cases read

/-- Nothing is awaited any more in a settled state. -/
theorem Counted.calls_of_settled (counted : manager.Counted) (settled : manager.Settled) :
    manager.calls.length = 1 + (manager.attempts.filter ConnectAttempt.Raced).length := by
  have quiet (op : AsyncOp (Option ConnectError)) (quiet : Quiet op) : ConnectAttempt.waiting op = 0 := by
    cases op with
    | queued error => exact absurd rfl (quiet.2 error)
    | _ => rfl
  have resolving : resolutions manager.resolving = 0 := by
    cases kind : manager.resolving with
    | pending => exact absurd kind settled.resolving.1
    | queued result => exact absurd kind (settled.resolving.2 result)
    | _ => rfl
  have awaited : (manager.attempts.map ConnectAttempt.awaited).sum = 0 := by
    apply List.sum_eq_zero
    intro number member
    obtain ⟨attempt, listed, rfl⟩ := List.mem_map.mp member
    obtain ⟨connecting, timer⟩ := settled.attempts attempt listed
    rw [ConnectAttempt.awaited, if_neg fun both => connecting.1 both.1, quiet _ connecting, quiet _ timer, add_zero]
  have total := counted.total
  rw [ConnectionManager.total, settled.tasks, resolving, awaited, races, List.sum_map_toNat] at total
  exact total

section Work

/-- An attempt takes four events, and each of its handlers may go on with the rest. -/
def eventBound : ℕ → ℕ
  | 0 => 1
  | n + 1 => 4 + 2 * eventBound n

def opWork (resolved : List E) : AsyncOp (Option ConnectError) → ℕ
  | .pending => 2 + eventBound resolved.length
  | .queued _ => 1 + eventBound resolved.length
  | _ => 0

def attemptWork (attempt : ConnectAttempt E) : ℕ :=
  opWork attempt.resolved attempt.connecting + opWork attempt.resolved attempt.timer

def taskWork : ConnectTask E → ℕ
  | .createConnection resolved => 1 + eventBound resolved.length
  | .createConnectionCb resolved _ _ => 1 + eventBound resolved.length
  | .cb _ _ => 1

def resolutionWork : AsyncOp (Option ConnectError × List E) → ℕ
  | .queued result => 1 + eventBound result.2.length
  | _ => 0

/-- The events that can still follow are bounded once the name is resolved. -/
def work (manager : ConnectionManager E) : ℕ :=
  (manager.attempts.map attemptWork).sum + (manager.tasks.map taskWork).sum + resolutionWork manager.resolving

/-- The name is resolved by two events, and a valid address begins with its attempt. -/
def limit (manager : ConnectionManager E) : ℕ :=
  match manager.resolving with
  | .idle => eventBound 1
  | .pending => 0
  | .queued result => 2 + eventBound result.2.length
  | .handled result => 2 + eventBound result.2.length

theorem work_createConnection (manager : ConnectionManager E) (resolved : List E) :
    (manager.createConnection layer resolved).work ≤ manager.work + eventBound resolved.length := by
  cases resolved with
  | nil =>
      simp only [createConnection, work, post, List.map_append, List.sum_append, List.map_singleton, List.sum_singleton,
        taskWork, List.length_nil, eventBound]
      omega
  | cons remote resolved =>
      by_cases usable : OutgoingConnection.Usable layer remote
      · rw [createConnection_usable usable]
        simp only [work, begin, List.map_append, List.sum_append, List.map_singleton, List.sum_singleton, attemptWork,
          opWork, List.length_cons, eventBound]
        omega
      · rw [createConnection_unusable usable]
        simp only [work, post, List.map_append, List.sum_append, List.map_singleton, List.sum_singleton, taskWork,
          List.length_cons, eventBound]
        omega

theorem work_createConnectionCb (manager : ConnectionManager E) (resolved : List E) (conn : ℕ)
    (error : Option ConnectError) :
    (manager.createConnectionCb layer resolved conn error).work ≤ manager.work + eventBound resolved.length := by
  rw [createConnectionCb]
  split_ifs
  · exact Nat.le_add_right _ _
  · exact work_createConnection manager resolved

theorem resolving_createConnection (manager : ConnectionManager E) (resolved : List E) :
    (manager.createConnection layer resolved).resolving = manager.resolving := by
  cases resolved with
  | nil => rfl
  | cons remote resolved =>
      by_cases usable : OutgoingConnection.Usable layer remote
      · rw [createConnection_usable usable]
        rfl
      · rw [createConnection_unusable usable]
        rfl

theorem resolving_createConnectionCb (manager : ConnectionManager E) (resolved : List E) (conn : ℕ)
    (error : Option ConnectError) :
    (manager.createConnectionCb layer resolved conn error).resolving = manager.resolving := by
  rw [createConnectionCb]
  split_ifs
  · rfl
  · exact resolving_createConnection manager resolved

theorem resolving_handled (manager : ConnectionManager E) (number : ℕ) (changed : ConnectAttempt E)
    (called : Option (Option ConnectError)) :
    (manager.handled layer number changed called).resolving = manager.resolving := by
  cases called with
  | none => rfl
  | some error => exact resolving_createConnectionCb _ _ _ _

/-- A handler or an arrival frees more work than it makes. -/
theorem work_handled {number : ℕ} {attempt changed : ConnectAttempt E} (read : manager.attempts[number]? = some attempt)
    (same : changed.resolved = attempt.resolved) (called : Option (Option ConnectError))
    (less : attemptWork changed + called.isSome.toNat * eventBound attempt.resolved.length + 1 ≤ attemptWork attempt) :
    (manager.handled layer number changed called).work + 1 ≤ manager.work := by
  have exchanged := List.sum_map_set attemptWork read changed
  cases called with
  | none =>
      simp only [handled, work, Option.isSome_none, Bool.toNat_false] at less ⊢
      omega
  | some error =>
      have more := @work_createConnectionCb E layer { manager with attempts := manager.attempts.set number changed }
        changed.resolved number error
      rw [same] at more
      simp only [handled, work, Option.isSome_some, Bool.toNat_true] at less more ⊢
      rw [same]
      omega

theorem opWork_cancel_le (resolved : List E) (op : AsyncOp (Option ConnectError)) :
    opWork resolved (op.cancel (some .operationAborted)) ≤ opWork resolved op := by
  cases op with
  | pending => simp only [AsyncOp.cancel, opWork]; omega
  | _ => exact le_rfl

theorem attemptWork_close (attempt : ConnectAttempt E) :
    attemptWork attempt.close ≤ attemptWork attempt ∧ attempt.close.resolved = attempt.resolved := by
  have less := opWork_cancel_le attempt.resolved attempt.connecting
  unfold ConnectAttempt.close
  split_ifs
  · exact ⟨le_rfl, rfl⟩
  · exact ⟨Nat.add_le_add_right less _, rfl⟩
  · exact ⟨le_rfl, rfl⟩

theorem attemptWork_connectCb (attempt : ConnectAttempt E) (error : Option ConnectError) :
    attemptWork (attempt.connectCb error).1 ≤ attemptWork attempt ∧
      (attempt.connectCb error).1.resolved = attempt.resolved := by
  have less := opWork_cancel_le attempt.resolved attempt.timer
  unfold ConnectAttempt.connectCb
  split_ifs
  · exact ⟨le_rfl, rfl⟩
  · obtain ⟨closed, same⟩ := attemptWork_close { attempt with timer := attempt.timer.cancel (some .operationAborted) }
    exact ⟨closed.trans (Nat.add_le_add_left less _), same⟩
  · exact ⟨Nat.add_le_add_left less _, rfl⟩

theorem attemptWork_timeoutCb (attempt : ConnectAttempt E) (error : Option ConnectError) :
    attemptWork (attempt.timeoutCb error).1 ≤ attemptWork attempt ∧
      (attempt.timeoutCb error).1.resolved = attempt.resolved := by
  unfold ConnectAttempt.timeoutCb
  split_ifs
  · exact ⟨le_rfl, rfl⟩
  · exact attemptWork_close attempt

theorem toNat_mul_le (called : Bool) (bound : ℕ) : called.toNat * bound ≤ bound := by
  cases called <;> simp

/-- Each event of a run uses a part of the work that is left. -/
theorem spent_step {spent : ℕ} (before : spent + manager.work ≤ manager.limit) {event : ConnectEvent E}
    (stepped : step layer manager event = some next) : spent + 1 + next.work ≤ next.limit := by
  have finish (less : next.work + 1 ≤ manager.work) (same : next.resolving = manager.resolving) :
      spent + 1 + next.work ≤ next.limit := by
    rw [limit, same, ← limit]
    omega
  cases event with
  | resolves error resolved =>
      obtain ⟨pending, rfl⟩ := step_resolves.mp stepped
      simp only [limit, pending, work, resolutionWork] at before ⊢
      omega
  | connects number error =>
      obtain ⟨live, attempt, read, pending, rfl⟩ := step_connects.mp stepped
      have less := @work_handled E layer manager number attempt
        { attempt with connecting := .queued error } read rfl none (by
          simp only [attemptWork, opWork, pending, Option.isSome_none, Bool.toNat_false]
          omega)
      exact finish less rfl
  | expires number =>
      obtain ⟨attempt, read, pending, rfl⟩ := step_expires.mp stepped
      have less := @work_handled E layer manager number attempt
        { attempt with timer := .queued none } read rfl none (by
          simp only [attemptWork, opWork, pending, Option.isSome_none, Bool.toNat_false]
          omega)
      exact finish less rfl
  | domainResolved =>
      obtain ⟨error, resolved, queued, rfl⟩ := step_domainResolved.mp stepped
      have more := @work_createConnection E layer { manager with resolving := .handled (error, resolved) } resolved
      rw [domainResolved]
      split_ifs
      · rw [limit, resolving_createConnection]
        simp only [limit, queued, work, resolutionWork] at before more ⊢
        omega
      · simp only [limit, queued, work, resolutionWork, call] at before ⊢
        omega
  | connectCb number =>
      obtain ⟨attempt, error, read, queued, rfl⟩ := step_connectCb.mp stepped
      obtain ⟨kept, same⟩ := attemptWork_connectCb { attempt with connecting := .handled error } error
      generalize ConnectAttempt.connectCb { attempt with connecting := .handled error } error = result at kept same finish ⊢
      have freed : attemptWork { attempt with connecting := .handled error } + (1 + eventBound attempt.resolved.length) =
          attemptWork attempt := by
        simp only [attemptWork, opWork, queued]
        omega
      have once := toNat_mul_le result.2.isSome (eventBound attempt.resolved.length)
      have less := @work_handled E layer manager number attempt result.1 read same result.2 (by omega)
      exact finish less (resolving_handled _ _ _ _)
  | timeoutCb number =>
      obtain ⟨attempt, error, read, queued, rfl⟩ := step_timeoutCb.mp stepped
      obtain ⟨kept, same⟩ := attemptWork_timeoutCb { attempt with timer := .handled error } error
      generalize ConnectAttempt.timeoutCb { attempt with timer := .handled error } error = result at kept same finish ⊢
      have freed : attemptWork { attempt with timer := .handled error } + (1 + eventBound attempt.resolved.length) =
          attemptWork attempt := by
        simp only [attemptWork, opWork, queued]
        omega
      have once := toNat_mul_le result.2.isSome (eventBound attempt.resolved.length)
      have less := @work_handled E layer manager number attempt result.1 read same result.2 (by omega)
      exact finish less (resolving_handled _ _ _ _)
  | runTask number =>
      obtain ⟨task, read, rfl⟩ := step_runTask.mp stepped
      have freed := List.sum_map_eraseIdx taskWork read
      apply finish
      · cases task with
        | createConnection resolved =>
            have more := @work_createConnection E layer { manager with tasks := manager.tasks.eraseIdx number } resolved
            simp only [taskWork, work, runTask] at freed more ⊢
            omega
        | createConnectionCb resolved conn error =>
            have more := @work_createConnectionCb E layer { manager with tasks := manager.tasks.eraseIdx number }
              resolved conn error
            simp only [taskWork, work, runTask] at freed more ⊢
            omega
        | cb conn error =>
            simp only [taskWork, work, runTask, call] at freed ⊢
            omega
      · cases task with
        | createConnection resolved => exact resolving_createConnection _ _
        | createConnectionCb resolved conn error => exact resolving_createConnectionCb _ _ _ _
        | cb conn error => rfl

/-- A run is no longer than the limit of its last state. -/
theorem length_run {spent : ℕ} (before : spent + manager.work ≤ manager.limit) (address : Option E)
    {events : List (ConnectEvent E)} (ran : (system layer address).runFrom manager events = some next) :
    spent + events.length + next.work ≤ next.limit := by
  induction events generalizing manager spent with
  | nil =>
      obtain rfl := Option.some.inj ran
      exact before
  | cons event events ih =>
      rw [EventSystem.runFrom_cons, Option.bind_eq_some_iff] at ran
      obtain ⟨middle, stepped, rest⟩ := ran
      have later := ih (spent_step before stepped) rest
      rw [List.length_cons]
      omega

theorem spent_start (address : Option E) : (start layer address).work ≤ (start layer address).limit := by
  cases address with
  | none => exact le_rfl
  | some remote =>
      have more := @work_createConnection E layer ⟨.idle, [], [], []⟩ [remote]
      rw [start, limit, resolving_createConnection]
      exact more

end Work

/-- Every request ends, and its callback is called once and then once more for each race between a connect operation and
its timer. -/
theorem connect_calls (layer : SocketLayer E) (address : Option E) {events : List (ConnectEvent E)}
    (ran : (system layer address).runFrom (start layer address) events = some manager) :
    events.length ≤ manager.limit ∧ ((∀ event, step layer manager event = none) →
      manager.calls.length = 1 + (manager.attempts.filter ConnectAttempt.Raced).length) := by
  have counted := EventSystem.runFrom_invariant Counted (fun _ _ _ counted stepped => counted.step stepped)
    (counted_start address) ran
  have bound := @length_run E layer _ _ 0 ((Nat.zero_add _).trans_le (spent_start address)) address _ ran
  exact ⟨by omega, fun stuck => counted.calls_of_settled (settled_of_stuck stuck)⟩

/-- The operating system makes every socket. -/
def anySocket : SocketLayer ℕ := ⟨fun _ => true, fun _ => true, fun _ => none⟩

/-- The time expires before the handler of the first connection has run. -/
def lateExpiry : List (ConnectEvent ℕ) :=
  [.resolves none [4, 6], .domainResolved, .connects 0 none, .expires 0, .connectCb 0, .timeoutCb 0, .connects 1 none,
    .connectCb 1, .timeoutCb 1]

/-- The first connection was handed over and closed afterwards. -/
def afterLateExpiry : ConnectionManager ℕ where
  resolving := .handled (none, [4, 6])
  attempts := [⟨⟨4, false, true, true, true⟩, [6], .handled none, .handled none⟩,
    ⟨⟨6, true, true, true, false⟩, [], .handled none, .handled (some .operationAborted)⟩]
  tasks := []
  calls := [(some 0, none), (some 1, none)]

theorem connect_calls_lateExpiry :
    (system anySocket none).runFrom (start anySocket none) lateExpiry = some afterLateExpiry ∧
      lateExpiry.length ≤ afterLateExpiry.limit ∧
      afterLateExpiry.calls.length = 1 + (afterLateExpiry.attempts.filter ConnectAttempt.Raced).length := by
  have ran : (system anySocket none).runFrom (start anySocket none) lateExpiry = some afterLateExpiry := rfl
  have settled : afterLateExpiry.Settled := by
    refine ⟨rfl, quiet_handled _, ?_⟩
    simp only [afterLateExpiry, List.forall_mem_cons]
    exact ⟨⟨quiet_handled _, quiet_handled _⟩, ⟨quiet_handled _, quiet_handled _⟩, fun _ member =>
      absurd member List.not_mem_nil⟩
  obtain ⟨bound, counted⟩ := connect_calls anySocket none ran
  exact ⟨ran, bound, counted settled.stuck⟩

end ConnectionManager

end JetStream
