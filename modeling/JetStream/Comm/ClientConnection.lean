import JetStream.Lib.AsyncOperation
import JetStream.Lib.EventSystem
import Mathlib.Algebra.BigOperators.Group.List.Basic

namespace JetStream

/-- The code tells these errors apart, and the others come from the network. -/
inductive ConnectError where
  | operationAborted
  | timedOut
  | hostUnreachable
  | addressFamilyNotSupported
  | badDescriptor
  | network (value : ℕ)
  deriving DecidableEq

/-- The operating system opens sockets for the two address families and sets their options. -/
structure SocketLayer (E : Type) where
  supported : E → Bool
  opens : E → Bool
  setOption : E → Option ConnectError

/-- This is a `ClientConnection` that the manager creates. The wrapped socket exists once the connection is up, and it may
have been asked to close. -/
structure OutgoingConnection (E : Type) where
  remote : E
  connected : Bool
  isOpen : Bool
  connSock : Bool
  closing : Bool

/-- The handlers of a connect operation keep the rest of the resolved endpoints. -/
structure ConnectAttempt (E : Type) where
  conn : OutgoingConnection E
  resolved : List E
  connecting : AsyncOp (Option ConnectError)
  timer : AsyncOp (Option ConnectError)

/-- These calls are posted to the service, and a connection is named by the number of its attempt. -/
inductive ConnectTask (E : Type) where
  | createConnection (resolved : List E)
  | createConnectionCb (resolved : List E) (conn : ℕ) (error : Option ConnectError)
  | cb (conn : Option ℕ) (error : Option ConnectError)

/-- One request has its own operations, and the calls of its callback are kept. -/
structure ConnectionManager (E : Type) where
  resolving : AsyncOp (Option ConnectError × List E)
  attempts : List (ConnectAttempt E)
  tasks : List (ConnectTask E)
  calls : List (Option ℕ × Option ConnectError)

/-- The network completes operations, and the threads of the service run handlers and tasks in any order. -/
inductive ConnectEvent (E : Type) where
  | resolves (error : Option ConnectError) (resolved : List E)
  | connects (attempt : ℕ) (error : Option ConnectError)
  | expires (attempt : ℕ)
  | domainResolved
  | connectCb (attempt : ℕ)
  | timeoutCb (attempt : ℕ)
  | runTask (task : ℕ)

variable {E : Type}

namespace OutgoingConnection

/-- The result of the first step is overwritten by the second one, which fails on a socket that is not open. -/
def new (layer : SocketLayer E) (remote : E) : OutgoingConnection E × Option ConnectError :=
  let conn (isOpen : Bool) : OutgoingConnection E := ⟨remote, false, isOpen, false, false⟩
  if layer.supported remote then
    if layer.opens remote then (conn true, layer.setOption remote) else (conn false, some .badDescriptor)
  else (conn false, some .addressFamilyNotSupported)

/-- An endpoint is usable when its connection can be made. -/
def Usable (layer : SocketLayer E) (remote : E) : Prop := (new layer remote).2 = none

instance (layer : SocketLayer E) : DecidablePred (Usable layer) :=
  fun remote => inferInstanceAs (Decidable ((new layer remote).2 = none))

theorem new_of_usable {layer : SocketLayer E} {remote : E} (usable : Usable layer remote) :
    (new layer remote).1 = ⟨remote, false, true, false, false⟩ := by
  unfold Usable new at usable
  unfold new
  split_ifs at usable ⊢
  rfl

end OutgoingConnection

namespace ConnectAttempt

/-- A connection that is up closes its own socket, and otherwise the operation under way is cancelled. -/
def close (attempt : ConnectAttempt E) : ConnectAttempt E :=
  if attempt.conn.connSock then
    { attempt with conn := { attempt.conn with connected := false, closing := true } }
  else if attempt.conn.isOpen then
    { attempt with
      conn := { attempt.conn with connected := false, isOpen := false }
      connecting := attempt.connecting.cancel (some .operationAborted) }
  else { attempt with conn := { attempt.conn with connected := false } }

/-- The second part is what the callback is called with, if it is called. -/
def connectCb (attempt : ConnectAttempt E) (error : Option ConnectError) :
    ConnectAttempt E × Option (Option ConnectError) :=
  if error = some .operationAborted then (attempt, none)
  else
    let attempt := { attempt with timer := attempt.timer.cancel (some .operationAborted) }
    if error.isSome then (attempt.close, some error)
    else ({ attempt with conn := { attempt.conn with connSock := true, connected := true } }, some error)

def timeoutCb (attempt : ConnectAttempt E) (error : Option ConnectError) :
    ConnectAttempt E × Option (Option ConnectError) :=
  if error = some .operationAborted then (attempt, none) else (attempt.close, some (some .timedOut))

end ConnectAttempt

namespace ConnectionManager

variable (layer : SocketLayer E)

def post (manager : ConnectionManager E) (task : ConnectTask E) : ConnectionManager E :=
  { manager with tasks := manager.tasks ++ [task] }

def begin (manager : ConnectionManager E) (attempt : ConnectAttempt E) : ConnectionManager E :=
  { manager with attempts := manager.attempts ++ [attempt] }

def call (manager : ConnectionManager E) (conn : Option ℕ) (error : Option ConnectError) : ConnectionManager E :=
  { manager with calls := manager.calls ++ [(conn, error)] }

/-- This is `OutgoingConnection::connect` with the callback that the manager binds. -/
def connect (manager : ConnectionManager E) (conn : OutgoingConnection E) (resolved : List E) : ConnectionManager E :=
  if conn.isOpen then manager.begin ⟨conn, resolved, .pending, .pending⟩
  else (manager.begin ⟨conn, resolved, .idle, .idle⟩).post
    (.createConnectionCb resolved manager.attempts.length (some .addressFamilyNotSupported))

/-- The endpoints are tried from the first one on. -/
def createConnection (manager : ConnectionManager E) : List E → ConnectionManager E
  | [] => manager.post (.cb none (some .hostUnreachable))
  | remote :: resolved =>
      let made := OutgoingConnection.new layer remote
      if made.2 = none then manager.connect made.1 resolved else manager.post (.createConnection resolved)

def createConnectionCb (manager : ConnectionManager E) (resolved : List E) (conn : ℕ) (error : Option ConnectError) :
    ConnectionManager E :=
  if error = none then manager.call (some conn) error else manager.createConnection layer resolved

def domainResolved (manager : ConnectionManager E) (error : Option ConnectError) (resolved : List E) :
    ConnectionManager E :=
  if error = none then manager.createConnection layer resolved else manager.call none error

def runTask (manager : ConnectionManager E) : ConnectTask E → ConnectionManager E
  | .createConnection resolved => manager.createConnection layer resolved
  | .createConnectionCb resolved conn error => manager.createConnectionCb layer resolved conn error
  | .cb conn error => manager.call conn error

/-- The attempt is written back, and its callback goes on with the rest of the endpoints. -/
def handled (manager : ConnectionManager E) (number : ℕ) (attempt : ConnectAttempt E)
    (called : Option (Option ConnectError)) : ConnectionManager E :=
  let manager := { manager with attempts := manager.attempts.set number attempt }
  match called with
  | none => manager
  | some error => manager.createConnectionCb layer attempt.resolved number error

/-- The network does not abort an operation by itself. -/
def step (manager : ConnectionManager E) : ConnectEvent E → Option (ConnectionManager E)
  | .resolves error resolved => do
      let resolving ← manager.resolving.complete (error, resolved)
      some { manager with resolving := resolving }
  | .connects number error =>
      if error = some .operationAborted then none
      else do
        let attempt ← manager.attempts[number]?
        let connecting ← attempt.connecting.complete error
        some { manager with attempts := manager.attempts.set number { attempt with connecting := connecting } }
  | .expires number => do
      let attempt ← manager.attempts[number]?
      let timer ← attempt.timer.complete none
      some { manager with attempts := manager.attempts.set number { attempt with timer := timer } }
  | .domainResolved => do
      let (result, resolving) ← manager.resolving.handle
      some (domainResolved layer { manager with resolving := resolving } result.1 result.2)
  | .connectCb number => do
      let attempt ← manager.attempts[number]?
      let (error, connecting) ← attempt.connecting.handle
      let result := ConnectAttempt.connectCb { attempt with connecting := connecting } error
      some (manager.handled layer number result.1 result.2)
  | .timeoutCb number => do
      let attempt ← manager.attempts[number]?
      let (error, timer) ← attempt.timer.handle
      let result := ConnectAttempt.timeoutCb { attempt with timer := timer } error
      some (manager.handled layer number result.1 result.2)
  | .runTask number => do
      let task ← manager.tasks[number]?
      some (runTask layer { manager with tasks := manager.tasks.eraseIdx number } task)

/-- A valid address needs no resolution. -/
def start (address : Option E) : ConnectionManager E :=
  match address with
  | some remote => createConnection layer ⟨.idle, [], [], []⟩ [remote]
  | none => ⟨.pending, [], [], []⟩

def system (address : Option E) : EventSystem (ConnectionManager E) (ConnectEvent E) := ⟨start layer address, step layer⟩

section Endpoints

variable {layer : SocketLayer E} {manager next : ConnectionManager E} {remote : E} {resolved : List E} {number : ℕ}
    {error : Option ConnectError}

theorem createConnection_usable (usable : OutgoingConnection.Usable layer remote) :
    manager.createConnection layer (remote :: resolved) =
      manager.begin ⟨⟨remote, false, true, false, false⟩, resolved, .pending, .pending⟩ := by
  have made : (OutgoingConnection.new layer remote).2 = none := usable
  rw [createConnection, if_pos made, OutgoingConnection.new_of_usable usable, connect, if_pos rfl]

theorem createConnection_unusable (unusable : ¬ OutgoingConnection.Usable layer remote) :
    manager.createConnection layer (remote :: resolved) = manager.post (.createConnection resolved) := by
  have made : (OutgoingConnection.new layer remote).2 ≠ none := unusable
  rw [createConnection, if_neg made]

theorem step_resolves : step layer manager (.resolves error resolved) = some next ↔
    manager.resolving = .pending ∧ next = { manager with resolving := .queued (error, resolved) } := by
  simp only [step, Option.bind_eq_bind, Option.bind_eq_some_iff, AsyncOp.complete_eq_some, Option.some.injEq]
  constructor
  · rintro ⟨resolving, ⟨pending, rfl⟩, rfl⟩
    exact ⟨pending, rfl⟩
  · rintro ⟨pending, rfl⟩
    exact ⟨_, ⟨pending, rfl⟩, rfl⟩

theorem step_connects : step layer manager (.connects number error) = some next ↔
    error ≠ some .operationAborted ∧ ∃ attempt, manager.attempts[number]? = some attempt ∧
      attempt.connecting = .pending ∧
      next = { manager with attempts := manager.attempts.set number { attempt with connecting := .queued error } } := by
  simp only [step, Option.bind_eq_bind, Option.ite_none_left_eq_some, Option.bind_eq_some_iff,
    AsyncOp.complete_eq_some, Option.some.injEq]
  constructor
  · rintro ⟨live, attempt, read, connecting, ⟨pending, rfl⟩, rfl⟩
    exact ⟨live, attempt, read, pending, rfl⟩
  · rintro ⟨live, attempt, read, pending, rfl⟩
    exact ⟨live, attempt, read, _, ⟨pending, rfl⟩, rfl⟩

theorem step_expires : step layer manager (.expires number) = some next ↔
    ∃ attempt, manager.attempts[number]? = some attempt ∧ attempt.timer = .pending ∧
      next = { manager with attempts := manager.attempts.set number { attempt with timer := .queued none } } := by
  simp only [step, Option.bind_eq_bind, Option.bind_eq_some_iff, AsyncOp.complete_eq_some, Option.some.injEq]
  constructor
  · rintro ⟨attempt, read, timer, ⟨pending, rfl⟩, rfl⟩
    exact ⟨attempt, read, pending, rfl⟩
  · rintro ⟨attempt, read, pending, rfl⟩
    exact ⟨attempt, read, _, ⟨pending, rfl⟩, rfl⟩

theorem step_domainResolved : step layer manager .domainResolved = some next ↔
    ∃ error resolved, manager.resolving = .queued (error, resolved) ∧
      next = domainResolved layer { manager with resolving := .handled (error, resolved) } error resolved := by
  simp only [step, Option.bind_eq_bind, Option.bind_eq_some_iff, Option.some.injEq, Prod.exists]
  constructor
  · rintro ⟨error, resolved, resolving, took, rfl⟩
    obtain ⟨queued, rfl⟩ := AsyncOp.handle_eq_some.mp took
    exact ⟨error, resolved, queued, rfl⟩
  · rintro ⟨error, resolved, queued, rfl⟩
    exact ⟨error, resolved, _, AsyncOp.handle_eq_some.mpr ⟨queued, rfl⟩, rfl⟩

theorem step_connectCb : step layer manager (.connectCb number) = some next ↔
    ∃ attempt error, manager.attempts[number]? = some attempt ∧ attempt.connecting = .queued error ∧
      next = manager.handled layer number (ConnectAttempt.connectCb { attempt with connecting := .handled error } error).1
        (ConnectAttempt.connectCb { attempt with connecting := .handled error } error).2 := by
  simp only [step, Option.bind_eq_bind, Option.bind_eq_some_iff, Option.some.injEq, Prod.exists]
  constructor
  · rintro ⟨attempt, read, error, connecting, took, rfl⟩
    obtain ⟨queued, rfl⟩ := AsyncOp.handle_eq_some.mp took
    exact ⟨attempt, error, read, queued, rfl⟩
  · rintro ⟨attempt, error, read, queued, rfl⟩
    exact ⟨attempt, read, error, _, AsyncOp.handle_eq_some.mpr ⟨queued, rfl⟩, rfl⟩

theorem step_timeoutCb : step layer manager (.timeoutCb number) = some next ↔
    ∃ attempt error, manager.attempts[number]? = some attempt ∧ attempt.timer = .queued error ∧
      next = manager.handled layer number (ConnectAttempt.timeoutCb { attempt with timer := .handled error } error).1
        (ConnectAttempt.timeoutCb { attempt with timer := .handled error } error).2 := by
  simp only [step, Option.bind_eq_bind, Option.bind_eq_some_iff, Option.some.injEq, Prod.exists]
  constructor
  · rintro ⟨attempt, read, error, timer, took, rfl⟩
    obtain ⟨queued, rfl⟩ := AsyncOp.handle_eq_some.mp took
    exact ⟨attempt, error, read, queued, rfl⟩
  · rintro ⟨attempt, error, read, queued, rfl⟩
    exact ⟨attempt, read, error, _, AsyncOp.handle_eq_some.mpr ⟨queued, rfl⟩, rfl⟩

theorem step_runTask : step layer manager (.runTask number) = some next ↔
    ∃ task, manager.tasks[number]? = some task ∧
      next = runTask layer { manager with tasks := manager.tasks.eraseIdx number } task := by
  simp only [step, Option.bind_eq_bind, Option.bind_eq_some_iff, Option.some.injEq]
  exact exists_congr fun task => and_congr_right fun _ => eq_comm

end Endpoints

end ConnectionManager

end JetStream
