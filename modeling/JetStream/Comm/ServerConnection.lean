import JetStream.Comm.ClientConnection
import Mathlib.Data.List.Nodup

namespace JetStream

variable {E : Type}

/-- An accept operation fails, or it gives a socket whose remote endpoint is asked for. -/
abbrev AcceptResult (E : Type) := Except ConnectError (Except ConnectError E)

/-- These are the errors of `accept`. -/
inductive AcceptRefusal where
  | addressFamilyNotSupported
  | alreadyStarted
  deriving DecidableEq

/-- A callback is named by a number, the posted calls of `do_accept` are counted, and all accept operations and calls are
kept. -/
structure ServerConnection (E : Type) where
  accepting : Bool
  isOpen : Bool
  acceptcb : Option ℕ
  clients : List E
  posted : ℕ
  accepts : List (AsyncOp (AcceptResult E))
  calls : List (ℕ × Except ConnectError E)
  terminated : Bool

/-- The owner accepts and closes, the network completes accept operations, and the strand runs its handlers. -/
inductive ServerEvent (E : Type) where
  | accept (cb : ℕ)
  | close
  | completes (number : ℕ) (result : AcceptResult E)
  | doAccept
  | accepted (number : ℕ)

namespace ServerConnection

/-- The constructor may fail to open the acceptor. -/
def new (isOpen : Bool) : ServerConnection E := ⟨false, isOpen, none, [], 0, [], [], false⟩

def post (server : ServerConnection E) : ServerConnection E := { server with posted := server.posted + 1 }

def call (server : ServerConnection E) (cb : ℕ) (result : Except ConnectError E) : ServerConnection E :=
  { server with calls := server.calls ++ [(cb, result)] }

/-- All operations of the acceptor are cancelled. -/
def close (server : ServerConnection E) : ServerConnection E :=
  if server.isOpen then
    { server with
      accepting := false
      acceptcb := none
      isOpen := false
      accepts := server.accepts.map (·.cancel (.error .operationAborted)) }
  else { server with accepting := false, acceptcb := none }

def accept (server : ServerConnection E) (cb : ℕ) : Except AcceptRefusal (ServerConnection E) :=
  if !server.isOpen then .error .addressFamilyNotSupported
  else if server.accepting then .error .alreadyStarted
  else .ok { server with acceptcb := some cb }.post

def doAccept (server : ServerConnection E) : ServerConnection E :=
  if !server.isOpen || server.accepting then server
  else { server with accepting := true, accepts := server.accepts ++ [.pending] }

/-- An empty function object is called after an error, which throws through the service's thread. A known remote endpoint
is dropped without a word. -/
def accepted [DecidableEq E] (server : ServerConnection E) (result : AcceptResult E) : ServerConnection E :=
  let server := { server with accepting := false }
  match server.acceptcb with
  | none => server.close
  | some cb =>
      match result with
      | .error _ => { server.close with terminated := true }
      | .ok remote =>
          let server := server.post
          match remote with
          | .error error => server.call cb (.error error)
          | .ok remote =>
              if remote ∈ server.clients then server
              else { server with clients := server.clients ++ [remote] }.call cb (.ok remote)

/-- Nothing happens in a program that was terminated, and the network does not abort an operation by itself. -/
def step [DecidableEq E] (server : ServerConnection E) (event : ServerEvent E) : Option (ServerConnection E) :=
  if server.terminated then none
  else
    match event with
    | .accept cb =>
        match server.accept cb with
        | .ok next => some next
        | .error _ => some server
    | .close => some server.close
    | .completes number result =>
        if result = .error .operationAborted then none
        else do
          let op ← server.accepts[number]?
          let op ← op.complete result
          some { server with accepts := server.accepts.set number op }
    | .doAccept =>
        match server.posted with
        | 0 => none
        | posted + 1 => some (doAccept { server with posted := posted })
    | .accepted number => do
        let op ← server.accepts[number]?
        let (result, op) ← op.handle
        some (accepted { server with accepts := server.accepts.set number op } result)

def system [DecidableEq E] (isOpen : Bool) : EventSystem (ServerConnection E) (ServerEvent E) := ⟨new isOpen, step⟩

section Invariant

variable {server next : ServerConnection E} {results : List (AcceptResult E)} {current : Option (AsyncOp (AcceptResult E))}

/-- The current operation is under way while the server accepts, and a closed server may still have one to handle. -/
inductive Current : Bool → Bool → Option (AsyncOp (AcceptResult E)) → Prop
  | waiting : Current true true (some .pending)
  | arrived (result : AcceptResult E) : Current true true (some (.queued result))
  | free (isOpen : Bool) : Current false isOpen none
  | closing (result : AcceptResult E) : Current false false (some (.queued result))

/-- The remote endpoint of a call is known when the call reports no error. -/
def delivered (calls : List (ℕ × Except ConnectError E)) : List E := calls.filterMap fun call => call.2.toOption

/-- The handled operations come before the current one, and they determine the clients and the calls. -/
structure Inv (server : ServerConnection E) (results : List (AcceptResult E))
    (current : Option (AsyncOp (AcceptResult E))) : Prop where
  accepts : server.accepts = results.map .handled ++ current.toList
  current : Current server.accepting server.isOpen current
  callback : server.isOpen → (server.acceptcb.isSome ↔ server.accepting ∨ 0 < server.posted)
  closed : server.isOpen = false → server.acceptcb = none
  begun : server.isOpen → results ≠ [] → server.acceptcb.isSome
  once : server.clients.Nodup ∧ delivered server.calls = server.clients
  sound : ∀ remote ∈ server.clients, Except.ok (.ok remote) ∈ results
  complete : server.isOpen → ∀ remote, Except.ok (.ok remote) ∈ results → remote ∈ server.clients
  errors : ∀ cb error, (cb, .error error) ∈ server.calls → Except.ok (.error error) ∈ results
  failed : server.isOpen → ∀ error, Except.error error ∉ results
  terminated : server.terminated → ∃ error, Except.error error ∈ results

theorem inv_new (isOpen : Bool) : Inv (new isOpen : ServerConnection E) [] none where
  accepts := rfl
  current := .free isOpen
  callback := fun _ => by simp [new]
  closed := fun _ => rfl
  begun := fun _ nonempty => absurd rfl nonempty
  once := ⟨List.nodup_nil, rfl⟩
  sound := fun _ member => absurd member List.not_mem_nil
  complete := fun _ _ member => absurd member List.not_mem_nil
  errors := fun _ _ member => absurd member List.not_mem_nil
  failed := fun _ _ => List.not_mem_nil
  terminated := fun terminated => by cases terminated

theorem Inv.not_accepting (inv : Inv server results current) (shut : server.isOpen = false) :
    server.accepting = false := by
  have kind := inv.current
  rw [shut] at kind
  cases accepting : server.accepting with
  | false => rfl
  | true =>
      rw [accepting] at kind
      cases kind

/-- The current operation is cancelled when the server is closed. -/
theorem Inv.close (inv : Inv server results current) :
    ∃ current, Inv server.close results current ∧ server.close.isOpen = false ∧ server.close.calls = server.calls ∧
      server.close.clients = server.clients ∧ server.close.terminated = server.terminated := by
  have kind := inv.current
  unfold ServerConnection.close
  by_cases isOpen : server.isOpen = true
  · rw [if_pos isOpen]
    refine ⟨current.map (·.cancel (.error .operationAborted)), ?_, rfl, rfl, rfl, rfl⟩
    constructor
    · dsimp only
      rw [inv.accepts, AsyncOp.map_cancel]
    · rw [isOpen] at kind
      generalize server.accepting = accepting at kind
      cases kind with
      | waiting => exact .closing _
      | arrived result => exact .closing result
      | free => exact .free false
    · exact fun shut => by cases shut
    · exact fun _ => rfl
    · exact fun shut => by cases shut
    · exact inv.once
    · exact inv.sound
    · exact fun shut => by cases shut
    · exact inv.errors
    · exact fun shut => by cases shut
    · exact inv.terminated
  · have shut : server.isOpen = false := by simpa using isOpen
    have same : { server with accepting := false, acceptcb := none } = server := by
      rw [← inv.not_accepting shut, ← inv.closed shut]
    rw [if_neg isOpen, same]
    exact ⟨current, inv, shut, rfl, rfl, rfl⟩

section Handler

variable {result : AcceptResult E}

/-- The current operation is handled. -/
theorem Inv.accepts_set (inv : Inv server results (some (.queued result))) :
    server.accepts.set results.length (.handled result) =
      (results ++ [result]).map AsyncOp.handled ++ (none : Option (AsyncOp (AcceptResult E))).toList := by
  rw [inv.accepts, Option.toList_some, AsyncOp.set_current, AsyncOp.handled_append]

/-- A closed server drops what it still handles. -/
theorem Inv.dropped (inv : Inv server results (some (.queued result))) (none : server.acceptcb = none) :
    Inv (ServerConnection.close
      { server with accepts := server.accepts.set results.length (.handled result), accepting := false })
        (results ++ [result]) Option.none := by
  have shut : server.isOpen = false := by
    by_contra isOpen
    rw [Bool.not_eq_false] at isOpen
    have kind := inv.current
    have callback := inv.callback isOpen
    rw [none] at callback
    rw [isOpen] at kind
    generalize server.accepting = accepting at kind callback
    cases kind with
    | arrived result => simp at callback
  have open_ : ¬ server.isOpen = true := by simp [shut]
  rw [ServerConnection.close, if_neg open_]
  constructor
  · exact inv.accepts_set
  · exact .free _
  · exact fun isOpen => absurd isOpen open_
  · exact fun _ => rfl
  · exact fun isOpen => absurd isOpen open_
  · exact inv.once
  · exact fun remote member => List.mem_append_left _ (inv.sound remote member)
  · exact fun isOpen => absurd isOpen open_
  · exact fun cb error member => List.mem_append_left _ (inv.errors cb error member)
  · exact fun isOpen => absurd isOpen open_
  · intro terminated
    obtain ⟨error, member⟩ := inv.terminated terminated
    exact ⟨error, List.mem_append_left _ member⟩

/-- A failed accept closes the server and ends the program. -/
theorem Inv.threw (inv : Inv server results (some (.queued result))) {error : ConnectError} (failed : result = .error error)
    (isOpen : server.isOpen = true) :
    Inv { ServerConnection.close
      { server with accepts := server.accepts.set results.length (.handled result), accepting := false } with
        terminated := true } (results ++ [result]) Option.none := by
  rw [ServerConnection.close, if_pos isOpen]
  constructor
  · dsimp only
    rw [inv.accepts_set, Option.toList_none, List.append_nil, List.map_map]
    rfl
  · exact .free _
  · exact fun shut => by cases shut
  · exact fun _ => rfl
  · exact fun shut => by cases shut
  · exact inv.once
  · exact fun remote member => List.mem_append_left _ (inv.sound remote member)
  · exact fun shut => by cases shut
  · exact fun cb error member => List.mem_append_left _ (inv.errors cb error member)
  · exact fun shut => by cases shut
  · intro _
    exact ⟨error, List.mem_append_right _ (by rw [failed]; exact List.mem_singleton_self _)⟩

/-- A new socket lets the server go on, whatever is reported of it. -/
theorem Inv.reported (inv : Inv server results (some (.queued result))) {cb : ℕ} (set : server.acceptcb = some cb)
    (isOpen : server.isOpen = true) {remote : Except ConnectError E} (arrived : result = .ok remote) (clients : List E)
    (calls : List (ℕ × Except ConnectError E)) (once : clients.Nodup ∧ delivered calls = clients)
    (more : ∀ other, other ∈ clients ↔ other ∈ server.clients ∨ remote = .ok other)
    (errors : ∀ cb error, (cb, .error error) ∈ calls → (cb, .error error) ∈ server.calls ∨ remote = .error error) :
    Inv { server with
      accepts := server.accepts.set results.length (.handled result)
      accepting := false
      posted := server.posted + 1
      clients := clients
      calls := calls } (results ++ [result]) none := by
  have last {other : Except ConnectError E} (same : remote = other) : Except.ok other ∈ results ++ [result] := by
    rw [arrived, same]
    exact List.mem_append_right _ (List.mem_singleton_self _)
  constructor
  · exact inv.accepts_set
  · exact .free _
  · intro _
    dsimp only
    rw [set]
    simp
  · intro shut
    rw [isOpen] at shut
    cases shut
  · intro _ _
    dsimp only
    rw [set]
    rfl
  · exact once
  · intro other member
    rcases (more other).mp member with old | same
    · exact List.mem_append_left _ (inv.sound other old)
    · exact last same
  · intro _ other member
    rcases List.mem_append.mp member with old | new
    · exact (more other).mpr (Or.inl (inv.complete isOpen other old))
    · rw [List.mem_singleton, arrived] at new
      exact (more other).mpr (Or.inr (Except.ok.inj new).symm)
  · intro number error member
    rcases errors number error member with old | same
    · exact List.mem_append_left _ (inv.errors number error old)
    · exact last same
  · intro _ error member
    rcases List.mem_append.mp member with old | new
    · exact inv.failed isOpen error old
    · rw [List.mem_singleton, arrived] at new
      cases new
  · intro terminated
    obtain ⟨error, member⟩ := inv.terminated terminated
    exact ⟨error, List.mem_append_left _ member⟩

/-- The handler makes room for the next operation, reports the connection or its error, or ends the program. -/
theorem Inv.accepted [DecidableEq E] (inv : Inv server results (some (.queued result))) :
    Inv (ServerConnection.accepted { server with accepts := server.accepts.set results.length (.handled result) } result)
      (results ++ [result]) none := by
  unfold ServerConnection.accepted
  dsimp only
  split
  · rename_i none
    exact inv.dropped none
  · rename_i cb set
    have isOpen : server.isOpen = true := by
      by_contra shut
      rw [inv.closed (by simpa using shut)] at set
      cases set
    cases result with
    | error error => exact inv.threw rfl isOpen
    | ok remote =>
        cases remote with
        | error error =>
            refine inv.reported set isOpen rfl server.clients (server.calls ++ [(cb, .error error)]) ⟨inv.once.1, ?_⟩
              (by simp) ?_
            · rw [delivered, List.filterMap_append, ← delivered, inv.once.2]
              exact List.append_nil _
            · intro number other member
              rcases List.mem_append.mp member with old | new
              · exact Or.inl old
              · rw [(Prod.mk.inj (List.mem_singleton.mp new)).2]
                exact Or.inr rfl
        | ok remote =>
            dsimp only
            split_ifs with known
            · refine inv.reported set isOpen rfl server.clients server.calls inv.once ?_ (by simp)
              intro other
              constructor
              · exact Or.inl
              · rintro (old | same)
                · exact old
                · rwa [← Except.ok.inj same]
            · refine inv.reported set isOpen rfl (server.clients ++ [remote]) (server.calls ++ [(cb, .ok remote)])
                ⟨?_, ?_⟩ (by simp [eq_comm]) (by simp)
              · exact List.nodup_append.mpr ⟨inv.once.1, List.nodup_singleton _, fun old member new last same =>
                  known (List.mem_singleton.mp last ▸ same ▸ member)⟩
              · rw [delivered, List.filterMap_append, ← delivered, inv.once.2]
                rfl

end Handler

variable [DecidableEq E]

omit [DecidableEq E] in
/-- A new callback is waiting for an operation that was posted with it. -/
theorem Inv.accept (inv : Inv server results current) {cb : ℕ} (taken : server.accept cb = .ok next) :
    Inv next results current := by
  unfold ServerConnection.accept at taken
  split_ifs at taken with shut busy
  obtain rfl := Except.ok.inj taken
  constructor
  · exact inv.accepts
  · exact inv.current
  · exact fun _ => iff_of_true rfl (Or.inr (Nat.succ_pos _))
  · intro closed
    exact absurd (show server.isOpen = false from closed) (by simpa using shut)
  · exact fun _ _ => rfl
  · exact inv.once
  · exact inv.sound
  · exact inv.complete
  · exact inv.errors
  · exact inv.failed
  · exact inv.terminated

omit [DecidableEq E] in
/-- Only the current operation can complete, and its handler is queued. -/
theorem Inv.completes (inv : Inv server results current) {number : ℕ} (read : server.accepts[number]? = some .pending)
    (result : AcceptResult E) :
    Inv { server with accepts := server.accepts.set number (.queued result) } results (some (.queued result)) := by
  obtain ⟨rfl, rfl⟩ := AsyncOp.current_of_unfinished (inv.accepts ▸ read) AsyncOp.pending_ne_handled
  have kind := inv.current
  constructor
  · dsimp only
    rw [inv.accepts, Option.toList_some, AsyncOp.set_current, Option.toList_some]
  · generalize server.accepting = accepting, server.isOpen = isOpen at kind
    cases kind with
    | waiting => exact .arrived result
  · exact inv.callback
  · exact inv.closed
  · exact inv.begun
  · exact inv.once
  · exact inv.sound
  · exact inv.complete
  · exact inv.errors
  · exact inv.failed
  · exact inv.terminated

omit [DecidableEq E] in
/-- A posted call starts an operation, unless the server is closed or already accepts. -/
theorem Inv.doAccept (inv : Inv server results current) {posted : ℕ} (count : server.posted = posted + 1) :
    ∃ current, Inv (ServerConnection.doAccept { server with posted := posted }) results current := by
  have kind := inv.current
  unfold ServerConnection.doAccept
  dsimp only
  split_ifs with idle
  · refine ⟨current, inv.accepts, inv.current, ?_, inv.closed, inv.begun, inv.once, inv.sound, inv.complete,
      inv.errors, inv.failed, inv.terminated⟩
    intro isOpen
    have busy : server.accepting = true := by simpa [show server.isOpen = true from isOpen] using idle
    have callback := inv.callback isOpen
    rw [count] at callback
    dsimp only
    rw [busy] at callback ⊢
    simpa using callback
  · have free : server.isOpen = true ∧ server.accepting = false := by simpa using idle
    rw [free.1, free.2] at kind
    cases kind with
    | free =>
        refine ⟨some .pending, ?_, ?_, ?_, inv.closed, inv.begun, inv.once, inv.sound, inv.complete,
          inv.errors, inv.failed, inv.terminated⟩
        · dsimp only
          rw [inv.accepts, Option.toList_none, List.append_nil]
          rfl
        · dsimp only
          rw [free.1]
          exact .waiting
        · intro isOpen
          have callback := inv.callback isOpen
          rw [count] at callback
          exact iff_of_true (callback.mpr (Or.inr (Nat.succ_pos _))) (Or.inl rfl)

/-- Every step keeps the invariant. -/
theorem Inv.step (inv : Inv server results current) {event : ServerEvent E} (stepped : step server event = some next) :
    ∃ results current, Inv next results current := by
  unfold ServerConnection.step at stepped
  rw [Option.ite_none_left_eq_some] at stepped
  obtain ⟨running, stepped⟩ := stepped
  cases event with
  | accept cb =>
      dsimp only at stepped
      split at stepped
      · rename_i other taken
        obtain rfl := Option.some.inj stepped
        exact ⟨results, current, inv.accept taken⟩
      · obtain rfl := Option.some.inj stepped
        exact ⟨results, current, inv⟩
  | close =>
      obtain rfl := Option.some.inj stepped
      obtain ⟨current, closed, -⟩ := inv.close
      exact ⟨results, current, closed⟩
  | completes number result =>
      simp only [Option.ite_none_left_eq_some, Option.bind_eq_bind, Option.bind_eq_some_iff] at stepped
      obtain ⟨live, op, read, completed, done, stepped⟩ := stepped
      obtain ⟨rfl, rfl⟩ := AsyncOp.complete_eq_some.mp done
      obtain rfl := Option.some.inj stepped
      exact ⟨results, _, inv.completes read result⟩
  | doAccept =>
      dsimp only at stepped
      split at stepped
      · cases stepped
      · rename_i posted count
        obtain rfl := Option.some.inj stepped
        exact ⟨results, inv.doAccept count⟩
  | accepted number =>
      simp only [Option.bind_eq_bind, Option.bind_eq_some_iff, Prod.exists] at stepped
      obtain ⟨op, read, result, handled, done, stepped⟩ := stepped
      obtain ⟨rfl, rfl⟩ := AsyncOp.handle_eq_some.mp done
      obtain rfl := Option.some.inj stepped
      obtain ⟨rfl, rfl⟩ := AsyncOp.current_of_unfinished (inv.accepts ▸ read) (AsyncOp.queued_ne_handled result)
      exact ⟨_, _, inv.accepted⟩

/-- A failed accept that is handled while the server has a callback closes the server and ends the program. -/
theorem Inv.step_failed (inv : Inv server results current) (running : server.terminated = false)
    (callback : server.acceptcb.isSome) {number : ℕ} {error : ConnectError}
    (read : server.accepts[number]? = some (.queued (.error error))) :
    ∃ next, ServerConnection.step server (.accepted number) = some next ∧ next.terminated = true ∧
      next.isOpen = false ∧ next.calls = server.calls := by
  obtain ⟨cb, set⟩ := Option.isSome_iff_exists.mp callback
  have isOpen : server.isOpen = true := by
    by_contra shut
    rw [inv.closed (by simpa using shut)] at set
    cases set
  refine ⟨ServerConnection.accepted { server with accepts := server.accepts.set number (.handled (.error error)) }
    (.error error), ?_, ?_⟩
  · simp [ServerConnection.step, running, read, AsyncOp.handle]
  · unfold ServerConnection.accepted
    dsimp only
    rw [set]
    dsimp only
    rw [ServerConnection.close, if_pos isOpen]
    exact ⟨rfl, rfl, rfl⟩

omit [DecidableEq E] in
theorem accept_of_closed (shut : server.isOpen = false) (cb : ℕ) :
    server.accept cb = .error .addressFamilyNotSupported := by
  simp [ServerConnection.accept, shut]

omit [DecidableEq E] in
theorem doAccept_of_closed (shut : server.isOpen = false) : server.doAccept = server := by simp [doAccept, shut]

omit [DecidableEq E] in
theorem close_of_closed (shut : server.isOpen = false) :
    server.close = { server with accepting := false, acceptcb := none } := by
  simp [ServerConnection.close, shut]

/-- A closed server stays closed and makes no call. -/
theorem closed_step (inv : Inv server results current) (shut : server.isOpen = false) {event : ServerEvent E}
    (stepped : step server event = some next) :
    next.isOpen = false ∧ next.calls = server.calls ∧ next.terminated = server.terminated := by
  unfold ServerConnection.step at stepped
  rw [Option.ite_none_left_eq_some] at stepped
  obtain ⟨running, stepped⟩ := stepped
  cases event with
  | accept cb =>
      dsimp only at stepped
      rw [accept_of_closed shut] at stepped
      obtain rfl := Option.some.inj stepped
      exact ⟨shut, rfl, rfl⟩
  | close =>
      obtain rfl := Option.some.inj stepped
      obtain ⟨-, -, closed, calls, -, terminated⟩ := inv.close
      exact ⟨closed, calls, terminated⟩
  | completes number result =>
      simp only [Option.ite_none_left_eq_some, Option.bind_eq_bind, Option.bind_eq_some_iff] at stepped
      obtain ⟨live, op, read, completed, done, stepped⟩ := stepped
      obtain rfl := Option.some.inj stepped
      exact ⟨shut, rfl, rfl⟩
  | doAccept =>
      dsimp only at stepped
      split at stepped
      · cases stepped
      · rename_i posted count
        obtain rfl := Option.some.inj stepped
        rw [@doAccept_of_closed _ { server with posted := posted } shut]
        exact ⟨shut, rfl, rfl⟩
  | accepted number =>
      simp only [Option.bind_eq_bind, Option.bind_eq_some_iff, Prod.exists] at stepped
      obtain ⟨op, read, result, handled, done, stepped⟩ := stepped
      obtain rfl := Option.some.inj stepped
      unfold ServerConnection.accepted
      dsimp only
      rw [inv.closed shut]
      dsimp only
      rw [close_of_closed (by exact shut)]
      exact ⟨shut, rfl, rfl⟩

theorem closed_run (inv : Inv server results current) (shut : server.isOpen = false) (isOpen : Bool)
    {events : List (ServerEvent E)} (ran : (system isOpen).runFrom server events = some next) :
    next.calls = server.calls ∧ next.terminated = server.terminated := by
  have kept := @EventSystem.runFrom_invariant _ _ (system isOpen)
    (fun state => (∃ results current, Inv state results current) ∧ state.isOpen = false ∧ state.calls = server.calls ∧
      state.terminated = server.terminated)
    (fun state event after before stepped => by
      obtain ⟨⟨results, current, inv⟩, shut, calls, terminated⟩ := before
      obtain ⟨stays, sameCalls, same⟩ := closed_step inv shut stepped
      exact ⟨inv.step stepped, stays, sameCalls.trans calls, same.trans terminated⟩) _ _ _
    ⟨⟨results, current, inv⟩, shut, rfl, rfl⟩ ran
  exact kept.2.2

end Invariant

/-- At most one accept operation is unfinished, a server with a callback always has one or is about to start it, each
remote endpoint is reported once, and an accept that fails is never reported. -/
structure Serves (server : ServerConnection E) : Prop where
  single : (server.accepts.filter AsyncOp.unfinished).length ≤ 1
  listening : server.isOpen → server.acceptcb.isSome →
    (∃ op ∈ server.accepts, op.unfinished) ∨ 0 < server.posted
  once : (delivered server.calls).Nodup
  sound : ∀ remote ∈ delivered server.calls, .handled (.ok (.ok remote)) ∈ server.accepts
  complete : server.isOpen → ∀ remote, .handled (.ok (.ok remote)) ∈ server.accepts → remote ∈ delivered server.calls
  errors : ∀ cb error, (cb, .error error) ∈ server.calls → .handled (.ok (.error error)) ∈ server.accepts
  failed : server.isOpen → ∀ error, .handled (.error error) ∉ server.accepts
  terminated : server.terminated → ∃ error, .handled (.error error) ∈ server.accepts

theorem Inv.serves {server : ServerConnection E} {results : List (AcceptResult E)}
    {current : Option (AsyncOp (AcceptResult E))} (inv : Inv server results current) : server.Serves := by
  have listed (result : AcceptResult E) : .handled result ∈ server.accepts ↔ result ∈ results := by
    have kind := inv.current
    rw [inv.accepts, List.mem_append, List.mem_map]
    constructor
    · rintro (⟨other, member, same⟩ | member)
      · rwa [← AsyncOp.handled.inj same]
      · generalize server.accepting = accepting, server.isOpen = isOpen at kind
        cases kind with
        | free => cases member
        | _ => cases List.mem_singleton.mp member
    · exact fun member => Or.inl ⟨result, member, rfl⟩
  constructor
  · rw [inv.accepts]
    exact AsyncOp.length_filter_unfinished _ _
  · intro isOpen set
    have kind := inv.current
    rcases (inv.callback isOpen).mp set with busy | posted
    · rw [busy, isOpen] at kind
      refine Or.inl ?_
      rw [inv.accepts]
      cases kind with
      | waiting => exact ⟨_, List.mem_append_right _ (List.mem_singleton_self _), rfl⟩
      | arrived result => exact ⟨_, List.mem_append_right _ (List.mem_singleton_self _), rfl⟩
    · exact Or.inr posted
  · rw [inv.once.2]
    exact inv.once.1
  · rw [inv.once.2]
    exact fun remote member => (listed _).mpr (inv.sound remote member)
  · rw [inv.once.2]
    exact fun isOpen remote member => inv.complete isOpen remote ((listed _).mp member)
  · exact fun cb error member => (listed _).mpr (inv.errors cb error member)
  · exact fun isOpen error member => inv.failed isOpen error ((listed _).mp member)
  · intro terminated
    obtain ⟨error, member⟩ := inv.terminated terminated
    exact ⟨error, (listed _).mpr member⟩

/-- The server serves in every run, a failed accept ends the program, and after the server was closed nothing is
reported and the program goes on. -/
theorem server_serves [DecidableEq E] (isOpen : Bool) {events : List (ServerEvent E)} {server : ServerConnection E}
    (ran : (system isOpen).runFrom (new isOpen) events = some server) :
    server.Serves ∧
      (∀ number error, server.terminated = false → server.acceptcb.isSome →
        server.accepts[number]? = some (.queued (.error error)) →
          ∃ next, step server (.accepted number) = some next ∧ next.terminated = true ∧ next.isOpen = false ∧
            next.calls = server.calls) ∧
      (server.isOpen = false → ∀ later final, (system isOpen).runFrom server later = some final →
        final.calls = server.calls ∧ final.terminated = server.terminated) := by
  obtain ⟨results, current, inv⟩ := @EventSystem.runFrom_invariant _ _ (system isOpen)
    (fun state => ∃ results current, Inv state results current)
    (fun _ _ _ before stepped => by
      obtain ⟨results, current, inv⟩ := before
      exact inv.step stepped) _ _ _
    ⟨[], none, inv_new isOpen⟩ ran
  exact ⟨inv.serves, fun _ _ running callback read => inv.step_failed running callback read,
    fun shut _ _ ranOn => closed_run inv shut isOpen ranOn⟩

/-- A second connection from one endpoint is dropped, and an accept fails afterwards. -/
def knownEndpoint : List (ServerEvent ℕ) :=
  [.accept 1, .doAccept, .completes 0 (.ok (.ok 7)), .accepted 0, .doAccept, .completes 1 (.ok (.ok 7)), .accepted 1,
    .doAccept, .completes 2 (.error (.network 24)), .accepted 2]

def afterKnownEndpoint : ServerConnection ℕ where
  accepting := false
  isOpen := false
  acceptcb := none
  clients := [7]
  posted := 0
  accepts := [.handled (.ok (.ok 7)), .handled (.ok (.ok 7)), .handled (.error (.network 24))]
  calls := [(1, .ok 7)]
  terminated := true

theorem server_serves_knownEndpoint :
    (system true).runFrom (new true) knownEndpoint = some afterKnownEndpoint ∧ afterKnownEndpoint.Serves := by
  have ran : (system true).runFrom (new true) knownEndpoint = some afterKnownEndpoint := rfl
  exact ⟨ran, (server_serves true ran).1⟩

end ServerConnection

end JetStream
