import JetStream.Comm.ConnectionCalls

namespace JetStream

variable {E : Type} {layer : SocketLayer E}

namespace ConnectAttempt

/-- The operation was cancelled. -/
def Cancelled (op : AsyncOp (Option ConnectError)) : Prop :=
  op = .queued (some .operationAborted) ∨ op = .handled (some .operationAborted)

/-- The attempt waits for the network, for its timer or for one handler. -/
structure Trying (attempt : ConnectAttempt E) : Prop where
  conn : attempt.conn = ⟨attempt.conn.remote, false, true, false, false⟩
  ops : attempt.connecting = .pending ∧ attempt.timer = .pending ∨
    (∃ error, error ≠ some .operationAborted ∧ attempt.connecting = .queued error) ∧ attempt.timer = .pending ∨
    attempt.connecting = .pending ∧ attempt.timer = .queued none

/-- The connection is up, and the timer was cancelled. -/
structure Up (attempt : ConnectAttempt E) : Prop where
  connected : attempt.conn.connected = true
  connecting : attempt.connecting = .handled none
  timer : Cancelled attempt.timer

/-- The attempt was refused by the network or by the timer, and the other operation was cancelled. -/
structure Failed (attempt : ConnectAttempt E) : Prop where
  connected : attempt.conn.connected = false
  ops : (∃ error, error ≠ ConnectError.operationAborted ∧ attempt.connecting = .handled (some error)) ∧
      Cancelled attempt.timer ∨
    Cancelled attempt.connecting ∧ attempt.timer = .handled none

/-- These are the steps of one attempt in which nothing completes while a handler waits, each with its call. -/
inductive PromptStep : ConnectAttempt E → ConnectAttempt E → Option (Option ConnectError) → Prop
  | connects {attempt : ConnectAttempt E} {error : Option ConnectError} (live : error ≠ some .operationAborted)
      (pending : attempt.connecting = .pending) (alone : attempt.timer = .pending) :
      PromptStep attempt { attempt with connecting := .queued error } none
  | expires {attempt : ConnectAttempt E} (pending : attempt.timer = .pending) (alone : attempt.connecting = .pending) :
      PromptStep attempt { attempt with timer := .queued none } none
  | connectCb {attempt : ConnectAttempt E} {error : Option ConnectError} (queued : attempt.connecting = .queued error) :
      PromptStep attempt (ConnectAttempt.connectCb { attempt with connecting := .handled error } error).1
        (ConnectAttempt.connectCb { attempt with connecting := .handled error } error).2
  | timeoutCb {attempt : ConnectAttempt E} {error : Option ConnectError} (queued : attempt.timer = .queued error) :
      PromptStep attempt (ConnectAttempt.timeoutCb { attempt with timer := .handled error } error).1
        (ConnectAttempt.timeoutCb { attempt with timer := .handled error } error).2

section PromptSteps

variable {attempt changed : ConnectAttempt E} {called : Option (Option ConnectError)}

theorem remote_close (attempt : ConnectAttempt E) : attempt.close.conn.remote = attempt.conn.remote := by
  unfold close
  split_ifs <;> rfl

theorem PromptStep.kept (step : PromptStep attempt changed called) :
    changed.conn.remote = attempt.conn.remote ∧ changed.resolved = attempt.resolved := by
  cases step with
  | connects live pending alone => exact ⟨rfl, rfl⟩
  | expires pending alone => exact ⟨rfl, rfl⟩
  | connectCb queued =>
      refine ⟨?_, (ConnectionManager.attemptWork_connectCb _ _).2⟩
      unfold ConnectAttempt.connectCb
      split_ifs
      · rfl
      · exact remote_close _
      · rfl
  | timeoutCb queued =>
      refine ⟨?_, (ConnectionManager.attemptWork_timeoutCb _ _).2⟩
      unfold ConnectAttempt.timeoutCb
      split_ifs
      · rfl
      · exact remote_close _

/-- A cancelled operation does nothing more. -/
theorem Cancelled.cases {op : AsyncOp (Option ConnectError)} (cancelled : Cancelled op) :
    op ≠ .pending ∧ ∀ error, op = .queued error → error = some .operationAborted := by
  rcases cancelled with rfl | rfl <;> simp [eq_comm]

theorem Failed.step (failed : attempt.Failed) (step : PromptStep attempt changed called) :
    called = none ∧ changed.Failed := by
  obtain ⟨connected, ⟨⟨refusal, live, handled⟩, cancelled⟩ | ⟨cancelled, handled⟩⟩ := failed
  · cases step with
    | connects _ pending _ => cases handled.symm.trans pending
    | expires pending _ => exact absurd pending cancelled.cases.1
    | connectCb queued => cases handled.symm.trans queued
    | timeoutCb queued =>
        obtain rfl := cancelled.cases.2 _ queued
        exact ⟨rfl, connected, Or.inl ⟨⟨refusal, live, handled⟩, Or.inr rfl⟩⟩
  · cases step with
    | connects _ pending _ => exact absurd pending cancelled.cases.1
    | expires pending _ => cases handled.symm.trans pending
    | connectCb queued =>
        obtain rfl := cancelled.cases.2 _ queued
        exact ⟨rfl, connected, Or.inr ⟨Or.inr rfl, handled⟩⟩
    | timeoutCb queued => cases handled.symm.trans queued

theorem Up.step (up : attempt.Up) (step : PromptStep attempt changed called) : called = none ∧ changed.Up := by
  cases step with
  | connects _ pending _ => cases up.connecting.symm.trans pending
  | expires pending _ => exact absurd pending up.timer.cases.1
  | connectCb queued => cases up.connecting.symm.trans queued
  | timeoutCb queued =>
      obtain rfl := up.timer.cases.2 _ queued
      exact ⟨rfl, up.connected, up.connecting, Or.inr rfl⟩

/-- An attempt goes on, succeeds or fails, and it calls back when it is decided. -/
theorem Trying.step (trying : attempt.Trying) (step : PromptStep attempt changed called) :
    called = none ∧ changed.Trying ∨ called = some none ∧ changed.Up ∨
      ∃ error, called = some (some error) ∧ changed.Failed := by
  obtain ⟨conn, resolved, connecting, timer⟩ := attempt
  obtain ⟨fresh, ops⟩ := trying
  dsimp only at fresh ops
  cases step with
  | connects live pending alone => exact Or.inl ⟨rfl, fresh, Or.inr (Or.inl ⟨⟨_, live, rfl⟩, alone⟩)⟩
  | expires pending alone => exact Or.inl ⟨rfl, fresh, Or.inr (Or.inr ⟨alone, rfl⟩)⟩
  | connectCb queued =>
      dsimp only at queued
      subst queued
      rcases ops with ⟨waits, -⟩ | ⟨⟨error, live, same⟩, rfl⟩ | ⟨waits, -⟩
      · cases waits
      · have same := (AsyncOp.queued.inj same).symm
        subst same
        unfold ConnectAttempt.connectCb
        rw [if_neg live]
        cases error with
        | none => exact Or.inr (Or.inl ⟨rfl, rfl, rfl, Or.inl rfl⟩)
        | some error =>
            rw [fresh]
            exact Or.inr (Or.inr ⟨error, rfl, rfl, Or.inl ⟨⟨error, fun same => live (congrArg some same), rfl⟩, Or.inl rfl⟩⟩)
      · cases waits
  | timeoutCb queued =>
      dsimp only at queued
      subst queued
      rcases ops with ⟨-, waits⟩ | ⟨-, waits⟩ | ⟨rfl, same⟩
      · cases waits
      · cases waits
      · obtain rfl := AsyncOp.queued.inj same
        rw [fresh]
        exact Or.inr (Or.inr ⟨.timedOut, rfl, rfl, Or.inr ⟨Or.inl rfl, rfl⟩⟩)

end PromptSteps

end ConnectAttempt

namespace ConnectionManager

variable {manager next : ConnectionManager E}

/-- No operation completes while the handler of the other operation of its attempt waits. -/
def Prompt (manager : ConnectionManager E) : ConnectEvent E → Bool
  | .connects number _ => manager.attempts[number]?.all fun attempt => attempt.timer = .pending
  | .expires number => manager.attempts[number]?.all fun attempt => attempt.connecting = .pending
  | _ => true

/-- These endpoints are tried. -/
def Known (address : Option E) (resolving : AsyncOp (Option ConnectError × List E)) (endpoints : List E) : Prop :=
  match address with
  | some remote => resolving = .idle ∧ endpoints = [remote]
  | none => resolving = .handled (none, endpoints)

/-- The usable ones among the endpoints that were taken have failed. -/
structure Tried (layer : SocketLayer E) (taken : List E) (earlier : List (ConnectAttempt E)) : Prop where
  remotes : (earlier.map fun attempt => attempt.conn.remote) = taken.filter (OutgoingConnection.Usable layer)
  failed : ∀ attempt ∈ earlier, attempt.Failed

/-- The last part of the state follows the attempts that have failed. -/
inductive Phase (layer : SocketLayer E) (earlier : List (ConnectAttempt E)) :
    List E → ConnectionManager E → Prop
  | posted (resolving : AsyncOp (Option ConnectError × List E)) (rest : List E) :
      Phase layer earlier rest ⟨resolving, earlier, [.createConnection rest], []⟩
  | unreachable (resolving : AsyncOp (Option ConnectError × List E)) :
      Phase layer earlier [] ⟨resolving, earlier, [.cb none (some .hostUnreachable)], []⟩
  | told (resolving : AsyncOp (Option ConnectError × List E)) :
      Phase layer earlier [] ⟨resolving, earlier, [], [(none, some .hostUnreachable)]⟩
  | trying (resolving : AsyncOp (Option ConnectError × List E)) {attempt : ConnectAttempt E} (trying : attempt.Trying)
      (usable : OutgoingConnection.Usable layer attempt.conn.remote) :
      Phase layer earlier (attempt.conn.remote :: attempt.resolved) ⟨resolving, earlier ++ [attempt], [], []⟩
  | up (resolving : AsyncOp (Option ConnectError × List E)) {attempt : ConnectAttempt E} (up : attempt.Up)
      (usable : OutgoingConnection.Usable layer attempt.conn.remote) :
      Phase layer earlier (attempt.conn.remote :: attempt.resolved)
        ⟨resolving, earlier ++ [attempt], [], [(some earlier.length, none)]⟩

/-- The request is resolved, has failed to be, or tries its endpoints in order. -/
inductive Progress (layer : SocketLayer E) (address : Option E) (manager : ConnectionManager E) : Prop
  | resolving (named : address = none) (waits : ¬ Quiet manager.resolving) (fresh : manager.attempts = [] ∧ manager.tasks = [])
      (calls : manager.calls = [])
  | unresolved (error : ConnectError) (resolved : List E) (failed : manager.resolving = .handled (some error, resolved))
      (fresh : manager.attempts = [] ∧ manager.tasks = []) (calls : manager.calls = [(none, some error)])
  | trying (taken rest : List E) (earlier : List (ConnectAttempt E)) (known : Known address manager.resolving (taken ++ rest))
      (tried : Tried layer taken earlier) (phase : Phase layer earlier rest manager)

section Progress

variable {address : Option E} {taken rest : List E} {earlier : List (ConnectAttempt E)} {event : ConnectEvent E}

/-- The steps of a prompt run resolve the name, run a task or change one attempt. -/
theorem prompt_cases (prompt : manager.Prompt event) (stepped : step layer manager event = some next) :
    (∃ error resolved, manager.resolving = .pending ∧
      next = { manager with resolving := .queued (error, resolved) }) ∨
    (∃ error resolved, manager.resolving = .queued (error, resolved) ∧
      next = domainResolved layer { manager with resolving := .handled (error, resolved) } error resolved) ∨
    (∃ number task, manager.tasks[number]? = some task ∧
      next = runTask layer { manager with tasks := manager.tasks.eraseIdx number } task) ∨
    ∃ number attempt changed called, manager.attempts[number]? = some attempt ∧
      ConnectAttempt.PromptStep attempt changed called ∧ next = manager.handled layer number changed called := by
  cases event with
  | resolves error resolved =>
      obtain ⟨pending, rfl⟩ := step_resolves.mp stepped
      exact Or.inl ⟨error, resolved, pending, rfl⟩
  | domainResolved =>
      obtain ⟨error, resolved, queued, rfl⟩ := step_domainResolved.mp stepped
      exact Or.inr (Or.inl ⟨error, resolved, queued, rfl⟩)
  | runTask number =>
      obtain ⟨task, read, rfl⟩ := step_runTask.mp stepped
      exact Or.inr (Or.inr (Or.inl ⟨number, task, read, rfl⟩))
  | connects number error =>
      obtain ⟨live, attempt, read, pending, rfl⟩ := step_connects.mp stepped
      rw [Prompt, read] at prompt
      exact Or.inr (Or.inr (Or.inr ⟨number, attempt, _, none, read, .connects live pending (by simpa using prompt), rfl⟩))
  | expires number =>
      obtain ⟨attempt, read, pending, rfl⟩ := step_expires.mp stepped
      rw [Prompt, read] at prompt
      exact Or.inr (Or.inr (Or.inr ⟨number, attempt, _, none, read, .expires pending (by simpa using prompt), rfl⟩))
  | connectCb number =>
      obtain ⟨attempt, error, read, queued, rfl⟩ := step_connectCb.mp stepped
      exact Or.inr (Or.inr (Or.inr ⟨number, attempt, _, _, read, .connectCb queued, rfl⟩))
  | timeoutCb number =>
      obtain ⟨attempt, error, read, queued, rfl⟩ := step_timeoutCb.mp stepped
      exact Or.inr (Or.inr (Or.inr ⟨number, attempt, _, _, read, .timeoutCb queued, rfl⟩))

/-- The next usable endpoint is tried, and the others are passed over. -/
theorem Progress.createConnection (resolving : AsyncOp (Option ConnectError × List E))
    (known : Known address resolving (taken ++ rest)) (tried : Tried layer taken earlier) :
    Progress layer address (createConnection layer ⟨resolving, earlier, [], []⟩ rest) := by
  cases rest with
  | nil => exact .trying taken [] earlier known tried (.unreachable resolving)
  | cons remote rest =>
      by_cases usable : OutgoingConnection.Usable layer remote
      · rw [createConnection_usable usable]
        have attempt : ConnectAttempt.Trying ⟨⟨remote, false, true, false, false⟩, rest, .pending, .pending⟩ :=
          ⟨rfl, Or.inl ⟨rfl, rfl⟩⟩
        exact .trying taken (remote :: rest) earlier known tried (.trying resolving attempt usable)
      · rw [createConnection_unusable usable]
        rw [List.append_cons] at known
        have remotes : (earlier.map fun attempt => attempt.conn.remote) =
            (taken ++ [remote]).filter (OutgoingConnection.Usable layer) := by
          rw [tried.remotes, List.filter_append]
          simp [usable]
        exact .trying (taken ++ [remote]) rest earlier known ⟨remotes, tried.failed⟩ (.posted resolving rest)

/-- A failed attempt stays one. -/
theorem Tried.set (tried : Tried layer taken earlier) {number : ℕ} {attempt changed : ConnectAttempt E}
    (read : earlier[number]? = some attempt) (failed : changed.Failed)
    (same : changed.conn.remote = attempt.conn.remote) : Tried layer taken (earlier.set number changed) where
  remotes := by
    rw [List.map_set, same, ← tried.remotes]
    apply List.ext_getElem?
    intro place
    by_cases here : number = place
    · subst here
      have inside := (List.getElem?_eq_some_iff.mp read).1
      rw [List.getElem?_set_self (by rwa [List.length_map]), List.getElem?_map, read]
      rfl
    · rw [List.getElem?_set_ne here]
  failed := by
    intro other member
    rcases List.mem_or_eq_of_mem_set member with old | rfl
    · exact tried.failed other old
    · exact failed

theorem Known.quiet {resolving : AsyncOp (Option ConnectError × List E)} {endpoints : List E}
    (known : Known address resolving endpoints) : Quiet resolving := by
  cases address with
  | some remote =>
      rw [known.1]
      simp [Quiet]
  | none =>
      rw [show resolving = _ from known]
      exact quiet_handled _

/-- The one posted task goes on with the request. -/
theorem Phase.runTask (phase : Phase layer earlier rest manager) (known : Known address manager.resolving (taken ++ rest))
    (tried : Tried layer taken earlier) {number : ℕ} {task : ConnectTask E}
    (read : manager.tasks[number]? = some task) :
    Progress layer address
      (ConnectionManager.runTask layer { manager with tasks := manager.tasks.eraseIdx number } task) := by
  have alone {only : ConnectTask E} (listed : [only][number]? = some task) : number = 0 ∧ task = only := by
    cases number with
    | zero => exact ⟨rfl, (Option.some.inj listed).symm⟩
    | succ number => cases listed
  cases phase with
  | posted resolving rest =>
      obtain ⟨rfl, rfl⟩ := alone read
      exact Progress.createConnection resolving known tried
  | unreachable resolving =>
      obtain ⟨rfl, rfl⟩ := alone read
      exact .trying taken [] earlier known tried (.told resolving)
  | told resolving => cases read
  | trying resolving trying usable => cases read
  | up resolving up usable => cases read

/-- A step of an earlier attempt changes nothing else. -/
theorem Phase.earlierStep (phase : Phase layer earlier rest manager) (tried : Tried layer taken earlier) {number : ℕ}
    {attempt changed : ConnectAttempt E} {called : Option (Option ConnectError)}
    (read : earlier[number]? = some attempt) (step : ConnectAttempt.PromptStep attempt changed called) :
    Tried layer taken (earlier.set number changed) ∧
      Phase layer (earlier.set number changed) rest (manager.handled layer number changed called) := by
  obtain ⟨rfl, failed⟩ := (tried.failed attempt (List.mem_of_getElem? read)).step step
  refine ⟨tried.set read failed step.kept.1, ?_⟩
  have inside := (List.getElem?_eq_some_iff.mp read).1
  cases phase with
  | posted resolving rest => exact .posted resolving rest
  | unreachable resolving => exact .unreachable resolving
  | told resolving => exact .told resolving
  | trying resolving trying usable =>
      rw [handled, List.set_append_left _ _ inside]
      exact .trying resolving trying usable
  | up resolving up usable =>
      have kept := @Phase.up E layer (earlier.set number changed) resolving _ up usable
      rw [List.length_set, ← List.set_append_left _ _ inside] at kept
      exact kept

/-- The last attempt goes on, ends the request or hands it to the next endpoint. -/
theorem Phase.attempt (phase : Phase layer earlier rest manager) (known : Known address manager.resolving (taken ++ rest))
    (tried : Tried layer taken earlier) {number : ℕ} {attempt changed : ConnectAttempt E}
    {called : Option (Option ConnectError)} (read : manager.attempts[number]? = some attempt)
    (step : ConnectAttempt.PromptStep attempt changed called) :
    Progress layer address (manager.handled layer number changed called) := by
  have before (old : earlier[number]? = some attempt) :
      Progress layer address (manager.handled layer number changed called) := by
    obtain ⟨tried, later⟩ := phase.earlierStep tried old step
    exact .trying taken rest _ ((resolving_handled manager number changed called).symm ▸ known) tried later
  have last {latest : ConnectAttempt E} (listed : (earlier ++ [latest])[number]? = some attempt)
      (new : ¬ number < earlier.length) : number = earlier.length ∧ attempt = latest := by
    obtain ⟨inside, value⟩ := List.getElem?_eq_some_iff.mp listed
    rw [List.length_append, List.length_singleton] at inside
    obtain rfl : number = earlier.length := by omega
    rw [List.getElem?_concat_length] at listed
    exact ⟨rfl, (Option.some.inj listed).symm⟩
  have position (latest : ConnectAttempt E) : (earlier ++ [latest]).set earlier.length changed = earlier ++ [changed] := by
    rw [List.set_append_right _ _ le_rfl, Nat.sub_self]
    rfl
  obtain ⟨same, resolved⟩ := step.kept
  cases phase with
  | posted resolving rest => exact before read
  | unreachable resolving => exact before read
  | told resolving => exact before read
  | trying resolving trying usable =>
      by_cases old : number < earlier.length
      · exact before (by rwa [List.getElem?_append_left old] at read)
      · obtain ⟨rfl, rfl⟩ := last read old
        rw [← same] at usable
        rw [← same, ← resolved] at known
        rcases trying.step step with ⟨rfl, trying⟩ | ⟨rfl, up⟩ | ⟨error, rfl, failed⟩
        · rw [handled, position]
          exact .trying taken _ earlier known tried (.trying resolving trying usable)
        · rw [handled, position]
          exact .trying taken _ earlier known tried (.up resolving up usable)
        · rw [handled, position]
          have known : Known address resolving (taken ++ [changed.conn.remote] ++ changed.resolved) := by
            rw [← List.append_cons]
            exact known
          apply @Progress.createConnection E layer address (taken ++ [changed.conn.remote]) _ _ resolving known
          constructor
          · rw [List.map_append, tried.remotes, List.filter_append]
            simp [usable]
          · intro other member
            rcases List.mem_append.mp member with old | new
            · exact tried.failed other old
            · rw [List.mem_singleton.mp new]
              exact failed
  | up resolving up usable =>
      by_cases old : number < earlier.length
      · exact before (by rwa [List.getElem?_append_left old] at read)
      · obtain ⟨rfl, rfl⟩ := last read old
        rw [← same] at usable
        rw [← same, ← resolved] at known
        obtain ⟨rfl, up⟩ := up.step step
        rw [handled, position]
        exact .trying taken _ earlier known tried (.up resolving up usable)

/-- Every prompt step makes progress. -/
theorem Progress.step (progress : Progress layer address manager) (prompt : manager.Prompt event)
    (stepped : step layer manager event = some next) : Progress layer address next := by
  cases progress with
  | resolving named waits fresh calls =>
      obtain ⟨resolving, attempts, tasks, made⟩ := manager
      obtain ⟨rfl, rfl⟩ := fresh
      subst named calls
      rcases prompt_cases prompt stepped with ⟨error, resolved, -, rfl⟩ | ⟨error, resolved, -, rfl⟩ |
        ⟨number, task, read, -⟩ | ⟨number, attempt, changed, called, read, -⟩
      · exact .resolving rfl (fun quiet => quiet.2 _ rfl) ⟨rfl, rfl⟩ rfl
      · cases error with
        | none =>
            exact @Progress.createConnection E layer none [] resolved [] (.handled (none, resolved)) rfl
              ⟨rfl, fun _ member => absurd member List.not_mem_nil⟩
        | some error => exact .unresolved error resolved rfl ⟨rfl, rfl⟩ rfl
      · cases read
      · cases read
  | unresolved error resolved failed fresh calls =>
      obtain ⟨resolving, attempts, tasks, made⟩ := manager
      obtain ⟨rfl, rfl⟩ := fresh
      subst calls failed
      rcases prompt_cases prompt stepped with ⟨_, _, pending, -⟩ | ⟨_, _, queued, -⟩ |
        ⟨number, task, read, -⟩ | ⟨number, attempt, changed, called, read, -⟩
      · cases pending
      · cases queued
      · cases read
      · cases read
  | trying taken rest earlier known tried phase =>
      rcases prompt_cases prompt stepped with ⟨_, _, pending, -⟩ | ⟨_, _, queued, -⟩ |
        ⟨number, task, read, rfl⟩ | ⟨number, attempt, changed, called, read, change, rfl⟩
      · exact absurd pending known.quiet.1
      · exact absurd queued (known.quiet.2 _)
      · exact phase.runTask known tried read
      · exact phase.attempt known tried read change

theorem progress_start (address : Option E) : Progress layer address (start layer address) := by
  cases address with
  | none => exact .resolving rfl (fun quiet => quiet.1 rfl) ⟨rfl, rfl⟩ rfl
  | some remote =>
      exact @Progress.createConnection E layer (some remote) [] [remote] [] .idle ⟨rfl, rfl⟩
        ⟨rfl, fun _ member => absurd member List.not_mem_nil⟩

end Progress

/-- The name was not resolved, all usable endpoints have failed in their order, or the connection to the first one that
did not fail is up. -/
inductive Decided (layer : SocketLayer E) (address : Option E) (manager : ConnectionManager E) : Prop
  | unresolved (error : ConnectError) (resolved : List E) (failed : manager.resolving = .handled (some error, resolved))
      (attempts : manager.attempts = []) (calls : manager.calls = [(none, some error)])
  | unreachable (endpoints : List E) (known : Known address manager.resolving endpoints)
      (tried : Tried layer endpoints manager.attempts) (calls : manager.calls = [(none, some .hostUnreachable)])
  | connected (taken rest : List E) (earlier : List (ConnectAttempt E)) (attempt : ConnectAttempt E)
      (known : Known address manager.resolving (taken ++ attempt.conn.remote :: rest))
      (tried : Tried layer taken earlier) (attempts : manager.attempts = earlier ++ [attempt]) (up : attempt.Up)
      (calls : manager.calls = [(some earlier.length, none)])

theorem Progress.decided {address : Option E} (progress : Progress layer address manager)
    (settled : manager.Settled) : Decided layer address manager := by
  cases progress with
  | resolving named waits fresh calls => exact absurd settled.resolving waits
  | unresolved error resolved failed fresh calls => exact .unresolved error resolved failed fresh.1 calls
  | trying taken rest earlier known tried phase =>
      cases phase with
      | posted resolving rest => cases settled.tasks
      | unreachable resolving => cases settled.tasks
      | told resolving =>
          rw [List.append_nil] at known
          exact .unreachable taken known tried rfl
      | @trying resolving attempt trying usable =>
          obtain ⟨connecting, timer⟩ := settled.attempts attempt (List.mem_append_right _ List.mem_cons_self)
          rcases trying.ops with ⟨waits, -⟩ | ⟨⟨error, -, waits⟩, -⟩ | ⟨waits, -⟩
          · exact absurd waits connecting.1
          · exact absurd waits (connecting.2 error)
          · exact absurd waits connecting.1
      | @up resolving attempt up usable => exact .connected taken _ earlier attempt known tried rfl up rfl

/-- All attempts before the last one have failed, and while the last one is under way nothing was posted and no callback
was called. -/
structure OneAtATime (manager : ConnectionManager E) : Prop where
  earlier : ∀ attempt ∈ manager.attempts.dropLast, attempt.Failed
  last : ∀ attempt ∈ manager.attempts.getLast?, attempt.Failed ∨ attempt.Up ∨
    attempt.Trying ∧ manager.tasks = [] ∧ manager.calls = []

theorem oneAtATime_of_failed (failed : ∀ attempt ∈ manager.attempts, attempt.Failed) : OneAtATime manager where
  earlier := fun attempt member => failed attempt (List.dropLast_subset _ member)
  last := fun attempt member => Or.inl (failed attempt (List.mem_of_getLast? member))

theorem Progress.oneAtATime {address : Option E} (progress : Progress layer address manager) :
    OneAtATime manager := by
  have none (fresh : manager.attempts = []) : OneAtATime manager := by
    refine oneAtATime_of_failed fun attempt member => ?_
    rw [fresh] at member
    cases member
  cases progress with
  | resolving named waits fresh calls => exact none fresh.1
  | unresolved error resolved failed fresh calls => exact none fresh.1
  | trying taken rest earlier known tried phase =>
      cases phase with
      | posted resolving rest => exact oneAtATime_of_failed tried.failed
      | unreachable resolving => exact oneAtATime_of_failed tried.failed
      | told resolving => exact oneAtATime_of_failed tried.failed
      | trying resolving trying usable =>
          constructor
          · rw [List.dropLast_concat]
            exact tried.failed
          · rw [List.getLast?_concat]
            rintro attempt ⟨⟩
            exact Or.inr (Or.inr ⟨trying, rfl, rfl⟩)
      | up resolving up usable =>
          constructor
          · rw [List.dropLast_concat]
            exact tried.failed
          · rw [List.getLast?_concat]
            rintro attempt ⟨⟩
            exact Or.inr (Or.inl up)

/-- Without such a race the endpoints are tried in their order and at every time only the last attempt may be under way,
and at the end the callback was called once, with the first connection that is set up or with the reason why there is
none. -/
theorem connect_failover (layer : SocketLayer E) (address : Option E) {events : List (ConnectEvent E)}
    (ran : ((system layer address).restrict fun manager event => manager.Prompt event).runFrom (start layer address)
      events = some manager) :
    OneAtATime manager ∧ ((∀ event, step layer manager event = none) → Decided layer address manager) := by
  have progress := EventSystem.runFrom_invariant (Progress layer address)
    (fun _ _ _ progress stepped => by
      obtain ⟨prompt, stepped⟩ := EventSystem.restrict_step.mp stepped
      exact progress.step prompt stepped)
    (progress_start address) ran
  exact ⟨progress.oneAtATime, fun stuck => progress.decided (settled_of_stuck stuck)⟩

/-- The socket of the first endpoint cannot be made, the second one times out, and the third one is connected. -/
def thirdEndpoint : List (ConnectEvent ℕ) :=
  [.resolves none [4, 6, 8], .domainResolved, .runTask 0, .expires 0, .timeoutCb 0, .connects 1 none, .connectCb 0,
    .connectCb 1, .timeoutCb 1]

def firstUnsupported : SocketLayer ℕ := ⟨fun remote => remote ≠ 4, fun _ => true, fun _ => none⟩

def afterThirdEndpoint : ConnectionManager ℕ where
  resolving := .handled (none, [4, 6, 8])
  attempts := [⟨⟨6, false, false, false, false⟩, [8], .handled (some .operationAborted), .handled none⟩,
    ⟨⟨8, true, true, true, false⟩, [], .handled none, .handled (some .operationAborted)⟩]
  tasks := []
  calls := [(some 1, none)]

theorem connect_failover_thirdEndpoint :
    ((system firstUnsupported none).restrict fun manager event => manager.Prompt event).runFrom
        (start firstUnsupported none) thirdEndpoint = some afterThirdEndpoint ∧
      OneAtATime afterThirdEndpoint ∧ Decided firstUnsupported none afterThirdEndpoint := by
  have ran : ((system firstUnsupported none).restrict fun manager event => manager.Prompt event).runFrom
      (start firstUnsupported none) thirdEndpoint = some afterThirdEndpoint := rfl
  have settled : afterThirdEndpoint.Settled := by
    refine ⟨rfl, quiet_handled _, ?_⟩
    simp only [afterThirdEndpoint, List.forall_mem_cons]
    exact ⟨⟨quiet_handled _, quiet_handled _⟩, ⟨quiet_handled _, quiet_handled _⟩, fun _ member =>
      absurd member List.not_mem_nil⟩
  obtain ⟨single, decided⟩ := connect_failover firstUnsupported none ran
  exact ⟨ran, single, decided settled.stuck⟩

end ConnectionManager

end JetStream
