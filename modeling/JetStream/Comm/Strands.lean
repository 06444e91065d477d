import JetStream.Comm.ConnectedSocket

namespace JetStream

/-- A task of the receive strand closes the socket, or receives and leaves the sending side alone. -/
inductive RecvTask where
  | closeOnStrand (cb : ℕ)
  | receive
  deriving DecidableEq

/-- Both strands keep their tasks in post order, and `due` holds what a sender had accepted before it asked to close. -/
structure Strands where
  socket : ConnectedSocket
  sendStrand : List SendTask
  recvStrand : List RecvTask
  accepted : List (ℕ × SerializedMessageOut)
  due : List SerializedMessageOut

/-- The senders call `send_msg` and `close`, each strand runs its first task, and the outstanding write completes. -/
inductive StrandEvent where
  | sendMsg (sender : ℕ) (message : List UInt8)
  | close (sender cb : ℕ)
  | closeDispatched (sender cb : ℕ)
  | recvMsg
  | runSend
  | runRecv
  | complete
  deriving DecidableEq

namespace Strands

def new : Strands := ⟨.new, [], [], [], []⟩

/-- These messages have been accepted from the sender so far. -/
def acceptedFrom (strands : Strands) (sender : ℕ) : List SerializedMessageOut :=
  (strands.accepted.filter fun entry => entry.1 = sender).map Prod.snd

/-- An accepted message is posted to the send strand. -/
def sendMsg (strands : Strands) (sender : ℕ) (message : List UInt8) : Strands :=
  match strands.socket.sendMsg strands.accepted.length message with
  | .error _ => strands
  | .ok message => {strands with
      sendStrand := strands.sendStrand ++ [.performSend message]
      accepted := strands.accepted ++ [(sender, message)]}

/-- A close request makes everything due that was accepted from its sender. -/
def request (strands : Strands) (sender : ℕ) : Strands :=
  {strands with due := strands.due ++ strands.acceptedFrom sender}

/-- The first task of the send strand runs and posts its own tasks behind the others. -/
def runSend (strands : Strands) : Option Strands :=
  match strands.sendStrand with
  | [] => none
  | .performSend message :: tasks =>
      let (socket, posted) := strands.socket.performSend message
      some {strands with socket := socket, sendStrand := tasks ++ posted}
  | .performQueuedSend :: tasks =>
      strands.socket.performQueuedSend.map fun socket => {strands with socket := socket, sendStrand := tasks}
  | .sent message :: tasks =>
      (strands.socket.sent message none).map fun socket => {strands with socket := socket, sendStrand := tasks}

def runRecv (strands : Strands) : Option Strands :=
  match strands.recvStrand with
  | [] => none
  | .closeOnStrand cb :: tasks => some {strands with socket := strands.socket.closeOnStrand cb, recvStrand := tasks}
  | .receive :: tasks => some {strands with recvStrand := tasks}

/-- A write that has been carried out posts its handler once. -/
def complete (strands : Strands) : Option Strands :=
  match strands.socket.outstanding with
  | [] => none
  | message :: _ =>
      if .sent message ∈ strands.sendStrand then none
      else some {strands with sendStrand := strands.sendStrand ++ [.sent message]}

/-- Without an I/O error these are all the steps, where `close` posts unless it is dispatched on its own strand. -/
def step (strands : Strands) : StrandEvent → Option Strands
  | .sendMsg sender message => some (strands.sendMsg sender message)
  | .close sender cb => some {strands.request sender with recvStrand := strands.recvStrand ++ [.closeOnStrand cb]}
  | .closeDispatched sender cb => some {strands.request sender with socket := strands.socket.closeOnStrand cb}
  | .recvMsg => some {strands with recvStrand := strands.recvStrand ++ [.receive]}
  | .runSend => strands.runSend
  | .runRecv => strands.runRecv
  | .complete => strands.complete

def system : EventSystem Strands StrandEvent := ⟨new, step⟩

/-- These messages wait on the send strand for their `perform_send`. -/
def waiting (strands : Strands) : List SerializedMessageOut :=
  strands.sendStrand.filterMap fun
    | .performSend message => some message
    | _ => none

/-- These writes have completed and wait for their handler. -/
def completed (strands : Strands) : List SerializedMessageOut :=
  strands.sendStrand.filterMap fun
    | .sent message => some message
    | _ => none

/-- The step takes a branch that closes the socket. -/
def closes (strands : Strands) : StrandEvent → Bool
  | .closeDispatched _ _ => !strands.socket.sending
  | .runRecv =>
      match strands.recvStrand with
      | .closeOnStrand _ :: _ => !strands.socket.sending
      | _ => false
  | .runSend =>
      match strands.sendStrand with
      | .sent _ :: _ => strands.socket.sendQueue.isEmpty && strands.socket.sockState = .csClosing
      | _ => false
  | _ => false

/-- The socket is closed only while no message waits for its `perform_send`. -/
def ClosesDrained (strands : Strands) (event : StrandEvent) : Prop := strands.closes event = true → strands.waiting = []

instance (strands : Strands) (event : StrandEvent) : Decidable (strands.ClosesDrained event) :=
  inferInstanceAs (Decidable (strands.closes event = true → strands.waiting = []))

/-- Once the socket is closed or has nothing left to send, every due message is written. -/
def Delivered (strands : Strands) : Prop :=
  strands.socket.isOpen = false ∨ (strands.sendStrand = [] ∧ strands.socket.outstanding = []) →
    ∀ message ∈ strands.due, message ∈ strands.socket.written

end Strands

namespace ConnectedSocket

/-- A posted `perform_queued_send` finds nothing to do, since a socket with a queue is already sending. -/
theorem Ordered.performQueuedSend_eq {socket : ConnectedSocket} (ordered : socket.Ordered) :
    socket.performQueuedSend = some socket := by
  unfold ConnectedSocket.performQueuedSend
  split
  · rfl
  · rename_i message rest queue
    have queued : socket.sendQueue ≠ [] := by simp [queue]
    cases opened : socket.isOpen with
    | false => simp
    | true => simp [ordered.busy opened queued]

/-- An open socket that is not sending has written everything. -/
theorem Ordered.written_eq {socket : ConnectedSocket} (ordered : socket.Ordered) (opened : socket.isOpen = true)
    (idle : socket.outstanding = []) : socket.written = socket.performed :=
  (ordered.sendSide_iff.mpr (ordered.counted opened)).complete opened idle

theorem Ordered.outstanding_nil {socket : ConnectedSocket} (ordered : socket.Ordered) (opened : socket.isOpen = true)
    (idle : socket.sending = false) : socket.outstanding = [] := by
  by_contra outstanding
  have sending := (ordered.sending opened).mpr outstanding
  rw [idle] at sending
  exact absurd sending (by decide)

/-- A completion without an error leaves the socket open, or closes it with everything written. -/
theorem Ordered.sent_cases {socket next : ConnectedSocket} {message : SerializedMessageOut} (ordered : socket.Ordered)
    (opened : socket.isOpen = true) (outstanding : message ∈ socket.outstanding)
    (completes : socket.sent message none = some next) :
    next.performed = socket.performed ∧ (next.isOpen = true ∨
      (socket.sendQueue = [] ∧ socket.sockState = .csClosing ∧ next.outstanding = [] ∧
        next.written = socket.performed)) := by
  have only := ordered.outstanding_eq outstanding
  simp only [ConnectedSocket.sent, Option.isSome_none, Bool.false_eq_true, if_false] at completes
  split at completes
  · rename_i queued
    unfold ConnectedSocket.performQueuedSend at completes
    split at completes
    · obtain rfl := Option.some.inj completes
      exact ⟨rfl, Or.inl opened⟩
    · rw [if_neg (by simp [opened])] at completes
      obtain ⟨-, writes⟩ := Option.ite_none_left_eq_some.mp completes
      obtain rfl := Option.some.inj writes
      exact ⟨rfl, Or.inl opened⟩
  · rename_i drained
    have empty : socket.sendQueue = [] := by simpa using drained
    split at completes
    · rename_i closing
      obtain rfl := Option.some.inj completes
      have wire := ordered.complete opened
      have whole := ordered.whole opened
      rw [empty, List.append_nil] at whole
      rw [only] at wire
      exact ⟨rfl, Or.inr ⟨empty, closing, by simp [closeNow, only], by simp [closeNow, wire, whole]⟩⟩
    · obtain rfl := Option.some.inj completes
      exact ⟨rfl, Or.inl opened⟩

end ConnectedSocket

namespace Strands

/-- An open socket still has every accepted message, and a closed one has written them all. -/
structure Inv (strands : Strands) : Prop where
  ordered : strands.socket.Ordered
  due : ∀ message ∈ strands.due, message ∈ strands.accepted.map Prod.snd
  opened : strands.socket.isOpen = true →
    strands.accepted.map Prod.snd = strands.socket.performed ++ strands.waiting
  closed : strands.socket.isOpen = false → strands.accepted.map Prod.snd = strands.socket.written ∧
    strands.waiting = [] ∧ strands.socket.outstanding = []
  handlers : strands.completed = [] ∨ strands.completed = strands.socket.outstanding

theorem new_inv : new.Inv where
  ordered := ConnectedSocket.new_ordered
  due := nofun
  opened := fun _ => rfl
  closed := nofun
  handlers := Or.inl rfl

theorem Inv.delivered {strands : Strands} (inv : strands.Inv) : strands.Delivered := by
  intro finished message due
  have accepted := inv.due message due
  cases opened : strands.socket.isOpen with
  | false => rwa [(inv.closed opened).1] at accepted
  | true =>
      rcases finished with closed | ⟨ran, idle⟩
      · rw [opened] at closed
        exact absurd closed (by decide)
      · rw [inv.opened opened, waiting, ran] at accepted
        rw [inv.ordered.written_eq opened idle]
        simpa using accepted

theorem Inv.sendMsg {strands : Strands} (inv : strands.Inv) (sender : ℕ) (message : List UInt8) :
    (strands.sendMsg sender message).Inv := by
  unfold Strands.sendMsg
  split
  · exact inv
  · rename_i out sends
    have opened : strands.socket.isOpen = true := by
      by_contra closed
      rw [ConnectedSocket.sendMsg, if_pos (by simpa using closed)] at sends
      exact absurd sends nofun
    exact {
      ordered := inv.ordered
      due := by
        intro message due
        simpa using Or.inl (by simpa using inv.due message due)
      opened := by
        intro _
        simp [waiting, inv.opened opened]
      closed := by
        intro closed
        rw [opened] at closed
        exact absurd closed (by decide)
      handlers := by simpa [completed] using inv.handlers}

theorem Inv.request {strands : Strands} (inv : strands.Inv) (sender : ℕ) : (strands.request sender).Inv where
  ordered := inv.ordered
  due := by
    intro message due
    rcases List.mem_append.mp due with before | now
    · exact inv.due message before
    · obtain ⟨entry, found, rfl⟩ := List.mem_map.mp now
      exact List.mem_map_of_mem (List.mem_of_mem_filter found)
  opened := inv.opened
  closed := inv.closed
  handlers := inv.handlers

/-- The receive strand carries nothing of the sending side. -/
theorem Inv.recvStrand {strands : Strands} (inv : strands.Inv) (tasks : List RecvTask) :
    Inv {strands with recvStrand := tasks} where
  ordered := inv.ordered
  due := inv.due
  opened := inv.opened
  closed := inv.closed
  handlers := inv.handlers

theorem Inv.closeOnStrand {strands : Strands} (inv : strands.Inv) (cb : ℕ)
    (drained : strands.socket.sending = false → strands.waiting = []) :
    Inv {strands with socket := strands.socket.closeOnStrand cb} := by
  have ordered := inv.ordered.closeOnStrand cb
  cases sending : strands.socket.sending with
  | true =>
      have stays : strands.socket.closeOnStrand cb = {strands.socket with
          closingCb := some cb
          sockState := .csClosing} := by
        simp [ConnectedSocket.closeOnStrand, sending]
      rw [stays] at ordered ⊢
      exact ⟨ordered, inv.due, inv.opened, inv.closed, inv.handlers⟩
  | false =>
      have closes : strands.socket.closeOnStrand cb =
          ConnectedSocket.closeNow {strands.socket with closingCb := some cb} := by
        simp [ConnectedSocket.closeOnStrand, sending]
      rw [closes] at ordered ⊢
      have nothing : strands.waiting = [] := drained sending
      refine ⟨ordered, inv.due, nofun, fun _ => ?_, inv.handlers⟩
      cases opened : strands.socket.isOpen with
      | false => exact inv.closed opened
      | true =>
          have idle := inv.ordered.outstanding_nil opened sending
          have all := inv.opened opened
          rw [nothing, List.append_nil, ← inv.ordered.written_eq opened idle] at all
          exact ⟨all, nothing, idle⟩

theorem Inv.performSend {strands : Strands} {message : SerializedMessageOut} {tasks : List SendTask} (inv : strands.Inv)
    (first : strands.sendStrand = .performSend message :: tasks) :
    Inv {strands with
      socket := (strands.socket.performSend message).1
      sendStrand := tasks ++ (strands.socket.performSend message).2} := by
  have opened : strands.socket.isOpen = true := by
    by_contra closed
    have none_waits := (inv.closed (Bool.eq_false_iff.mpr closed)).2.1
    simp [waiting, first] at none_waits
  have ordered := inv.ordered.performSend message
  have all := inv.opened opened
  have handlers := inv.handlers
  simp only [waiting, completed, first, List.filterMap_cons] at all handlers
  cases sending : strands.socket.sending with
  | true =>
      have queues : strands.socket.performSend message = ({strands.socket with
          performed := strands.socket.performed ++ [message]
          bytesQueued := strands.socket.bytesQueued + message.nbytes
          sendQueue := strands.socket.sendQueue ++ [message]}, [.performQueuedSend]) := by
        simp [ConnectedSocket.performSend, opened, sending]
      rw [queues] at ordered ⊢
      refine ⟨ordered, inv.due, fun _ => ?_, ?_, ?_⟩
      · simp [waiting, all]
      · simp [opened]
      · simpa [completed] using handlers
  | false =>
      have idle := inv.ordered.outstanding_nil opened sending
      have writes : strands.socket.performSend message = (ConnectedSocket.asyncWrite {strands.socket with
          performed := strands.socket.performed ++ [message]
          sending := true} message, []) := by
        simp [ConnectedSocket.performSend, opened, sending]
      rw [idle, or_self] at handlers
      rw [writes] at ordered ⊢
      refine ⟨ordered, inv.due, fun _ => ?_, ?_, Or.inl ?_⟩
      · simp [waiting, ConnectedSocket.asyncWrite, all]
      · simp [ConnectedSocket.asyncWrite, opened]
      · simpa [completed] using handlers

theorem Inv.sent {strands : Strands} {message : SerializedMessageOut} {tasks : List SendTask} {socket : ConnectedSocket}
    (inv : strands.Inv) (first : strands.sendStrand = .sent message :: tasks)
    (drained : strands.socket.sendQueue = [] → strands.socket.sockState = .csClosing → strands.waiting = [])
    (completes : strands.socket.sent message none = some socket) :
    Inv {strands with socket := socket, sendStrand := tasks} := by
  have remaining : strands.completed = message :: tasks.filterMap fun
      | .sent message => some message
      | _ => none := by simp [completed, first]
  have posted : strands.completed = strands.socket.outstanding := by
    rcases inv.handlers with none_completed | posted
    · simp [remaining] at none_completed
    · exact posted
  have outstanding : message ∈ strands.socket.outstanding := by simp [← posted, remaining]
  have none_left := remaining.symm.trans (posted.trans (inv.ordered.outstanding_eq outstanding))
  have opened : strands.socket.isOpen = true := by
    by_contra closed
    simp [(inv.closed (Bool.eq_false_iff.mpr closed)).2.2] at outstanding
  have waits : waiting {strands with socket := socket, sendStrand := tasks} = strands.waiting := by
    simp [waiting, first]
  have all := inv.opened opened
  obtain ⟨after, sends, ordered⟩ := inv.ordered.sent outstanding none
  obtain rfl := Option.some.inj (sends.symm.trans completes)
  obtain ⟨performed, ends⟩ := inv.ordered.sent_cases opened outstanding completes
  refine ⟨ordered, inv.due, fun _ => ?_, fun closed => ?_, Or.inl (List.cons.inj none_left).2⟩
  · rw [waits, performed]
    exact all
  · rcases ends with stays | ⟨empty, closing, idle, written⟩
    · rw [stays] at closed
      exact absurd closed (by decide)
    · have nothing := drained empty closing
      rw [nothing, List.append_nil, ← written] at all
      exact ⟨all, waits.trans nothing, idle⟩

theorem Inv.runSend {strands next : Strands} (inv : strands.Inv) (drained : strands.ClosesDrained .runSend)
    (ran : strands.runSend = some next) : next.Inv := by
  unfold Strands.runSend at ran
  split at ran
  · exact absurd ran nofun
  · rename_i message tasks first
    obtain rfl := Option.some.inj ran
    exact inv.performSend first
  · rename_i tasks first
    rw [inv.ordered.performQueuedSend_eq] at ran
    obtain rfl := Option.some.inj ran
    exact {
      ordered := inv.ordered
      due := inv.due
      opened := by simpa [waiting, first] using inv.opened
      closed := by simpa [waiting, first] using inv.closed
      handlers := by simpa [completed, first] using inv.handlers}
  · rename_i message tasks first
    obtain ⟨socket, completes, rfl⟩ := Option.map_eq_some_iff.mp ran
    apply inv.sent first _ completes
    intro empty closing
    exact drained (by simp [closes, first, empty, closing])

theorem Inv.runRecv {strands next : Strands} (inv : strands.Inv) (drained : strands.ClosesDrained .runRecv)
    (ran : strands.runRecv = some next) : next.Inv := by
  unfold Strands.runRecv at ran
  split at ran
  · exact absurd ran nofun
  · rename_i cb tasks first
    obtain rfl := Option.some.inj ran
    apply Inv.recvStrand (inv.closeOnStrand cb _) tasks
    intro idle
    exact drained (by simp [closes, first, idle])
  · rename_i tasks first
    obtain rfl := Option.some.inj ran
    exact inv.recvStrand tasks

theorem Inv.complete {strands next : Strands} (inv : strands.Inv) (ran : strands.complete = some next) :
    next.Inv := by
  unfold Strands.complete at ran
  split at ran
  · exact absurd ran nofun
  · rename_i message rest outstanding
    obtain ⟨fresh, posts⟩ := Option.ite_none_left_eq_some.mp ran
    obtain rfl := Option.some.inj posts
    have member : message ∈ strands.socket.outstanding := by simp [outstanding]
    have only := inv.ordered.outstanding_eq member
    have none_completed : strands.completed = [] := by
      rcases inv.handlers with none_completed | posted
      · exact none_completed
      · rw [← posted] at member
        obtain ⟨task, found, same⟩ := List.mem_filterMap.mp member
        cases task with
        | performSend other => exact absurd same nofun
        | performQueuedSend => exact absurd same nofun
        | sent other =>
            obtain rfl := Option.some.inj same
            exact absurd found fresh
    have here : completed {strands with sendStrand := strands.sendStrand ++ [.sent message]} = [message] := by
      rw [completed, List.filterMap_append, ← completed, none_completed]
      rfl
    exact {
      ordered := inv.ordered
      due := inv.due
      opened := by simpa [waiting] using inv.opened
      closed := by simpa [waiting] using inv.closed
      handlers := Or.inr (here.trans only.symm)}

/-- Every step that does not close the socket over a waiting message keeps the invariant. -/
theorem Inv.step {strands next : Strands} {event : StrandEvent} (inv : strands.Inv)
    (drained : strands.ClosesDrained event) (stepped : strands.step event = some next) : next.Inv := by
  cases event with
  | sendMsg sender message =>
      obtain rfl := Option.some.inj stepped
      exact inv.sendMsg sender message
  | close sender cb =>
      obtain rfl := Option.some.inj stepped
      exact (inv.request sender).recvStrand _
  | closeDispatched sender cb =>
      obtain rfl := Option.some.inj stepped
      apply (inv.request sender).closeOnStrand cb
      intro idle
      have sending : strands.socket.sending = false := idle
      exact drained (by simp [closes, sending])
  | recvMsg =>
      obtain rfl := Option.some.inj stepped
      exact inv.recvStrand _
  | runSend => exact inv.runSend drained stepped
  | runRecv => exact inv.runRecv drained stepped
  | complete => exact inv.complete stepped

/-- No due message is lost in a run that never closes the socket over a message that waits for its `perform_send`. -/
theorem everyState_delivered (events : List StrandEvent) (drained : system.EveryStep ClosesDrained new events) :
    system.EveryState Delivered new events := by
  apply EventSystem.EveryStep.everyState Inv _ _ new_inv drained
  · intro strands event next inv met stepped
    exact inv.step met stepped
  · intro strands inv
    exact inv.delivered

/-- A message that is being written when the sender closes is still delivered. -/
theorem everyState_delivered_sending :
    system.EveryStep ClosesDrained new [.sendMsg 0 [7], .runSend, .close 0 1, .runRecv, .complete, .runSend] ∧
      system.EveryState Delivered new [.sendMsg 0 [7], .runSend, .close 0 1, .runRecv, .complete, .runSend] :=
  ⟨by decide, everyState_delivered _ (by decide)⟩

/-- The receive strand closes the socket before the send strand has run the one task it holds. -/
theorem delivered_close_overtakes : ¬∀ events : List StrandEvent, system.EveryState Delivered new events := by
  intro every
  have run := every [.sendMsg 0 [7], .close 0 1, .runRecv]
  have closed : Delivered _ := ((run.2 _ rfl).2 _ rfl).2 _ rfl
  exact absurd (closed (Or.inl rfl) ⟨0, [0, 0, 0, 1, 7], 5⟩ (by decide)) (by decide)

end Strands

end JetStream
