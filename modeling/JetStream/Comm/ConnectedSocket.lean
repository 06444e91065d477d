import JetStream.Machine
import JetStream.Lib.EventSystem
import Mathlib.Data.List.Basic
import Mathlib.Algebra.BigOperators.Group.List.Basic

namespace JetStream

/-- This is `sock_state_t`. -/
inductive SockState where
  | csOpen
  | csClosing
  | csClosed
  deriving DecidableEq

/-- The sending side sets two error codes itself, and the others come from the network. -/
inductive ErrorCode where
  | messageSize
  | connectionReset
  | network (value : ℕ)
  deriving DecidableEq

/-- Each allocation of a serialized message is its own object, and `serial` tells the objects apart. -/
structure SerializedMessageOut where
  serial : ℕ
  msg : List UInt8
  nbytes : ℕ
  deriving DecidableEq

namespace SerializedMessageOut

/-- The header is one `u_int32_t`. -/
def hdrlen : ℕ := 4

def maxUInt32 : ℕ := 4294967295

/-- The length goes first, with its most significant byte in front. -/
def htonl (len : ℕ) : List UInt8 :=
  [UInt8.ofNat (len / 2 ^ 24), UInt8.ofNat (len / 2 ^ 16), UInt8.ofNat (len / 2 ^ 8), UInt8.ofNat len]

/-- The constructor refuses a message whose length does not fit the header. -/
def new (serial : ℕ) (message : List UInt8) : Except ErrorCode SerializedMessageOut :=
  if maxUInt32 < message.length then .error .messageSize
  else .ok ⟨serial, htonl message.length ++ message, toUInt32 (message.length + hdrlen)⟩

end SerializedMessageOut

/-- The socket has its own fields, the writes under way, and the history of what went over it. -/
structure ConnectedSocket where
  sockState : SockState
  isOpen : Bool
  sending : Bool
  sendQueue : List SerializedMessageOut
  bytesQueued : ℕ
  closingCb : Option ℕ
  fired : List (Option ℕ)
  outstanding : List SerializedMessageOut
  wire : List SerializedMessageOut
  written : List SerializedMessageOut
  performed : List SerializedMessageOut

/-- These are the handlers of the sending side that wait on a strand. -/
inductive SendTask where
  | performSend (message : SerializedMessageOut)
  | performQueuedSend
  | sent (message : SerializedMessageOut)
  deriving DecidableEq

namespace ConnectedSocket

/-- The constructor takes over an open socket with nothing to send. -/
def new : ConnectedSocket := ⟨.csOpen, true, false, [], 0, none, [], [], [], [], []⟩

/-- The closing callback fires each time, also when the socket is closed already. -/
def closeNow (socket : ConnectedSocket) : ConnectedSocket :=
  {socket with isOpen := false, fired := socket.fired ++ [socket.closingCb], sockState := .csClosed}

/-- A socket that is sending is left for `sent` to close. -/
def closeOnStrand (socket : ConnectedSocket) (cb : ℕ) : ConnectedSocket :=
  if socket.sending then {socket with closingCb := some cb, sockState := .csClosing}
  else closeNow {socket with closingCb := some cb}

/-- A failure drops the queue and closes the socket. -/
def fail (socket : ConnectedSocket) : ConnectedSocket := closeNow {socket with sending := false, sendQueue := []}

/-- An asynchronous write puts the message on the wire and stays outstanding until its completion is handled. -/
def asyncWrite (socket : ConnectedSocket) (message : SerializedMessageOut) : ConnectedSocket :=
  {socket with outstanding := socket.outstanding ++ [message], wire := socket.wire ++ [message]}

/-- A message is accepted only while the socket is open and nobody has begun to close it. -/
def sendMsg (socket : ConnectedSocket) (serial : ℕ) (message : List UInt8) : Except ErrorCode SerializedMessageOut :=
  if !socket.isOpen then .error .connectionReset
  else if socket.sockState ≠ .csOpen then .error .connectionReset
  else SerializedMessageOut.new serial message

/-- The message is written at once or queued behind the outstanding write, with the task that is posted then. -/
def performSend (socket : ConnectedSocket) (message : SerializedMessageOut) : ConnectedSocket × List SendTask :=
  if !socket.isOpen then ({socket with performed := socket.performed ++ [message]}, [])
  else if socket.sending then
    ({socket with
        performed := socket.performed ++ [message]
        bytesQueued := socket.bytesQueued + message.nbytes
        sendQueue := socket.sendQueue ++ [message]}, [.performQueuedSend])
  else (asyncWrite {socket with performed := socket.performed ++ [message], sending := true} message, [])

/-- The first queued message is written, where no result stands for the fatal check on the byte counter. -/
def performQueuedSend (socket : ConnectedSocket) : Option ConnectedSocket :=
  match socket.sendQueue with
  | [] => some socket
  | message :: rest =>
      if socket.sending || !socket.isOpen then some socket
      else if socket.bytesQueued < message.nbytes then none
      else some (asyncWrite {socket with
        sendQueue := rest
        sending := true
        bytesQueued := socket.bytesQueued - message.nbytes} message)

/-- The completion of a write starts the next one, or closes a socket that is closing. -/
def sent (socket : ConnectedSocket) (message : SerializedMessageOut) (error : Option ErrorCode) :
    Option ConnectedSocket :=
  let socket := {socket with outstanding := socket.outstanding.erase message, sending := false}
  if error.isSome then some (fail socket)
  else
    let socket := {socket with written := socket.written ++ [message]}
    if !socket.sendQueue.isEmpty then performQueuedSend socket
    else if socket.sockState = .csClosing then some (closeNow socket)
    else some socket

/-- The sizes of the queued messages add up to this. -/
def queuedBytes (socket : ConnectedSocket) : ℕ := (socket.sendQueue.map SerializedMessageOut.nbytes).sum

end ConnectedSocket

/-- The handlers of the send strand run in any order, and the receiving side may close the socket or report a failure. -/
inductive SendStep where
  | performSend (message : SerializedMessageOut)
  | performQueuedSend
  | sent (message : SerializedMessageOut) (error : Option ErrorCode)
  | closeOnStrand (cb : ℕ)
  | fail (error : ErrorCode)
  deriving DecidableEq

namespace ConnectedSocket

/-- A completion is handled for a write that is outstanding. -/
def step (socket : ConnectedSocket) : SendStep → Option ConnectedSocket
  | .performSend message => some (performSend socket message).1
  | .performQueuedSend => performQueuedSend socket
  | .sent message error => if message ∈ socket.outstanding then sent socket message error else none
  | .closeOnStrand cb => some (closeOnStrand socket cb)
  | .fail _ => some (fail socket)

def sendSide : EventSystem ConnectedSocket SendStep := ⟨new, step⟩

/-- The queue, the byte counter and the histories agree as long as the socket is open. -/
structure Accounted (socket : ConnectedSocket) : Prop where
  single : socket.outstanding.length ≤ 1
  sending : socket.isOpen = true → (socket.sending = true ↔ socket.outstanding ≠ [])
  dropped : socket.isOpen = false → socket.sendQueue = []
  counted : socket.isOpen = true → socket.bytesQueued = socket.queuedBytes
  performed : socket.wire <+: socket.performed
  whole : socket.isOpen = true → socket.wire ++ socket.sendQueue = socket.performed
  written : socket.written ++ socket.outstanding <+: socket.wire
  complete : socket.isOpen = true → socket.written ++ socket.outstanding = socket.wire

/-- Between two handlers an open socket with a queue is also sending. -/
structure Ordered (socket : ConnectedSocket) : Prop extends socket.Accounted where
  busy : socket.isOpen = true → socket.sendQueue ≠ [] → socket.sending = true

theorem new_ordered : new.Ordered := by
  constructor
  · constructor <;> simp [new, queuedBytes]
  · simp [new]

theorem Accounted.closeNow {socket : ConnectedSocket} (accounted : socket.Accounted) (idle : socket.sendQueue = []) :
    socket.closeNow.Ordered where
  single := accounted.single
  sending := nofun
  dropped := fun _ => idle
  counted := nofun
  performed := accounted.performed
  whole := nofun
  written := accounted.written
  complete := nofun
  busy := nofun

/-- An idle open socket has nothing queued and has written everything. -/
theorem Ordered.idle {socket : ConnectedSocket} (ordered : socket.Ordered) (idle : socket.sending = false) :
    socket.sendQueue = [] := by
  cases opened : socket.isOpen with
  | false => exact ordered.dropped opened
  | true =>
      by_contra queued
      rw [ordered.busy opened queued] at idle
      exact absurd idle (by decide)

theorem Ordered.closeOnStrand {socket : ConnectedSocket} (ordered : socket.Ordered) (cb : ℕ) :
    (socket.closeOnStrand cb).Ordered := by
  unfold ConnectedSocket.closeOnStrand
  split
  · exact {ordered with}
  · rename_i still
    have idle : socket.sendQueue = [] := ordered.idle (Bool.eq_false_iff.mpr still)
    exact Accounted.closeNow {ordered.toAccounted with} idle

theorem Accounted.fail {socket : ConnectedSocket} (single : socket.outstanding.length ≤ 1)
    (performed : socket.wire <+: socket.performed) (written : socket.written ++ socket.outstanding <+: socket.wire) :
    socket.fail.Ordered where
  single := single
  sending := nofun
  dropped := fun _ => rfl
  counted := nofun
  performed := performed
  whole := nofun
  written := written
  complete := nofun
  busy := nofun

theorem Ordered.performSend {socket : ConnectedSocket} (ordered : socket.Ordered) (message : SerializedMessageOut) :
    (socket.performSend message).1.Ordered := by
  obtain ⟨accounted, busy⟩ := ordered
  cases opened : socket.isOpen with
  | false =>
      have closed : (socket.performSend message).1 = {socket with performed := socket.performed ++ [message]} := by
        simp [ConnectedSocket.performSend, opened]
      rw [closed]
      exact {
        accounted with
        performed := accounted.performed.trans (List.prefix_append _ _)
        whole := by simp [opened]
        busy := busy}
  | true =>
      cases sending : socket.sending with
      | true =>
          have queues : (socket.performSend message).1 = {socket with
              performed := socket.performed ++ [message]
              bytesQueued := socket.bytesQueued + message.nbytes
              sendQueue := socket.sendQueue ++ [message]} := by
            simp [ConnectedSocket.performSend, opened, sending]
          rw [queues]
          exact {
            accounted with
            dropped := by simp [opened]
            counted := fun _ => by simp [queuedBytes, accounted.counted opened]
            performed := accounted.performed.trans (List.prefix_append _ _)
            whole := fun _ => by simp [← accounted.whole opened]
            busy := fun _ _ => sending}
      | false =>
          have nothing : socket.outstanding = [] := by
            by_contra outstanding
            exact absurd ((accounted.sending opened).mpr outstanding) (by simp [sending])
          have empty : socket.sendQueue = [] := Ordered.idle ⟨accounted, busy⟩ sending
          have writes : (socket.performSend message).1 =
              asyncWrite {socket with performed := socket.performed ++ [message], sending := true} message := by
            simp [ConnectedSocket.performSend, opened, sending]
          have all : socket.wire = socket.performed := by simpa [empty] using accounted.whole opened
          have before : socket.written = socket.wire := by simpa [nothing] using accounted.complete opened
          rw [writes]
          exact {
            single := by simp [asyncWrite, nothing]
            sending := fun _ => by simp [asyncWrite]
            dropped := by simp [asyncWrite, opened]
            counted := fun _ => accounted.counted opened
            performed := by simp [asyncWrite, all]
            whole := fun _ => by simp [asyncWrite, empty, all]
            written := by simp [asyncWrite, nothing, before]
            complete := fun _ => by simp [asyncWrite, nothing, before]
            busy := fun _ _ => rfl}

/-- The check on the byte counter passes, and afterwards an open socket with a queue is sending. -/
theorem Accounted.performQueuedSend {socket : ConnectedSocket} (accounted : socket.Accounted) :
    ∃ next, socket.performQueuedSend = some next ∧ next.Ordered := by
  unfold ConnectedSocket.performQueuedSend
  split
  · rename_i empty
    exact ⟨socket, rfl, accounted, fun _ queued => absurd empty queued⟩
  · rename_i message rest queue
    split
    · rename_i stays
      refine ⟨socket, rfl, accounted, fun opened _ => ?_⟩
      simpa [opened] using stays
    · rename_i starts
      simp only [Bool.or_eq_true, Bool.not_eq_true', not_or, Bool.not_eq_true, Bool.not_eq_false] at starts
      obtain ⟨idle, opened⟩ := starts
      have nothing : socket.outstanding = [] := by
        by_contra outstanding
        exact absurd ((accounted.sending opened).mpr outstanding) (by simp [idle])
      have counted : socket.bytesQueued = message.nbytes + (rest.map SerializedMessageOut.nbytes).sum := by
        rw [accounted.counted opened, queuedBytes, queue, List.map_cons, List.sum_cons]
      have all : socket.wire ++ message :: rest = socket.performed := queue ▸ accounted.whole opened
      have before : socket.written = socket.wire := by simpa [nothing] using accounted.complete opened
      rw [if_neg (by omega)]
      refine ⟨_, rfl, ⟨?_, ?_, ?_, ?_, ?_, ?_, ?_, ?_⟩, ?_⟩
      · simp [asyncWrite, nothing]
      · simp [asyncWrite]
      · simp [asyncWrite, opened]
      · intro _
        simp only [asyncWrite, queuedBytes]
        omega
      · simp [asyncWrite, ← all]
      · simp [asyncWrite, ← all]
      · simp [asyncWrite, nothing, before]
      · simp [asyncWrite, nothing, before]
      · exact fun _ _ => rfl

/-- The one outstanding write is the one that completes. -/
theorem Accounted.outstanding_eq {socket : ConnectedSocket} {message : SerializedMessageOut}
    (accounted : socket.Accounted) (outstanding : message ∈ socket.outstanding) : socket.outstanding = [message] := by
  have single := accounted.single
  match socket.outstanding, outstanding, single with
  | [only], outstanding, _ => rw [List.mem_singleton.mp outstanding]

/-- After a write without an error the socket is accounted for, with the write moved to the history. -/
theorem Ordered.written_next {socket : ConnectedSocket} {message : SerializedMessageOut} (ordered : socket.Ordered)
    (outstanding : message ∈ socket.outstanding) :
    Accounted {socket with
      outstanding := socket.outstanding.erase message
      sending := false
      written := socket.written ++ [message]} := by
  have only := ordered.outstanding_eq outstanding
  have through := ordered.written
  have complete := ordered.complete
  rw [only] at through complete ⊢
  exact {
    single := by simp
    sending := by simp
    dropped := ordered.dropped
    counted := ordered.counted
    performed := ordered.performed
    whole := ordered.whole
    written := by simpa using through
    complete := by simpa using complete}

theorem Ordered.sent {socket : ConnectedSocket} (ordered : socket.Ordered) {message : SerializedMessageOut}
    (outstanding : message ∈ socket.outstanding) (error : Option ErrorCode) :
    ∃ next, socket.sent message error = some next ∧ next.Ordered := by
  cases error with
  | some error =>
      have only := ordered.outstanding_eq outstanding
      refine ⟨_, rfl, Accounted.fail ?_ ordered.performed ?_⟩
      · simp [only]
      · simpa [only] using (List.prefix_append _ _).trans ordered.written
  | none =>
      have accounted := ordered.written_next outstanding
      simp only [ConnectedSocket.sent, Option.isSome_none, Bool.false_eq_true, if_false]
      split
      · exact accounted.performQueuedSend
      · rename_i drained
        have idle : socket.sendQueue = [] := by simpa using drained
        split
        · exact ⟨_, rfl, accounted.closeNow idle⟩
        · exact ⟨_, rfl, accounted, fun _ queued => absurd idle queued⟩

/-- Every handler keeps the socket ordered, whether a write has failed or not. -/
theorem Ordered.step {socket next : ConnectedSocket} {event : SendStep} (ordered : socket.Ordered)
    (stepped : socket.step event = some next) : next.Ordered := by
  cases event with
  | performSend message =>
      obtain rfl := Option.some.inj stepped
      exact ordered.performSend message
  | performQueuedSend =>
      obtain ⟨after, sends, afterOrdered⟩ := ordered.performQueuedSend
      obtain rfl := Option.some.inj (sends.symm.trans stepped)
      exact afterOrdered
  | sent message error =>
      obtain ⟨outstanding, completes⟩ := Option.ite_none_right_eq_some.mp stepped
      obtain ⟨after, sends, afterOrdered⟩ := ordered.sent outstanding error
      obtain rfl := Option.some.inj (sends.symm.trans completes)
      exact afterOrdered
  | closeOnStrand cb =>
      obtain rfl := Option.some.inj stepped
      exact ordered.closeOnStrand cb
  | fail error =>
      obtain rfl := Option.some.inj stepped
      exact Accounted.fail ordered.single ordered.performed ordered.written

/-- The byte counter is the total size of the queue. -/
def Counted (socket : ConnectedSocket) : Prop := socket.bytesQueued = socket.queuedBytes

instance : DecidablePred Counted := fun socket => inferInstanceAs (Decidable (socket.bytesQueued = socket.queuedBytes))

/-- This is what the sending side promises between two handlers. -/
structure SendSide (socket : ConnectedSocket) : Prop where
  single : socket.outstanding.length ≤ 1
  inOrder : socket.wire <+: socket.performed
  complete : socket.isOpen = true → socket.outstanding = [] → socket.written = socket.performed
  busy : socket.isOpen = true → socket.sendQueue ≠ [] → socket.outstanding ≠ []
  counted : socket.Counted
  noFatal : socket.performQueuedSend ≠ none ∧
    ∀ message ∈ socket.outstanding, ∀ error, socket.sent message error ≠ none

/-- Only the byte counter is ever wrong. -/
theorem Ordered.sendSide_iff {socket : ConnectedSocket} (ordered : socket.Ordered) :
    socket.SendSide ↔ socket.Counted := by
  constructor
  · exact SendSide.counted
  · intro counted
    have busy (opened : socket.isOpen = true) (queued : socket.sendQueue ≠ []) : socket.outstanding ≠ [] :=
      (ordered.sending opened).mp (ordered.busy opened queued)
    exact {
      single := ordered.single
      inOrder := ordered.performed
      complete := by
        intro opened idle
        have empty : socket.sendQueue = [] := by
          by_contra queued
          exact busy opened queued idle
        have wire := ordered.complete opened
        have whole := ordered.whole opened
        rw [idle, List.append_nil] at wire
        rw [empty, List.append_nil] at whole
        rw [wire, whole]
      busy := busy
      counted := counted
      noFatal := by
        constructor
        · obtain ⟨next, sends, -⟩ := ordered.performQueuedSend
          simp [sends]
        · intro message outstanding error
          obtain ⟨next, completes, -⟩ := ordered.sent outstanding error
          simp [completes]}

end ConnectedSocket

/-- A step fails the socket when it reports an error. -/
def SendStep.Fails : SendStep → Prop
  | .sent _ error => error.isSome = true
  | .fail _ => True
  | _ => False

instance : DecidablePred SendStep.Fails
  | .sent _ error => inferInstanceAs (Decidable (error.isSome = true))
  | .fail _ => isTrue trivial
  | .performSend _ => isFalse id
  | .performQueuedSend => isFalse id
  | .closeOnStrand _ => isFalse id

namespace ConnectedSocket

/-- The socket fails only with no bytes in the queue. -/
def FailsDrained (socket : ConnectedSocket) (event : SendStep) : Prop := event.Fails → socket.queuedBytes = 0

instance (socket : ConnectedSocket) (event : SendStep) : Decidable (socket.FailsDrained event) :=
  inferInstanceAs (Decidable (event.Fails → socket.queuedBytes = 0))

theorem Counted.performSend {socket : ConnectedSocket} (counted : socket.Counted) (message : SerializedMessageOut) :
    (socket.performSend message).1.Counted := by
  unfold ConnectedSocket.performSend
  split
  · exact counted
  · split
    · simp only [Counted, queuedBytes, List.map_append, List.sum_append, List.map_singleton, List.sum_singleton] at *
      rw [counted]
    · exact counted

theorem Counted.performQueuedSend {socket next : ConnectedSocket} (counted : socket.Counted)
    (sends : socket.performQueuedSend = some next) : next.Counted := by
  unfold ConnectedSocket.performQueuedSend at sends
  split at sends
  · obtain rfl := Option.some.inj sends
    exact counted
  · rename_i message rest queue
    split at sends
    · obtain rfl := Option.some.inj sends
      exact counted
    · obtain ⟨-, writes⟩ := Option.ite_none_left_eq_some.mp sends
      obtain rfl := Option.some.inj writes
      simp only [Counted, queuedBytes, queue, List.map_cons, List.sum_cons, asyncWrite] at *
      omega

theorem Counted.closeOnStrand {socket : ConnectedSocket} (counted : socket.Counted) (cb : ℕ) :
    (socket.closeOnStrand cb).Counted := by
  unfold ConnectedSocket.closeOnStrand
  split
  · exact counted
  · exact counted

theorem Counted.sent {socket next : ConnectedSocket} {message : SerializedMessageOut} (counted : socket.Counted)
    (completes : socket.sent message none = some next) : next.Counted := by
  simp only [ConnectedSocket.sent, Option.isSome_none, Bool.false_eq_true, if_false] at completes
  split at completes
  · apply Counted.performQueuedSend _ completes
    exact counted
  · split at completes
    · obtain rfl := Option.some.inj completes
      exact counted
    · obtain rfl := Option.some.inj completes
      exact counted

/-- A failure forgets the queue and keeps the counter. -/
theorem Counted.fail_iff {socket : ConnectedSocket} (counted : socket.Counted) :
    socket.fail.Counted ↔ socket.queuedBytes = 0 := by
  rw [← counted]
  exact Iff.rfl

theorem Counted.step_iff {socket next : ConnectedSocket} {event : SendStep} (counted : socket.Counted)
    (stepped : socket.step event = some next) : next.Counted ↔ socket.FailsDrained event := by
  cases event with
  | performSend message =>
      obtain rfl := Option.some.inj stepped
      exact iff_of_true (counted.performSend message) nofun
  | performQueuedSend => exact iff_of_true (counted.performQueuedSend stepped) nofun
  | sent message error =>
      obtain ⟨outstanding, completes⟩ := Option.ite_none_right_eq_some.mp stepped
      cases error with
      | none => exact iff_of_true (counted.sent completes) nofun
      | some error =>
          obtain rfl := Option.some.inj completes
          exact counted.fail_iff.trans ⟨fun drained _ => drained, fun drained => drained rfl⟩
  | closeOnStrand cb =>
      obtain rfl := Option.some.inj stepped
      exact iff_of_true (counted.closeOnStrand cb) nofun
  | fail error =>
      obtain rfl := Option.some.inj stepped
      exact counted.fail_iff.trans ⟨fun drained _ => drained, fun drained => drained trivial⟩

/-- Along any run the sending side keeps its promises exactly when the socket fails only with an empty queue. -/
theorem everyState_sendSide_iff (events : List SendStep) :
    sendSide.EveryState SendSide new events ↔ sendSide.EveryStep FailsDrained new events := by
  apply EventSystem.everyState_iff Ordered
  · intro socket event next ordered stepped
    exact ordered.step stepped
  · intro socket event next ordered holds stepped
    rw [(ordered.step stepped).sendSide_iff]
    exact holds.counted.step_iff stepped
  · exact new_ordered
  · exact new_ordered.sendSide_iff.mpr rfl

/-- A write that fails with a second message of five bytes in the queue leaves five bytes counted and none queued. -/
theorem sendSide_failure_miscounted :
    ¬∀ events : List SendStep, sendSide.EveryState SendSide new events := by
  intro every
  have run := every [.performSend ⟨0, [0, 0, 0, 1, 7], 5⟩, .performSend ⟨1, [0, 0, 0, 1, 8], 5⟩,
    .sent ⟨0, [0, 0, 0, 1, 7], 5⟩ (some (.network 104))]
  have failed : SendSide _ := ((run.2 _ rfl).2 _ rfl).2 _ rfl
  exact absurd failed.counted (by decide)

end ConnectedSocket

end JetStream
