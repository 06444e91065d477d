import JetStream.Comm.ReceiveSide
import JetStream.Comm.Strands

namespace JetStream

/-- One end sends, with its two strands, and the other end receives. -/
structure Link where
  sender : Strands
  receiver : ReceiveSide

/-- The two ends go on independently, and some of the bytes on the wire arrive. -/
inductive LinkEvent where
  | sender (event : StrandEvent)
  | arrive (count : ℕ)
  | receiver (event : ReceiveEvent)
  deriving DecidableEq

namespace Strands

/-- A write puts as many bytes of its message on the wire as the message says. -/
def wireBytes (strands : Strands) : List UInt8 :=
  strands.socket.wire.flatMap fun message => message.msg.take message.nbytes

/-- The messages that have been accepted, without their headers. -/
def payloads (strands : Strands) : List (List UInt8) :=
  strands.accepted.map fun entry => entry.2.msg.drop SerializedMessageOut.hdrlen

end Strands

namespace Link

def new : Link := ⟨.new, .new⟩

/-- The bytes arrive in the order of the wire, and nothing else arrives. -/
def step (rearms : List UInt8 → Bool) (link : Link) : LinkEvent → Option Link
  | .sender event => do
      let sender ← link.sender.step event
      some {link with sender := sender}
  | .arrive count => do
      let receiver ← link.receiver.step rearms
        (.arrive ((link.sender.wireBytes.drop link.receiver.stream.length).take count))
      some {link with receiver := receiver}
  | .receiver (.arrive _) => none
  | .receiver event => do
      let receiver ← link.receiver.step rearms event
      some {link with receiver := receiver}

def system (rearms : List UInt8 → Bool) : EventSystem Link LinkEvent := ⟨new, step rearms⟩

/-- Nothing is left to do at either end, and all bytes on the wire have arrived. -/
def Rests (rearms : List UInt8 → Bool) (link : Link) : Prop :=
  link.sender.runSend = none ∧ link.sender.complete = none ∧
    link.receiver.stream.length = link.sender.wireBytes.length ∧ link.receiver.Rests rearms

end Link

namespace ConnectedSocket

theorem performQueuedSend_performed {socket next : ConnectedSocket} (sends : socket.performQueuedSend = some next) :
    next.performed = socket.performed ∧ (∃ more, next.wire = socket.wire ++ more) := by
  unfold performQueuedSend at sends
  split at sends
  · obtain rfl := Option.some.inj sends
    exact ⟨rfl, [], (List.append_nil _).symm⟩
  · split_ifs at sends
    · obtain rfl := Option.some.inj sends
      exact ⟨rfl, [], (List.append_nil _).symm⟩
    · obtain rfl := Option.some.inj sends
      exact ⟨rfl, _, rfl⟩

/-- A completion performs nothing new. -/
theorem sent_performed {socket next : ConnectedSocket} {message : SerializedMessageOut}
    (completes : socket.sent message none = some next) :
    next.performed = socket.performed ∧ (∃ more, next.wire = socket.wire ++ more) := by
  unfold sent at completes
  dsimp only at completes
  split_ifs at completes with failed queued closing
  · cases failed
  · have kept := performQueuedSend_performed completes
    exact kept
  · obtain rfl := Option.some.inj completes
    exact ⟨rfl, [], (List.append_nil _).symm⟩
  · obtain rfl := Option.some.inj completes
    exact ⟨rfl, [], (List.append_nil _).symm⟩

theorem performSend_performed (socket : ConnectedSocket) (message : SerializedMessageOut) :
    (socket.performSend message).1.performed = socket.performed ++ [message] ∧
      (∃ more, (socket.performSend message).1.wire = socket.wire ++ more) := by
  unfold performSend
  split_ifs
  · exact ⟨rfl, [], (List.append_nil _).symm⟩
  · exact ⟨rfl, [], (List.append_nil _).symm⟩
  · exact ⟨rfl, _, rfl⟩

theorem closeOnStrand_kept (socket : ConnectedSocket) (cb : ℕ) :
    (socket.closeOnStrand cb).performed = socket.performed ∧ (socket.closeOnStrand cb).wire = socket.wire ∧
      (socket.closeOnStrand cb).outstanding = socket.outstanding := by
  unfold closeOnStrand
  split_ifs <;> exact ⟨rfl, rfl, rfl⟩

end ConnectedSocket

namespace Strands

/-- Every accepted message is performed in its turn, and it is the frame of its payload. -/
structure Sending (strands : Strands) : Prop where
  ordered : strands.socket.Ordered
  accepted : strands.accepted.map Prod.snd = strands.socket.performed ++ strands.waiting
  handlers : strands.completed = [] ∨ strands.completed = strands.socket.outstanding
  frames : ∀ message ∈ strands.accepted.map Prod.snd, ∃ payload : List UInt8, payload.length < 2 ^ 31 ∧
    message.msg = SerializedMessageOut.frame payload ∧ message.nbytes = message.msg.length

variable {strands next : Strands}

theorem new_sending : new.Sending where
  ordered := ConnectedSocket.new_ordered
  accepted := rfl
  handlers := Or.inl rfl
  frames := nofun

/-- A message of this size has a header that tells its length. -/
theorem new_frame {serial : ℕ} {message : List UInt8} {out : SerializedMessageOut} (short : message.length < 2 ^ 31)
    (made : SerializedMessageOut.new serial message = .ok out) :
    out.msg = SerializedMessageOut.frame message ∧ out.nbytes = out.msg.length := by
  unfold SerializedMessageOut.new at made
  split_ifs at made
  obtain rfl := Except.ok.inj made
  refine ⟨rfl, ?_⟩
  have fits : message.length + SerializedMessageOut.hdrlen < 2 ^ 32 := by
    rw [SerializedMessageOut.hdrlen]
    omega
  dsimp only
  rw [← Nat.cast_add, toUInt32_natCast fits, List.length_append, Nat.add_comm]
  rfl

theorem Sending.sendMsg (sending : strands.Sending) (sender : ℕ) {message : List UInt8} (short : message.length < 2 ^ 31) :
    (strands.sendMsg sender message).Sending := by
  unfold Strands.sendMsg
  split
  · exact sending
  · rename_i out made
    have frame : out.msg = SerializedMessageOut.frame message ∧ out.nbytes = out.msg.length := by
      unfold ConnectedSocket.sendMsg at made
      split_ifs at made
      exact new_frame short made
    refine ⟨sending.ordered, ?_, ?_, ?_⟩
    · simp [waiting, sending.accepted]
    · simpa [completed] using sending.handlers
    · intro sent member
      rw [List.map_append, List.mem_append] at member
      rcases member with before | now
      · exact sending.frames sent before
      · rw [List.mem_singleton.mp now]
        exact ⟨message, short, frame⟩

theorem Sending.closeOnStrand (sending : strands.Sending) (cb : ℕ) :
    Sending {strands with socket := strands.socket.closeOnStrand cb} := by
  obtain ⟨performed, -, outstanding⟩ := ConnectedSocket.closeOnStrand_kept strands.socket cb
  refine ⟨sending.ordered.closeOnStrand cb, ?_, ?_, sending.frames⟩
  · dsimp only
    rw [performed]
    exact sending.accepted
  · dsimp only
    rw [outstanding]
    exact sending.handlers

theorem Sending.performSend {message : SerializedMessageOut} {tasks : List SendTask} (sending : strands.Sending)
    (first : strands.sendStrand = .performSend message :: tasks) :
    Sending {strands with
      socket := (strands.socket.performSend message).1
      sendStrand := tasks ++ (strands.socket.performSend message).2} := by
  have ordered := sending.ordered.performSend message
  have all := sending.accepted
  have handlers := sending.handlers
  simp only [waiting, completed, first, List.filterMap_cons] at all handlers
  refine ⟨ordered, ?_, ?_, sending.frames⟩
  · rw [all, (ConnectedSocket.performSend_performed strands.socket message).1, List.append_assoc]
    unfold ConnectedSocket.performSend
    split_ifs <;> simp [waiting]
  · unfold ConnectedSocket.performSend
    split_ifs with closed busy
    · simpa [completed] using handlers
    · simpa [completed] using handlers
    · have opened : strands.socket.isOpen = true := by simpa using closed
      have idle := sending.ordered.outstanding_nil opened (Bool.eq_false_iff.mpr busy)
      rw [idle, or_self] at handlers
      exact Or.inl (by simpa [completed] using handlers)

theorem Sending.sent {message : SerializedMessageOut} {tasks : List SendTask} {socket : ConnectedSocket}
    (sending : strands.Sending) (first : strands.sendStrand = .sent message :: tasks)
    (completes : strands.socket.sent message none = some socket) :
    Sending {strands with socket := socket, sendStrand := tasks} := by
  have handlers := sending.handlers
  have all := sending.accepted
  simp only [waiting, completed, first, List.filterMap_cons] at all handlers
  have posted := handlers.resolve_left (List.cons_ne_nil _ _)
  have outstanding : message ∈ strands.socket.outstanding := posted ▸ List.mem_cons_self
  obtain ⟨after, sends, ordered⟩ := sending.ordered.sent outstanding none
  obtain rfl := Option.some.inj (sends.symm.trans completes)
  refine ⟨ordered, ?_, Or.inl ?_, sending.frames⟩
  · dsimp only
    rw [(ConnectedSocket.sent_performed completes).1]
    exact all
  · exact (List.cons.inj (posted.trans (sending.ordered.outstanding_eq outstanding))).2

theorem Sending.runSend (sending : strands.Sending) (ran : strands.runSend = some next) : next.Sending := by
  unfold Strands.runSend at ran
  split at ran
  · cases ran
  · rename_i message tasks first
    obtain rfl := Option.some.inj ran
    exact sending.performSend first
  · rename_i tasks first
    rw [sending.ordered.performQueuedSend_eq] at ran
    obtain rfl := Option.some.inj ran
    refine ⟨sending.ordered, ?_, ?_, sending.frames⟩
    · simpa [waiting, first] using sending.accepted
    · simpa [completed, first] using sending.handlers
  · rename_i message tasks first
    obtain ⟨socket, completes, rfl⟩ := Option.map_eq_some_iff.mp ran
    exact sending.sent first completes

/-- The write under way completes once. -/
theorem Sending.complete (sending : strands.Sending) (ran : strands.complete = some next) : next.Sending := by
  unfold Strands.complete at ran
  split at ran
  · cases ran
  · rename_i message rest outstanding
    obtain ⟨fresh, posts⟩ := Option.ite_none_left_eq_some.mp ran
    obtain rfl := Option.some.inj posts
    have member : message ∈ strands.socket.outstanding := by
      rw [outstanding]
      exact List.mem_cons_self
    have only := sending.ordered.outstanding_eq member
    have unposted : strands.completed = [] := by
      refine sending.handlers.resolve_right fun posted => fresh ?_
      rw [← posted] at member
      obtain ⟨task, found, same⟩ := List.mem_filterMap.mp member
      cases task with
      | sent other =>
          obtain rfl := Option.some.inj same
          exact found
      | _ => cases same
    refine ⟨sending.ordered, ?_, Or.inr ?_, sending.frames⟩
    · simpa [waiting] using sending.accepted
    · have here : completed {strands with sendStrand := strands.sendStrand ++ [.sent message]} = [message] := by
        rw [completed, List.filterMap_append, ← completed, unposted]
        rfl
      exact here.trans only.symm

/-- The sending keeps its order also in a run that closes the socket too early. -/
theorem Sending.step (sending : strands.Sending) {event : StrandEvent}
    (short : ∀ sender message, event = .sendMsg sender message → message.length < 2 ^ 31)
    (stepped : strands.step event = some next) : next.Sending := by
  cases event with
  | sendMsg sender message =>
      obtain rfl := Option.some.inj stepped
      exact sending.sendMsg sender (short sender message rfl)
  | close sender cb =>
      obtain rfl := Option.some.inj stepped
      exact ⟨sending.ordered, sending.accepted, sending.handlers, sending.frames⟩
  | closeDispatched sender cb =>
      obtain rfl := Option.some.inj stepped
      have closed := sending.closeOnStrand cb
      exact ⟨closed.ordered, closed.accepted, closed.handlers, closed.frames⟩
  | recvMsg =>
      obtain rfl := Option.some.inj stepped
      exact ⟨sending.ordered, sending.accepted, sending.handlers, sending.frames⟩
  | runSend => exact sending.runSend stepped
  | runRecv =>
      have stepped : strands.runRecv = some next := stepped
      unfold Strands.runRecv at stepped
      split at stepped
      · cases stepped
      · rename_i cb tasks first
        obtain rfl := Option.some.inj stepped
        have closed := sending.closeOnStrand cb
        exact ⟨closed.ordered, closed.accepted, closed.handlers, closed.frames⟩
      · obtain rfl := Option.some.inj stepped
        exact ⟨sending.ordered, sending.accepted, sending.handlers, sending.frames⟩
  | complete => exact sending.complete stepped

/-- Nothing that is on the wire is taken back. -/
theorem wire_grows {event : StrandEvent} (stepped : strands.step event = some next) :
    ∃ more, next.socket.wire = strands.socket.wire ++ more := by
  have same {socket : ConnectedSocket} (kept : socket.wire = strands.socket.wire) :
      ∃ more, socket.wire = strands.socket.wire ++ more := ⟨[], by rw [kept, List.append_nil]⟩
  cases event with
  | sendMsg sender message =>
      obtain rfl := Option.some.inj stepped
      refine same ?_
      unfold Strands.sendMsg
      split <;> rfl
  | close sender cb =>
      obtain rfl := Option.some.inj stepped
      exact same rfl
  | closeDispatched sender cb =>
      obtain rfl := Option.some.inj stepped
      exact same (ConnectedSocket.closeOnStrand_kept strands.socket cb).2.1
  | recvMsg =>
      obtain rfl := Option.some.inj stepped
      exact same rfl
  | runSend =>
      have stepped : strands.runSend = some next := stepped
      unfold Strands.runSend at stepped
      split at stepped
      · cases stepped
      · rename_i message tasks first
        obtain rfl := Option.some.inj stepped
        exact (ConnectedSocket.performSend_performed strands.socket message).2
      · rename_i tasks first
        obtain ⟨socket, sends, rfl⟩ := Option.map_eq_some_iff.mp stepped
        exact (ConnectedSocket.performQueuedSend_performed sends).2
      · rename_i message tasks first
        obtain ⟨socket, completes, rfl⟩ := Option.map_eq_some_iff.mp stepped
        exact (ConnectedSocket.sent_performed completes).2
  | runRecv =>
      have stepped : strands.runRecv = some next := stepped
      unfold Strands.runRecv at stepped
      split at stepped
      · cases stepped
      · rename_i cb tasks first
        obtain rfl := Option.some.inj stepped
        exact same (ConnectedSocket.closeOnStrand_kept strands.socket cb).2.1
      · obtain rfl := Option.some.inj stepped
        exact same rfl
  | complete =>
      have stepped : strands.complete = some next := stepped
      unfold Strands.complete at stepped
      split at stepped
      · cases stepped
      · obtain ⟨-, posts⟩ := Option.ite_none_left_eq_some.mp stepped
        obtain rfl := Option.some.inj posts
        exact same rfl

theorem wireBytes_grows {event : StrandEvent} (stepped : strands.step event = some next) :
    strands.wireBytes <+: next.wireBytes := by
  obtain ⟨more, wire⟩ := wire_grows stepped
  rw [wireBytes, wireBytes, wire, List.flatMap_append]
  exact List.prefix_append _ _

theorem Sending.short (sending : strands.Sending) : ∀ payload ∈ strands.payloads, payload.length < 2 ^ 32 := by
  intro payload member
  obtain ⟨entry, found, rfl⟩ := List.mem_map.mp member
  obtain ⟨payload, short, frame, -⟩ := sending.frames entry.2 (List.mem_map_of_mem found)
  rw [frame, SerializedMessageOut.drop_frame]
  exact Nat.lt_trans short (by decide)

/-- The bytes of the messages that have been accepted are the frames of their payloads. -/
theorem Sending.bytes (sending : strands.Sending) :
    ((strands.accepted.map Prod.snd).flatMap fun message => message.msg.take message.nbytes) =
      strands.payloads.flatMap SerializedMessageOut.frame := by
  rw [payloads, List.flatMap_map, List.flatMap_map]
  refine List.flatMap_congr fun entry found => ?_
  obtain ⟨payload, -, frame, size⟩ := sending.frames entry.2 (List.mem_map_of_mem found)
  rw [size, List.take_length, frame, SerializedMessageOut.drop_frame]

theorem Sending.wireBytes (sending : strands.Sending) :
    strands.wireBytes <+: strands.payloads.flatMap SerializedMessageOut.frame := by
  obtain ⟨left, performed⟩ := sending.ordered.performed
  rw [← sending.bytes, sending.accepted, ← performed, Strands.wireBytes, List.append_assoc, List.flatMap_append]
  exact List.prefix_append _ _

/-- An open socket that has nothing to do has put every accepted message on the wire. -/
theorem Sending.rests (sending : strands.Sending) (opened : strands.socket.isOpen = true)
    (noTask : strands.runSend = none) (noWrite : strands.complete = none) :
    strands.wireBytes = strands.payloads.flatMap SerializedMessageOut.frame := by
  have idle : strands.sendStrand = [] := by
    unfold Strands.runSend at noTask
    split at noTask
    · assumption
    · cases noTask
    · rw [sending.ordered.performQueuedSend_eq] at noTask
      cases noTask
    · rename_i message tasks first
      have posted := sending.handlers
      simp only [completed, first, List.filterMap_cons] at posted
      have outstanding : message ∈ strands.socket.outstanding :=
        posted.resolve_left (List.cons_ne_nil _ _) ▸ List.mem_cons_self
      obtain ⟨after, sends, -⟩ := sending.ordered.sent outstanding none
      rw [sends] at noTask
      cases noTask
  have written : strands.socket.outstanding = [] := by
    unfold Strands.complete at noWrite
    split at noWrite
    · assumption
    · rw [idle, if_neg (List.not_mem_nil)] at noWrite
      cases noWrite
  have whole := sending.ordered.complete opened
  rw [written, List.append_nil, sending.ordered.written_eq opened written] at whole
  have nothing : strands.waiting = [] := by rw [waiting, idle, List.filterMap_nil]
  rw [← sending.bytes, sending.accepted, nothing, List.append_nil, whole]
  rfl

end Strands

namespace Link

variable {rearms : List UInt8 → Bool} {link next : Link}

/-- What has arrived is the beginning of what is on the wire. -/
structure Inv (rearms : List UInt8 → Bool) (link : Link) : Prop where
  sending : link.sender.Sending
  receiving : link.receiver.Inv
  arrived : link.receiver.stream <+: link.sender.wireBytes
  armed : (∀ msg ∈ link.receiver.delivered, rearms msg = true) → link.receiver.Armed

theorem new_inv (rearms : List UInt8 → Bool) : new.Inv rearms where
  sending := Strands.new_sending
  receiving := ReceiveSide.new_inv
  arrived := List.prefix_rfl
  armed := fun _ => nofun

/-- Every step at one of the ends, or of the bytes between them, keeps both ends together. -/
theorem Inv.step (inv : link.Inv rearms) {event : LinkEvent}
    (short : ∀ sender message, event = .sender (.sendMsg sender message) → message.length < 2 ^ 31)
    (stepped : link.step rearms event = some next) : next.Inv rearms := by
  have receive {event : ReceiveEvent} {receiver : ReceiveSide} (moved : link.receiver.step rearms event = some receiver)
      (arrived : receiver.stream <+: link.sender.wireBytes) : Inv rearms {link with receiver := receiver} :=
    ⟨inv.sending, inv.receiving.step moved, arrived, fun always =>
      (inv.armed fun msg before => always msg ((ReceiveSide.step_delivered moved).subset before)).step inv.receiving
        always moved⟩
  have here (event : ReceiveEvent) (other : ∀ bytes, event ≠ .arrive bytes)
      (stepped : (link.receiver.step rearms event).bind (fun receiver => some {link with receiver := receiver}) =
        some next) : next.Inv rearms := by
    obtain ⟨receiver, moved, stepped⟩ := Option.bind_eq_some_iff.mp stepped
    obtain rfl := Option.some.inj stepped
    refine receive moved ?_
    rw [ReceiveSide.step_stream moved other]
    exact inv.arrived
  cases event with
  | sender event =>
      simp only [Link.step, Option.bind_eq_bind, Option.bind_eq_some_iff] at stepped
      obtain ⟨sender, moved, stepped⟩ := stepped
      obtain rfl := Option.some.inj stepped
      refine ⟨inv.sending.step ?_ moved, inv.receiving, inv.arrived.trans (Strands.wireBytes_grows moved), inv.armed⟩
      rintro sender message rfl
      exact short sender message rfl
  | arrive count =>
      simp only [Link.step, Option.bind_eq_bind, Option.bind_eq_some_iff] at stepped
      obtain ⟨receiver, moved, stepped⟩ := stepped
      obtain rfl := Option.some.inj stepped
      refine receive moved ?_
      obtain ⟨left, wire⟩ := inv.arrived
      obtain rfl := Option.some.inj moved
      dsimp only
      rw [← wire, List.drop_left]
      exact (List.prefix_append_right_inj _).mpr (List.take_prefix count left)
  | receiver event =>
      cases event with
      | arrive bytes => cases stepped
      | recvMsg => exact here .recvMsg nofun stepped
      | performRecv => exact here .performRecv nofun stepped
      | readCompletes read => exact here (.readCompletes read) nofun stepped
      | readFails read error => exact here (.readFails read error) nofun stepped
      | received read => exact here (.received read) nofun stepped
      | closeOnStrand cb => exact here (.closeOnStrand cb) nofun stepped
      | sendSide event => exact here (.sendSide event) nofun stepped

theorem Inv.run (inv : link.Inv rearms) {events : List LinkEvent}
    (short : ∀ sender message, .sender (.sendMsg sender message) ∈ events → message.length < 2 ^ 31)
    (ran : (system rearms).runFrom link events = some next) : next.Inv rearms := by
  induction events generalizing link with
  | nil =>
      obtain rfl := Option.some.inj ran
      exact inv
  | cons event events ih =>
      rw [EventSystem.runFrom_cons, Option.bind_eq_some_iff] at ran
      obtain ⟨middle, stepped, rest⟩ := ran
      have first := inv.step (fun sender message same => short sender message (same ▸ List.mem_cons_self)) stepped
      exact ih first (fun sender message member => short sender message (List.mem_cons_of_mem _ member)) rest

/-- The messages that have been delivered are the first of those that were accepted. -/
theorem Inv.delivered (inv : link.Inv rearms) {left : List UInt8}
    (stream : link.sender.payloads.flatMap SerializedMessageOut.frame =
      link.receiver.delivered.flatMap SerializedMessageOut.frame ++ left) :
    ∃ others, link.sender.payloads = link.receiver.delivered ++ others ∧
      left = others.flatMap SerializedMessageOut.frame := by
  obtain ⟨results, past, current, begun, ledger, -⟩ := inv.receiving
  exact SerializedMessageOut.frame_prefixFree.flatMap_append
    (fun payload _ => SerializedMessageOut.frame_ne_nil payload) (fun payload member => (ledger.words payload member).2)
    inv.sending.short stream.symm

/-- This is what a connection promises about every run. An empty message ends it. -/
structure Transfers (rearms : List UInt8 → Bool) (link : Link) : Prop where
  single : (link.receiver.reads.filter AsyncOp.unfinished).length ≤ 1
  inOrder : link.receiver.delivered <+: link.sender.payloads.takeWhile (· ≠ [])
  complete : link.Rests rearms → (∀ msg, rearms msg = true) → link.receiver.recvcb = true →
    link.sender.socket.isOpen = true → link.receiver.socket.isOpen = true →
    link.receiver.delivered = link.sender.payloads

theorem Inv.inOrder (inv : link.Inv rearms) : link.receiver.delivered <+: link.sender.payloads.takeWhile (· ≠ []) := by
  obtain ⟨results, past, current, begun, ledger, -⟩ := inv.receiving
  obtain ⟨left, wire⟩ := inv.arrived.trans inv.sending.wireBytes
  rw [ledger.stream, List.append_assoc, List.append_assoc] at wire
  obtain ⟨others, split, -⟩ := inv.delivered wire.symm
  rw [split, List.takeWhile_append_of_pos]
  · exact List.prefix_append _ _
  · intro payload member
    exact decide_eq_true (ledger.words payload member).1

/-- A connection that rests has nothing left to deliver, since a whole frame would have been read. -/
theorem Inv.complete (inv : link.Inv rearms) (rests : link.Rests rearms)
    (always : ∀ msg ∈ link.receiver.delivered, rearms msg = true)
    (wanted : link.receiver.recvcb = true) (sends : link.sender.socket.isOpen = true)
    (receives : link.receiver.socket.isOpen = true) : link.receiver.delivered = link.sender.payloads := by
  obtain ⟨noTask, noWrite, all, receiver⟩ := rests
  obtain ⟨target, begun, before, stream, short⟩ := inv.receiving.waits (inv.armed always) receiver wanted receives
  have wire := inv.arrived.eq_of_length all
  rw [inv.sending.rests sends noTask noWrite, stream, List.append_assoc] at wire
  obtain ⟨others, split, left⟩ := inv.delivered wire.symm
  cases others with
  | nil => rw [split, List.append_nil]
  | cons payload others =>
      have fits : payload.length < 2 ^ 32 := by
        refine inv.sending.short payload ?_
        rw [split]
        exact List.mem_append_right _ List.mem_cons_self
      rw [List.flatMap_cons, SerializedMessageOut.frame, List.append_assoc] at left
      cases before with
      | header =>
          rw [List.nil_append] at left
          rw [left, List.length_append] at short
          exact absurd short (by simp [ReadTarget.size])
      | body len positive small =>
          obtain ⟨headers, rest⟩ := List.append_inj left rfl
          have same : len = payload.length := by
            rw [← SerializedMessageOut.ntohl_htonl small, headers, SerializedMessageOut.ntohl_htonl fits]
          rw [rest, List.length_append, ReadTarget.size, same] at short
          exact absurd short (Nat.not_lt.mpr (Nat.le_add_right _ _))

/-- Whatever the two ends and the network do, the messages that are delivered are the accepted ones in order, and on an
open connection that rests they are all of them. -/
theorem link_transfers (rearms : List UInt8 → Bool) (events : List LinkEvent) (link : Link)
    (short : ∀ sender message, .sender (.sendMsg sender message) ∈ events → message.length < 2 ^ 31)
    (ran : (system rearms).runFrom new events = some link) : link.Transfers rearms := by
  have inv := (new_inv rearms).run short ran
  exact ⟨inv.receiving.single, inv.inOrder, fun rests always => inv.complete rests fun msg _ => always msg⟩

/-- The frame of one message arrives in two pieces. -/
def twoPieces : List LinkEvent :=
  [.receiver .recvMsg, .receiver .performRecv, .sender (.sendMsg 0 [7]), .sender .runSend, .arrive 2, .arrive 3,
    .receiver (.readCompletes 0), .receiver (.received 0), .receiver (.readCompletes 1), .receiver (.received 1)]

theorem link_transfers_twoPieces : ∃ link, (system fun _ => true).runFrom new twoPieces = some link ∧
    link.receiver.delivered = [[7]] ∧ link.Transfers fun _ => true := by
  refine ⟨_, rfl, rfl, link_transfers _ twoPieces _ ?_ rfl⟩
  intro sender message member
  simp only [twoPieces, List.mem_cons, reduceCtorEq, LinkEvent.sender.injEq, StrandEvent.sendMsg.injEq, false_or,
    List.not_mem_nil, or_false] at member
  rw [member.2]
  decide

end Link

end JetStream
