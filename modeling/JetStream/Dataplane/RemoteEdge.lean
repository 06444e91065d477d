import JetStream.Comm.Link
import JetStream.Dataplane.IncomingConnection
import Mathlib.Data.List.Infix

namespace JetStream

/-- Messages go over the wire as bytes, tuples have elements, and each code of other metadata belongs to one message, which
is never the last one. -/
structure WireCodec (T : Type) where
  eSize : T → ℕ
  encode : WireMessage T → List UInt8
  parse : List UInt8 → WireMessage T
  others : ℕ → WireMessage T
  routine : ∀ code, (others code).type ≠ .noMoreData

/-- An edge between two nodes has an adaptor at one end and an incoming connection at the other. The adaptor has handed
some of its messages over to the connection between them, and the network decides which of its sends fail. -/
structure RemoteEdge (T : Type) where
  adaptor : RemoteDestSend T
  handed : ℕ
  link : Link
  incoming : IncomingConnection T

/-- The adaptor's chains, its connection, the network and the receiving chain go on independently. -/
inductive RemoteEdgeEvent (T : Type) where
  | adaptor (event : RemoteDestEvent T)
  | handOver
  | link (event : LinkEvent)
  | metaFromDownstream (msg : WireMessage T) (isConnected fails : Bool)

namespace RemoteEdgeEvent

/-- The adaptor is given tuples or metadata. -/
def feeds {T : Type} : RemoteEdgeEvent T → Bool
  | .adaptor (.process _ _ _ _) => true
  | _ => false

end RemoteEdgeEvent

namespace WireCodec

variable {T : Type}

/-- The adaptor sends data, the ends of windows, other metadata and its last message. -/
def wire (codec : WireCodec T) : SentMessage T → WireMessage T
  | .data tuples => ⟨.data, tuples, none⟩
  | .metadata msg _ => match msg.type with
    | .endOfWindow => ⟨.endOfWindow, [], msg.windowLengthMs⟩
    | .noMoreData => ⟨.noMoreData, [], none⟩
    | .other code => codec.others code
  | .noMoreData => ⟨.noMoreData, [], none⟩

def bytes (codec : WireCodec T) (msg : SentMessage T) : List UInt8 := codec.encode (codec.wire msg)

/-- The callback asks for the next message unless it has closed the connection. -/
def rearms (codec : WireCodec T) (payload : List UInt8) : Bool := (codec.parse payload).type ≠ .noMoreData

/-- A message comes out as it went in, with some bytes but not too many for the header. -/
structure Carries (codec : WireCodec T) (msg : SentMessage T) : Prop where
  roundTrip : codec.parse (codec.bytes msg) = codec.wire msg
  nonempty : codec.bytes msg ≠ []
  short : (codec.bytes msg).length < 2 ^ 31

/-- The receiving chain is to take these items in for what the adaptor was given. -/
def items (codec : WireCodec T) : GivenItem T → List (ChainItem T)
  | .tuple t => [.tuple t]
  | .metadata msg => (codec.wire (.metadata msg none)).items

end WireCodec

namespace LinkEvent

/-- A message is handed over to the connection. -/
def isSendMsg : LinkEvent → Bool
  | .sender (.sendMsg _ _) => true
  | _ => false

theorem ne_sendMsg {event : LinkEvent} (other : event.isSendMsg = false) (sender : ℕ) (message : List UInt8) :
    event ≠ .sender (.sendMsg sender message) := by
  rintro rfl
  cases other

end LinkEvent

namespace RemoteEdge

variable {T : Type}

/-- The receiver has asked for its first message. -/
def new (chains : List (Option ℕ)) : RemoteEdge T :=
  ⟨.new chains, 0, {Link.new with receiver := {ReceiveSide.new with recvcb := true, posted := 1}}, .new⟩

/-- The results of the reads go to the callback at once. -/
def withLink (codec : WireCodec T) (edge : RemoteEdge T) (link : Link) : RemoteEdge T := {edge with
  link := link
  incoming := ((link.receiver.calls.drop edge.link.receiver.calls.length).map (Except.map codec.parse)).foldl
    (IncomingConnection.gotDataCb codec.eSize) edge.incoming}

/-- A receiver that has ended takes no step, and only the adaptor sends on the connection. -/
def step (codec : WireCodec T) (byteSize : T → ℕ) (edge : RemoteEdge T) (event : RemoteEdgeEvent T) :
    Option (RemoteEdge T) :=
  if edge.incoming.fatal then none
  else match event with
    | .adaptor event => do
        let adaptor ← edge.adaptor.step byteSize event
        some {edge with adaptor := adaptor}
    | .handOver => do
        let msg ← edge.adaptor.sent[edge.handed]?
        some {edge with
          handed := edge.handed + 1
          link := {edge.link with sender := edge.link.sender.sendMsg 0 (codec.bytes msg)}}
    | .link event =>
        if event.isSendMsg then none
        else do
          let link ← edge.link.step codec.rearms event
          some (edge.withLink codec link)
    | .metaFromDownstream msg isConnected fails =>
        some {edge with incoming := edge.incoming.metaFromDownstream msg isConnected fails}

def system (codec : WireCodec T) (byteSize : T → ℕ) (chains : List (Option ℕ)) :
    EventSystem (RemoteEdge T) (RemoteEdgeEvent T) := ⟨new chains, step codec byteSize⟩

/-- Everything that was sent has been handed over and has arrived. -/
def Rests (codec : WireCodec T) (edge : RemoteEdge T) : Prop :=
  edge.handed = edge.adaptor.sent.length ∧ edge.link.Rests codec.rearms

/-- Every tuple that was sent has an element. -/
def Filled (codec : WireCodec T) (edge : RemoteEdge T) : Prop :=
  ∀ msg ∈ edge.adaptor.sent, ∀ t ∈ (codec.wire msg).data, codec.eSize t ≠ 0

/-- The adaptor has nothing left in its buffer. -/
def Flushed (edge : RemoteEdge T) : Prop :=
  edge.adaptor.isStopping = false ∧ edge.adaptor.halt = none ∧ edge.adaptor.outBufferMsg = []

end RemoteEdge

namespace ConnectedSocket

/-- The socket takes messages from its owner. -/
def Accepting (socket : ConnectedSocket) : Prop := socket.isOpen = true ∧ socket.sockState = .csOpen

theorem closeNow_refuses (socket : ConnectedSocket) : ¬ socket.closeNow.Accepting := by
  rintro ⟨opened, -⟩
  cases opened

theorem closeOnStrand_refuses (socket : ConnectedSocket) (cb : ℕ) : ¬ (socket.closeOnStrand cb).Accepting := by
  unfold closeOnStrand
  split_ifs
  · rintro ⟨-, state⟩
    cases state
  · exact closeNow_refuses _

theorem performSend_accepting {socket : ConnectedSocket} {message : SerializedMessageOut} :
    (socket.performSend message).1.Accepting ↔ socket.Accepting := by
  unfold performSend
  split_ifs <;> exact Iff.rfl

theorem performQueuedSend_accepting {socket next : ConnectedSocket} (sends : socket.performQueuedSend = some next) :
    next.Accepting ↔ socket.Accepting := by
  unfold performQueuedSend at sends
  split at sends
  · obtain rfl := Option.some.inj sends
    exact Iff.rfl
  · split_ifs at sends
    · obtain rfl := Option.some.inj sends
      exact Iff.rfl
    · obtain rfl := Option.some.inj sends
      exact Iff.rfl

theorem sent_accepting {socket next : ConnectedSocket} {message : SerializedMessageOut}
    (completes : socket.sent message none = some next) (accepting : next.Accepting) : socket.Accepting := by
  unfold sent at completes
  dsimp only at completes
  split_ifs at completes with failed queued closing
  · cases failed
  · exact (performQueuedSend_accepting completes).mp accepting
  · obtain rfl := Option.some.inj completes
    exact absurd accepting (closeNow_refuses _)
  · obtain rfl := Option.some.inj completes
    exact accepting

end ConnectedSocket

namespace Strands

variable {strands next : Strands}

/-- A message is the next payload, unless the socket refuses it. -/
theorem sendMsg_payloads (strands : Strands) (sender : ℕ) {message : List UInt8} (short : message.length < 2 ^ 31) :
    (strands.socket.Accepting ∧ (strands.sendMsg sender message).payloads = strands.payloads ++ [message]) ∨
      (¬ strands.socket.Accepting ∧ strands.sendMsg sender message = strands) := by
  have fits : ¬ SerializedMessageOut.maxUInt32 < message.length := by
    rw [SerializedMessageOut.maxUInt32]
    omega
  by_cases accepting : strands.socket.Accepting
  · left
    refine ⟨accepting, ?_⟩
    obtain ⟨opened, state⟩ := accepting
    simp [Strands.sendMsg, ConnectedSocket.sendMsg, SerializedMessageOut.new, opened, state, fits, payloads,
      SerializedMessageOut.htonl, SerializedMessageOut.hdrlen]
  · right
    refine ⟨accepting, ?_⟩
    unfold Strands.sendMsg ConnectedSocket.sendMsg
    by_cases opened : strands.socket.isOpen = true
    · have state : strands.socket.sockState ≠ .csOpen := fun state => accepting ⟨opened, state⟩
      rw [opened, Bool.not_true, if_neg Bool.false_ne_true, if_pos state]
    · rw [Bool.eq_false_iff.mpr opened, Bool.not_false, if_pos rfl]

/-- Only a new message is accepted, and a socket that refuses messages goes on to refuse them. -/
theorem step_payloads {event : StrandEvent} (other : ∀ sender message, event ≠ .sendMsg sender message)
    (stepped : strands.step event = some next) :
    next.payloads = strands.payloads ∧ (next.socket.Accepting → strands.socket.Accepting) := by
  cases event with
  | sendMsg sender message => exact absurd rfl (other sender message)
  | close sender cb =>
      obtain rfl := Option.some.inj stepped
      exact ⟨rfl, id⟩
  | closeDispatched sender cb =>
      obtain rfl := Option.some.inj stepped
      exact ⟨rfl, fun accepting => absurd accepting (ConnectedSocket.closeOnStrand_refuses _ _)⟩
  | recvMsg =>
      obtain rfl := Option.some.inj stepped
      exact ⟨rfl, id⟩
  | runSend =>
      have stepped : strands.runSend = some next := stepped
      unfold Strands.runSend at stepped
      split at stepped
      · cases stepped
      · obtain rfl := Option.some.inj stepped
        exact ⟨rfl, ConnectedSocket.performSend_accepting.mp⟩
      · obtain ⟨socket, sends, rfl⟩ := Option.map_eq_some_iff.mp stepped
        exact ⟨rfl, (ConnectedSocket.performQueuedSend_accepting sends).mp⟩
      · obtain ⟨socket, completes, rfl⟩ := Option.map_eq_some_iff.mp stepped
        exact ⟨rfl, ConnectedSocket.sent_accepting completes⟩
  | runRecv =>
      have stepped : strands.runRecv = some next := stepped
      unfold Strands.runRecv at stepped
      split at stepped
      · cases stepped
      · obtain rfl := Option.some.inj stepped
        exact ⟨rfl, fun accepting => absurd accepting (ConnectedSocket.closeOnStrand_refuses _ _)⟩
      · obtain rfl := Option.some.inj stepped
        exact ⟨rfl, id⟩
  | complete =>
      have stepped : strands.complete = some next := stepped
      unfold Strands.complete at stepped
      split at stepped
      · cases stepped
      · obtain ⟨-, posts⟩ := Option.ite_none_left_eq_some.mp stepped
        obtain rfl := Option.some.inj posts
        exact ⟨rfl, id⟩

end Strands

namespace Link

variable {rearms : List UInt8 → Bool} {link next : Link}

theorem step_receiver {event : ReceiveEvent} (stepped : link.step rearms (.receiver event) = some next) :
    ∃ receiver, link.receiver.step rearms event = some receiver ∧ next = {link with receiver := receiver} := by
  cases event with
  | arrive bytes => cases stepped
  | _ =>
      simp only [Link.step, Option.bind_eq_bind, Option.bind_eq_some_iff] at stepped
      obtain ⟨receiver, moved, stepped⟩ := stepped
      exact ⟨receiver, moved, (Option.some.inj stepped).symm⟩

end Link

namespace RemoteDestSend

variable {T : Type} {byteSize : T → ℕ} {adaptor next last : RemoteDestSend T}

/-- The adaptor has sent more, without what it was given, and no routine metadata is the last message. -/
structure Adds (adaptor next : RemoteDestSend T) : Prop where
  given : next.given = adaptor.given
  sent : ∃ new, next.sent = adaptor.sent ++ new ∧
    ∀ msg timestamp, SentMessage.metadata msg timestamp ∈ new → msg.type ≠ .noMoreData

theorem adds_of_sent (given : next.given = adaptor.given) (same : next.sent = adaptor.sent) : adaptor.Adds next :=
  ⟨given, [], by rw [same, List.append_nil], nofun⟩

theorem Adds.trans (first : adaptor.Adds next) (second : next.Adds last) : adaptor.Adds last := by
  obtain ⟨given, new, sent, routine⟩ := first
  obtain ⟨later, more, also, alsoRoutine⟩ := second
  refine ⟨later.trans given, new ++ more, by rw [also, sent, List.append_assoc], ?_⟩
  intro msg timestamp member
  rcases List.mem_append.mp member with before | after
  · exact routine msg timestamp before
  · exact alsoRoutine msg timestamp after

theorem Adds.andThen {rest : RemoteDestSend T → RemoteDestSend T} (first : adaptor.Adds next)
    (second : next.Adds (rest next)) : adaptor.Adds (next.andThen rest) := by
  unfold RemoteDestSend.andThen
  split_ifs
  · exact first
  · exact first.trans second

theorem Adds.useConn (adds : adaptor.Adds next) : adaptor.Adds (adaptor.useConn next) := by
  unfold RemoteDestSend.useConn
  split_ifs
  · exact adds
  · exact adds_of_sent rfl rfl

theorem sendMsg_adds (adaptor : RemoteDestSend T) {msg : SentMessage T}
    (routine : ∀ metadata timestamp, msg = .metadata metadata timestamp → metadata.type ≠ .noMoreData) :
    adaptor.Adds (adaptor.sendMsg msg) := by
  refine Adds.useConn ⟨rfl, [msg], rfl, ?_⟩
  intro metadata timestamp member
  exact routine metadata timestamp (List.mem_singleton.mp member).symm

theorem connectionBroken_adds (adaptor : RemoteDestSend T) : adaptor.Adds adaptor.connectionBroken := by
  unfold connectionBroken
  split_ifs
  · exact adds_of_sent rfl rfl
  · exact adds_of_sent rfl rfl

theorem doSendUnlocked_adds (adaptor : RemoteDestSend T) (fails : Bool) : adaptor.Adds (adaptor.doSendUnlocked fails) := by
  have starts : adaptor.Adds {adaptor with thisBufSize := 0} := adds_of_sent rfl rfl
  have sends : adaptor.Adds (sendMsg {adaptor with thisBufSize := 0} (.data adaptor.outBufferMsg)) :=
    starts.trans (sendMsg_adds _ nofun)
  refine sends.andThen ?_
  generalize sendMsg {adaptor with thisBufSize := 0} (.data adaptor.outBufferMsg) = sender
  have empties : sender.Adds {sender with outBufferMsg := []} := adds_of_sent rfl rfl
  cases fails with
  | true => exact (empties.trans (connectionBroken_adds _)).trans (Adds.useConn (adds_of_sent rfl rfl))
  | false => exact empties

theorem forceSend_adds (adaptor : RemoteDestSend T) (fails : Bool) : adaptor.Adds (adaptor.forceSend fails) := by
  unfold forceSend
  split_ifs
  · exact adds_of_sent rfl rfl
  · exact doSendUnlocked_adds adaptor fails

/-- The end of the data is no routine metadata. -/
theorem metaFromUpstream_adds (adaptor : RemoteDestSend T) (msg : MetaMessage) (now : UInt64) :
    adaptor.Adds (adaptor.metaFromUpstream msg now) := by
  unfold metaFromUpstream
  split_ifs with last
  · exact adds_of_sent rfl rfl
  · refine sendMsg_adds adaptor ?_
    rintro metadata timestamp ⟨⟩
    exact last
  · have sends : adaptor.Adds {adaptor with noWindowStarted := true} := adds_of_sent rfl rfl
    refine sends.trans (sendMsg_adds _ ?_)
    rintro metadata timestamp ⟨⟩
    exact last
  · refine sendMsg_adds adaptor ?_
    rintro metadata timestamp ⟨⟩
    exact last

theorem startWindow_adds (adaptor : RemoteDestSend T) : adaptor.Adds adaptor.startWindow := by
  have starts : adaptor.Adds {adaptor with noWindowStarted := false} := adds_of_sent rfl rfl
  unfold startWindow
  split_ifs
  · exact starts.trans (sendMsg_adds _ nofun)
  · exact adds_of_sent rfl rfl

theorem process_adds (adaptor : RemoteDestSend T) (tuples : List (Option T)) (msg : Option MetaMessage) (now : UInt64)
    (fails : Bool) : Adds {adaptor with given := adaptor.given ++ givenBy tuples msg}
      (adaptor.process byteSize tuples msg now fails) := by
  unfold process
  dsimp only
  split_ifs
  · exact adds_of_sent rfl rfl
  · refine (startWindow_adds _).andThen ?_
    generalize startWindow {adaptor with given := adaptor.given ++ givenBy tuples msg} = started
    have gathers : started.Adds (started.addTuples byteSize tuples) := adds_of_sent rfl rfl
    cases msg with
    | some msg => exact (gathers.trans (doSendUnlocked_adds _ fails)).andThen (metaFromUpstream_adds _ msg now)
    | none =>
        dsimp only
        split_ifs
        · exact gathers.trans (doSendUnlocked_adds _ fails)
        · exact gathers

theorem chainStopping_adds (adaptor : RemoteDestSend T) (chain : ℕ) (isConnected fails : Bool) :
    adaptor.Adds (adaptor.chainStopping chain isConnected fails) := by
  have removes : adaptor.Adds (adaptor.removeChain chain) := adds_of_sent rfl rfl
  unfold chainStopping
  dsimp only
  split_ifs
  · exact adds_of_sent rfl rfl
  · exact removes.andThen (Adds.useConn (adds_of_sent rfl rfl))
  · have sends : adaptor.Adds ((adaptor.removeChain chain).forceSend fails) := removes.trans (forceSend_adds _ fails)
    exact (sends.andThen (@sendMsg_adds T _ .noMoreData nofun)).andThen (Adds.useConn (adds_of_sent rfl rfl))
  · exact removes

/-- A call of the chain gives the adaptor these items. -/
def givenIn : RemoteDestEvent T → List (GivenItem T)
  | .process tuples msg _ _ => givenBy tuples msg
  | _ => []

/-- Nothing that was sent is taken back, and only the chain gives the adaptor more. -/
theorem step_adds {event : RemoteDestEvent T} (stepped : adaptor.step byteSize event = some next) :
    Adds {adaptor with given := adaptor.given ++ givenIn event} next := by
  obtain ⟨-, stepped⟩ := Option.ite_none_left_eq_some.mp stepped
  have same : Adds {adaptor with given := adaptor.given ++ []} adaptor :=
    adds_of_sent (List.append_nil _).symm rfl
  cases event with
  | process tuples msg now fails =>
      obtain rfl := Option.some.inj stepped
      exact process_adds adaptor tuples msg now fails
  | forceSend fails =>
      obtain rfl := Option.some.inj stepped
      exact same.trans (forceSend_adds adaptor fails)
  | connectionBroken =>
      obtain rfl := Option.some.inj stepped
      exact same.trans (connectionBroken_adds adaptor)
  | chainStopping chain isConnected fails =>
      obtain rfl := Option.some.inj stepped
      exact same.trans (chainStopping_adds adaptor chain isConnected fails)

end RemoteDestSend

namespace WireCodec

variable {T : Type} {codec : WireCodec T}

/-- The receiving chain gets the items of a message that was sent. -/
theorem wire_items (msg : SentMessage T) : (codec.wire msg).items = (RemoteDestSend.items msg).flatMap codec.items := by
  cases msg with
  | data tuples =>
      rw [RemoteDestSend.items, List.flatMap_map]
      exact List.map_eq_flatMap
  | metadata msg timestamp =>
      rw [RemoteDestSend.items, List.flatMap_singleton]
      rfl
  | noMoreData => rfl

theorem sent_items (sent : List (SentMessage T)) :
    (sent.map codec.wire).flatMap WireMessage.items = (sent.flatMap RemoteDestSend.items).flatMap codec.items := by
  rw [List.flatMap_map, List.flatMap_assoc]
  exact congrArg (sent.flatMap ·) (funext fun msg => wire_items msg)

/-- Only the last message of the adaptor ends the receiving chain. -/
theorem wire_type {msg : SentMessage T} (routine : ∀ metadata timestamp, msg = .metadata metadata timestamp →
    metadata.type ≠ .noMoreData) : (codec.wire msg).type = .noMoreData ↔ msg = .noMoreData := by
  cases msg with
  | data tuples => exact ⟨nofun, nofun⟩
  | metadata msg timestamp =>
      refine ⟨fun last => ?_, nofun⟩
      unfold wire at last
      dsimp only at last
      split at last
      · cases last
      · rename_i type
        exact absurd type (routine msg timestamp rfl)
      · rename_i code type
        exact absurd last (codec.routine code)
  | noMoreData => exact ⟨fun _ => rfl, fun _ => rfl⟩

end WireCodec

namespace RemoteEdge

variable {T : Type} {codec : WireCodec T} {byteSize : T → ℕ} {edge next : RemoteEdge T}

/-- The payloads are the messages that were handed over until the socket refused one, and the chain follows those that have
been delivered. -/
structure Inv (codec : WireCodec T) (edge : RemoteEdge T) : Prop where
  link : edge.link.Inv codec.rearms
  handed : edge.handed ≤ edge.adaptor.sent.length
  accepted : edge.link.sender.payloads <+: (edge.adaptor.sent.take edge.handed).map codec.bytes
  accepting : edge.link.sender.socket.Accepting →
    edge.link.sender.payloads = (edge.adaptor.sent.take edge.handed).map codec.bytes
  wanted : edge.link.receiver.recvcb = true
  incoming : edge.incoming.Follows codec.eSize (edge.link.receiver.delivered.map codec.parse)

/-- The adaptor keeps its order, and no routine metadata that it sent is the last message. -/
structure Sender (edge : RemoteEdge T) : Prop where
  ordered : edge.adaptor.Ordered
  routine : ∀ msg timestamp, SentMessage.metadata msg timestamp ∈ edge.adaptor.sent → msg.type ≠ .noMoreData

theorem new_sender (chains : List (Option ℕ)) : (new chains : RemoteEdge T).Sender :=
  ⟨RemoteDestSend.new_ordered chains, nofun⟩

theorem new_inv (codec : WireCodec T) (chains : List (Option ℕ)) : (new chains).Inv codec where
  link := ⟨Strands.new_sending, ⟨[], [], none, [], ⟨rfl, rfl, rfl, rfl, nofun, fun _ => rfl⟩, .idle [] fun _ => rfl⟩,
    List.prefix_rfl, fun _ _ _ => Or.inl Nat.one_ne_zero⟩
  handed := Nat.le_refl _
  accepted := List.prefix_rfl
  accepting := fun _ => rfl
  wanted := rfl
  incoming := IncomingConnection.new_follows

/-- The link's own steps accept no message. -/
theorem Inv.withLink (inv : edge.Inv codec) {event : LinkEvent} {link : Link}
    (other : ∀ sender message, event ≠ .sender (.sendMsg sender message))
    (stepped : edge.link.step codec.rearms event = some link) : (edge.withLink codec link).Inv codec := by
  have after : link.Inv codec.rearms :=
    inv.link.step (fun sender message same => absurd same (other sender message)) stepped
  have ends : link.sender.payloads = edge.link.sender.payloads ∧
      (link.sender.socket.Accepting → edge.link.sender.socket.Accepting) ∧
      (∃ more, link.receiver.calls = edge.link.receiver.calls ++ more) ∧
      (edge.link.receiver.recvcb = true → link.receiver.recvcb = true) := by
    have receives {event : ReceiveEvent} {receiver : ReceiveSide}
        (moved : edge.link.receiver.step codec.rearms event = some receiver)
        (same : link = {edge.link with receiver := receiver}) :
        link.sender.payloads = edge.link.sender.payloads ∧
          (link.sender.socket.Accepting → edge.link.sender.socket.Accepting) ∧
          (∃ more, link.receiver.calls = edge.link.receiver.calls ++ more) ∧
          (edge.link.receiver.recvcb = true → link.receiver.recvcb = true) := by
      subst same
      exact ⟨rfl, id, ReceiveSide.step_calls moved⟩
    cases event with
    | sender event =>
        simp only [Link.step, Option.bind_eq_bind, Option.bind_eq_some_iff] at stepped
        obtain ⟨sender, moved, stepped⟩ := stepped
        obtain rfl := Option.some.inj stepped
        obtain ⟨payloads, accepting⟩ := Strands.step_payloads (fun sender message same => other sender message (same ▸ rfl)) moved
        exact ⟨payloads, accepting, ⟨[], (List.append_nil _).symm⟩, id⟩
    | arrive count =>
        simp only [Link.step, Option.bind_eq_bind, Option.bind_eq_some_iff] at stepped
        obtain ⟨receiver, moved, stepped⟩ := stepped
        exact receives moved (Option.some.inj stepped).symm
    | receiver event =>
        obtain ⟨receiver, moved, same⟩ := Link.step_receiver stepped
        exact receives moved same
  obtain ⟨payloads, accepting, ⟨more, calls⟩, wants⟩ := ends
  refine ⟨after, inv.handed, ?_, ?_, wants inv.wanted, ?_⟩
  · exact payloads ▸ inv.accepted
  · intro accepts
    exact payloads.trans (inv.accepting (accepting accepts))
  · have heard := inv.incoming.gotAll (more.map (Except.map codec.parse))
    have delivered : edge.link.receiver.delivered.map codec.parse ++
        (more.map (Except.map codec.parse)).filterMap Except.toOption = link.receiver.delivered.map codec.parse := by
      have each : Except.toOption ∘ Except.map codec.parse =
          fun result : Except RecvError (List UInt8) => result.toOption.map codec.parse := by
        funext result
        cases result <;> rfl
      have rest : more.filterMap (fun result => result.toOption.map codec.parse) =
          (more.filterMap Except.toOption).map codec.parse := List.map_filterMap.symm
      rw [ReceiveSide.delivered, ReceiveSide.delivered, calls, List.filterMap_append, List.map_append, List.filterMap_map,
        each, rest]
    rw [delivered] at heard
    rw [RemoteEdge.withLink, calls, List.drop_left]
    exact heard

/-- A message that is handed over is accepted, unless the socket refuses everything from now on. -/
theorem Inv.handOver (inv : edge.Inv codec) {msg : SentMessage T} (read : edge.adaptor.sent[edge.handed]? = some msg)
    (carries : codec.Carries msg) :
    Inv codec {edge with
      handed := edge.handed + 1
      link := {edge.link with sender := edge.link.sender.sendMsg 0 (codec.bytes msg)}} := by
  obtain ⟨here, found⟩ := List.getElem?_eq_some_iff.mp read
  have taken : (edge.adaptor.sent.take (edge.handed + 1)).map codec.bytes =
      (edge.adaptor.sent.take edge.handed).map codec.bytes ++ [codec.bytes msg] := by
    rw [List.take_add_one, read, List.map_append]
    rfl
  have link : Link.Inv codec.rearms {edge.link with sender := edge.link.sender.sendMsg 0 (codec.bytes msg)} :=
    @Link.Inv.step _ _ _ inv.link (.sender (.sendMsg 0 (codec.bytes msg))) (by rintro _ _ ⟨⟩; exact carries.short) rfl
  rcases Strands.sendMsg_payloads edge.link.sender 0 carries.short with ⟨accepting, payloads⟩ | ⟨refuses, same⟩
  · have all : (edge.link.sender.sendMsg 0 (codec.bytes msg)).payloads =
        (edge.adaptor.sent.take (edge.handed + 1)).map codec.bytes := by
      rw [payloads, inv.accepting accepting, taken]
    exact ⟨link, here, ⟨[], by rw [List.append_nil]; exact all⟩, fun _ => all, inv.wanted, inv.incoming⟩
  · refine ⟨link, here, ?_, ?_, inv.wanted, inv.incoming⟩
    · dsimp only
      rw [same, taken]
      exact inv.accepted.trans (List.prefix_append _ _)
    · dsimp only
      rw [same]
      intro accepting
      exact absurd accepting refuses

/-- A step is one of the adaptor, of the connection or of the receiving chain. -/
theorem step_cases {event : RemoteEdgeEvent T} (stepped : edge.step codec byteSize event = some next) :
    (∃ event adaptor, edge.adaptor.step byteSize event = some adaptor ∧ next = {edge with adaptor := adaptor}) ∨
      (∃ msg, edge.adaptor.sent[edge.handed]? = some msg ∧ next = {edge with
        handed := edge.handed + 1
        link := {edge.link with sender := edge.link.sender.sendMsg 0 (codec.bytes msg)}}) ∨
      (∃ event link, LinkEvent.isSendMsg event = false ∧ edge.link.step codec.rearms event = some link ∧
        next = edge.withLink codec link) ∨
      (∃ msg isConnected fails,
        next = {edge with incoming := edge.incoming.metaFromDownstream msg isConnected fails}) := by
  obtain ⟨-, stepped⟩ := Option.ite_none_left_eq_some.mp stepped
  cases event with
  | adaptor event =>
      simp only [Option.bind_eq_bind, Option.bind_eq_some_iff] at stepped
      obtain ⟨adaptor, moved, stepped⟩ := stepped
      exact Or.inl ⟨event, adaptor, moved, (Option.some.inj stepped).symm⟩
  | handOver =>
      simp only [Option.bind_eq_bind, Option.bind_eq_some_iff] at stepped
      obtain ⟨msg, read, stepped⟩ := stepped
      exact Or.inr (Or.inl ⟨msg, read, (Option.some.inj stepped).symm⟩)
  | link event =>
      obtain ⟨other, stepped⟩ := Option.ite_none_left_eq_some.mp stepped
      simp only [Option.bind_eq_bind, Option.bind_eq_some_iff] at stepped
      obtain ⟨link, moved, stepped⟩ := stepped
      exact Or.inr (Or.inr (Or.inl ⟨event, link, Bool.eq_false_iff.mpr other, moved, (Option.some.inj stepped).symm⟩))
  | metaFromDownstream msg isConnected fails =>
      exact Or.inr (Or.inr (Or.inr ⟨msg, isConnected, fails, (Option.some.inj stepped).symm⟩))

/-- Only a call of the adaptor's chain gives it more. -/
theorem step_given {event : RemoteEdgeEvent T} (other : event.feeds = false)
    (stepped : edge.step codec byteSize event = some next) : next.adaptor.given = edge.adaptor.given := by
  obtain ⟨-, stepped⟩ := Option.ite_none_left_eq_some.mp stepped
  cases event with
  | adaptor event =>
      simp only [Option.bind_eq_bind, Option.bind_eq_some_iff] at stepped
      obtain ⟨adaptor, moved, stepped⟩ := stepped
      obtain rfl := Option.some.inj stepped
      have given := (RemoteDestSend.step_adds moved).given
      cases event with
      | process tuples msg now fails => cases other
      | _ => exact given.trans (List.append_nil _)
  | handOver =>
      simp only [Option.bind_eq_bind, Option.bind_eq_some_iff] at stepped
      obtain ⟨msg, -, stepped⟩ := stepped
      obtain rfl := Option.some.inj stepped
      rfl
  | link event =>
      obtain ⟨-, stepped⟩ := Option.ite_none_left_eq_some.mp stepped
      simp only [Option.bind_eq_bind, Option.bind_eq_some_iff] at stepped
      obtain ⟨link, -, stepped⟩ := stepped
      obtain rfl := Option.some.inj stepped
      rfl
  | metaFromDownstream msg isConnected fails =>
      obtain rfl := Option.some.inj stepped
      rfl

theorem step_process_given {tuples : List (Option T)} {msg : Option MetaMessage} {now : UInt64} {fails : Bool}
    (stepped : edge.step codec byteSize (.adaptor (.process tuples msg now fails)) = some next) :
    next.adaptor.given = edge.adaptor.given ++ RemoteDestSend.givenBy tuples msg := by
  obtain ⟨-, stepped⟩ := Option.ite_none_left_eq_some.mp stepped
  simp only [Option.bind_eq_bind, Option.bind_eq_some_iff] at stepped
  obtain ⟨adaptor, moved, stepped⟩ := stepped
  obtain rfl := Option.some.inj stepped
  exact (RemoteDestSend.step_adds moved).given

/-- What has been sent stays sent. -/
theorem Sender.step (sender : edge.Sender) {event : RemoteEdgeEvent T}
    (stepped : edge.step codec byteSize event = some next) :
    next.Sender ∧ edge.adaptor.sent <+: next.adaptor.sent := by
  rcases step_cases stepped with ⟨event, adaptor, moved, rfl⟩ | ⟨msg, -, rfl⟩ | ⟨event, link, -, -, rfl⟩ | ⟨-, -, -, rfl⟩
  · obtain ⟨-, new, sent, routine⟩ := RemoteDestSend.step_adds moved
    refine ⟨⟨sender.ordered.step moved, ?_⟩, ⟨new, sent.symm⟩⟩
    intro msg timestamp member
    dsimp only at member
    rw [sent, List.mem_append] at member
    rcases member with before | now
    · exact sender.routine msg timestamp before
    · exact routine msg timestamp now
  · exact ⟨⟨sender.ordered, sender.routine⟩, List.prefix_rfl⟩
  · exact ⟨⟨sender.ordered, sender.routine⟩, List.prefix_rfl⟩
  · exact ⟨⟨sender.ordered, sender.routine⟩, List.prefix_rfl⟩

/-- Every step keeps the two ends together. -/
theorem Inv.step (inv : edge.Inv codec) (carried : ∀ msg ∈ next.adaptor.sent, codec.Carries msg)
    {event : RemoteEdgeEvent T} (stepped : edge.step codec byteSize event = some next) : next.Inv codec := by
  rcases step_cases stepped with ⟨event, adaptor, moved, rfl⟩ | ⟨msg, read, rfl⟩ | ⟨event, link, other, moved, rfl⟩ |
    ⟨msg, isConnected, fails, rfl⟩
  · obtain ⟨-, new, sent, -⟩ := RemoteDestSend.step_adds moved
    have taken : adaptor.sent.take edge.handed = edge.adaptor.sent.take edge.handed := by
      rw [sent, List.take_append_of_le_length inv.handed]
    refine ⟨inv.link, ?_, ?_, ?_, inv.wanted, inv.incoming⟩
    · dsimp only
      rw [sent, List.length_append]
      exact inv.handed.trans (Nat.le_add_right _ _)
    · dsimp only
      rw [taken]
      exact inv.accepted
    · dsimp only
      rw [taken]
      exact inv.accepting
  · exact inv.handOver read (carried msg (List.mem_of_getElem? read))
  · exact inv.withLink (LinkEvent.ne_sendMsg other) moved
  · exact ⟨inv.link, inv.handed, inv.accepted, inv.accepting, inv.wanted,
      inv.incoming.metaFromDownstream msg isConnected fails⟩

theorem inv_of_reachable {chains : List (Option ℕ)} (reachable : (system codec byteSize chains).Reachable edge)
    (carried : ∀ msg ∈ edge.adaptor.sent, codec.Carries msg) : edge.Inv codec ∧ edge.Sender := by
  have kept : edge.Sender ∧ ((∀ msg ∈ edge.adaptor.sent, codec.Carries msg) → edge.Inv codec) := by
    refine reachable.invariant
      (fun edge => edge.Sender ∧ ((∀ msg ∈ edge.adaptor.sent, codec.Carries msg) → edge.Inv codec))
      ⟨new_sender chains, fun _ => new_inv codec chains⟩ ?_
    rintro state event next ⟨sender, inv⟩ stepped
    obtain ⟨after, sent⟩ := sender.step stepped
    exact ⟨after, fun carried => (inv fun msg before => carried msg (sent.subset before)).step carried stepped⟩
  exact ⟨kept.2 carried, kept.1⟩

/-- What has been delivered is the beginning of what was sent. -/
theorem Inv.heard (inv : edge.Inv codec) (carried : ∀ msg ∈ edge.adaptor.sent, codec.Carries msg) :
    edge.link.receiver.delivered.map codec.parse <+: edge.adaptor.sent.map codec.wire := by
  have parsed : (edge.adaptor.sent.map codec.bytes).map codec.parse = edge.adaptor.sent.map codec.wire := by
    rw [List.map_map]
    exact List.map_congr_left fun msg member => (carried msg member).roundTrip
  have within : edge.link.receiver.delivered <+: edge.adaptor.sent.map codec.bytes :=
    inv.link.inOrder.trans ((List.takeWhile_prefix _).trans (inv.accepted.trans ((List.take_prefix _ _).map _)))
  exact parsed ▸ within.map codec.parse

/-- The last of these messages is the last one that the adaptor sends. -/
theorem Sender.split (sender : edge.Sender) {before after : List (WireMessage T)} {last : WireMessage T}
    (heard : before ++ last :: after <+: edge.adaptor.sent.map codec.wire) (type : last.type = .noMoreData) :
    ∃ first others, edge.adaptor.sent = first ++ .noMoreData :: others ∧ first.map codec.wire = before ∧
      after <+: others.map codec.wire := by
  obtain ⟨rest, split⟩ := heard
  rw [List.append_assoc, List.cons_append] at split
  obtain ⟨first, tail, sent, rfl, tails⟩ := List.map_eq_append_iff.mp split.symm
  obtain ⟨msg, others, rfl, same, ends⟩ := List.map_eq_cons_iff.mp tails
  have routine : ∀ metadata timestamp, msg = .metadata metadata timestamp → metadata.type ≠ .noMoreData := by
    rintro metadata timestamp rfl
    exact sender.routine metadata timestamp (sent ▸ List.mem_append_right _ List.mem_cons_self)
  have only : msg = .noMoreData := (WireCodec.wire_type routine).mp (same ▸ type)
  subst only
  exact ⟨first, others, sent, rfl, ⟨rest, ends.symm⟩⟩

/-- A chain that has been stopped is called no more, whatever happens afterwards. -/
theorem quiet_of_gone {chains : List (Option ℕ)} {events : List (RemoteEdgeEvent T)} {final : RemoteEdge T}
    (gone : edge.incoming.dest = false) (ran : (system codec byteSize chains).runFrom edge events = some final) :
    final.incoming.dest = false ∧ final.incoming.calls = edge.incoming.calls ∧
      final.incoming.stops = edge.incoming.stops := by
  refine EventSystem.runFrom_invariant (fun after : RemoteEdge T => after.incoming.dest = false ∧
    after.incoming.calls = edge.incoming.calls ∧ after.incoming.stops = edge.incoming.stops) ?_ ⟨gone, rfl, rfl⟩ ran
  rintro state event next ⟨dest, calls, stops⟩ stepped
  rcases step_cases stepped with ⟨event, adaptor, -, rfl⟩ | ⟨msg, -, rfl⟩ | ⟨event, link, -, -, rfl⟩ |
    ⟨msg, isConnected, fails, rfl⟩
  · exact ⟨dest, calls, stops⟩
  · exact ⟨dest, calls, stops⟩
  · obtain ⟨still, sameCalls, sameStops⟩ := IncomingConnection.gotAll_of_gone dest _
    exact ⟨still, sameCalls.trans calls, sameStops.trans stops⟩
  · obtain ⟨still, sameCalls, sameStops⟩ := IncomingConnection.metaFromDownstream_of_gone dest msg isConnected fails
    exact ⟨still, sameCalls.trans calls, sameStops.trans stops⟩

/-- This is what an edge promises about every run. For the receiver to survive it, the adaptor must not go on after its
last message or send a tuple without elements. The receiver's socket may be closed when its chain has ended. -/
structure Delivers (codec : WireCodec T) (byteSize : T → ℕ) (edge : RemoteEdge T) : Prop where
  inOrder : edge.incoming.seen <+: edge.adaptor.given.flatMap codec.items
  stopsOnce : edge.incoming.stops = if edge.incoming.dest then 0 else 1
  quiet : edge.incoming.dest = false → ∀ chains events final,
    (system codec byteSize chains).runFrom edge events = some final →
      final.incoming.dest = false ∧ final.incoming.calls = edge.incoming.calls ∧
        final.incoming.stops = edge.incoming.stops
  survives : edge.incoming.fatal = true → edge.incoming.broken = true ∨
    ¬ RemoteDestSend.EndsOnce edge.adaptor.sent ∨ ¬ edge.Filled codec
  complete : edge.Rests codec → edge.Flushed → edge.link.sender.socket.Accepting →
    (edge.incoming.dest = true → edge.link.receiver.socket.isOpen = true) →
    RemoteDestSend.EndsOnce edge.adaptor.sent → edge.Filled codec → edge.incoming.broken = false →
    edge.incoming.seen = edge.adaptor.given.flatMap codec.items ∧
      (edge.incoming.dest = false ↔ SentMessage.noMoreData ∈ edge.adaptor.sent)

theorem Inv.inOrder (inv : edge.Inv codec) (sender : edge.Sender)
    (carried : ∀ msg ∈ edge.adaptor.sent, codec.Carries msg) :
    edge.incoming.seen <+: edge.adaptor.given.flatMap codec.items := by
  have sent : (edge.link.receiver.delivered.map codec.parse).flatMap WireMessage.items <+:
      (edge.adaptor.sent.flatMap RemoteDestSend.items).flatMap codec.items :=
    WireCodec.sent_items edge.adaptor.sent ▸ (inv.heard carried).flatMap _
  exact inv.incoming.within.trans (sent.trans (sender.ordered.within.flatMap _))

/-- A process that ends while its chain is there has got a tuple without elements. -/
theorem Inv.not_filled (inv : edge.Inv codec) (carried : ∀ msg ∈ edge.adaptor.sent, codec.Carries msg)
    (there : edge.incoming.dest = true) (fatal : edge.incoming.fatal = true) : ¬ edge.Filled codec := by
  intro filled
  obtain ⟨msg, member, t, listed, lacks⟩ := inv.incoming.crashed there fatal
  obtain ⟨sent, source, rfl⟩ := List.mem_map.mp ((inv.heard carried).subset member)
  exact filled sent source t listed lacks

theorem Inv.survives (inv : edge.Inv codec) (sender : edge.Sender)
    (carried : ∀ msg ∈ edge.adaptor.sent, codec.Carries msg) (fatal : edge.incoming.fatal = true) :
    edge.incoming.broken = true ∨ ¬ RemoteDestSend.EndsOnce edge.adaptor.sent ∨ ¬ edge.Filled codec := by
  cases there : edge.incoming.dest with
  | true => exact Or.inr (Or.inr (inv.not_filled carried there fatal))
  | false =>
      rcases inv.incoming.ended there with broken | ⟨before, last, after, split, type, -, more⟩
      · exact Or.inl broken
      · right
        left
        intro once
        obtain ⟨first, others, sent, -, within⟩ := sender.split (split ▸ inv.heard carried) type
        obtain rfl := once first others sent
        exact more.mp fatal (List.prefix_nil.mp within)

/-- An edge that rests has delivered everything, since the receiver asks for messages until the last one. -/
theorem Inv.complete (inv : edge.Inv codec) (sender : edge.Sender)
    (carried : ∀ msg ∈ edge.adaptor.sent, codec.Carries msg) (rests : edge.Rests codec) (flushed : edge.Flushed)
    (accepting : edge.link.sender.socket.Accepting)
    (opened : edge.incoming.dest = true → edge.link.receiver.socket.isOpen = true)
    (once : RemoteDestSend.EndsOnce edge.adaptor.sent) (filled : edge.Filled codec)
    (whole : edge.incoming.broken = false) :
    edge.incoming.seen = edge.adaptor.given.flatMap codec.items ∧
      (edge.incoming.dest = false ↔ SentMessage.noMoreData ∈ edge.adaptor.sent) := by
  obtain ⟨handed, quiet⟩ := rests
  obtain ⟨running, alive, empty⟩ := flushed
  have given : edge.adaptor.sent.flatMap RemoteDestSend.items = edge.adaptor.given := by
    have all := (sender.ordered.running running alive).2
    rwa [empty, List.map_nil, List.append_nil] at all
  have wires : (edge.adaptor.sent.map codec.wire).flatMap WireMessage.items = edge.adaptor.given.flatMap codec.items := by
    rw [WireCodec.sent_items, given]
  have heard := inv.heard carried
  cases there : edge.incoming.dest with
  | true =>
      have survived : edge.incoming.fatal = false :=
        Bool.eq_false_iff.mpr fun fatal => inv.not_filled carried there fatal filled
      obtain ⟨saw, -, goesOn⟩ := inv.incoming.running there survived
      have rearms : ∀ payload ∈ edge.link.receiver.delivered, codec.rearms payload = true := by
        intro payload member
        exact decide_eq_true (goesOn _ (List.mem_map_of_mem member))
      have all := inv.link.complete quiet rearms inv.wanted accepting.1 (opened there)
      have delivered : edge.link.receiver.delivered.map codec.parse = edge.adaptor.sent.map codec.wire := by
        refine heard.eq_of_length ?_
        rw [List.length_map, List.length_map, all, inv.accepting accepting, List.length_map, handed, List.take_length]
      refine ⟨by rw [saw, delivered, wires], nofun, fun last => ?_⟩
      rw [delivered] at goesOn
      exact absurd rfl (goesOn _ (List.mem_map_of_mem last))
  | false =>
      obtain ⟨before, last, after, split, type, saw, -⟩ :=
        (inv.incoming.ended there).resolve_left (by rw [whole]; exact Bool.false_ne_true)
      obtain ⟨first, others, sent, rfl, -⟩ := sender.split (split ▸ heard) type
      obtain rfl := once first others sent
      refine ⟨?_, fun _ => ?_, fun _ => rfl⟩
      · rw [saw, ← wires, sent, List.map_append, List.flatMap_append]
        exact (List.append_nil _).symm
      · rw [sent]
        exact List.mem_append_right _ List.mem_cons_self

/-- Whatever the adaptor is given and the network does, the receiving chain takes in a beginning of what was given to the
adaptor, in order and each item once, and all of it when the edge comes to rest without a failure. -/
theorem remoteEdge_delivers (codec : WireCodec T) (byteSize : T → ℕ) (chains : List (Option ℕ))
    (events : List (RemoteEdgeEvent T)) (edge : RemoteEdge T)
    (ran : (system codec byteSize chains).runFrom (new chains) events = some edge)
    (carried : ∀ msg ∈ edge.adaptor.sent, codec.Carries msg) : edge.Delivers codec byteSize := by
  obtain ⟨inv, sender⟩ := inv_of_reachable ⟨events, ran⟩ carried
  exact ⟨inv.inOrder sender carried, inv.incoming.single, fun gone _ _ _ ranOn => quiet_of_gone gone ranOn,
    inv.survives sender carried, inv.complete sender carried⟩

end RemoteEdge

namespace WireCodec

/-- The tuples of a message follow one another. -/
def parseData : List UInt8 → List UInt8
  | 34 :: 4 :: 10 :: 2 :: 16 :: value :: rest => value :: parseData rest
  | _ => []

/-- Tuples of one small number are encoded as on the wire. -/
def smallNumbers : WireCodec UInt8 where
  eSize _ := 1
  encode msg := match msg.type with
    | .data => [8, 3] ++ msg.data.flatMap fun value => [34, 4, 10, 2, 16, value]
    | .noMoreData => [8, 6]
    | .tsEcho => [8, 7]
    | .endOfWindow => [8, 10] ++ msg.windowLengthMs.toList.flatMap fun length => [80, UInt8.ofNat length]
    | .other code => [8, UInt8.ofNat code]
  parse
    | 8 :: 3 :: rest => ⟨.data, parseData rest, none⟩
    | [8, 6] => ⟨.noMoreData, [], none⟩
    | [8, 7] => ⟨.tsEcho, [], none⟩
    | [8, 10] => ⟨.endOfWindow, [], none⟩
    | [8, 10, 80, length] => ⟨.endOfWindow, [], some length.toNat⟩
    | _ :: code :: _ => ⟨.other code.toNat, [], none⟩
    | _ => ⟨.other 0, [], none⟩
  others code := ⟨.other code, [], none⟩
  routine _ := nofun

end WireCodec

namespace RemoteEdge

/-- One tuple and the end of its window go over the edge. -/
def oneWindow : List (RemoteEdgeEvent UInt8) :=
  [.adaptor (.process [some 5] (some ⟨.endOfWindow, some 100⟩) 0 false), .handOver, .handOver, .handOver,
    .link (.sender .runSend), .link (.sender .runSend), .link (.sender .runSend), .link (.sender .complete),
    .link (.sender .runSend), .link (.sender .runSend), .link (.sender .runSend), .link (.sender .complete),
    .link (.sender .runSend), .link (.sender .complete), .link (.sender .runSend),
    .link (.arrive 9), .link (.receiver .performRecv), .link (.receiver (.readCompletes 0)),
    .link (.receiver (.received 0)), .link (.receiver (.readCompletes 1)), .link (.receiver (.received 1)),
    .link (.arrive 17), .link (.receiver .performRecv), .link (.receiver (.readCompletes 2)),
    .link (.receiver (.received 2)), .link (.receiver (.readCompletes 3)), .link (.receiver (.received 3)),
    .link (.receiver .performRecv), .link (.receiver (.readCompletes 4)),
    .link (.receiver (.received 4)), .link (.receiver (.readCompletes 5)), .link (.receiver (.received 5)),
    .link (.receiver .performRecv)]

theorem remoteEdge_delivers_oneWindow : ∃ edge,
    (system WireCodec.smallNumbers (fun _ => 4) [some 0]).runFrom (new [some 0]) oneWindow = some edge ∧
    edge.incoming.seen = [.tuple 5, .marker ⟨.endOfWindow, [], some 100⟩] ∧ edge.Delivers WireCodec.smallNumbers (fun _ => 4) := by
  refine ⟨_, rfl, rfl, remoteEdge_delivers WireCodec.smallNumbers (fun _ => 4) [some 0] oneWindow _ rfl ?_⟩
  intro msg member
  have sent : msg ∈ [SentMessage.data [], .data [5], .metadata ⟨.endOfWindow, some 100⟩ (some 0)] := member
  simp only [List.mem_cons, List.not_mem_nil, or_false] at sent
  rcases sent with rfl | rfl | rfl <;> exact ⟨rfl, by decide, by decide⟩

end RemoteEdge

end JetStream
