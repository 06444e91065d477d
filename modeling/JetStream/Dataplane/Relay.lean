import JetStream.Dataplane.RemoteEdge
import Mathlib.Data.List.Perm.Basic

namespace JetStream

/-- A chain between two edges begins with an incoming connection and ends with the adaptor of the next edge. Its other
members have their own state. -/
structure Relay (S T : Type) where
  received : IncomingConnection T
  members : S
  onward : RemoteEdge T

/-- The result of a read comes in, a message goes back upwards, or the next edge goes on. The first two can end the chain,
and its end tells the adaptor whether that is still connected. -/
inductive RelayEvent (T : Type) where
  | gotData (result : Except RecvError (WireMessage T)) (now : UInt64) (isConnected fails : Bool)
  | metaFromDownstream (msg : WireMessage T) (upConnected refused isConnected fails : Bool)
  | onward (event : RemoteEdgeEvent T)

/-- The members between the two ends of the chain change the tuples of a call or leave them out. -/
structure ChainMembers (S T : Type) where
  initial : S
  process : S → List T → WireMessage T → S × List (Option T)

namespace ChainMembers

variable {S T : Type}

/-- These tuples reach the adaptor with the message of each call. -/
def outputs (members : ChainMembers S T) : S → List (List T × WireMessage T) → List (List (Option T) × WireMessage T)
  | _, [] => []
  | state, call :: calls =>
      ((members.process state call.1 call.2).2, call.2) ::
        members.outputs (members.process state call.1 call.2).1 calls

def stateAfter (members : ChainMembers S T) (state : S) (calls : List (List T × WireMessage T)) : S :=
  calls.foldl (fun state call => (members.process state call.1 call.2).1) state

theorem stateAfter_append (members : ChainMembers S T) (state : S) (calls more : List (List T × WireMessage T)) :
    members.stateAfter state (calls ++ more) = members.stateAfter (members.stateAfter state calls) more :=
  List.foldl_append

/-- The messages of the calls stay with them. -/
theorem outputs_messages (members : ChainMembers S T) (state : S) (calls : List (List T × WireMessage T)) :
    (members.outputs state calls).map Prod.snd = calls.map Prod.snd := by
  induction calls generalizing state with
  | nil => rfl
  | cons call calls ih => exact congrArg (call.2 :: ·) (ih _)

theorem outputs_append (members : ChainMembers S T) (state : S) (calls more : List (List T × WireMessage T)) :
    members.outputs state (calls ++ more) =
      members.outputs state calls ++ members.outputs (members.stateAfter state calls) more := by
  induction calls generalizing state with
  | nil => rfl
  | cons call calls ih => exact congrArg (_ :: ·) (ih _)

end ChainMembers

namespace ChainItem

variable {T : Type}

def tuple? : ChainItem T → Option T
  | .tuple t => some t
  | .marker _ => none

@[simp] theorem filterMap_tuple (tuples : List T) : (tuples.map ChainItem.tuple).filterMap tuple? = tuples := by
  rw [List.filterMap_map]
  exact List.filterMap_some

end ChainItem

namespace WireCodec

variable {T : Type}

/-- The adaptor looks at the type of a message and at the length of a window that it ends. -/
def metaOf (number : WireMessage T → ℕ) (msg : WireMessage T) : MetaMessage :=
  match msg.type with
  | .endOfWindow => ⟨.endOfWindow, msg.windowLengthMs⟩
  | .noMoreData => ⟨.noMoreData, none⟩
  | _ => ⟨.other (number msg), none⟩

end WireCodec

namespace Relay

variable {S T : Type}

def new (members : ChainMembers S T) : Relay S T := ⟨.new, members.initial, .new [some 0]⟩

/-- A call of the chain ends at the adaptor, and so does the end of the chain. -/
def passOn (codec : WireCodec T) (number : WireMessage T → ℕ) (byteSize : T → ℕ) (members : ChainMembers S T)
    (relay : Relay S T) (received : IncomingConnection T) (now : UInt64) (isConnected fails : Bool) :
    Option (Relay S T) :=
  match received.calls.drop relay.received.calls.length with
  | call :: _ => do
      let (state, tuples) := members.process relay.members call.1 call.2
      let onward ← relay.onward.step codec byteSize
        (.adaptor (.process tuples (some (WireCodec.metaOf number call.2)) now fails))
      some ⟨received, state, onward⟩
  | [] =>
      if relay.received.stops < received.stops then do
        let onward ← relay.onward.step codec byteSize (.adaptor (.chainStopping 0 isConnected fails))
        some ⟨received, relay.members, onward⟩
      else some {relay with received := received}

/-- Only the chain gives the adaptor tuples and markers. -/
def step (codec : WireCodec T) (number : WireMessage T → ℕ) (byteSize : T → ℕ) (members : ChainMembers S T)
    (relay : Relay S T) : RelayEvent T → Option (Relay S T)
  | .gotData result now isConnected fails =>
      if relay.received.fatal then none
      else relay.passOn codec number byteSize members (relay.received.gotDataCb codec.eSize result) now isConnected fails
  | .metaFromDownstream msg upConnected refused isConnected fails =>
      if relay.received.fatal then none
      else relay.passOn codec number byteSize members (relay.received.metaFromDownstream msg upConnected refused) 0
        isConnected fails
  | .onward event =>
      if event.feeds then none
      else do
        let onward ← relay.onward.step codec byteSize event
        some {relay with onward := onward}

def system (codec : WireCodec T) (number : WireMessage T → ℕ) (byteSize : T → ℕ) (members : ChainMembers S T) :
    EventSystem (Relay S T) (RelayEvent T) := ⟨new members, step codec number byteSize members⟩

/-- This is what a call of the chain makes the next node take in. The message of the call goes on as it came. -/
def relayed (entry : List (Option T) × WireMessage T) : List (ChainItem T) :=
  (entry.1.filterMap id).map .tuple ++ entry.2.items

/-- The adaptor was given what the chain has passed on, and the chain was called with the data of its messages. -/
structure Inv (codec : WireCodec T) (number : WireMessage T → ℕ) (byteSize : T → ℕ) (members : ChainMembers S T)
    (relay : Relay S T) : Prop where
  state : relay.members = members.stateAfter members.initial relay.received.calls
  given : relay.onward.adaptor.given = (members.outputs members.initial relay.received.calls).flatMap fun entry =>
    RemoteDestSend.givenBy entry.1 (some (WireCodec.metaOf number entry.2))
  calls : ∀ call ∈ relay.received.calls, call.1 = if call.2.type = .data then call.2.data else []
  reached : (RemoteEdge.system codec byteSize [some 0]).Reachable relay.onward

variable {codec : WireCodec T} {number : WireMessage T → ℕ} {byteSize : T → ℕ} {members : ChainMembers S T}
    {relay next : Relay S T}

theorem reached_step {edge after : RemoteEdge T} {event : RemoteEdgeEvent T}
    (reached : (RemoteEdge.system codec byteSize [some 0]).Reachable edge)
    (stepped : edge.step codec byteSize event = some after) :
    (RemoteEdge.system codec byteSize [some 0]).Reachable after := reached.step stepped

theorem new_inv : (new members).Inv codec number byteSize members :=
  ⟨rfl, rfl, nofun, ⟨[], rfl⟩⟩

/-- A call goes through the members to the adaptor. -/
theorem Inv.passOn (inv : relay.Inv codec number byteSize members) {received : IncomingConnection T}
    (called : received.calls = relay.received.calls ∨ ∃ msg : WireMessage T, received.calls =
      relay.received.calls ++ [(if msg.type = .data then msg.data else [], msg)])
    {now : UInt64} {isConnected fails : Bool}
    (passed : relay.passOn codec number byteSize members received now isConnected fails = some next) :
    next.Inv codec number byteSize members := by
  unfold Relay.passOn at passed
  rcases called with same | ⟨msg, calls⟩
  · rw [same, List.drop_length] at passed
    dsimp only at passed
    split_ifs at passed with stopping
    · simp only [Option.bind_eq_bind, Option.bind_eq_some_iff] at passed
      obtain ⟨onward, moved, passed⟩ := passed
      obtain rfl := Option.some.inj passed
      refine ⟨?_, ?_, ?_, reached_step inv.reached moved⟩
      · exact inv.state.trans (by rw [← same])
      · exact (RemoteEdge.step_given rfl moved).trans (inv.given.trans (by rw [← same]))
      · exact same ▸ inv.calls
    · obtain rfl := Option.some.inj passed
      exact ⟨inv.state.trans (by rw [← same]), inv.given.trans (by rw [← same]), same ▸ inv.calls, inv.reached⟩
  · rw [calls, List.drop_left] at passed
    simp only [Option.bind_eq_bind, Option.bind_eq_some_iff] at passed
    obtain ⟨onward, moved, passed⟩ := passed
    obtain rfl := Option.some.inj passed
    refine ⟨?_, ?_, ?_, reached_step inv.reached moved⟩
    · dsimp only
      rw [calls, ChainMembers.stateAfter_append, ← inv.state]
      rfl
    · dsimp only
      rw [RemoteEdge.step_process_given moved, inv.given, calls, ChainMembers.outputs_append, List.flatMap_append,
        ← inv.state]
      exact congrArg (_ ++ ·) (List.append_nil _).symm
    · dsimp only
      rw [calls]
      intro call member
      rcases List.mem_append.mp member with before | now
      · exact inv.calls call before
      · rw [List.mem_singleton.mp now]

theorem Inv.step (inv : relay.Inv codec number byteSize members) {event : RelayEvent T}
    (stepped : relay.step codec number byteSize members event = some next) :
    next.Inv codec number byteSize members := by
  cases event with
  | gotData result now isConnected fails =>
      obtain ⟨-, passed⟩ := Option.ite_none_left_eq_some.mp stepped
      exact inv.passOn (relay.received.gotDataCb_calls result) passed
  | metaFromDownstream msg upConnected refused isConnected fails =>
      obtain ⟨-, passed⟩ := Option.ite_none_left_eq_some.mp stepped
      exact inv.passOn (Or.inl (relay.received.metaFromDownstream_calls msg upConnected refused)) passed
  | onward event =>
      obtain ⟨other, stepped⟩ := Option.ite_none_left_eq_some.mp stepped
      simp only [Option.bind_eq_bind, Option.bind_eq_some_iff] at stepped
      obtain ⟨onward, moved, stepped⟩ := stepped
      obtain rfl := Option.some.inj stepped
      have given := RemoteEdge.step_given (Bool.eq_false_iff.mpr other) moved
      exact ⟨inv.state, given.trans inv.given, inv.calls, reached_step inv.reached moved⟩

/-- A message of data brings its tuples along, and no other message brings any. -/
theorem tuples_relayed (entry : List (Option T) × WireMessage T) :
    (relayed entry).filterMap ChainItem.tuple? =
      entry.1.filterMap id ++ if entry.2.type = .data then entry.2.data else [] := by
  obtain ⟨made, type, data, windowLengthMs⟩ := entry
  rw [relayed, List.filterMap_append, ChainItem.filterMap_tuple]
  cases type with
  | data => exact congrArg (_ ++ ·) (ChainItem.filterMap_tuple data)
  | noMoreData => rfl
  | tsEcho => rfl
  | endOfWindow => rfl
  | other number => rfl

/-- The tuples that are passed on are those that the members made and those that came in. -/
theorem Inv.doubled (inv : relay.Inv codec number byteSize members) :
    (((members.outputs members.initial relay.received.calls).flatMap relayed).filterMap ChainItem.tuple?).Perm
      ((members.outputs members.initial relay.received.calls).flatMap (fun entry => entry.1.filterMap id) ++
        relay.received.calls.flatMap Prod.fst) := by
  have came : (members.outputs members.initial relay.received.calls).flatMap
      (fun entry => if entry.2.type = .data then entry.2.data else []) = relay.received.calls.flatMap Prod.fst := by
    let dataOf (msg : WireMessage T) : List T := if msg.type = .data then msg.data else []
    have messages : (members.outputs members.initial relay.received.calls).flatMap (fun entry => dataOf entry.2) =
        ((members.outputs members.initial relay.received.calls).map Prod.snd).flatMap dataOf := by
      rw [List.flatMap_map]
    refine messages.trans ?_
    rw [ChainMembers.outputs_messages, List.flatMap_map]
    exact List.flatMap_congr fun call member => (inv.calls call member).symm
  rw [List.filterMap_flatMap, ← came]
  simp only [tuples_relayed]
  exact (List.flatMap_append_perm _ _ _).symm

end Relay

end JetStream
