import Mathlib.Algebra.Ring.Nat
import Mathlib.Algebra.BigOperators.Group.List.Basic
import JetStream.Lib.EventSystem

namespace JetStream

/-- The type of a metadata message decides how the adaptor passes it on. -/
inductive MetaType where
  | endOfWindow
  | noMoreData
  | other (code : ℕ)
  deriving DecidableEq

structure MetaMessage where
  type : MetaType
  windowLengthMs : Option ℕ
  deriving DecidableEq

/-- These messages are handed to the connection, and the end of a window may get a timestamp. -/
inductive SentMessage (T : Type) where
  | data (tuples : List T)
  | metadata (msg : MetaMessage) (timestamp : Option UInt64)
  | noMoreData
  deriving DecidableEq

/-- Tuples and metadata are given to the adaptor in one order. -/
inductive GivenItem (T : Type) where
  | tuple (t : T)
  | metadata (msg : MetaMessage)
  deriving DecidableEq

/-- The process ends by a use of the connection after its reset, or by a fatal log message. -/
inductive Halt where
  | nullDereference
  | fatalLog
  deriving DecidableEq

/-- The adaptor buffers tuples for its connection, and the last fields record what was sent, what was given, and how the
process ended. -/
structure RemoteDestSend (T : Type) where
  conn : Bool
  isStopping : Bool
  thisBufSize : ℕ
  outBufferMsg : List T
  noWindowStarted : Bool
  chains : List (Option ℕ)
  sent : List (SentMessage T)
  given : List (GivenItem T)
  halt : Option Halt

/-- The last argument of each event is the outcome of the send of the buffer, if there is one. -/
inductive RemoteDestEvent (T : Type) where
  | process (tuples : List (Option T)) (msg : Option MetaMessage) (now : UInt64) (fails : Bool)
  | forceSend (fails : Bool)
  | connectionBroken
  | chainStopping (chain : ℕ) (isConnected : Bool) (fails : Bool)

namespace RemoteDestSend

variable {T : Type}

def sizeToSend : ℕ := 4096

/-- The connection is there and the chain is ready. -/
def new (chains : List (Option ℕ)) : RemoteDestSend T := ⟨true, false, 0, [], true, chains, [], [], none⟩

/-- The connection is used. -/
def useConn (adaptor : RemoteDestSend T) (next : RemoteDestSend T) : RemoteDestSend T :=
  if adaptor.conn then next else {adaptor with halt := some .nullDereference}

def sendMsg (adaptor : RemoteDestSend T) (msg : SentMessage T) : RemoteDestSend T :=
  adaptor.useConn {adaptor with sent := adaptor.sent ++ [msg]}

/-- The rest of a function runs unless the process has ended. -/
def andThen (adaptor : RemoteDestSend T) (rest : RemoteDestSend T → RemoteDestSend T) : RemoteDestSend T :=
  if adaptor.halt.isSome then adaptor else rest adaptor

/-- Stopping the chains calls the adaptor back, which has no connection any more and returns. -/
def connectionBroken (adaptor : RemoteDestSend T) : RemoteDestSend T :=
  if adaptor.isStopping then adaptor else {adaptor with isStopping := true, conn := false, chains := []}

/-- After a failed send the connection is given up and then closed. -/
def doSendUnlocked (adaptor : RemoteDestSend T) (fails : Bool) : RemoteDestSend T :=
  (sendMsg {adaptor with thisBufSize := 0} (.data adaptor.outBufferMsg)).andThen fun adaptor =>
    let adaptor := {adaptor with outBufferMsg := []}
    if fails then adaptor.connectionBroken.useConn adaptor.connectionBroken else adaptor

def forceSend (adaptor : RemoteDestSend T) (fails : Bool) : RemoteDestSend T :=
  if adaptor.thisBufSize = 0 ∨ adaptor.isStopping then adaptor else adaptor.doSendUnlocked fails

/-- The end of a window with data is sent with a timestamp. -/
def metaFromUpstream (adaptor : RemoteDestSend T) (msg : MetaMessage) (now : UInt64) : RemoteDestSend T :=
  if msg.type = .noMoreData then {adaptor with halt := some .fatalLog}
  else if msg.type = .endOfWindow ∧ msg.windowLengthMs.isSome then
    if adaptor.noWindowStarted then adaptor.sendMsg (.metadata msg none)
    else sendMsg {adaptor with noWindowStarted := true} (.metadata msg (some now))
  else adaptor.sendMsg (.metadata msg none)

/-- An empty message is the header of a window. -/
def startWindow (adaptor : RemoteDestSend T) : RemoteDestSend T :=
  if adaptor.noWindowStarted then sendMsg {adaptor with noWindowStarted := false} (.data []) else adaptor

/-- A missing tuple is skipped. -/
def addTuples (byteSize : T → ℕ) (adaptor : RemoteDestSend T) (tuples : List (Option T)) : RemoteDestSend T :=
  {adaptor with
    thisBufSize := adaptor.thisBufSize + ((tuples.filterMap id).map byteSize).sum
    outBufferMsg := adaptor.outBufferMsg ++ tuples.filterMap id}

/-- These items are given by one call. -/
def givenBy (tuples : List (Option T)) (msg : Option MetaMessage) : List (GivenItem T) :=
  (tuples.filterMap id).map .tuple ++ msg.toList.map .metadata

/-- Metadata and a full buffer force out the data, and the metadata comes after it. -/
def process (byteSize : T → ℕ) (adaptor : RemoteDestSend T) (tuples : List (Option T)) (msg : Option MetaMessage)
    (now : UInt64) (fails : Bool) : RemoteDestSend T :=
  let adaptor := {adaptor with given := adaptor.given ++ givenBy tuples msg}
  if adaptor.isStopping then adaptor
  else adaptor.startWindow.andThen fun adaptor =>
    let adaptor := adaptor.addTuples byteSize tuples
    match msg with
    | some msg => (adaptor.doSendUnlocked fails).andThen fun adaptor => adaptor.metaFromUpstream msg now
    | none => if sizeToSend < adaptor.thisBufSize then adaptor.doSendUnlocked fails else adaptor

/-- The chain is removed, and the last one sends the rest of the data and closes the connection. -/
def chainStopping (adaptor : RemoteDestSend T) (chain : ℕ) (isConnected fails : Bool) : RemoteDestSend T :=
  if !adaptor.conn || !isConnected then adaptor
  else
    let adaptor := {adaptor with chains := adaptor.chains.map fun other => if other = some chain then none else other}
    if (adaptor.chains.filter Option.isSome).length = 0 then
      (if adaptor.isStopping then adaptor
        else (adaptor.forceSend fails).andThen fun adaptor => adaptor.sendMsg .noMoreData).andThen fun adaptor =>
          adaptor.useConn adaptor
    else adaptor

/-- A process that has ended takes no step. -/
def step (byteSize : T → ℕ) (adaptor : RemoteDestSend T) (event : RemoteDestEvent T) : Option (RemoteDestSend T) :=
  if adaptor.halt.isSome then none
  else match event with
    | .process tuples msg now fails => some (adaptor.process byteSize tuples msg now fails)
    | .forceSend fails => some (adaptor.forceSend fails)
    | .connectionBroken => some adaptor.connectionBroken
    | .chainStopping chain isConnected fails => some (adaptor.chainStopping chain isConnected fails)

def system (byteSize : T → ℕ) (chains : List (Option ℕ)) : EventSystem (RemoteDestSend T) (RemoteDestEvent T) :=
  ⟨new chains, step byteSize⟩

/-- These tuples and metadata are in a message. -/
def items : SentMessage T → List (GivenItem T)
  | .data tuples => tuples.map .tuple
  | .metadata msg _ => [.metadata msg]
  | .noMoreData => []

/-- No message follows the last one. -/
def EndsOnce (sent : List (SentMessage T)) : Prop :=
  ∀ before after, sent = before ++ .noMoreData :: after → after = []

/-- Tuples and metadata are sent at most once and in the order they were given, nothing follows the last message, and the
connection is not used after its reset. -/
def Delivers (adaptor : RemoteDestSend T) : Prop :=
  adaptor.sent.flatMap items <+: adaptor.given ∧ EndsOnce adaptor.sent ∧ adaptor.halt ≠ some .nullDereference

/-- The call sends the buffer. -/
def Flushes (byteSize : T → ℕ) (adaptor : RemoteDestSend T) (tuples : List (Option T)) (msg : Option MetaMessage) : Prop :=
  msg.isSome ∨ sizeToSend < adaptor.thisBufSize + ((tuples.filterMap id).map byteSize).sum

/-- This is the last chain of a connection that is in use. -/
def StopsLast (adaptor : RemoteDestSend T) (chain : ℕ) (isConnected : Bool) : Prop :=
  isConnected = true ∧ ∀ other ∈ adaptor.chains, other = none ∨ other = some chain

/-- While the adaptor is not stopping, no send of the buffer fails and nothing is sent after the last message. -/
def Safe (byteSize : T → ℕ) (adaptor : RemoteDestSend T) (event : RemoteDestEvent T) : Prop :=
  adaptor.isStopping = false → match event with
    | .process tuples msg _ fails =>
        (adaptor.Flushes byteSize tuples msg → fails = false) ∧
        (SentMessage.noMoreData ∈ adaptor.sent →
          ¬ adaptor.Flushes byteSize tuples msg ∧ adaptor.noWindowStarted = false)
    | .forceSend fails => adaptor.thisBufSize ≠ 0 → fails = false ∧ SentMessage.noMoreData ∉ adaptor.sent
    | .connectionBroken => True
    | .chainStopping chain isConnected fails => adaptor.StopsLast chain isConnected →
        SentMessage.noMoreData ∉ adaptor.sent ∧ (adaptor.thisBufSize ≠ 0 → fails = false)

section EndsOnce

variable {sent new : List (SentMessage T)}

/-- More may be sent only when the last message was not sent. -/
theorem endsOnce_append (once : EndsOnce sent) (routine : SentMessage.noMoreData ∉ new) :
    EndsOnce (sent ++ new) ↔ (SentMessage.noMoreData ∈ sent → new = []) := by
  constructor
  · intro ends member
    obtain ⟨before, after, rfl⟩ := List.append_of_mem member
    have nothing : after ++ new = [] := ends before (after ++ new) (by simp)
    exact (List.append_eq_nil_iff.mp nothing).2
  · intro quiet before after split
    by_cases member : SentMessage.noMoreData ∈ sent
    · rw [quiet member, List.append_nil] at split
      exact once before after split
    · have here : SentMessage.noMoreData ∈ sent ++ new := split ▸ List.mem_append_right _ List.mem_cons_self
      rcases List.mem_append.mp here with old | late
      · exact absurd old member
      · exact absurd late routine

/-- The last message may be sent only once. -/
theorem endsOnce_last (routine : SentMessage.noMoreData ∉ new) :
    EndsOnce (sent ++ (new ++ [.noMoreData])) ↔ SentMessage.noMoreData ∉ sent := by
  constructor
  · intro ends member
    obtain ⟨before, after, rfl⟩ := List.append_of_mem member
    have nothing : after ++ (new ++ [.noMoreData]) = [] := ends before _ (by simp)
    simp at nothing
  · intro quiet before after split
    have absent : SentMessage.noMoreData ∉ sent ++ new := by
      rw [List.mem_append]
      exact fun here => here.elim quiet routine
    by_contra more
    obtain ⟨front, last, rfl⟩ := List.eq_nil_or_concat after |>.resolve_left more
    have whole : (sent ++ new) ++ [.noMoreData] = (before ++ .noMoreData :: front) ++ [last] := by
      rw [List.append_assoc, split, List.append_assoc, List.cons_append, List.concat_eq_append]
    have parts : sent ++ new = before ++ .noMoreData :: front := (List.append_inj' whole rfl).1
    apply absent
    rw [parts]
    exact List.mem_append_right _ List.mem_cons_self

end EndsOnce

section Spec

variable {byteSize : T → ℕ} {adaptor next : RemoteDestSend T}

/-- The adaptor has its connection until it stops, and what was sent with what is in the buffer is what was given. -/
structure Ordered (adaptor : RemoteDestSend T) : Prop where
  within : adaptor.sent.flatMap items <+: adaptor.given
  running : adaptor.isStopping = false → adaptor.halt = none → adaptor.conn = true ∧
    adaptor.sent.flatMap items ++ adaptor.outBufferMsg.map .tuple = adaptor.given
  stopped : adaptor.isStopping = true → adaptor.conn = false

theorem new_ordered (chains : List (Option ℕ)) : (new chains : RemoteDestSend T).Ordered :=
  ⟨List.nil_prefix, fun _ _ => ⟨rfl, rfl⟩, fun stopping => absurd stopping Bool.false_ne_true⟩

/-- The adaptor can send. -/
structure Ready (adaptor : RemoteDestSend T) : Prop where
  conn : adaptor.conn = true
  isStopping : adaptor.isStopping = false
  halt : adaptor.halt = none

theorem Ready.sendMsg (ready : adaptor.Ready) (msg : SentMessage T) :
    adaptor.sendMsg msg = {adaptor with sent := adaptor.sent ++ [msg]} := if_pos ready.conn

/-- A send that fails uses the connection after it was given up. -/
theorem Ready.doSendUnlocked (ready : adaptor.Ready) (fails : Bool) : adaptor.doSendUnlocked fails =
    if fails then {adaptor with
      thisBufSize := 0, sent := adaptor.sent ++ [.data adaptor.outBufferMsg], outBufferMsg := [], isStopping := true,
      conn := false, chains := [], halt := some .nullDereference}
    else {adaptor with thisBufSize := 0, sent := adaptor.sent ++ [.data adaptor.outBufferMsg], outBufferMsg := []} := by
  cases fails <;>
    simp [RemoteDestSend.doSendUnlocked, RemoteDestSend.sendMsg, useConn, andThen, ready.conn, ready.halt,
      ready.isStopping, connectionBroken]

/-- These messages were sent by a step that was given more items. -/
structure Sends (adaptor next : RemoteDestSend T) (new : List (SentMessage T)) (more : List (GivenItem T)) : Prop where
  sent : next.sent = adaptor.sent ++ new
  given : next.given = adaptor.given ++ more
  within : new.flatMap items <+: adaptor.outBufferMsg.map .tuple ++ more
  running : next.isStopping = false → next.halt = none → next.conn = true ∧
    new.flatMap items ++ next.outBufferMsg.map .tuple = adaptor.outBufferMsg.map .tuple ++ more
  stopped : next.isStopping = true → next.conn = false

theorem Ordered.ready (ordered : adaptor.Ordered) (running : adaptor.isStopping = false) (alive : adaptor.halt = none) :
    adaptor.Ready := ⟨(ordered.running running alive).1, running, alive⟩

theorem Ready.sends (ready : adaptor.Ready) (ordered : adaptor.Ordered) {new : List (SentMessage T)}
    {more : List (GivenItem T)} (sends : adaptor.Sends next new more) : next.Ordered := by
  have whole := (ordered.running ready.isStopping ready.halt).2
  have sent : next.sent.flatMap items = adaptor.sent.flatMap items ++ new.flatMap items := by
    rw [sends.sent, List.flatMap_append]
  have given : next.given = adaptor.sent.flatMap items ++ (adaptor.outBufferMsg.map .tuple ++ more) := by
    rw [sends.given, ← whole, List.append_assoc]
  constructor
  · rw [sent, given]
    exact (List.prefix_append_right_inj _).mpr sends.within
  · intro running alive
    obtain ⟨conn, rest⟩ := sends.running running alive
    exact ⟨conn, by rw [sent, given, List.append_assoc, rest]⟩
  · exact sends.stopped

/-- A step delivers when it sends nothing after the last message and does not use a lost connection. -/
theorem Sends.delivers {new : List (SentMessage T)} {more : List (GivenItem T)} (sends : adaptor.Sends next new more)
    (ordered : next.Ordered) :
    next.Delivers ↔ EndsOnce (adaptor.sent ++ new) ∧ next.halt ≠ some .nullDereference := by
  rw [Delivers, sends.sent]
  exact and_iff_right (sends.sent ▸ ordered.within)

section Process

variable {tuples : List (Option T)} {msg : Option MetaMessage}

/-- The header of a window that has not started is sent first. -/
def windowHeader (adaptor : RemoteDestSend T) : List (SentMessage T) := if adaptor.noWindowStarted then [.data []] else []

/-- The call has started the window and put its tuples in the buffer. -/
def gathered (byteSize : T → ℕ) (adaptor : RemoteDestSend T) (tuples : List (Option T)) (msg : Option MetaMessage) :
    RemoteDestSend T :=
  {adaptor with
    noWindowStarted := false
    sent := adaptor.sent ++ adaptor.windowHeader
    given := adaptor.given ++ givenBy tuples msg
    thisBufSize := adaptor.thisBufSize + ((tuples.filterMap id).map byteSize).sum
    outBufferMsg := adaptor.outBufferMsg ++ tuples.filterMap id}

theorem windowHeader_items : adaptor.windowHeader.flatMap items = [] := by
  unfold windowHeader
  split <;> rfl

theorem noMoreData_not_mem_windowHeader : SentMessage.noMoreData ∉ adaptor.windowHeader := by
  unfold windowHeader
  split <;> simp

theorem windowHeader_eq_nil : adaptor.windowHeader = [] ↔ adaptor.noWindowStarted = false := by
  unfold windowHeader
  cases adaptor.noWindowStarted <;> simp

theorem Ready.gathered (ready : adaptor.Ready) : (adaptor.gathered byteSize tuples msg).Ready :=
  ⟨ready.conn, ready.isStopping, ready.halt⟩

theorem Ready.process_eq (ready : adaptor.Ready) (now : UInt64) (fails : Bool) :
    adaptor.process byteSize tuples msg now fails = match msg with
      | some msg => ((adaptor.gathered byteSize tuples (some msg)).doSendUnlocked fails).andThen fun adaptor =>
          adaptor.metaFromUpstream msg now
      | none =>
          if sizeToSend < (adaptor.gathered byteSize tuples none).thisBufSize then
            (adaptor.gathered byteSize tuples none).doSendUnlocked fails
          else adaptor.gathered byteSize tuples none := by
  obtain ⟨conn, running, alive⟩ := ready
  obtain ⟨_, _, _, _, started, _, _, _, _⟩ := adaptor
  dsimp only at conn running alive
  subst conn running alive
  cases started <;> cases msg <;>
    simp [process, startWindow, RemoteDestSend.sendMsg, useConn, andThen, addTuples, RemoteDestSend.gathered,
      windowHeader]

/-- Metadata is sent as one message, but the end of the data is no routine metadata. -/
theorem Ready.metaFromUpstream (ready : adaptor.Ready) (msg : MetaMessage) (now : UInt64) :
    adaptor.metaFromUpstream msg now = {adaptor with halt := some .fatalLog} ∨
      ∃ started timestamp, adaptor.metaFromUpstream msg now =
        {adaptor with noWindowStarted := started, sent := adaptor.sent ++ [.metadata msg timestamp]} := by
  unfold RemoteDestSend.metaFromUpstream
  split
  · exact .inl rfl
  · right
    split
    · split
      · exact ⟨adaptor.noWindowStarted, none, ready.sendMsg _⟩
      · exact ⟨true, some now, if_pos ready.conn⟩
    · exact ⟨adaptor.noWindowStarted, none, ready.sendMsg _⟩

/-- These facts about a call decide whether it delivers. -/
structure Forwards (adaptor next : RemoteDestSend T) (more : List (GivenItem T)) (flushes fails : Prop) : Prop where
  sends : ∃ new, adaptor.Sends next new more ∧ SentMessage.noMoreData ∉ new ∧
    (new = [] ↔ ¬ flushes ∧ adaptor.noWindowStarted = false)
  halt : next.halt = some .nullDereference ↔ flushes ∧ fails

theorem givenBy_eq (tuples : List (Option T)) (msg : Option MetaMessage) :
    givenBy tuples msg = (tuples.filterMap id).map .tuple ++ msg.toList.map .metadata := rfl

theorem Ready.forwards_quiet (ready : adaptor.Ready) (fails : Prop) :
    adaptor.Forwards (adaptor.gathered byteSize tuples none) (givenBy tuples none) False fails := by
  refine ⟨⟨adaptor.windowHeader, ⟨rfl, rfl, ?_, fun _ _ => ⟨ready.conn, ?_⟩, ?_⟩, noMoreData_not_mem_windowHeader, ?_⟩, ?_⟩
  · rw [windowHeader_items]
    exact List.nil_prefix
  · simp [windowHeader_items, RemoteDestSend.gathered, givenBy_eq]
  · intro stopping
    exact absurd (ready.isStopping.symm.trans stopping) Bool.false_ne_true
  · simp [windowHeader_eq_nil]
  · simp [RemoteDestSend.gathered, ready.halt]

/-- A call that sends the buffer sends the metadata after it. -/
theorem forwards_flush (tail : List (SentMessage T)) {fails : Prop}
    (sent : next.sent =
      adaptor.sent ++ (adaptor.windowHeader ++ .data (adaptor.outBufferMsg ++ tuples.filterMap id) :: tail))
    (given : next.given = adaptor.given ++ givenBy tuples msg) (routine : SentMessage.noMoreData ∉ tail)
    (within : tail.flatMap items <+: msg.toList.map .metadata)
    (running : next.isStopping = false → next.halt = none →
      next.conn = true ∧ next.outBufferMsg = [] ∧ tail.flatMap items = msg.toList.map .metadata)
    (stopped : next.isStopping = true → next.conn = false) (halt : next.halt = some .nullDereference ↔ fails) :
    adaptor.Forwards next (givenBy tuples msg) True fails := by
  have all : (adaptor.windowHeader ++ .data (adaptor.outBufferMsg ++ tuples.filterMap id) :: tail).flatMap items =
      adaptor.outBufferMsg.map .tuple ++ ((tuples.filterMap id).map .tuple ++ tail.flatMap items) := by
    simp [List.flatMap_append, windowHeader_items, items]
  refine ⟨⟨_, ⟨sent, given, ?_, ?_, stopped⟩, ?_, ?_⟩, ?_⟩
  · rw [all, givenBy_eq, List.prefix_append_right_inj, List.prefix_append_right_inj]
    exact within
  · intro continues alive
    obtain ⟨conn, empty, complete⟩ := running continues alive
    refine ⟨conn, ?_⟩
    rw [all, empty, complete, List.map_nil, List.append_nil, givenBy_eq]
  · simp [noMoreData_not_mem_windowHeader, routine]
  · simp
  · rw [halt, true_and]

theorem Ready.process_forwards (ready : adaptor.Ready) (now : UInt64) (fails : Bool) :
    adaptor.Forwards (adaptor.process byteSize tuples msg now fails) (givenBy tuples msg)
      (adaptor.Flushes byteSize tuples msg) (fails = true) := by
  have full : (adaptor.gathered byteSize tuples msg).Ready := ready.gathered
  rw [ready.process_eq]
  cases msg with
  | none =>
      dsimp only
      split
      case isTrue large =>
        have flushes : adaptor.Flushes byteSize tuples none := .inr large
        rw [eq_true flushes, full.doSendUnlocked]
        cases fails <;>
          exact forwards_flush [] (by simp [RemoteDestSend.gathered]) rfl (by simp) (by simp)
            (by simp [full.conn]) (by simp [full.isStopping]) (by simp [full.halt])
      case isFalse small =>
        have quiet : ¬ adaptor.Flushes byteSize tuples none := by
          rintro (metadata | large)
          · exact absurd metadata (by simp)
          · exact small large
        rw [eq_false quiet]
        exact ready.forwards_quiet _
  | some msg =>
      have flushes : adaptor.Flushes byteSize tuples (some msg) := .inl rfl
      dsimp only
      rw [eq_true flushes, full.doSendUnlocked]
      cases fails with
      | true =>
          exact forwards_flush [] (by simp [RemoteDestSend.gathered, andThen]) rfl (by simp) List.nil_prefix
            (by simp [andThen]) (by simp [andThen]) (by simp [andThen])
      | false =>
          rw [if_neg Bool.false_ne_true, andThen, if_neg (by simp [full.halt])]
          have flushed : Ready {adaptor.gathered byteSize tuples (some msg) with
              thisBufSize := 0, outBufferMsg := [],
              sent := (adaptor.gathered byteSize tuples (some msg)).sent ++
                [.data (adaptor.gathered byteSize tuples (some msg)).outBufferMsg]} :=
            ⟨full.conn, full.isStopping, full.halt⟩
          rcases flushed.metaFromUpstream msg now with fatal | ⟨started, timestamp, sent⟩
          · rw [fatal]
            exact forwards_flush [] (by simp [RemoteDestSend.gathered]) rfl (by simp) List.nil_prefix (by simp)
              (by simp [full.isStopping]) (by simp)
          · rw [sent]
            exact forwards_flush [.metadata msg timestamp] (by simp [RemoteDestSend.gathered]) rfl (by simp) List.prefix_rfl
              (fun _ _ => ⟨full.conn, rfl, rfl⟩) (by simp [full.isStopping]) (by simp [full.halt])

/-- The call delivers exactly when it does not fail and sends nothing after the last message. -/
theorem Ready.process_delivers (ready : adaptor.Ready) (ordered : adaptor.Ordered) (delivers : adaptor.Delivers)
    (now : UInt64) (fails : Bool) :
    (adaptor.process byteSize tuples msg now fails).Delivers ↔
      adaptor.Safe byteSize (.process tuples msg now fails) := by
  have forwards : adaptor.Forwards _ _ (adaptor.Flushes byteSize tuples msg) _ := ready.process_forwards now fails
  obtain ⟨new, sends, routine, nothing⟩ := forwards.sends
  rw [sends.delivers (ready.sends ordered sends), endsOnce_append delivers.2.1 routine, nothing, ne_eq, forwards.halt,
    Safe, ready.isStopping, and_comm]
  simp only [true_implies, not_and, Bool.not_eq_true]

end Process

theorem Ready.sends_buffer (ready : adaptor.Ready) (fails : Bool) :
    adaptor.Sends (adaptor.doSendUnlocked fails) [.data adaptor.outBufferMsg] [] := by
  rw [ready.doSendUnlocked]
  cases fails
  · exact ⟨rfl, by simp, by simp [items], fun _ _ => ⟨ready.conn, by simp [items]⟩, by simp [ready.isStopping]⟩
  · exact ⟨rfl, by simp, by simp [items], by simp, by simp⟩

theorem Ready.doSendUnlocked_halt (ready : adaptor.Ready) (fails : Bool) :
    (adaptor.doSendUnlocked fails).halt = if fails then some .nullDereference else none := by
  rw [ready.doSendUnlocked]
  cases fails
  · exact ready.halt
  · rfl

/-- An empty buffer is not sent. -/
theorem Ready.forceSend (ready : adaptor.Ready) (fails : Bool) :
    adaptor.forceSend fails = if adaptor.thisBufSize = 0 then adaptor else adaptor.doSendUnlocked fails := by
  simp [RemoteDestSend.forceSend, ready.isStopping]

theorem Ready.forceSend_delivers (ready : adaptor.Ready) (ordered : adaptor.Ordered) (delivers : adaptor.Delivers)
    (fails : Bool) : (adaptor.forceSend fails).Delivers ↔ adaptor.Safe byteSize (.forceSend fails) := by
  rw [ready.forceSend, Safe, ready.isStopping]
  by_cases empty : adaptor.thisBufSize = 0
  · rw [if_pos empty]
    exact iff_of_true delivers fun _ nonempty => absurd empty nonempty
  · have sends := ready.sends_buffer fails
    rw [if_neg empty, sends.delivers (ready.sends ordered sends), endsOnce_append delivers.2.1 (by simp),
      ready.doSendUnlocked_halt]
    cases fails <;> simp [empty]

theorem Ready.forceSend_works (ready : adaptor.Ready) : (adaptor.forceSend false).Ready := by
  rw [ready.forceSend]
  split
  · exact ready
  · rw [ready.doSendUnlocked]
    exact ⟨ready.conn, ready.isStopping, ready.halt⟩

theorem Ready.forceSend_ordered (ready : adaptor.Ready) (ordered : adaptor.Ordered) (fails : Bool) :
    (adaptor.forceSend fails).Ordered := by
  rw [ready.forceSend]
  split
  · exact ordered
  · exact ready.sends ordered (ready.sends_buffer fails)

/-- A connection that was given up takes nothing more. -/
theorem Ready.connectionBroken_sends (ready : adaptor.Ready) : adaptor.Sends adaptor.connectionBroken [] [] := by
  rw [connectionBroken, ready.isStopping, if_neg Bool.false_ne_true]
  exact ⟨by simp, by simp, by simp, by simp, by simp⟩

section ChainStopping

/-- The chain is no longer among the active ones. -/
def removeChain (adaptor : RemoteDestSend T) (chain : ℕ) : RemoteDestSend T :=
  {adaptor with chains := adaptor.chains.map fun other => if other = some chain then none else other}

theorem removeChain_active (adaptor : RemoteDestSend T) (chain : ℕ) :
    ((adaptor.removeChain chain).chains.filter Option.isSome).length = 0 ↔
      ∀ other ∈ adaptor.chains, other = none ∨ other = some chain := by
  rw [List.length_eq_zero_iff, List.filter_eq_nil_iff]
  simp only [removeChain, List.forall_mem_map]
  refine forall₂_congr fun other _ => ?_
  by_cases same : other = some chain
  · simp [same]
  · simp [same]

theorem Ready.removeChain (ready : adaptor.Ready) (chain : ℕ) : (adaptor.removeChain chain).Ready :=
  ⟨ready.conn, ready.isStopping, ready.halt⟩

theorem Ready.forceSend_removeChain (ready : adaptor.Ready) (chain : ℕ) (fails : Bool) :
    (adaptor.removeChain chain).forceSend fails =
      if adaptor.thisBufSize = 0 then adaptor.removeChain chain else (adaptor.removeChain chain).doSendUnlocked fails :=
  (ready.removeChain chain).forceSend fails

theorem chainStopping_disconnected (chain : ℕ) (fails : Bool) : adaptor.chainStopping chain false fails = adaptor := by
  simp [chainStopping]

theorem Ready.chainStopping_eq (ready : adaptor.Ready) (chain : ℕ) (fails : Bool) :
    adaptor.chainStopping chain true fails =
      if ((adaptor.removeChain chain).chains.filter Option.isSome).length = 0 then
        (((adaptor.removeChain chain).forceSend fails).andThen fun adaptor => adaptor.sendMsg .noMoreData).andThen
          fun adaptor => adaptor.useConn adaptor
      else adaptor.removeChain chain := by
  simp only [chainStopping, ready.conn, ready.isStopping, RemoteDestSend.removeChain, Bool.not_true, Bool.or_self,
    Bool.false_eq_true, if_false]

theorem Ready.chainStopping_more (ready : adaptor.Ready) {chain : ℕ} (fails : Bool)
    (more : ¬ ∀ other ∈ adaptor.chains, other = none ∨ other = some chain) :
    adaptor.chainStopping chain true fails = adaptor.removeChain chain := by
  rw [ready.chainStopping_eq, if_neg ((removeChain_active adaptor chain).not.mpr more)]

/-- After a failed send of the rest of the data there is no last message. -/
theorem Ready.chainStopping_fails (ready : adaptor.Ready) {chain : ℕ}
    (last : ∀ other ∈ adaptor.chains, other = none ∨ other = some chain) (rest : adaptor.thisBufSize ≠ 0) :
    adaptor.chainStopping chain true true = (adaptor.removeChain chain).doSendUnlocked true := by
  have gone := ready.removeChain chain
  have halted : ((adaptor.removeChain chain).doSendUnlocked true).halt.isSome = true := by
    rw [gone.doSendUnlocked_halt]
    rfl
  rw [ready.chainStopping_eq, if_pos ((removeChain_active adaptor chain).mpr last), ready.forceSend_removeChain,
    if_neg rest, andThen, andThen, if_pos halted, if_pos halted]

/-- The last chain sends the rest of the data and the last message. -/
theorem Ready.chainStopping_last (ready : adaptor.Ready) {chain : ℕ} {fails : Bool}
    (last : ∀ other ∈ adaptor.chains, other = none ∨ other = some chain) (works : adaptor.thisBufSize ≠ 0 → fails = false) :
    adaptor.chainStopping chain true fails = ((adaptor.removeChain chain).forceSend false).sendMsg .noMoreData := by
  have gone := ready.removeChain chain
  have same : (adaptor.removeChain chain).forceSend fails = (adaptor.removeChain chain).forceSend false := by
    rw [ready.forceSend_removeChain, ready.forceSend_removeChain]
    split
    · rfl
    · rename_i rest
      rw [works rest]
  have flushed : ((adaptor.removeChain chain).forceSend false).Ready := gone.forceSend_works
  rw [ready.chainStopping_eq, if_pos ((removeChain_active adaptor chain).mpr last), same]
  simp only [andThen, useConn, flushed.sendMsg, flushed.halt, flushed.conn, Option.isSome_none, Bool.false_eq_true,
    if_false, if_true]

theorem Ready.removeChain_sends (ready : adaptor.Ready) (chain : ℕ) :
    adaptor.Sends (adaptor.removeChain chain) [] [] := ⟨by simp [RemoteDestSend.removeChain],
  by simp [RemoteDestSend.removeChain], by simp, fun _ _ => ⟨ready.conn, by simp [RemoteDestSend.removeChain]⟩,
  by simp [RemoteDestSend.removeChain, ready.isStopping]⟩

/-- The rest of the data comes before the last message. -/
theorem Ready.sends_last (ready : adaptor.Ready) (chain : ℕ) :
    adaptor.Sends (((adaptor.removeChain chain).forceSend false).sendMsg .noMoreData)
      ((if adaptor.thisBufSize = 0 then [] else [.data adaptor.outBufferMsg]) ++ [.noMoreData]) [] := by
  have gone := ready.removeChain chain
  rw [ready.forceSend_removeChain]
  by_cases empty : adaptor.thisBufSize = 0
  · rw [if_pos empty, if_pos empty, gone.sendMsg]
    exact ⟨rfl, by simp [RemoteDestSend.removeChain], by simp [items],
      fun _ _ => ⟨ready.conn, by simp [items, RemoteDestSend.removeChain]⟩,
      by simp [RemoteDestSend.removeChain, ready.isStopping]⟩
  · rw [if_neg empty, if_neg empty, gone.doSendUnlocked, if_neg Bool.false_ne_true,
      RemoteDestSend.sendMsg, useConn, if_pos gone.conn]
    exact ⟨by simp [RemoteDestSend.removeChain], by simp [RemoteDestSend.removeChain],
      by simp [items], fun _ _ => ⟨ready.conn, by simp [items]⟩, by simp [gone.isStopping]⟩

theorem Ready.chainStopping_ordered (ready : adaptor.Ready) (ordered : adaptor.Ordered) (chain : ℕ)
    (isConnected fails : Bool) : (adaptor.chainStopping chain isConnected fails).Ordered := by
  have gone : (adaptor.removeChain chain).Ordered := ready.sends ordered (ready.removeChain_sends chain)
  cases isConnected with
  | false =>
      rw [chainStopping_disconnected]
      exact ordered
  | true =>
      by_cases last : ∀ other ∈ adaptor.chains, other = none ∨ other = some chain
      · by_cases works : adaptor.thisBufSize ≠ 0 → fails = false
        · rw [ready.chainStopping_last last works]
          exact ready.sends ordered (ready.sends_last chain)
        · obtain ⟨rest, rfl⟩ : adaptor.thisBufSize ≠ 0 ∧ fails = true := by simpa using works
          rw [ready.chainStopping_fails last rest]
          exact (ready.removeChain chain).sends gone ((ready.removeChain chain).sends_buffer true)
      · rw [ready.chainStopping_more fails last]
        exact gone

theorem Ready.chainStopping_delivers (ready : adaptor.Ready) (ordered : adaptor.Ordered) (delivers : adaptor.Delivers)
    (chain : ℕ) (isConnected fails : Bool) :
    (adaptor.chainStopping chain isConnected fails).Delivers ↔
      adaptor.Safe byteSize (.chainStopping chain isConnected fails) := by
  rw [Safe, ready.isStopping]
  simp only [true_implies, StopsLast]
  cases isConnected with
  | false =>
      rw [chainStopping_disconnected]
      exact iff_of_true delivers fun stops => absurd stops.1 Bool.false_ne_true
  | true =>
      by_cases last : ∀ other ∈ adaptor.chains, other = none ∨ other = some chain
      · by_cases works : adaptor.thisBufSize ≠ 0 → fails = false
        · have sends := ready.sends_last chain
          have routine : SentMessage.noMoreData ∉
              if adaptor.thisBufSize = 0 then [] else [.data adaptor.outBufferMsg] := by
            split <;> simp
          rw [ready.chainStopping_last last works, sends.delivers (ready.sends ordered sends), endsOnce_last routine]
          have flushed := (ready.removeChain chain).forceSend_works
          have alive : (((adaptor.removeChain chain).forceSend false).sendMsg .noMoreData).halt = none := by
            rw [flushed.sendMsg]
            exact flushed.halt
          rw [alive]
          constructor
          · exact fun quiet _ => ⟨quiet.1, works⟩
          · exact fun safe => ⟨(safe ⟨rfl, last⟩).1, by simp⟩
        · obtain ⟨rest, rfl⟩ : adaptor.thisBufSize ≠ 0 ∧ fails = true := by simpa using works
          rw [ready.chainStopping_fails last rest]
          have halt := (ready.removeChain chain).doSendUnlocked_halt true
          exact iff_of_false (fun safe => safe.2.2 halt) fun safe => works (safe ⟨rfl, last⟩).2
      · rw [ready.chainStopping_more fails last]
        exact iff_of_true delivers fun stops => absurd stops.2 last

end ChainStopping

section Stopped

theorem step_alive {event : RemoteDestEvent T} (stepped : adaptor.step byteSize event = some next) :
    adaptor.halt = none := by
  unfold step at stepped
  split at stepped
  · cases stepped
  · simpa using ‹¬ adaptor.halt.isSome = true›

/-- An adaptor that is stopping only counts what it is given. -/
theorem Ordered.step_stopped (ordered : adaptor.Ordered) (stopping : adaptor.isStopping = true)
    {event : RemoteDestEvent T} (stepped : adaptor.step byteSize event = some next) :
    ∃ more, next = {adaptor with given := adaptor.given ++ more} := by
  have lost := ordered.stopped stopping
  have alive := step_alive stepped
  cases event with
  | process tuples msg now fails =>
      refine ⟨givenBy tuples msg, ?_⟩
      simpa [step, alive, process, stopping] using stepped.symm
  | forceSend fails =>
      obtain rfl : adaptor = next := by simpa [step, alive, RemoteDestSend.forceSend, stopping] using stepped
      exact ⟨[], by rw [List.append_nil]⟩
  | connectionBroken =>
      obtain rfl : adaptor = next := by simpa [step, alive, connectionBroken, stopping] using stepped
      exact ⟨[], by rw [List.append_nil]⟩
  | chainStopping chain isConnected fails =>
      obtain rfl : adaptor = next := by simpa [step, alive, chainStopping, lost] using stepped
      exact ⟨[], by rw [List.append_nil]⟩

theorem Ordered.given_more (ordered : adaptor.Ordered) (stopping : adaptor.isStopping = true) (more : List (GivenItem T)) :
    Ordered {adaptor with given := adaptor.given ++ more} :=
  ⟨ordered.within.trans (List.prefix_append _ _), fun running => absurd (stopping.symm.trans running) (by simp),
    ordered.stopped⟩

end Stopped

theorem Ordered.step (ordered : adaptor.Ordered) {event : RemoteDestEvent T}
    (stepped : adaptor.step byteSize event = some next) : next.Ordered := by
  have alive := step_alive stepped
  cases stopping : adaptor.isStopping with
  | true =>
      obtain ⟨more, rfl⟩ := ordered.step_stopped stopping stepped
      exact ordered.given_more stopping more
  | false =>
      have ready := ordered.ready stopping alive
      unfold RemoteDestSend.step at stepped
      rw [if_neg (by simp [alive])] at stepped
      cases event with
      | process tuples msg now fails =>
          obtain rfl := Option.some.inj stepped
          obtain ⟨new, sends, -, -⟩ := (ready.process_forwards now fails).sends
          exact ready.sends ordered sends
      | forceSend fails =>
          obtain rfl := Option.some.inj stepped
          exact ready.forceSend_ordered ordered fails
      | connectionBroken =>
          obtain rfl := Option.some.inj stepped
          exact ready.sends ordered ready.connectionBroken_sends
      | chainStopping chain isConnected fails =>
          obtain rfl := Option.some.inj stepped
          exact ready.chainStopping_ordered ordered chain isConnected fails

theorem Ordered.step_delivers (ordered : adaptor.Ordered) (delivers : adaptor.Delivers) {event : RemoteDestEvent T}
    (stepped : adaptor.step byteSize event = some next) : next.Delivers ↔ adaptor.Safe byteSize event := by
  have alive := step_alive stepped
  cases stopping : adaptor.isStopping with
  | true =>
      obtain ⟨more, rfl⟩ := ordered.step_stopped stopping stepped
      have more_given : Delivers {adaptor with given := adaptor.given ++ more} :=
        ⟨delivers.1.trans (List.prefix_append _ _), delivers.2⟩
      exact iff_of_true more_given fun running => absurd (stopping.symm.trans running) (by simp)
  | false =>
      have ready := ordered.ready stopping alive
      unfold RemoteDestSend.step at stepped
      rw [if_neg (by simp [alive])] at stepped
      cases event with
      | process tuples msg now fails =>
          obtain rfl := Option.some.inj stepped
          exact ready.process_delivers ordered delivers now fails
      | forceSend fails =>
          obtain rfl := Option.some.inj stepped
          exact ready.forceSend_delivers ordered delivers fails
      | connectionBroken =>
          obtain rfl := Option.some.inj stepped
          have sends := ready.connectionBroken_sends
          have unharmed : adaptor.connectionBroken.halt = none := by
            simp [RemoteDestSend.connectionBroken, ready.isStopping, alive]
          rw [sends.delivers (ready.sends ordered sends), List.append_nil, unharmed]
          exact iff_of_true ⟨delivers.2.1, by simp⟩ fun _ => trivial
      | chainStopping chain isConnected fails =>
          obtain rfl := Option.some.inj stepped
          exact ready.chainStopping_delivers ordered delivers chain isConnected fails

end Spec

theorem new_delivers (chains : List (Option ℕ)) : (new chains : RemoteDestSend T).Delivers :=
  ⟨List.nil_prefix, fun before after split => by simp [new] at split, by simp [new]⟩

/-- Every state of a run delivers exactly when no step of it fails to send the buffer or sends after the last message. -/
theorem delivers_in_order_iff (byteSize : T → ℕ) (chains : List (Option ℕ)) (events : List (RemoteDestEvent T)) :
    (system byteSize chains).EveryState Delivers (new chains) events ↔
      (system byteSize chains).EveryStep (Safe byteSize) (new chains) events :=
  EventSystem.everyState_iff Ordered (fun _ _ _ ordered stepped => ordered.step stepped)
    (fun _ _ _ ordered delivers stepped => ordered.step_delivers delivers stepped) events (new_ordered chains)
    (new_delivers chains)

/-- A full buffer that cannot be sent uses the connection that was just given up. -/
theorem send_failure_uses_lost_connection : ¬ ∀ events : List (RemoteDestEvent ℕ),
    (system (fun size => size) [some 0]).EveryState Delivers (new [some 0]) events := by
  intro every
  have ran := every [.process [some 5000] none 0 true]
  exact (ran.2 _ rfl).2.2 rfl

end RemoteDestSend

end JetStream
