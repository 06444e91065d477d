import JetStream.Comm.ReceiveSide
import JetStream.Dataplane.RemoteDestSend

namespace JetStream

/-- The receiver treats four types of messages in their own way. The code of another message stands for all of it. -/
inductive WireType where
  | data
  | noMoreData
  | tsEcho
  | endOfWindow
  | other (code : ℕ)
  deriving DecidableEq

/-- A message between two nodes can carry tuples. -/
structure WireMessage (T : Type) where
  type : WireType
  data : List T
  windowLengthMs : Option ℕ
  deriving DecidableEq

/-- A chain takes in tuples and markers. -/
inductive ChainItem (T : Type) where
  | tuple (t : T)
  | marker (msg : WireMessage T)

/-- The receiver answers on the same connection. -/
inductive ConnectionReply (T : Type) where
  | echo (msg : WireMessage T)
  | congestStatus
  | fromDownstream (msg : WireMessage T)

/-- The connection feeds a chain as long as it has one. The calls of the chain are recorded with what each of them passes
on, and so is a failure that tore the chain down. -/
structure IncomingConnection (T : Type) where
  dest : Bool
  calls : List (List T × WireMessage T)
  stops : ℕ
  replies : List (ConnectionReply T)
  closings : ℕ
  broken : Bool
  fatal : Bool

namespace WireMessage

variable {T : Type}

/-- The chain is to take these items in. -/
def items (msg : WireMessage T) : List (ChainItem T) :=
  match msg.type with
  | .data => msg.data.map .tuple
  | .noMoreData => []
  | .tsEcho => []
  | .endOfWindow => [.marker msg]
  | .other _ => [.marker msg]

end WireMessage

namespace IncomingConnection

variable {T : Type}

def new : IncomingConnection T := ⟨true, [], 0, [], 0, false, false⟩

/-- The chain is stopped once. -/
def noMoreTuples (conn : IncomingConnection T) : IncomingConnection T :=
  if conn.dest then {conn with dest := false, stops := conn.stops + 1} else conn

/-- The chain gets the data with its message, and a marker without data. A message without a chain ends the process, and
so does a tuple without elements. -/
def gotDataCb (eSize : T → ℕ) (conn : IncomingConnection T) : Except RecvError (WireMessage T) → IncomingConnection T
  | .error _ =>
      if conn.fatal then conn
      else if conn.dest then {conn.noMoreTuples with closings := conn.closings + 1, broken := true}
      else {conn with broken := true}
  | .ok msg =>
      if conn.fatal then conn
      else if !conn.dest || msg.data.any (eSize · = 0) then {conn with fatal := true}
      else match msg.type with
        | .data => {conn with calls := conn.calls ++ [(msg.data, msg)]}
        | .noMoreData => {conn.noMoreTuples with closings := conn.closings + 1}
        | .tsEcho => {conn with replies := conn.replies ++ [.echo msg]}
        | .endOfWindow => {conn with
            calls := conn.calls ++ [([], msg)]
            replies := conn.replies ++ [.congestStatus]}
        | .other _ => {conn with calls := conn.calls ++ [([], msg)]}

/-- A message that cannot be sent upwards tears the chain down. -/
def metaFromDownstream (conn : IncomingConnection T) (msg : WireMessage T) (isConnected fails : Bool) :
    IncomingConnection T :=
  if isConnected then
    let conn := {conn with replies := conn.replies ++ [.fromDownstream msg]}
    if fails then {conn.noMoreTuples with closings := conn.closings + 1, broken := true} else conn
  else conn

/-- These items have come to the chain, which does not count the message of a call with data. -/
def seen (conn : IncomingConnection T) : List (ChainItem T) :=
  conn.calls.flatMap fun call => call.1.map .tuple ++ if call.2.type = .data then [] else [.marker call.2]

variable {eSize : T → ℕ} {conn : IncomingConnection T} {messages : List (WireMessage T)}

/-- The chain took in the first messages, all of them while it is there, and it ended with the last message or with a
failure. While it is there, only a tuple without elements ends the process. -/
structure Follows (eSize : T → ℕ) (conn : IncomingConnection T) (messages : List (WireMessage T)) : Prop where
  single : conn.stops = if conn.dest then 0 else 1
  within : conn.seen <+: messages.flatMap WireMessage.items
  running : conn.dest = true → conn.fatal = false → conn.seen = messages.flatMap WireMessage.items ∧
    conn.broken = false ∧ ∀ msg ∈ messages, msg.type ≠ .noMoreData
  crashed : conn.dest = true → conn.fatal = true → ∃ msg ∈ messages, ∃ t ∈ msg.data, eSize t = 0
  ended : conn.dest = false → conn.broken = true ∨ ∃ before last after, messages = before ++ last :: after ∧
    last.type = .noMoreData ∧ conn.seen = before.flatMap WireMessage.items ∧ (conn.fatal = true ↔ after ≠ [])

theorem new_follows : (new : IncomingConnection T).Follows eSize [] where
  single := rfl
  within := List.prefix_rfl
  running := fun _ _ => ⟨rfl, rfl, nofun⟩
  crashed := fun _ => nofun
  ended := nofun

theorem gotDataCb_of_fatal (fatal : conn.fatal = true) (result : Except RecvError (WireMessage T)) :
    conn.gotDataCb eSize result = conn := by
  cases result <;> exact if_pos fatal

@[simp] theorem noMoreTuples_calls (conn : IncomingConnection T) : conn.noMoreTuples.calls = conn.calls := by
  unfold noMoreTuples
  split_ifs <;> rfl

/-- A chain that has ended gets nothing more. -/
theorem gotDataCb_of_gone (gone : conn.dest = false) (result : Except RecvError (WireMessage T)) :
    (conn.gotDataCb eSize result).dest = false ∧ (conn.gotDataCb eSize result).calls = conn.calls ∧
      (conn.gotDataCb eSize result).stops = conn.stops := by
  cases alive : conn.fatal with
  | true =>
      rw [gotDataCb_of_fatal alive]
      exact ⟨gone, rfl, rfl⟩
  | false => cases result <;> simp [gotDataCb, alive, gone]

theorem gotAll_of_gone (gone : conn.dest = false) (results : List (Except RecvError (WireMessage T))) :
    (results.foldl (gotDataCb eSize) conn).dest = false ∧ (results.foldl (gotDataCb eSize) conn).calls = conn.calls ∧
      (results.foldl (gotDataCb eSize) conn).stops = conn.stops := by
  induction results generalizing conn with
  | nil => exact ⟨gone, rfl, rfl⟩
  | cons result results ih =>
      obtain ⟨stays, calls, stops⟩ := @gotDataCb_of_gone T eSize conn gone result
      obtain ⟨still, later, after⟩ := ih stays
      exact ⟨still, later.trans calls, after.trans stops⟩

theorem metaFromDownstream_calls (conn : IncomingConnection T) (msg : WireMessage T) (isConnected fails : Bool) :
    (conn.metaFromDownstream msg isConnected fails).calls = conn.calls := by
  unfold metaFromDownstream
  split_ifs
  · exact noMoreTuples_calls _
  · rfl
  · rfl

theorem metaFromDownstream_of_gone (gone : conn.dest = false) (msg : WireMessage T) (isConnected fails : Bool) :
    (conn.metaFromDownstream msg isConnected fails).dest = false ∧
      (conn.metaFromDownstream msg isConnected fails).calls = conn.calls ∧
      (conn.metaFromDownstream msg isConnected fails).stops = conn.stops := by
  refine ⟨?_, conn.metaFromDownstream_calls msg isConnected fails, ?_⟩ <;> unfold metaFromDownstream <;> split_ifs <;>
    simp [noMoreTuples, gone]

/-- A message goes to the chain if its tuples have elements. -/
theorem gotDataCb_ok (alive : conn.fatal = false) (there : conn.dest = true) {msg : WireMessage T}
    (filled : msg.data.any (eSize · = 0) = false) : conn.gotDataCb eSize (.ok msg) = match msg.type with
      | .data => {conn with calls := conn.calls ++ [(msg.data, msg)]}
      | .noMoreData => {conn with dest := false, stops := conn.stops + 1, closings := conn.closings + 1}
      | .tsEcho => {conn with replies := conn.replies ++ [.echo msg]}
      | .endOfWindow => {conn with
          calls := conn.calls ++ [([], msg)]
          replies := conn.replies ++ [.congestStatus]}
      | .other _ => {conn with calls := conn.calls ++ [([], msg)]} := by
  simp [gotDataCb, noMoreTuples, alive, there, filled]

/-- The chain is called at most once for each message, and it gets the data of that message only. -/
theorem gotDataCb_calls (conn : IncomingConnection T) (result : Except RecvError (WireMessage T)) :
    (conn.gotDataCb eSize result).calls = conn.calls ∨
      ∃ msg : WireMessage T, (conn.gotDataCb eSize result).calls =
        conn.calls ++ [(if msg.type = .data then msg.data else [], msg)] := by
  cases alive : conn.fatal with
  | true => exact Or.inl (by rw [gotDataCb_of_fatal alive])
  | false =>
      cases there : conn.dest with
      | false => exact Or.inl (gotDataCb_of_gone there result).2.1
      | true =>
          cases result with
          | error error => left; simp [gotDataCb, noMoreTuples, alive, there]
          | ok msg =>
              cases filled : msg.data.any (eSize · = 0) with
              | true => left; simp only [gotDataCb, alive, there, filled]; rfl
              | false =>
                  rw [gotDataCb_ok alive there filled]
                  cases type : msg.type with
                  | data => exact Or.inr ⟨msg, by simp [type]⟩
                  | noMoreData => exact Or.inl rfl
                  | tsEcho => exact Or.inl rfl
                  | endOfWindow => exact Or.inr ⟨msg, by simp [type]⟩
                  | other code => exact Or.inr ⟨msg, by simp [type]⟩

/-- A failure leaves no chain. -/
theorem Follows.fails (follows : conn.Follows eSize messages) {next : IncomingConnection T}
    (calls : next.calls = conn.calls) (gone : next.dest = false) (stops : next.stops = 1) (broken : next.broken = true) :
    next.Follows eSize messages where
  single := by rw [stops, gone, if_neg Bool.false_ne_true]
  within := by
    rw [seen, calls]
    exact follows.within
  running := fun there => absurd (gone.symm.trans there) Bool.false_ne_true
  crashed := fun there => absurd (gone.symm.trans there) Bool.false_ne_true
  ended := fun _ => Or.inl broken

theorem Follows.gotError (follows : conn.Follows eSize messages) (error : RecvError) :
    (conn.gotDataCb eSize (.error error)).Follows eSize messages := by
  have single := follows.single
  cases alive : conn.fatal with
  | true =>
      rw [gotDataCb_of_fatal alive]
      exact follows
  | false =>
      cases there : conn.dest with
      | true =>
          rw [there, if_pos rfl] at single
          simp only [gotDataCb, noMoreTuples, alive, there, if_true, Bool.false_eq_true, if_false]
          exact follows.fails rfl rfl (by rw [single]) rfl
      | false =>
          rw [there, if_neg Bool.false_ne_true] at single
          have next : conn.gotDataCb eSize (.error error) = {conn with broken := true} := by
            simp [gotDataCb, alive, there]
          rw [next]
          exact follows.fails rfl there single rfl

/-- The items of a message that the chain gets are seen. -/
theorem seen_append (conn : IncomingConnection T) (call : List T × WireMessage T) :
    seen {conn with calls := conn.calls ++ [call]} =
      conn.seen ++ (call.1.map .tuple ++ if call.2.type = .data then [] else [.marker call.2]) := by
  rw [seen, seen, List.flatMap_append, List.flatMap_singleton]

/-- A process that has ended takes no notice of what still comes. -/
theorem Follows.ignores (follows : conn.Follows eSize messages) (fatal : conn.fatal = true) (msg : WireMessage T) :
    conn.Follows eSize (messages ++ [msg]) where
  single := follows.single
  within := by
    rw [List.flatMap_append]
    exact follows.within.trans (List.prefix_append _ _)
  running := fun _ alive => absurd (alive.symm.trans fatal) Bool.false_ne_true
  crashed := fun there _ => by
    obtain ⟨empty, member, lacks⟩ := follows.crashed there fatal
    exact ⟨empty, List.mem_append_left _ member, lacks⟩
  ended := fun gone => by
    rcases follows.ended gone with broken | ⟨before, last, after, split, type, saw, -⟩
    · exact Or.inl broken
    · refine Or.inr ⟨before, last, after ++ [msg], ?_, type, saw, iff_of_true fatal (by simp)⟩
      rw [split, List.append_assoc, List.cons_append]

/-- The message ends the process, because the chain has ended or because a tuple has no elements. -/
theorem Follows.crashes (follows : conn.Follows eSize messages) {msg : WireMessage T}
    (lacks : conn.dest = true → ∃ t ∈ msg.data, eSize t = 0) :
    Follows eSize {conn with fatal := true} (messages ++ [msg]) where
  single := follows.single
  within := by
    rw [List.flatMap_append]
    exact follows.within.trans (List.prefix_append _ _)
  running := fun _ => nofun
  crashed := fun there _ => ⟨msg, List.mem_append_right _ List.mem_cons_self, lacks there⟩
  ended := fun gone => by
    rcases follows.ended gone with broken | ⟨before, last, after, split, type, saw, -⟩
    · exact Or.inl broken
    · refine Or.inr ⟨before, last, after ++ [msg], ?_, type, saw, iff_of_true rfl (by simp)⟩
      rw [split, List.append_assoc, List.cons_append]

/-- A chain that goes on has seen one more message. -/
theorem Follows.goesOn (follows : conn.Follows eSize messages) (alive : conn.fatal = false) (there : conn.dest = true)
    {msg : WireMessage T} (more : msg.type ≠ .noMoreData) {next : IncomingConnection T} (dest : next.dest = conn.dest)
    (stops : next.stops = conn.stops) (broken : next.broken = conn.broken) (fatal : next.fatal = conn.fatal)
    (saw : next.seen = conn.seen ++ msg.items) : next.Follows eSize (messages ++ [msg]) := by
  obtain ⟨all, unbroken, open_⟩ := follows.running there alive
  have whole : next.seen = (messages ++ [msg]).flatMap WireMessage.items := by
    rw [saw, all, List.flatMap_append, List.flatMap_singleton]
  refine ⟨?_, ?_, ?_, ?_, ?_⟩
  · rw [stops, dest]
    exact follows.single
  · exact ⟨[], by rw [List.append_nil, whole]⟩
  · intro _ _
    refine ⟨whole, broken.trans unbroken, ?_⟩
    intro other member
    rcases List.mem_append.mp member with before | now
    · exact open_ other before
    · rw [List.mem_singleton.mp now]
      exact more
  · intro _ crash
    exact absurd (alive.symm.trans (fatal.symm.trans crash)) Bool.false_ne_true
  · intro gone
    rw [dest, there] at gone
    cases gone

theorem Follows.gotMessage (follows : conn.Follows eSize messages) (msg : WireMessage T) :
    (conn.gotDataCb eSize (.ok msg)).Follows eSize (messages ++ [msg]) := by
  by_cases fatal : conn.fatal = true
  · rw [gotDataCb_of_fatal fatal]
    exact follows.ignores fatal msg
  have alive : conn.fatal = false := Bool.eq_false_iff.mpr fatal
  by_cases ends : (!conn.dest || msg.data.any (eSize · = 0)) = true
  · have next : conn.gotDataCb eSize (.ok msg) = {conn with fatal := true} := (if_neg fatal).trans (if_pos ends)
    rw [next]
    refine follows.crashes fun there => ?_
    simpa [there] using ends
  obtain ⟨here, filled⟩ : conn.dest = true ∧ msg.data.any (eSize · = 0) = false := by
    rw [Bool.or_eq_true, not_or] at ends
    exact ⟨by simpa using ends.1, Bool.eq_false_iff.mpr ends.2⟩
  obtain ⟨all, unbroken, open_⟩ := follows.running here alive
  rw [gotDataCb_ok alive here filled]
  cases type : msg.type with
  | data =>
      refine follows.goesOn alive here (by simp [type]) rfl rfl rfl rfl ?_
      rw [seen_append, if_pos type, List.append_nil, WireMessage.items, type]
  | noMoreData =>
      refine ⟨?_, ?_, nofun, nofun, ?_⟩
      · have single := follows.single
        rw [here, if_pos rfl] at single
        dsimp only
        rw [single, if_neg Bool.false_ne_true]
      · rw [List.flatMap_append]
        exact follows.within.trans (List.prefix_append _ _)
      · intro _
        refine Or.inr ⟨messages, msg, [], rfl, type, all, ?_⟩
        simp [alive]
  | tsEcho =>
      refine follows.goesOn alive here (by simp [type]) rfl rfl rfl rfl ?_
      rw [WireMessage.items, type]
      exact (List.append_nil _).symm
  | endOfWindow =>
      refine follows.goesOn alive here (by simp [type]) rfl rfl rfl rfl ?_
      have appended := seen_append conn ([], msg)
      rw [if_neg (by simp [type])] at appended
      rw [WireMessage.items, type]
      exact appended
  | other code =>
      refine follows.goesOn alive here (by simp [type]) rfl rfl rfl rfl ?_
      have appended := seen_append conn ([], msg)
      rw [if_neg (by simp [type])] at appended
      rw [WireMessage.items, type]
      exact appended

/-- The messages among the results of the reads are what the chain follows. -/
theorem Follows.gotAll (follows : conn.Follows eSize messages) (results : List (Except RecvError (WireMessage T))) :
    (results.foldl (gotDataCb eSize) conn).Follows eSize (messages ++ results.filterMap Except.toOption) := by
  induction results generalizing conn messages with
  | nil =>
      rw [List.filterMap_nil, List.append_nil]
      exact follows
  | cons result results ih =>
      cases result with
      | error error => exact ih (follows.gotError error)
      | ok msg =>
          have later := ih (follows.gotMessage msg)
          rw [List.append_assoc] at later
          exact later

theorem Follows.metaFromDownstream (follows : conn.Follows eSize messages) (msg : WireMessage T)
    (isConnected fails : Bool) : (conn.metaFromDownstream msg isConnected fails).Follows eSize messages := by
  have replied : Follows eSize {conn with replies := conn.replies ++ [.fromDownstream msg]} messages :=
    ⟨follows.single, follows.within, follows.running, follows.crashed, follows.ended⟩
  have torn : Follows eSize {noMoreTuples {conn with replies := conn.replies ++ [.fromDownstream msg]} with
      closings := conn.closings + 1, broken := true} messages := by
    have single := follows.single
    cases there : conn.dest with
    | true =>
        rw [there, if_pos rfl] at single
        simp only [noMoreTuples, if_true]
        exact replied.fails rfl rfl (by rw [single]) rfl
    | false =>
        rw [there, if_neg Bool.false_ne_true] at single
        simp only [noMoreTuples, Bool.false_eq_true, if_false]
        exact replied.fails rfl rfl single rfl
  unfold IncomingConnection.metaFromDownstream
  split_ifs
  · exact torn
  · exact replied
  · exact follows

end IncomingConnection

end JetStream
