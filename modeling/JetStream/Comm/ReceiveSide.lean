import JetStream.Comm.ConnectedSocket
import JetStream.Lib.AsyncOperation
import JetStream.Lib.PrefixCode

namespace JetStream

/-- The receiving side sets three error codes itself, and the others come with the operation that failed. -/
inductive RecvError where
  | invalidArgument
  | notConnected
  | operationCanceled
  | code (error : ErrorCode)
  deriving DecidableEq

/-- A read is for a header of four bytes, or for a body of the length that the header gave. -/
inductive ReadTarget where
  | header
  | body (len : ℕ)
  deriving DecidableEq

/-- Each read has its target and its progress. The bytes that have arrived and are not read yet are kept, with all bytes
that have ever arrived and the calls of the callback. -/
structure ReceiveSide where
  socket : ConnectedSocket
  receiving : Bool
  recvcb : Bool
  posted : ℕ
  targets : List ReadTarget
  reads : List (AsyncOp (Except RecvError (List UInt8)))
  stream : List UInt8
  arrived : List UInt8
  calls : List (Except RecvError (List UInt8))

/-- The owner asks for messages, the receive strand and the network take their turns, and the sending side of the same
socket goes on. -/
inductive ReceiveEvent where
  | recvMsg
  | performRecv
  | arrive (bytes : List UInt8)
  | readCompletes (read : ℕ)
  | readFails (read : ℕ) (error : ErrorCode)
  | received (read : ℕ)
  | closeOnStrand (cb : ℕ)
  | sendSide (event : SendStep)
  deriving DecidableEq

namespace ReadTarget

def size : ReadTarget → ℕ
  | .header => SerializedMessageOut.hdrlen
  | .body len => len

end ReadTarget

namespace SerializedMessageOut

/-- The header is read with its most significant byte in front. -/
def ntohl : List UInt8 → ℕ
  | [a, b, c, d] => a.toNat * 2 ^ 24 + b.toNat * 2 ^ 16 + c.toNat * 2 ^ 8 + d.toNat
  | _ => 0

/-- A message goes over the wire behind its length. -/
def frame (payload : List UInt8) : List UInt8 := htonl payload.length ++ payload

end SerializedMessageOut

namespace ReceiveSide

def new : ReceiveSide := ⟨.new, false, false, 0, [], [], [], [], []⟩

/-- A socket that is closed cancels the reads under way. -/
def withSocket (side : ReceiveSide) (socket : ConnectedSocket) : ReceiveSide := {side with
  socket := socket
  reads := if side.socket.isOpen && !socket.isOpen then side.reads.map (·.cancel (.error .operationCanceled))
    else side.reads}

/-- The owner hears of a failure. -/
def fail (side : ReceiveSide) (error : RecvError) : ReceiveSide :=
  let side := side.withSocket side.socket.fail
  if side.recvcb then {side with calls := side.calls ++ [.error error]} else side

/-- Only one read is begun at a time. -/
def performRecv (side : ReceiveSide) : ReceiveSide :=
  if !side.socket.isOpen || side.receiving then side
  else {side with receiving := true, targets := side.targets ++ [.header], reads := side.reads ++ [.pending]}

/-- A header gives the length of the body, which is read next. -/
def receivedHeader (side : ReceiveSide) : Except RecvError (List UInt8) → ReceiveSide
  | .error error =>
      let side := {side with receiving := false}
      if error = .operationCanceled then side else side.fail error
  | .ok hdrbuf =>
      if hdrbuf.length ≠ SerializedMessageOut.hdrlen then fail {side with receiving := false} .invalidArgument
      else if !side.socket.isOpen then fail {side with receiving := false} .notConnected
      else if SerializedMessageOut.ntohl hdrbuf = 0 then fail {side with receiving := false} .invalidArgument
      else {side with
        targets := side.targets ++ [.body (SerializedMessageOut.ntohl hdrbuf)]
        reads := side.reads ++ [.pending]}

/-- A body is a message for the owner, whose callback asks for the next one when `rearms` says so. -/
def receivedBody (rearms : List UInt8 → Bool) (side : ReceiveSide) (len : ℕ) :
    Except RecvError (List UInt8) → ReceiveSide
  | .error error => fail {side with receiving := false} error
  | .ok msg =>
      if msg.length ≠ len then fail {side with receiving := false} .invalidArgument
      else if side.recvcb then {side with
        receiving := false
        calls := side.calls ++ [.ok msg]
        posted := if rearms msg then side.posted + 1 else side.posted}
      else {side with receiving := false}

/-- A failed write is reported to the owner as well. -/
def sendSide (side : ReceiveSide) (event : SendStep) : Option ReceiveSide := do
  let socket ← side.socket.step event
  match event with
  | .sent _ (some error) =>
      let next := side.withSocket socket
      some (if next.recvcb then {next with calls := next.calls ++ [.error (.code error)]} else next)
  | .fail _ => none
  | _ => some (side.withSocket socket)

/-- A read takes its bytes from the front of those that have arrived, once there are enough. -/
def step (rearms : List UInt8 → Bool) (side : ReceiveSide) : ReceiveEvent → Option ReceiveSide
  | .recvMsg => some {side with recvcb := true, posted := side.posted + 1}
  | .performRecv => if side.posted = 0 then none else some (performRecv {side with posted := side.posted - 1})
  | .arrive bytes => some {side with stream := side.stream ++ bytes, arrived := side.arrived ++ bytes}
  | .readCompletes read => do
      let target ← side.targets[read]?
      let op ← side.reads[read]?
      let op ← op.complete (.ok (side.arrived.take target.size))
      if target.size ≤ side.arrived.length then
        some {side with reads := side.reads.set read op, arrived := side.arrived.drop target.size}
      else none
  | .readFails read error => do
      let op ← side.reads[read]?
      let op ← op.complete (.error (.code error))
      some {side with reads := side.reads.set read op}
  | .received read => do
      let target ← side.targets[read]?
      let op ← side.reads[read]?
      let (result, op) ← op.handle
      let side := {side with reads := side.reads.set read op}
      match target with
      | .header => some (side.receivedHeader result)
      | .body len => some (side.receivedBody rearms len result)
  | .closeOnStrand cb => some (side.withSocket (side.socket.closeOnStrand cb))
  | .sendSide event => side.sendSide event

/-- These messages have been given to the owner. -/
def delivered (side : ReceiveSide) : List (List UInt8) := side.calls.filterMap Except.toOption

end ReceiveSide

namespace ConnectedSocket

/-- A closed socket stays closed. -/
theorem step_closed {socket next : ConnectedSocket} {event : SendStep} (closed : socket.isOpen = false)
    (stepped : socket.step event = some next) : next.isOpen = false := by
  cases event with
  | performSend message =>
      obtain rfl := Option.some.inj stepped
      simp [performSend, closed]
  | performQueuedSend =>
      have stepped : socket.performQueuedSend = some next := stepped
      unfold performQueuedSend at stepped
      split at stepped
      · obtain rfl := Option.some.inj stepped
        exact closed
      · rw [closed, Bool.not_false, Bool.or_true, if_pos rfl] at stepped
        obtain rfl := Option.some.inj stepped
        exact closed
  | sent message error =>
      obtain ⟨-, stepped⟩ := Option.ite_none_right_eq_some.mp stepped
      unfold sent at stepped
      dsimp only at stepped
      split_ifs at stepped with failed queued closing
      · obtain rfl := Option.some.inj stepped
        rfl
      · unfold performQueuedSend at stepped
        split at stepped
        · obtain rfl := Option.some.inj stepped
          exact closed
        · dsimp only at stepped
          rw [closed, Bool.not_false, Bool.or_true, if_pos rfl] at stepped
          obtain rfl := Option.some.inj stepped
          rfl
      · obtain rfl := Option.some.inj stepped
        rfl
      · obtain rfl := Option.some.inj stepped
        exact closed
  | closeOnStrand cb =>
      obtain rfl := Option.some.inj stepped
      unfold closeOnStrand
      split_ifs
      · exact closed
      · rfl
  | fail error =>
      obtain rfl := Option.some.inj stepped
      rfl

end ConnectedSocket

namespace SerializedMessageOut

theorem htonl_ntohl {bytes : List UInt8} (header : bytes.length = hdrlen) : htonl (ntohl bytes) = bytes := by
  match bytes, header with
  | [a, b, c, d], _ =>
      have := a.toNat_lt
      have := b.toNat_lt
      have := c.toNat_lt
      have := d.toNat_lt
      have byte {value : ℕ} {digit : UInt8} (same : value % 2 ^ 8 = digit.toNat) : UInt8.ofNat value = digit := by
        rw [← UInt8.toNat_inj, UInt8.toNat_ofNat', same]
      rw [htonl, ntohl, @byte _ a (by omega), @byte _ b (by omega), @byte _ c (by omega), @byte _ d (by omega)]

theorem ntohl_lt (bytes : List UInt8) : ntohl bytes < 2 ^ 32 := by
  unfold ntohl
  split
  · rename_i a b c d
    have := a.toNat_lt
    have := b.toNat_lt
    have := c.toNat_lt
    have := d.toNat_lt
    omega
  · decide

theorem ntohl_htonl {len : ℕ} (fits : len < 2 ^ 32) : ntohl (htonl len) = len := by
  simp only [htonl, ntohl, UInt8.toNat_ofNat']
  omega

@[simp] theorem length_htonl' (len : ℕ) : (htonl len).length = hdrlen := rfl

/-- The messages whose length fits the header have frames that cannot be mixed up. -/
theorem frame_prefixFree : PrefixFree {payload : List UInt8 | payload.length < 2 ^ 32} frame := by
  intro first firstFits second secondFits s t same
  rw [frame, frame, List.append_assoc, List.append_assoc] at same
  obtain ⟨headers, rest⟩ := List.append_inj same rfl
  have lengths : first.length = second.length := by
    rw [← ntohl_htonl firstFits, headers, ntohl_htonl secondFits]
  exact (List.append_inj rest lengths).1

theorem drop_frame (payload : List UInt8) : (frame payload).drop hdrlen = payload := rfl

theorem frame_ne_nil (payload : List UInt8) : frame payload ≠ [] := List.cons_ne_nil _ _

end SerializedMessageOut

namespace ReceiveSide

/-- Before a read for the target began, these bytes of its message had been read. -/
inductive Begun : ReadTarget → List UInt8 → Prop
  | header : Begun .header []
  | body (len : ℕ) (positive : 0 < len) (fits : len < 2 ^ 32) : Begun (.body len) (SerializedMessageOut.htonl len)

/-- The current read is where the receiving flag and the socket say, and it has this part of its message. -/
inductive Stage (opened : Bool) :
    Bool → List UInt8 → Option (ReadTarget × AsyncOp (Except RecvError (List UInt8))) → Prop
  | idle (begun : List UInt8) (clean : opened = true → begun = []) : Stage opened false begun none
  | pending (target : ReadTarget) (begun : List UInt8) (before : Begun target begun) (isOpen : opened = true) :
      Stage opened true begun (some (target, .pending))
  | read (target : ReadTarget) (begun bytes : List UInt8) (before : Begun target begun)
      (whole : bytes.length = target.size) : Stage opened true (begun ++ bytes) (some (target, .queued (.ok bytes)))
  | failed (target : ReadTarget) (begun : List UInt8) (error : RecvError) (before : Begun target begun)
      (closed : error = .operationCanceled → opened = false) :
      Stage opened true begun (some (target, .queued (.error error)))

/-- All reads before the current one are handled, and the bytes that arrived are the delivered messages, what has been
read of the next one and what is not read yet. -/
structure Ledger (side : ReceiveSide) (results : List (Except RecvError (List UInt8))) (past : List ReadTarget)
    (current : Option (ReadTarget × AsyncOp (Except RecvError (List UInt8)))) (begun : List UInt8) : Prop where
  reads : side.reads = results.map .handled ++ (current.map Prod.snd).toList
  targets : side.targets = past ++ (current.map Prod.fst).toList
  paired : past.length = results.length
  stream : side.stream = side.delivered.flatMap SerializedMessageOut.frame ++ begun ++ side.arrived
  words : ∀ payload ∈ side.delivered, payload ≠ [] ∧ payload.length < 2 ^ 32
  wanted : side.posted ≠ 0 ∨ side.receiving = true → side.recvcb = true

def Inv (side : ReceiveSide) : Prop :=
  ∃ results past current begun, side.Ledger results past current begun ∧
    Stage side.socket.isOpen side.receiving begun current

variable {side next : ReceiveSide} {results : List (Except RecvError (List UInt8))} {past : List ReadTarget}
    {current : Option (ReadTarget × AsyncOp (Except RecvError (List UInt8)))} {begun : List UInt8}

theorem new_inv : new.Inv :=
  ⟨[], [], none, [], ⟨rfl, rfl, rfl, rfl, nofun, by simp [new]⟩, .idle [] fun _ => rfl⟩

@[simp] theorem delivered_error (calls : List (Except RecvError (List UInt8))) (error : RecvError) :
    (calls ++ [Except.error error]).filterMap Except.toOption = calls.filterMap Except.toOption := by
  rw [List.filterMap_append]
  exact List.append_nil _

/-- Closing the socket cancels the current read only. -/
theorem Ledger.withSocket (ledger : side.Ledger results past current begun)
    (stage : Stage side.socket.isOpen side.receiving begun current) {socket : ConnectedSocket}
    (stays : side.socket.isOpen = false → socket.isOpen = false) :
    ∃ current, (side.withSocket socket).Ledger results past current begun ∧
      Stage socket.isOpen side.receiving begun current := by
  cases closes : side.socket.isOpen && !socket.isOpen with
  | false =>
      have same : socket.isOpen = side.socket.isOpen := by
        cases before : side.socket.isOpen with
        | false => exact stays before
        | true => simpa [before] using closes
      refine ⟨current, ⟨?_, ledger.targets, ledger.paired, ledger.stream, ledger.words, ledger.wanted⟩, ?_⟩
      · rw [ReceiveSide.withSocket, closes]
        exact ledger.reads
      · rwa [same]
  | true =>
      rw [Bool.and_eq_true, Bool.not_eq_true'] at closes
      obtain ⟨before, after⟩ := closes
      refine ⟨current.map fun entry => (entry.1, entry.2.cancel (.error .operationCanceled)),
        ⟨?_, ?_, ledger.paired, ledger.stream, ledger.words, ledger.wanted⟩, ?_⟩
      · rw [ReceiveSide.withSocket, before, after]
        simp only [Bool.not_false, Bool.and_self, if_true]
        rw [ledger.reads, AsyncOp.map_cancel, Option.map_map, Option.map_map]
        rfl
      · rw [Option.map_map]
        exact ledger.targets
      · rw [after]
        rw [before] at stage
        generalize side.receiving = receiving at stage
        cases stage with
        | idle begun clean => exact .idle begun nofun
        | pending target begun before isOpen => exact .failed target begun _ before fun _ => rfl
        | read target begun bytes before whole => exact .read target begun bytes before whole
        | failed target begun error before closed => exact .failed target begun error before fun _ => rfl

theorem Ledger.withSocket_inv (ledger : side.Ledger results past current begun)
    (stage : Stage side.socket.isOpen side.receiving begun current) {socket : ConnectedSocket}
    (stays : side.socket.isOpen = false → socket.isOpen = false) : (side.withSocket socket).Inv := by
  obtain ⟨current, ledger, stage⟩ := ledger.withSocket stage stays
  exact ⟨results, past, current, begun, ledger, stage⟩

/-- A failure is no message. -/
theorem Inv.report (inv : side.Inv) (error : RecvError) :
    Inv (if side.recvcb then {side with calls := side.calls ++ [.error error]} else side) := by
  obtain ⟨results, past, current, begun, ledger, stage⟩ := inv
  split_ifs
  · refine ⟨results, past, current, begun, ⟨ledger.reads, ledger.targets, ledger.paired, ?_, ?_, ledger.wanted⟩, stage⟩
    · rw [delivered, delivered_error]
      exact ledger.stream
    · rw [delivered, delivered_error]
      exact ledger.words
  · exact ⟨results, past, current, begun, ledger, stage⟩

/-- A failure ends the reading wherever it was. -/
theorem Ledger.fail (ledger : side.Ledger results past none begun) (stopped : side.receiving = false)
    (error : RecvError) : (side.fail error).Inv := by
  have inv : (side.withSocket side.socket.fail).Inv := by
    refine ⟨results, past, none, begun, ⟨?_, ledger.targets, ledger.paired, ledger.stream, ledger.words,
      ledger.wanted⟩, ?_⟩
    · rw [ReceiveSide.withSocket, ledger.reads, Option.map_none, Option.toList_none, List.append_nil]
      dsimp only
      split_ifs
      · rw [List.map_map]
        rfl
      · rfl
    · have halted : (side.withSocket side.socket.fail).receiving = false := stopped
      rw [halted]
      exact .idle begun nofun
  exact inv.report error

theorem Inv.performRecv (inv : side.Inv) (posted : side.posted ≠ 0) :
    (ReceiveSide.performRecv {side with posted := side.posted - 1}).Inv := by
  obtain ⟨results, past, current, begun, ledger, stage⟩ := inv
  have wanted := ledger.wanted (Or.inl posted)
  unfold ReceiveSide.performRecv
  dsimp only
  split_ifs with nothing
  · exact ⟨results, past, current, begun, ⟨ledger.reads, ledger.targets, ledger.paired, ledger.stream, ledger.words,
      fun _ => wanted⟩, stage⟩
  · simp only [Bool.or_eq_true, Bool.not_eq_true', not_or, Bool.not_eq_true, Bool.not_eq_false] at nothing
    obtain ⟨opened, idle⟩ := nothing
    rw [opened, idle] at stage
    cases stage with
    | idle begun clean =>
        obtain rfl := clean rfl
        refine ⟨results, past, some (.header, .pending), [], ⟨?_, ?_, ledger.paired, ledger.stream, ledger.words,
          fun _ => wanted⟩, ?_⟩
        · dsimp only
          rw [ledger.reads, Option.map_none, Option.toList_none, List.append_nil]
          rfl
        · dsimp only
          rw [ledger.targets, Option.map_none, Option.toList_none, List.append_nil]
          rfl
        · dsimp only
          rw [opened]
          exact .pending .header [] .header rfl

/-- A read that is not handled is the current one, with its own target. -/
theorem Ledger.current_of_unfinished (ledger : side.Ledger results past current begun) {read : ℕ}
    {op : AsyncOp (Except RecvError (List UInt8))} (found : side.reads[read]? = some op)
    (unfinished : ∀ result, op ≠ .handled result) :
    read = results.length ∧ ∃ target, current = some (target, op) ∧ side.targets[read]? = some target := by
  rw [ledger.reads] at found
  obtain ⟨rfl, same⟩ := AsyncOp.current_of_unfinished found unfinished
  obtain ⟨⟨target, _⟩, rfl, rfl⟩ := Option.map_eq_some_iff.mp same
  refine ⟨rfl, target, rfl, ?_⟩
  rw [ledger.targets, List.getElem?_append_right (Nat.le_of_eq ledger.paired), ledger.paired, Nat.sub_self]
  rfl

/-- The current read makes progress. -/
theorem Ledger.set {target : ReadTarget} {op : AsyncOp (Except RecvError (List UInt8))}
    (ledger : side.Ledger results past (some (target, op)) begun)
    (moved : AsyncOp (Except RecvError (List UInt8))) {taken left : List UInt8} (arrived : side.arrived = taken ++ left) :
    Ledger {side with reads := side.reads.set results.length moved, arrived := left} results past
      (some (target, moved)) (begun ++ taken) where
  reads := by
    dsimp only
    rw [ledger.reads, Option.map_some, Option.toList_some, AsyncOp.set_current]
    rfl
  targets := ledger.targets
  paired := ledger.paired
  stream := by
    have stream := ledger.stream
    rw [arrived] at stream
    rw [← List.append_assoc, List.append_assoc (_ ++ begun)]
    exact stream
  words := ledger.words
  wanted := ledger.wanted

theorem Inv.readCompletes (inv : side.Inv) {read : ℕ} {target : ReadTarget}
    {op moved : AsyncOp (Except RecvError (List UInt8))} (aims : side.targets[read]? = some target)
    (found : side.reads[read]? = some op) (completed : op.complete (.ok (side.arrived.take target.size)) = some moved)
    (enough : target.size ≤ side.arrived.length) :
    Inv {side with reads := side.reads.set read moved, arrived := side.arrived.drop target.size} := by
  obtain ⟨results, past, current, begun, ledger, stage⟩ := inv
  obtain ⟨rfl, rfl⟩ := AsyncOp.complete_eq_some.mp completed
  obtain ⟨rfl, _, rfl, same⟩ := ledger.current_of_unfinished found AsyncOp.pending_ne_handled
  obtain rfl := Option.some.inj (same.symm.trans aims)
  refine ⟨results, past, _, _, ledger.set _ (List.take_append_drop _ _).symm, ?_⟩
  generalize side.receiving = receiving at stage ⊢
  cases stage with
  | pending target begun before isOpen =>
      exact .read _ begun _ before (List.length_take_of_le enough)

theorem Inv.readFails (inv : side.Inv) {read : ℕ} {op moved : AsyncOp (Except RecvError (List UInt8))}
    (found : side.reads[read]? = some op) {error : ErrorCode}
    (completed : op.complete (.error (.code error)) = some moved) :
    Inv {side with reads := side.reads.set read moved} := by
  obtain ⟨results, past, current, begun, ledger, stage⟩ := inv
  obtain ⟨rfl, rfl⟩ := AsyncOp.complete_eq_some.mp completed
  obtain ⟨rfl, target, rfl, -⟩ := ledger.current_of_unfinished found AsyncOp.pending_ne_handled
  refine ⟨results, past, _, _, ledger.set _ (List.nil_append side.arrived).symm, ?_⟩
  rw [List.append_nil]
  generalize side.receiving = receiving at stage ⊢
  cases stage with
  | pending target begun before isOpen => exact .failed target begun _ before nofun

/-- The handler of the current read runs, and there is no current read any more. -/
theorem Ledger.handled {target : ReadTarget} {result : Except RecvError (List UInt8)}
    (ledger : side.Ledger results past (some (target, .queued result)) begun) :
    Ledger {side with reads := side.reads.set results.length (.handled result)} (results ++ [result])
      (past ++ [target]) none begun where
  reads := by
    dsimp only
    rw [ledger.reads, Option.map_some, Option.toList_some, AsyncOp.set_current, AsyncOp.handled_append]
    rfl
  targets := by
    dsimp only
    rw [ledger.targets]
    exact (List.append_nil _).symm
  paired := by rw [List.length_append, List.length_append, ledger.paired, List.length_singleton, List.length_singleton]
  stream := ledger.stream
  words := ledger.words
  wanted := ledger.wanted

theorem Ledger.halted (ledger : side.Ledger results past current begun) :
    Ledger {side with receiving := false} results past current begun where
  reads := ledger.reads
  targets := ledger.targets
  paired := ledger.paired
  stream := ledger.stream
  words := ledger.words
  wanted := by
    rintro (posted | running)
    · exact ledger.wanted (Or.inl posted)
    · cases running

/-- The header is checked, and its body is read next. -/
theorem Ledger.receivedHeader (ledger : side.Ledger results past none begun)
    (running : side.receiving = true) {result : Except RecvError (List UInt8)}
    (stage : Stage side.socket.isOpen true begun (some (.header, .queued result))) :
    (side.receivedHeader result).Inv := by
  cases stage with
  | read target begun bytes before whole =>
      have clean : begun = [] := by
        cases before
        rfl
      subst clean
      unfold ReceiveSide.receivedHeader
      dsimp only
      split_ifs with short closed zero
      · exact ledger.halted.fail rfl _
      · exact ledger.halted.fail rfl _
      · exact ledger.halted.fail rfl _
      · refine ⟨results, past, some (.body (SerializedMessageOut.ntohl bytes), .pending), _,
          ⟨?_, ?_, ledger.paired, ledger.stream, ledger.words, ledger.wanted⟩, ?_⟩
        · dsimp only
          rw [ledger.reads, Option.map_none, Option.toList_none, List.append_nil]
          rfl
        · dsimp only
          rw [ledger.targets, Option.map_none, Option.toList_none, List.append_nil]
          rfl
        · dsimp only
          rw [running, List.nil_append]
          refine .pending _ _ ?_ (by simpa using closed)
          have body := Begun.body _ (Nat.pos_of_ne_zero zero) (SerializedMessageOut.ntohl_lt bytes)
          rwa [SerializedMessageOut.htonl_ntohl (not_not.mp short)] at body
  | failed target begun error before closed =>
      unfold ReceiveSide.receivedHeader
      dsimp only
      split_ifs with canceled
      · refine ⟨results, past, none, begun, ledger.halted, .idle begun fun _ => ?_⟩
        cases before
        rfl
      · exact ledger.halted.fail rfl _

/-- A whole body is the next message. -/
theorem Ledger.receivedBody (ledger : side.Ledger results past none begun) (wanted : side.recvcb = true)
    (rearms : List UInt8 → Bool) {len : ℕ} {result : Except RecvError (List UInt8)}
    (stage : Stage side.socket.isOpen true begun (some (.body len, .queued result))) :
    (side.receivedBody rearms len result).Inv := by
  cases stage with
  | read target begun bytes before whole =>
      obtain ⟨positive, fits, rfl⟩ : 0 < len ∧ len < 2 ^ 32 ∧ begun = SerializedMessageOut.htonl len := by
        cases before with
        | body len positive fits => exact ⟨positive, fits, rfl⟩
      have whole : bytes.length = len := whole
      unfold ReceiveSide.receivedBody
      dsimp only
      rw [if_neg (not_not.mpr whole), if_pos wanted]
      have appended : (side.calls ++ [Except.ok bytes]).filterMap Except.toOption = side.delivered ++ [bytes] := by
        rw [List.filterMap_append]
        rfl
      refine ⟨results, past, none, [], ⟨ledger.reads, ledger.targets, ledger.paired, ?_, ?_, fun _ => wanted⟩,
        .idle [] fun _ => rfl⟩
      · rw [delivered]
        dsimp only
        rw [appended, List.flatMap_append, List.flatMap_singleton, List.append_nil, SerializedMessageOut.frame, whole,
          ledger.stream]
      · rw [delivered]
        dsimp only
        rw [appended]
        intro payload member
        rcases List.mem_append.mp member with before | now
        · exact ledger.words payload before
        · rw [List.mem_singleton.mp now]
          exact ⟨List.ne_nil_of_length_pos (whole ▸ positive), whole ▸ fits⟩
  | failed target begun error before closed => exact ledger.halted.fail rfl _

theorem Inv.received (inv : side.Inv) (rearms : List UInt8 → Bool) {read : ℕ} {target : ReadTarget}
    {op moved : AsyncOp (Except RecvError (List UInt8))} {result : Except RecvError (List UInt8)}
    (aims : side.targets[read]? = some target) (found : side.reads[read]? = some op)
    (taken : op.handle = some (result, moved)) :
    (match target with
      | .header => receivedHeader {side with reads := side.reads.set read moved} result
      | .body len => receivedBody rearms {side with reads := side.reads.set read moved} len result).Inv := by
  obtain ⟨results, past, current, begun, ledger, stage⟩ := inv
  obtain ⟨rfl, rfl⟩ := AsyncOp.handle_eq_some.mp taken
  obtain ⟨rfl, aim, rfl, same⟩ := ledger.current_of_unfinished found (AsyncOp.queued_ne_handled result)
  obtain rfl : aim = target := Option.some.inj (same.symm.trans aims)
  have running : side.receiving = true := by
    generalize side.receiving = receiving at stage
    cases stage <;> rfl
  have wanted := ledger.wanted (Or.inr running)
  rw [running] at stage
  cases aim with
  | header => exact ledger.handled.receivedHeader running stage
  | body len => exact ledger.handled.receivedBody wanted rearms stage

theorem Inv.sendSide (inv : side.Inv) {event : SendStep} (stepped : side.sendSide event = some next) : next.Inv := by
  unfold ReceiveSide.sendSide at stepped
  simp only [Option.bind_eq_bind, Option.bind_eq_some_iff] at stepped
  obtain ⟨socket, moved, stepped⟩ := stepped
  have kept : (side.withSocket socket).Inv := by
    obtain ⟨results, past, current, begun, ledger, stage⟩ := inv
    exact ledger.withSocket_inv stage fun closed => ConnectedSocket.step_closed closed moved
  split at stepped
  · obtain rfl := Option.some.inj stepped
    exact kept.report _
  · cases stepped
  · obtain rfl := Option.some.inj stepped
    exact kept

/-- Every step keeps the bytes and the messages together. -/
theorem Inv.step (inv : side.Inv) {rearms : List UInt8 → Bool} {event : ReceiveEvent}
    (stepped : step rearms side event = some next) : next.Inv := by
  cases event with
  | recvMsg =>
      obtain rfl := Option.some.inj stepped
      obtain ⟨results, past, current, begun, ledger, stage⟩ := inv
      exact ⟨results, past, current, begun, ⟨ledger.reads, ledger.targets, ledger.paired, ledger.stream, ledger.words,
        fun _ => rfl⟩, stage⟩
  | performRecv =>
      obtain ⟨posted, performs⟩ := Option.ite_none_left_eq_some.mp stepped
      obtain rfl := Option.some.inj performs
      exact inv.performRecv posted
  | arrive bytes =>
      obtain rfl := Option.some.inj stepped
      obtain ⟨results, past, current, begun, ledger, stage⟩ := inv
      refine ⟨results, past, current, begun, ⟨ledger.reads, ledger.targets, ledger.paired, ?_, ledger.words,
        ledger.wanted⟩, stage⟩
      dsimp only
      rw [ledger.stream, List.append_assoc]
      rfl
  | readCompletes read =>
      simp only [ReceiveSide.step, Option.bind_eq_bind, Option.bind_eq_some_iff] at stepped
      obtain ⟨target, aims, op, found, moved, completed, stepped⟩ := stepped
      obtain ⟨enough, stepped⟩ := Option.ite_none_right_eq_some.mp stepped
      obtain rfl := Option.some.inj stepped
      exact inv.readCompletes aims found completed enough
  | readFails read error =>
      simp only [ReceiveSide.step, Option.bind_eq_bind, Option.bind_eq_some_iff] at stepped
      obtain ⟨op, found, moved, completed, stepped⟩ := stepped
      obtain rfl := Option.some.inj stepped
      exact inv.readFails found completed
  | received read =>
      simp only [ReceiveSide.step, Option.bind_eq_bind, Option.bind_eq_some_iff, Prod.exists] at stepped
      obtain ⟨target, aims, op, found, result, moved, taken, stepped⟩ := stepped
      have kept := inv.received rearms aims found taken
      cases target with
      | header =>
          obtain rfl := Option.some.inj stepped
          exact kept
      | body len =>
          obtain rfl := Option.some.inj stepped
          exact kept
  | closeOnStrand cb =>
      obtain rfl := Option.some.inj stepped
      obtain ⟨results, past, current, begun, ledger, stage⟩ := inv
      exact ledger.withSocket_inv stage fun closed => @ConnectedSocket.step_closed _ _ (.closeOnStrand cb) closed rfl
  | sendSide event => exact inv.sendSide stepped

theorem fail_calls (side : ReceiveSide) (error : RecvError) :
    (∃ more, (side.fail error).calls = side.calls ++ more) ∧ (side.fail error).recvcb = side.recvcb := by
  unfold ReceiveSide.fail
  dsimp only
  split_ifs
  · exact ⟨⟨_, rfl⟩, rfl⟩
  · exact ⟨⟨[], (List.append_nil _).symm⟩, rfl⟩

theorem receivedHeader_calls (side : ReceiveSide) (result : Except RecvError (List UInt8)) :
    (∃ more, (side.receivedHeader result).calls = side.calls ++ more) ∧
      (side.receivedHeader result).recvcb = side.recvcb := by
  unfold ReceiveSide.receivedHeader
  cases result with
  | error error =>
      dsimp only
      split_ifs
      · exact ⟨⟨[], (List.append_nil _).symm⟩, rfl⟩
      · exact fail_calls _ _
  | ok bytes =>
      dsimp only
      split_ifs
      · exact fail_calls _ _
      · exact fail_calls _ _
      · exact fail_calls _ _
      · exact ⟨⟨[], (List.append_nil _).symm⟩, rfl⟩

theorem receivedBody_calls (rearms : List UInt8 → Bool) (side : ReceiveSide) (len : ℕ)
    (result : Except RecvError (List UInt8)) :
    (∃ more, (side.receivedBody rearms len result).calls = side.calls ++ more) ∧
      (side.receivedBody rearms len result).recvcb = side.recvcb := by
  unfold ReceiveSide.receivedBody
  cases result with
  | error error => exact fail_calls _ _
  | ok bytes =>
      dsimp only
      split_ifs
      · exact fail_calls _ _
      · exact ⟨⟨_, rfl⟩, rfl⟩
      · exact ⟨⟨_, rfl⟩, rfl⟩
      · exact ⟨⟨[], (List.append_nil _).symm⟩, rfl⟩

/-- No call of the callback is taken back, and an owner that wants messages goes on wanting them. -/
theorem step_calls {rearms : List UInt8 → Bool} {event : ReceiveEvent} (stepped : step rearms side event = some next) :
    (∃ more, next.calls = side.calls ++ more) ∧ (side.recvcb = true → next.recvcb = true) := by
  have same {after : ReceiveSide} (calls : after.calls = side.calls) (wants : after.recvcb = side.recvcb) :
      (∃ more, after.calls = side.calls ++ more) ∧ (side.recvcb = true → after.recvcb = true) :=
    ⟨⟨[], by rw [calls, List.append_nil]⟩, fun wanted => by rw [wants, wanted]⟩
  cases event with
  | recvMsg =>
      obtain rfl := Option.some.inj stepped
      exact ⟨⟨[], (List.append_nil _).symm⟩, fun _ => rfl⟩
  | performRecv =>
      obtain ⟨-, performs⟩ := Option.ite_none_left_eq_some.mp stepped
      obtain rfl := Option.some.inj performs
      unfold ReceiveSide.performRecv
      split_ifs
      · exact same rfl rfl
      · exact same rfl rfl
  | arrive bytes =>
      obtain rfl := Option.some.inj stepped
      exact same rfl rfl
  | readCompletes read =>
      simp only [ReceiveSide.step, Option.bind_eq_bind, Option.bind_eq_some_iff] at stepped
      obtain ⟨target, -, op, -, moved, -, stepped⟩ := stepped
      obtain ⟨-, stepped⟩ := Option.ite_none_right_eq_some.mp stepped
      obtain rfl := Option.some.inj stepped
      exact same rfl rfl
  | readFails read error =>
      simp only [ReceiveSide.step, Option.bind_eq_bind, Option.bind_eq_some_iff] at stepped
      obtain ⟨op, -, moved, -, stepped⟩ := stepped
      obtain rfl := Option.some.inj stepped
      exact same rfl rfl
  | received read =>
      simp only [ReceiveSide.step, Option.bind_eq_bind, Option.bind_eq_some_iff, Prod.exists] at stepped
      obtain ⟨target, -, op, -, result, moved, -, stepped⟩ := stepped
      cases target with
      | header =>
          obtain rfl := Option.some.inj stepped
          obtain ⟨calls, wants⟩ := receivedHeader_calls {side with reads := side.reads.set read moved} result
          exact ⟨calls, fun wanted => wants.trans wanted⟩
      | body len =>
          obtain rfl := Option.some.inj stepped
          obtain ⟨calls, wants⟩ := receivedBody_calls rearms {side with reads := side.reads.set read moved} len result
          exact ⟨calls, fun wanted => wants.trans wanted⟩
  | closeOnStrand cb =>
      obtain rfl := Option.some.inj stepped
      exact same rfl rfl
  | sendSide event =>
      have stepped : side.sendSide event = some next := stepped
      unfold ReceiveSide.sendSide at stepped
      simp only [Option.bind_eq_bind, Option.bind_eq_some_iff] at stepped
      obtain ⟨socket, -, stepped⟩ := stepped
      split at stepped
      · obtain rfl := Option.some.inj stepped
        split_ifs
        · exact ⟨⟨_, rfl⟩, id⟩
        · exact same rfl rfl
      · cases stepped
      · obtain rfl := Option.some.inj stepped
        exact same rfl rfl

/-- What has been delivered stays delivered. -/
theorem step_delivered {rearms : List UInt8 → Bool} {event : ReceiveEvent}
    (stepped : step rearms side event = some next) : side.delivered <+: next.delivered := by
  obtain ⟨⟨more, calls⟩, -⟩ := step_calls stepped
  rw [delivered, delivered, calls, List.filterMap_append]
  exact List.prefix_append _ _

theorem fail_stream (side : ReceiveSide) (error : RecvError) : (side.fail error).stream = side.stream := by
  unfold ReceiveSide.fail
  dsimp only
  split_ifs <;> rfl

theorem receivedHeader_stream (side : ReceiveSide) (result : Except RecvError (List UInt8)) :
    (side.receivedHeader result).stream = side.stream := by
  unfold ReceiveSide.receivedHeader
  cases result with
  | error error =>
      dsimp only
      split_ifs
      · rfl
      · exact fail_stream _ _
  | ok bytes =>
      dsimp only
      split_ifs
      · exact fail_stream _ _
      · exact fail_stream _ _
      · exact fail_stream _ _
      · rfl

theorem receivedBody_stream (rearms : List UInt8 → Bool) (side : ReceiveSide) (len : ℕ)
    (result : Except RecvError (List UInt8)) : (side.receivedBody rearms len result).stream = side.stream := by
  unfold ReceiveSide.receivedBody
  cases result with
  | error error => exact fail_stream _ _
  | ok bytes =>
      dsimp only
      split_ifs
      · exact fail_stream _ _
      · rfl
      · rfl
      · rfl

/-- Bytes come in by their arrival only. -/
theorem step_stream {rearms : List UInt8 → Bool} {event : ReceiveEvent} (stepped : step rearms side event = some next)
    (other : ∀ bytes, event ≠ .arrive bytes) : next.stream = side.stream := by
  cases event with
  | recvMsg =>
      obtain rfl := Option.some.inj stepped
      rfl
  | performRecv =>
      obtain ⟨-, performs⟩ := Option.ite_none_left_eq_some.mp stepped
      obtain rfl := Option.some.inj performs
      unfold ReceiveSide.performRecv
      split_ifs <;> rfl
  | arrive bytes => exact absurd rfl (other bytes)
  | readCompletes read =>
      simp only [ReceiveSide.step, Option.bind_eq_bind, Option.bind_eq_some_iff] at stepped
      obtain ⟨target, -, op, -, moved, -, stepped⟩ := stepped
      obtain ⟨-, stepped⟩ := Option.ite_none_right_eq_some.mp stepped
      obtain rfl := Option.some.inj stepped
      rfl
  | readFails read error =>
      simp only [ReceiveSide.step, Option.bind_eq_bind, Option.bind_eq_some_iff] at stepped
      obtain ⟨op, -, moved, -, stepped⟩ := stepped
      obtain rfl := Option.some.inj stepped
      rfl
  | received read =>
      simp only [ReceiveSide.step, Option.bind_eq_bind, Option.bind_eq_some_iff, Prod.exists] at stepped
      obtain ⟨target, -, op, -, result, moved, -, stepped⟩ := stepped
      cases target with
      | header =>
          obtain rfl := Option.some.inj stepped
          exact receivedHeader_stream _ _
      | body len =>
          obtain rfl := Option.some.inj stepped
          exact receivedBody_stream _ _ _ _
  | closeOnStrand cb =>
      obtain rfl := Option.some.inj stepped
      rfl
  | sendSide event =>
      have stepped : side.sendSide event = some next := stepped
      unfold ReceiveSide.sendSide at stepped
      simp only [Option.bind_eq_bind, Option.bind_eq_some_iff] at stepped
      obtain ⟨socket, -, stepped⟩ := stepped
      split at stepped
      · obtain rfl := Option.some.inj stepped
        split_ifs <;> rfl
      · cases stepped
      · obtain rfl := Option.some.inj stepped
        rfl

/-- An owner that wants messages has a read posted or under way as long as the socket is open. -/
def Armed (side : ReceiveSide) : Prop :=
  side.recvcb = true → side.socket.isOpen = true → side.posted ≠ 0 ∨ side.receiving = true

theorem fail_armed (side : ReceiveSide) (error : RecvError) : (side.fail error).Armed := by
  have closed : (side.fail error).socket.isOpen = false := by
    unfold ReceiveSide.fail
    dsimp only
    split_ifs <;> rfl
  intro _ opened
  rw [closed] at opened
  cases opened

theorem Armed.withSocket (armed : side.Armed) {socket : ConnectedSocket}
    (stays : side.socket.isOpen = false → socket.isOpen = false) : (side.withSocket socket).Armed := by
  intro wanted opened
  refine armed wanted ?_
  by_contra closed
  have opened : socket.isOpen = true := opened
  rw [stays (Bool.eq_false_iff.mpr closed)] at opened
  cases opened

theorem Armed.received (armed : side.Armed) (inv : side.Inv) {rearms : List UInt8 → Bool} {read : ℕ}
    (always : ∀ msg ∈ next.delivered, rearms msg = true) (stepped : step rearms side (.received read) = some next) :
    next.Armed := by
  simp only [ReceiveSide.step, Option.bind_eq_bind, Option.bind_eq_some_iff, Prod.exists] at stepped
  obtain ⟨target, aims, op, found, result, moved, taken, stepped⟩ := stepped
  obtain ⟨results, past, current, begun, ledger, stage⟩ := inv
  obtain ⟨rfl, rfl⟩ := AsyncOp.handle_eq_some.mp taken
  obtain ⟨rfl, aim, rfl, same⟩ := ledger.current_of_unfinished found (AsyncOp.queued_ne_handled result)
  obtain rfl : aim = target := Option.some.inj (same.symm.trans aims)
  cases aim with
  | header =>
      obtain rfl := Option.some.inj stepped
      unfold ReceiveSide.receivedHeader
      cases result with
      | error error =>
          dsimp only
          split_ifs with canceled
          · have closed : side.socket.isOpen = false := by
              generalize side.receiving = receiving at stage
              cases stage with
              | failed target begun error before closed => exact closed canceled
            intro _ opened
            rw [closed] at opened
            cases opened
          · exact fail_armed _ _
      | ok bytes =>
          dsimp only
          split_ifs
          · exact fail_armed _ _
          · exact fail_armed _ _
          · exact fail_armed _ _
          · exact armed
  | body len =>
      obtain rfl := Option.some.inj stepped
      unfold ReceiveSide.receivedBody
      cases result with
      | error error => exact fail_armed _ _
      | ok bytes =>
          dsimp only
          split_ifs with short wanted again
          · exact fail_armed _ _
          · exact fun _ _ => Or.inl (Nat.succ_ne_zero _)
          · refine absurd (always bytes ?_) again
            simp [ReceiveSide.receivedBody, short, wanted, delivered, Except.toOption]
          · intro asks
            exact absurd asks wanted

/-- When every callback so far has asked for the next message, the reading never stops before the socket is closed. -/
theorem Armed.step (armed : side.Armed) (inv : side.Inv) {rearms : List UInt8 → Bool}
    (always : ∀ msg ∈ next.delivered, rearms msg = true) {event : ReceiveEvent} (stepped : step rearms side event = some next) :
    next.Armed := by
  cases event with
  | recvMsg =>
      obtain rfl := Option.some.inj stepped
      exact fun _ _ => Or.inl (Nat.succ_ne_zero _)
  | performRecv =>
      obtain ⟨-, performs⟩ := Option.ite_none_left_eq_some.mp stepped
      obtain rfl := Option.some.inj performs
      unfold ReceiveSide.performRecv
      dsimp only
      split_ifs with nothing
      · intro wanted opened
        have opened : side.socket.isOpen = true := opened
        rw [opened, Bool.not_true, Bool.false_or] at nothing
        exact Or.inr nothing
      · exact fun _ _ => Or.inr rfl
  | arrive bytes =>
      obtain rfl := Option.some.inj stepped
      exact armed
  | readCompletes read =>
      simp only [ReceiveSide.step, Option.bind_eq_bind, Option.bind_eq_some_iff] at stepped
      obtain ⟨target, aims, op, found, moved, completed, stepped⟩ := stepped
      obtain ⟨-, stepped⟩ := Option.ite_none_right_eq_some.mp stepped
      obtain rfl := Option.some.inj stepped
      exact armed
  | readFails read error =>
      simp only [ReceiveSide.step, Option.bind_eq_bind, Option.bind_eq_some_iff] at stepped
      obtain ⟨op, found, moved, completed, stepped⟩ := stepped
      obtain rfl := Option.some.inj stepped
      exact armed
  | received read => exact armed.received inv always stepped
  | closeOnStrand cb =>
      obtain rfl := Option.some.inj stepped
      exact armed.withSocket fun closed => @ConnectedSocket.step_closed _ _ (.closeOnStrand cb) closed rfl
  | sendSide event =>
      have stepped : side.sendSide event = some next := stepped
      unfold ReceiveSide.sendSide at stepped
      simp only [Option.bind_eq_bind, Option.bind_eq_some_iff] at stepped
      obtain ⟨socket, moved, stepped⟩ := stepped
      have kept : (side.withSocket socket).Armed :=
        armed.withSocket fun closed => ConnectedSocket.step_closed closed moved
      split at stepped
      · obtain rfl := Option.some.inj stepped
        split_ifs <;> exact kept
      · cases stepped
      · obtain rfl := Option.some.inj stepped
        exact kept

/-- The receive strand has nothing to run, and no read can complete. -/
def Rests (rearms : List UInt8 → Bool) (side : ReceiveSide) : Prop :=
  step rearms side .performRecv = none ∧
    ∀ read, step rearms side (.readCompletes read) = none ∧ step rearms side (.received read) = none

/-- A side that rests on an open socket waits for more bytes than have arrived. -/
theorem Inv.waits (inv : side.Inv) (armed : side.Armed) {rearms : List UInt8 → Bool} (rests : side.Rests rearms)
    (wanted : side.recvcb = true) (opened : side.socket.isOpen = true) : ∃ target begun, Begun target begun ∧
      side.stream = side.delivered.flatMap SerializedMessageOut.frame ++ begun ++ side.arrived ∧
      side.arrived.length < target.size := by
  obtain ⟨results, past, current, begun, ledger, stage⟩ := inv
  obtain ⟨noPost, noRead⟩ := rests
  have nothing : side.posted = 0 := by
    by_contra posted
    rw [ReceiveSide.step, if_neg posted] at noPost
    cases noPost
  have running : side.receiving = true := (armed wanted opened).resolve_left (not_not.mpr nothing)
  obtain ⟨completes, handles⟩ := noRead results.length
  have found {target : ReadTarget} {op : AsyncOp (Except RecvError (List UInt8))} (same : current = some (target, op)) :
      side.targets[results.length]? = some target ∧ side.reads[results.length]? = some op := by
    rw [ledger.reads, ledger.targets, same, List.getElem?_append_right (Nat.le_of_eq ledger.paired), ledger.paired,
      List.getElem?_append_right (Nat.le_of_eq (List.length_map _)), List.length_map, Nat.sub_self]
    exact ⟨rfl, rfl⟩
  have stuck {target : ReadTarget} {result : Except RecvError (List UInt8)}
      (same : current = some (target, .queued result)) : False := by
    obtain ⟨aims, reads⟩ := found same
    simp only [ReceiveSide.step, aims, reads, Option.bind_eq_bind, Option.bind_some, AsyncOp.handle] at handles
    cases target <;> cases handles
  rw [running] at stage
  cases stage with
  | pending target begun before isOpen =>
      obtain ⟨aims, reads⟩ := found rfl
      refine ⟨target, begun, before, ledger.stream, ?_⟩
      by_contra enough
      simp only [ReceiveSide.step, aims, reads, Option.bind_eq_bind, Option.bind_some, AsyncOp.complete,
        if_pos (Nat.le_of_not_lt enough)] at completes
      cases completes
  | read target begun bytes before whole => exact (stuck rfl).elim
  | failed target begun error before closed => exact (stuck rfl).elim

theorem Inv.single (inv : side.Inv) : (side.reads.filter AsyncOp.unfinished).length ≤ 1 := by
  obtain ⟨results, past, current, begun, ledger, -⟩ := inv
  rw [ledger.reads]
  exact AsyncOp.length_filter_unfinished _ _

end ReceiveSide

end JetStream
