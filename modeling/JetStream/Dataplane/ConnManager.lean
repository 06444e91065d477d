import JetStream.Lib.OrderedMap
import JetStream.Lib.Printing
import JetStream.Topology

namespace JetStream

/-- The printed form of an operator's name. -/
def TaskID.asString (id : TaskID) : String :=
  String.ofList ('(' :: (Printing.decimal id.computationID ++ ',' :: (Printing.decimal id.task ++ [')'])))

/-- Different operators have different printed names. -/
theorem TaskID.asString_inj {first second : TaskID} (same : first.asString = second.asString) : first = second := by
  have lists := (List.cons.inj (String.ofList_injective same)).2
  have commas (id : TaskID) : (Printing.decimal id.computationID).count ',' = 0 := Printing.count_decimal rfl (by decide) _
  have closing (id : TaskID) : (Printing.decimal id.task).count ')' = 0 := Printing.count_decimal rfl (by decide) _
  obtain ⟨computations, rest⟩ := Printing.append_delimiter_inj ((commas first).trans (commas second).symm) lists
  obtain ⟨tasks, -⟩ := Printing.append_delimiter_inj ((closing first).trans (closing second).symm) rest
  exact Prod.ext (Printing.decimal_inj computations) (Printing.decimal_inj tasks)

/-- A connection is known by the address of the node that opened it. -/
structure ClientConnection where
  remoteEndpoint : NodeID
  connected : Bool
  deriving DecidableEq

/-- A chain passes data through operators into a cube or to another node. -/
inductive ChainMember where
  | operator (id : TaskID)
  | cube (name : String)
  | remoteDest (edge : Edge)
  | incoming (conn : ClientConnection) (remoteOp : TaskID)
  deriving DecidableEq

/-- A member that is missing is a null pointer. -/
structure OperatorChain where
  members : List (Option ChainMember)
  deriving DecidableEq

instance (chain : OperatorChain) (member : Option ChainMember) : Decidable (member ∈ chain.members) := inferInstance

namespace OperatorChain

/-- The chain is copied behind a place that is reserved for its new start. -/
def cloneBehindStart (source : OperatorChain) : OperatorChain := ⟨none :: source.members⟩

/-- Only a reserved place can be taken. -/
def setStart (chain : OperatorChain) (member : ChainMember) : Option OperatorChain :=
  match chain.members with
  | none :: rest => some ⟨some member :: rest⟩
  | _ => none

/-- The created chains start at an operator or at a cube, and this is the name of their start. -/
def startName (chain : OperatorChain) : Option String :=
  match chain.members with
  | some (.operator id) :: _ => some id.asString
  | some (.cube name) :: _ => some name
  | _ => none

/-- The chain has no null members, and it starts at an operator or at a cube. -/
def Whole (chain : OperatorChain) : Prop := none ∉ chain.members ∧ ∃ name, chain.startName = some name

end OperatorChain

/-- A connection waits together with the operator that sends on it. -/
structure PendingConn where
  conn : ClientConnection
  src : TaskID
  deriving DecidableEq

/-- An enabled connection feeds its chain. -/
structure IncomingConnectionState where
  conn : ClientConnection
  dest : OperatorChain
  remoteOp : TaskID
  deriving DecidableEq

inductive DataplaneType where
  | chainReady
  | error
  deriving DecidableEq

/-- The manager keeps the waiting connections under the name of their destination and the live ones under their address. -/
structure DataplaneConnManager where
  pendingConns : OrderedMap String (List PendingConn)
  liveConns : OrderedMap NodeID IncomingConnectionState
  sent : List (ClientConnection × DataplaneType)

namespace DataplaneConnManager

def new : DataplaneConnManager := ⟨.empty, .empty, []⟩

/-- A message goes out only on a connection that is open. -/
def sendMsg (mgr : DataplaneConnManager) (c : ClientConnection) (type : DataplaneType) : DataplaneConnManager :=
  if c.connected then {mgr with sent := mgr.sent ++ [(c, type)]} else mgr

/-- The manager dies when the address already has a live connection. -/
def enableConnection (mgr : DataplaneConnManager) (c : ClientConnection) (dest : OperatorChain) (srcOpID : TaskID) :
    Option DataplaneConnManager :=
  match mgr.liveConns.get? c.remoteEndpoint with
  | some _ => none
  | none =>
      (dest.setStart (.incoming c srcOpID)).map fun chain =>
        {mgr with liveConns := mgr.liveConns.set c.remoteEndpoint ⟨c, chain, srcOpID⟩}.sendMsg c .chainReady

/-- The connection waits behind those that wait for the same name. -/
def pendingConnection (mgr : DataplaneConnManager) (c : ClientConnection) (futureOp : String) (srcOpID : TaskID) :
    DataplaneConnManager :=
  {mgr with pendingConns := mgr.pendingConns.set futureOp ((mgr.pendingConns.get? futureOp).getD [] ++ [⟨c, srcOpID⟩])}

/-- Every waiting connection gets its own copy of the chain, and a missing member is fatal there. -/
def enablePending (dest : OperatorChain) (mgr : DataplaneConnManager) (pending : PendingConn) :
    Option DataplaneConnManager :=
  if none ∈ dest.members then none else mgr.enableConnection pending.conn dest.cloneBehindStart pending.src

/-- The connections that wait for the start of the new chain are enabled in their order. -/
def createdChain (mgr : DataplaneConnManager) (dest : OperatorChain) : Option DataplaneConnManager := do
  let opID ← dest.startName
  match mgr.pendingConns.get? opID with
  | none => return mgr
  | some conns =>
      let enabled ← conns.foldlM (enablePending dest) mgr
      return {enabled with pendingConns := enabled.pendingConns.erase opID}

/-- The entry of a live connection goes away when the connection is closed. -/
def cleanupIncoming (mgr : DataplaneConnManager) (endpoint : NodeID) : DataplaneConnManager :=
  {mgr with liveConns := mgr.liveConns.erase endpoint}

/-- The chains are created one after the other. -/
def announce (mgr : DataplaneConnManager) (chains : List OperatorChain) : Option DataplaneConnManager :=
  chains.foldlM createdChain mgr

/-- No connection from the address is live or waits. -/
def Fresh (mgr : DataplaneConnManager) (endpoint : NodeID) : Prop :=
  mgr.liveConns.get? endpoint = none ∧
    ∀ entry ∈ mgr.pendingConns.entries, ∀ pending ∈ entry.2, pending.conn.remoteEndpoint ≠ endpoint

instance (mgr : DataplaneConnManager) (endpoint : NodeID) : Decidable (mgr.Fresh endpoint) :=
  inferInstanceAs (Decidable (_ ∧ ∀ entry ∈ _, ∀ pending ∈ _, _))

/-- These connections wait for the name. -/
def waiting (mgr : DataplaneConnManager) (name : String) : List PendingConn := (mgr.pendingConns.get? name).getD []

/-- Different connections come from different addresses. -/
structure Distinct (mgr : DataplaneConnManager) : Prop where
  within : ∀ name, ((mgr.waiting name).map fun pending => pending.conn.remoteEndpoint).Nodup
  across : ∀ name other, name ≠ other → ∀ pending ∈ mgr.waiting name, ∀ late ∈ mgr.waiting other,
    pending.conn.remoteEndpoint ≠ late.conn.remoteEndpoint
  notLive : ∀ name, ∀ pending ∈ mgr.waiting name, mgr.liveConns.get? pending.conn.remoteEndpoint = none

/-- No connection from the address waits. -/
def Unwaited (mgr : DataplaneConnManager) (endpoint : NodeID) : Prop :=
  ∀ name, ∀ pending ∈ mgr.waiting name, pending.conn.remoteEndpoint ≠ endpoint

/-- This is a connection that has been enabled into its own copy of the chain. -/
def enabledInto (dest : OperatorChain) (pending : PendingConn) : IncomingConnectionState :=
  ⟨pending.conn, ⟨some (.incoming pending.conn pending.src) :: dest.members⟩, pending.src⟩

/-- All connections that wait for the name are enabled, and nothing else changes. -/
structure Released (mgr : DataplaneConnManager) (dest : OperatorChain) (name : String) (next : DataplaneConnManager) :
    Prop where
  waiting : ∀ other, next.waiting other = if other = name then [] else mgr.waiting other
  sent : next.sent = mgr.sent ++
    ((mgr.waiting name).filter fun pending => pending.conn.connected).map fun pending => (pending.conn, .chainReady)
  enabled : ∀ pending ∈ mgr.waiting name,
    next.liveConns.get? pending.conn.remoteEndpoint = some (enabledInto dest pending)
  others : ∀ endpoint, (∀ pending ∈ mgr.waiting name, pending.conn.remoteEndpoint ≠ endpoint) →
    next.liveConns.get? endpoint = mgr.liveConns.get? endpoint

variable {mgr next : DataplaneConnManager} {dest : OperatorChain} {name : String}

theorem mem_waiting_iff {pending : PendingConn} :
    pending ∈ mgr.waiting name ↔ ∃ conns, mgr.pendingConns.get? name = some conns ∧ pending ∈ conns := by
  rw [waiting]
  cases mgr.pendingConns.get? name <;> simp

theorem Fresh.unwaited {endpoint : NodeID} (fresh : mgr.Fresh endpoint) : mgr.Unwaited endpoint := by
  intro name pending member
  obtain ⟨conns, listed, here⟩ := mem_waiting_iff.mp member
  exact fresh.2 (name, conns) (mgr.pendingConns.mem_entries_iff.mpr listed) pending here

theorem enablePending_eq {pending : PendingConn} (whole : none ∉ dest.members)
    (idle : mgr.liveConns.get? pending.conn.remoteEndpoint = none) :
    enablePending dest mgr pending =
      some ({mgr with
        liveConns := mgr.liveConns.set pending.conn.remoteEndpoint (enabledInto dest pending)}.sendMsg pending.conn
          .chainReady) := by
  rw [enablePending, if_neg whole, enableConnection, idle]
  rfl

@[simp] theorem sendMsg_pendingConns (c : ClientConnection) (type : DataplaneType) :
    (mgr.sendMsg c type).pendingConns = mgr.pendingConns := by
  unfold sendMsg
  split <;> rfl

@[simp] theorem sendMsg_liveConns (c : ClientConnection) (type : DataplaneType) :
    (mgr.sendMsg c type).liveConns = mgr.liveConns := by
  unfold sendMsg
  split <;> rfl

theorem sendMsg_sent (c : ClientConnection) (type : DataplaneType) :
    (mgr.sendMsg c type).sent = mgr.sent ++ if c.connected then [(c, type)] else [] := by
  unfold sendMsg
  split
  · rfl
  · exact (List.append_nil _).symm

/-- Connections from different addresses that are not live can all be enabled. -/
theorem enablePending_all {conns : List PendingConn} (whole : none ∉ dest.members)
    (distinct : (conns.map fun pending => pending.conn.remoteEndpoint).Nodup)
    (idle : ∀ pending ∈ conns, mgr.liveConns.get? pending.conn.remoteEndpoint = none) :
    ∃ enabled, conns.foldlM (enablePending dest) mgr = some enabled ∧ enabled.pendingConns = mgr.pendingConns ∧
      (enabled.sent = mgr.sent ++
        (conns.filter fun pending => pending.conn.connected).map fun pending => (pending.conn, .chainReady)) ∧
      (∀ pending ∈ conns,
        enabled.liveConns.get? pending.conn.remoteEndpoint = some (enabledInto dest pending)) ∧
      ∀ endpoint, (∀ pending ∈ conns, pending.conn.remoteEndpoint ≠ endpoint) →
        enabled.liveConns.get? endpoint = mgr.liveConns.get? endpoint := by
  induction conns generalizing mgr with
  | nil => exact ⟨mgr, rfl, rfl, (List.append_nil _).symm, nofun, fun _ _ => rfl⟩
  | cons first rest ih =>
      obtain ⟨new, restDistinct⟩ := List.nodup_cons.mp distinct
      have elsewhere : ∀ pending ∈ rest, pending.conn.remoteEndpoint ≠ first.conn.remoteEndpoint := by
        intro pending member same
        exact new (List.mem_map.mpr ⟨pending, member, same⟩)
      have stepped := enablePending_eq whole (idle first List.mem_cons_self)
      have idleRest : ∀ pending ∈ rest,
          ({mgr with liveConns := mgr.liveConns.set first.conn.remoteEndpoint (enabledInto dest first)}.sendMsg first.conn
            .chainReady).liveConns.get? pending.conn.remoteEndpoint = none := by
        intro pending member
        rw [sendMsg_liveConns, OrderedMap.get?_set, if_neg (elsewhere pending member)]
        exact idle pending (List.mem_cons_of_mem first member)
      obtain ⟨enabled, ran, kept, sent, live, others⟩ := ih restDistinct idleRest
      refine ⟨enabled, ?_, kept.trans (sendMsg_pendingConns _ _), ?_, ?_, ?_⟩
      · rw [List.foldlM_cons, stepped]
        exact ran
      · rw [sent, sendMsg_sent, List.append_assoc, List.filter_cons]
        split <;> rfl
      · intro pending member
        rcases List.mem_cons.mp member with rfl | later
        · rw [others _ elsewhere, sendMsg_liveConns, OrderedMap.get?_set, if_pos rfl]
        · exact live pending later
      · intro endpoint absent
        rw [others endpoint fun pending member => absent pending (List.mem_cons_of_mem first member), sendMsg_liveConns,
          OrderedMap.get?_set, if_neg (absent first List.mem_cons_self).symm]

/-- A chain without null members releases the connections that wait for its start. -/
theorem createdChain_released (distinct : mgr.Distinct) (starts : dest.startName = some name)
    (whole : none ∉ dest.members) : ∃ next, mgr.createdChain dest = some next ∧ Released mgr dest name next := by
  cases listed : mgr.pendingConns.get? name with
  | none =>
      have idle : mgr.waiting name = [] := by rw [waiting, listed, Option.getD_none]
      refine ⟨mgr, ?_, ?_, ?_, ?_, fun _ _ => rfl⟩
      · simp [createdChain, starts, listed]
      · intro other
        split
        · rename_i same
          exact same ▸ idle
        · rfl
      · simp [idle]
      · simp [idle]
  | some conns =>
      have here : mgr.waiting name = conns := by rw [waiting, listed, Option.getD_some]
      obtain ⟨enabled, ran, kept, sent, live, others⟩ := enablePending_all whole (here ▸ distinct.within name)
        (here ▸ distinct.notLive name)
      refine ⟨{enabled with pendingConns := enabled.pendingConns.erase name}, ?_, ?_, here ▸ sent, here ▸ live, here ▸ others⟩
      · simp [createdChain, starts, listed, ran]
      · intro other
        rw [waiting, kept, OrderedMap.get?_erase]
        split
        · rfl
        · rfl

namespace Released

theorem mem_waiting (released : Released mgr dest name next) {other : String} {pending : PendingConn} :
    pending ∈ next.waiting other ↔ other ≠ name ∧ pending ∈ mgr.waiting other := by
  rw [released.waiting]
  split
  · rename_i same
    simp [same]
  · rename_i different
    simp [different]

theorem distinct (released : Released mgr dest name next) (before : mgr.Distinct) : next.Distinct where
  within other := by
    rw [released.waiting]
    split
    · exact List.nodup_nil
    · exact before.within other
  across first second different pending member late lateMember :=
    before.across first second different pending (released.mem_waiting.mp member).2 late
      (released.mem_waiting.mp lateMember).2
  notLive other pending member := by
    obtain ⟨different, here⟩ := released.mem_waiting.mp member
    rw [released.others]
    · exact before.notLive other pending here
    · intro late lateMember
      exact before.across name other different.symm late lateMember pending here

theorem unwaited (released : Released mgr dest name next) {endpoint : NodeID} (absent : mgr.Unwaited endpoint) :
    next.Unwaited endpoint :=
  fun other pending member => absent other pending (released.mem_waiting.mp member).2

/-- Nothing is sent on a connection that does not wait for the name. -/
theorem count_sent_of_absent (released : Released mgr dest name next) {c : ClientConnection}
    (absent : ∀ pending ∈ mgr.waiting name, pending.conn.remoteEndpoint ≠ c.remoteEndpoint) (type : DataplaneType) :
    next.sent.count (c, type) = mgr.sent.count (c, type) := by
  rw [released.sent, List.count_append, Nat.add_eq_left, List.count_eq_zero, List.mem_map]
  intro sent
  obtain ⟨pending, member, same⟩ := sent
  exact absent pending (List.mem_filter.mp member).1 (congrArg ClientConnection.remoteEndpoint (Prod.mk.inj same).1)

/-- A connection that waits for the name is told once that the chain is ready. -/
theorem count_sent_of_mem (released : Released mgr dest name next) (before : mgr.Distinct) {pending : PendingConn}
    (member : pending ∈ mgr.waiting name) (connected : pending.conn.connected) :
    next.sent.count (pending.conn, .chainReady) = mgr.sent.count (pending.conn, .chainReady) + 1 := by
  rw [released.sent, List.count_append, Nat.add_right_inj]
  apply List.count_eq_one_of_mem
  · apply List.Nodup.of_map fun sent : ClientConnection × DataplaneType => sent.1.remoteEndpoint
    rw [List.map_map]
    exact (before.within name).sublist (List.filter_sublist.map _)
  · exact List.mem_map.mpr ⟨pending, List.mem_filter.mpr ⟨member, connected⟩, rfl⟩

/-- A connection that is enabled waits no longer. -/
theorem unwaited_of_mem (released : Released mgr dest name next) (before : mgr.Distinct) {pending : PendingConn}
    (member : pending ∈ mgr.waiting name) : next.Unwaited pending.conn.remoteEndpoint := by
  intro other late lateMember
  obtain ⟨different, here⟩ := released.mem_waiting.mp lateMember
  exact before.across other name different late here pending member

end Released

section Announced

variable {chains : List OperatorChain}

theorem announce_cons {chain : OperatorChain} (ran : mgr.announce (chain :: chains) = some next) :
    ∃ middle, mgr.createdChain chain = some middle ∧ middle.announce chains = some next := by
  rw [announce, List.foldlM_cons, Option.bind_eq_bind, Option.bind_eq_some_iff] at ran
  exact ran

theorem announce_append {later : List OperatorChain} :
    mgr.announce (chains ++ later) = some next ↔
      ∃ middle, mgr.announce chains = some middle ∧ middle.announce later = some next := by
  rw [announce, List.foldlM_append, Option.bind_eq_bind, Option.bind_eq_some_iff]
  rfl

/-- The first of several whole chains releases its connections before the others are created. -/
theorem announce_whole_cons {chain : OperatorChain} (distinct : mgr.Distinct)
    (whole : ∀ other ∈ chain :: chains, other.Whole) (ran : mgr.announce (chain :: chains) = some next) :
    ∃ name middle, chain.startName = some name ∧ Released mgr chain name middle ∧ middle.Distinct ∧
      middle.announce chains = some next := by
  obtain ⟨middle, created, rest⟩ := announce_cons ran
  obtain ⟨members, name, starts⟩ := whole chain List.mem_cons_self
  obtain ⟨released, same, spec⟩ := createdChain_released distinct starts members
  obtain rfl := Option.some.inj (same.symm.trans created)
  exact ⟨name, released, starts, spec, spec.distinct distinct, rest⟩

/-- Whole chains can always be created when the connections are distinct. -/
theorem announce_distinct (distinct : mgr.Distinct) (whole : ∀ chain ∈ chains, chain.Whole) :
    ∃ next, mgr.announce chains = some next ∧ next.Distinct := by
  induction chains generalizing mgr with
  | nil => exact ⟨mgr, rfl, distinct⟩
  | cons chain rest ih =>
      obtain ⟨members, name, starts⟩ := whole chain List.mem_cons_self
      obtain ⟨middle, created, spec⟩ := createdChain_released distinct starts members
      obtain ⟨next, ran, nextDistinct⟩ := ih (spec.distinct distinct)
        fun other member => whole other (List.mem_cons_of_mem chain member)
      exact ⟨next, by rw [announce, List.foldlM_cons, created]; exact ran, nextDistinct⟩

/-- The creation of chains does not concern a connection that does not wait. -/
theorem announce_unwaited {c : ClientConnection} (distinct : mgr.Distinct) (whole : ∀ chain ∈ chains, chain.Whole)
    (absent : mgr.Unwaited c.remoteEndpoint) (ran : mgr.announce chains = some next) :
    next.Unwaited c.remoteEndpoint ∧
      next.liveConns.get? c.remoteEndpoint = mgr.liveConns.get? c.remoteEndpoint ∧
      ∀ type, next.sent.count (c, type) = mgr.sent.count (c, type) := by
  induction chains generalizing mgr with
  | nil =>
      obtain rfl := Option.some.inj ran
      exact ⟨absent, rfl, fun _ => rfl⟩
  | cons chain rest ih =>
      obtain ⟨name, middle, -, released, middleDistinct, ranRest⟩ := announce_whole_cons distinct whole ran
      obtain ⟨unwaited, live, sent⟩ := ih middleDistinct (fun other member => whole other (List.mem_cons_of_mem chain member))
        (released.unwaited absent) ranRest
      refine ⟨unwaited, ?_, ?_⟩
      · rw [live, released.others c.remoteEndpoint (absent name)]
      · intro type
        rw [sent type, released.count_sent_of_absent (absent name)]

/-- A connection goes on waiting while no chain starts at its name. -/
theorem announce_waiting {pending : PendingConn} (distinct : mgr.Distinct) (whole : ∀ chain ∈ chains, chain.Whole)
    (elsewhere : ∀ chain ∈ chains, chain.startName ≠ some name) (member : pending ∈ mgr.waiting name)
    (ran : mgr.announce chains = some next) : pending ∈ next.waiting name := by
  induction chains generalizing mgr with
  | nil =>
      obtain rfl := Option.some.inj ran
      exact member
  | cons chain rest ih =>
      obtain ⟨other, middle, starts, released, middleDistinct, ranRest⟩ := announce_whole_cons distinct whole ran
      have different : name ≠ other := by
        rintro rfl
        exact elsewhere chain List.mem_cons_self starts
      exact ih middleDistinct (fun other member => whole other (List.mem_cons_of_mem chain member))
        (fun other member => elsewhere other (List.mem_cons_of_mem chain member))
        (released.mem_waiting.mpr ⟨different, member⟩) ranRest

/-- A connection is enabled into the first chain that starts at its name, and it is told once. -/
theorem announce_enables {pending : PendingConn} (distinct : mgr.Distinct) (whole : ∀ chain ∈ chains, chain.Whole)
    (started : ∃ chain ∈ chains, chain.startName = some name) (member : pending ∈ mgr.waiting name)
    (connected : pending.conn.connected) (ran : mgr.announce chains = some next) :
    ∃ chain ∈ chains, chain.startName = some name ∧
      next.liveConns.get? pending.conn.remoteEndpoint = some (enabledInto chain pending) ∧
      next.Unwaited pending.conn.remoteEndpoint ∧
      next.sent.count (pending.conn, .chainReady) = mgr.sent.count (pending.conn, .chainReady) + 1 := by
  induction chains generalizing mgr with
  | nil =>
      obtain ⟨chain, nowhere, -⟩ := started
      cases nowhere
  | cons chain rest ih =>
      have wholeRest : ∀ other ∈ rest, other.Whole := fun other member => whole other (List.mem_cons_of_mem chain member)
      obtain ⟨other, middle, starts, released, middleDistinct, ranRest⟩ := announce_whole_cons distinct whole ran
      by_cases same : other = name
      · subst same
        obtain ⟨unwaited, live, sent⟩ := announce_unwaited middleDistinct wholeRest
          (released.unwaited_of_mem distinct member) ranRest
        refine ⟨chain, List.mem_cons_self, starts, ?_, unwaited, ?_⟩
        · rw [live, released.enabled pending member]
        · rw [sent, released.count_sent_of_mem distinct member connected]
      · have later : ∃ chain ∈ rest, chain.startName = some name := by
          obtain ⟨found, place, foundStarts⟩ := started
          rcases List.mem_cons.mp place with rfl | place
          · exact absurd (Option.some.inj (starts.symm.trans foundStarts)) same
          · exact ⟨found, place, foundStarts⟩
        obtain ⟨found, place, foundStarts, live, unwaited, sent⟩ := ih middleDistinct wholeRest later
          (released.mem_waiting.mpr ⟨Ne.symm same, member⟩) ranRest
        refine ⟨found, List.mem_cons_of_mem chain place, foundStarts, live, unwaited, ?_⟩
        rw [sent, released.count_sent_of_absent]
        intro late lateMember
        exact distinct.across other name same late lateMember pending member

end Announced

end DataplaneConnManager

end JetStream
