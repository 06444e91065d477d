import JetStream.Dataplane.ConnManager
import JetStream.Lib.EventSystem

namespace JetStream

/-- The name of a destination is an operator, a cube, or the same word for all external addresses. -/
def destAsStr (edge : Edge) : String :=
  match edge.dest, edge.destCube with
  | some dest, _ => TaskID.asString (toLex (edge.computation, dest))
  | none, some cube => cube
  | none, none => "external"

/-- The connection is awaited, has failed, is connected, is being closed, or was given up. -/
inductive AdaptorConn where
  | pending
  | failed
  | connected
  | closing
  | reset
  deriving DecidableEq

/-- The flag `handlers` is set while callbacks of the connection can still come, and `closingCb` once a close was asked. -/
structure RemoteDestAdaptor where
  destName : String
  conn : AdaptorConn := .pending
  isStopping : Bool := false
  chains : ℕ := 1
  running : ℕ := 1
  handlers : Bool := false
  closingCb : Bool := false
  deriving DecidableEq

namespace RemoteDestAdaptor

/-- A live adaptor still carries the data of a running chain. -/
def live (adaptor : RemoteDestAdaptor) : Bool := 0 < adaptor.running && !adaptor.isStopping

/-- A spent adaptor asks for no further cleanup. -/
def spent (adaptor : RemoteDestAdaptor) : Bool :=
  !adaptor.handlers && adaptor.conn ≠ .pending && adaptor.conn ≠ .connected

/-- A broken connection is given up together with all chains of the adaptor. -/
def connectionBroken (adaptor : RemoteDestAdaptor) : RemoteDestAdaptor :=
  {adaptor with isStopping := true, conn := .reset, chains := 0, running := 0}

/-- Without a connection the adaptor keeps the stopped chain, and the last chain closes the connection. -/
def chainStopping (adaptor : RemoteDestAdaptor) : RemoteDestAdaptor :=
  let stopped := {adaptor with running := adaptor.running - 1}
  if adaptor.conn ≠ .connected then stopped
  else if adaptor.chains - 1 = 0 then {stopped with chains := 0, conn := .closing, closingCb := true}
  else {stopped with chains := adaptor.chains - 1}

end RemoteDestAdaptor

/-- The strand holds a cleanup by name, together with the adaptor that asked for it. -/
structure PostedCleanup where
  poster : ℕ
  id : String
  deriving DecidableEq

/-- A fatal check or a null pointer ends the process. -/
inductive ProcessEnd where
  | fatalCleanup
  | nullConnection
  deriving DecidableEq

/-- The manager maps names to adaptors, and `removedLive` notes that a cleanup has removed another live adaptor. -/
structure AdaptorRegistry where
  built : List RemoteDestAdaptor
  adaptors : String → Option ℕ
  strand : List PostedCleanup
  removedLive : Bool
  ended : Option ProcessEnd

/-- A chain, the connection or its data acts on one adaptor. -/
inductive AdaptorAction where
  | addChain
  | connCreated (connected : Bool)
  | data (sent : Bool)
  | connectionBroken
  | chainStopping
  | closeDone
  | released
  deriving DecidableEq

/-- The events name an adaptor by the order of its creation. -/
inductive AdaptorEvent where
  | create (edge : Edge)
  | act (index : ℕ) (action : AdaptorAction)
  | runCleanup
  deriving DecidableEq

namespace AdaptorRegistry

def new : AdaptorRegistry := ⟨[], fun _ => none, [], false, none⟩

/-- A registered name is overwritten by a new adaptor to the same destination. -/
def registerNewAdaptor (registry : AdaptorRegistry) (adaptor : RemoteDestAdaptor) : AdaptorRegistry :=
  {registry with
    built := registry.built ++ [adaptor]
    adaptors := Function.update registry.adaptors adaptor.destName (some registry.built.length)}

def setAdaptor (registry : AdaptorRegistry) (index : ℕ) (adaptor : RemoteDestAdaptor) : AdaptorRegistry :=
  {registry with built := registry.built.set index adaptor}

def cleanup (registry : AdaptorRegistry) (index : ℕ) (adaptor : RemoteDestAdaptor) : AdaptorRegistry :=
  {registry with strand := registry.strand ++ [⟨index, adaptor.destName⟩]}

/-- The cleanup takes whatever adaptor has the name now, and is fatal when that one is connected. -/
def deferredCleanup (registry : AdaptorRegistry) (posted : PostedCleanup) : AdaptorRegistry :=
  match (registry.adaptors posted.id).bind fun index => registry.built[index]?.map (index, ·) with
  | none => registry
  | some (index, adaptor) =>
      if adaptor.conn = .connected then {registry with ended := some .fatalCleanup}
      else {registry with
        adaptors := Function.update registry.adaptors posted.id none
        removedLive := registry.removedLive || (index ≠ posted.poster && adaptor.live)}

/-- The adaptor gives its connection up and asks for its cleanup. -/
def breakConnection (registry : AdaptorRegistry) (index : ℕ) (adaptor : RemoteDestAdaptor) : AdaptorRegistry :=
  (registry.setAdaptor index adaptor.connectionBroken).cleanup index adaptor.connectionBroken

/-- A failed send gives the connection up and then asks the null pointer to close it. -/
def sendFailed (registry : AdaptorRegistry) (index : ℕ) (adaptor : RemoteDestAdaptor) : AdaptorRegistry :=
  {registry.breakConnection index adaptor with ended := some .nullConnection}

/-- An event is refused where the connection or the chain cannot produce it. -/
def adaptorStep (registry : AdaptorRegistry) (index : ℕ) (adaptor : RemoteDestAdaptor) :
    AdaptorAction → Option AdaptorRegistry
  | .addChain =>
      some (registry.setAdaptor index {adaptor with chains := adaptor.chains + 1, running := adaptor.running + 1})
  | .connCreated connected =>
      if adaptor.conn ≠ .pending then none
      else if connected then some (registry.setAdaptor index {adaptor with conn := .connected, handlers := true})
      else some (registry.setAdaptor index {adaptor with conn := .failed})
  | .data sent =>
      if adaptor.conn ≠ .connected ∨ adaptor.isStopping then none
      else if sent then some registry
      else some (registry.sendFailed index adaptor)
  | .connectionBroken =>
      if !adaptor.handlers then none
      else if adaptor.isStopping then some registry
      else some (registry.breakConnection index adaptor)
  | .chainStopping =>
      if adaptor.running = 0 then none else some (registry.setAdaptor index adaptor.chainStopping)
  | .closeDone =>
      if adaptor.handlers ∧ adaptor.closingCb then some (registry.cleanup index adaptor) else none
  | .released =>
      if adaptor.conn = .closing ∨ adaptor.conn = .reset then
        some (registry.setAdaptor index {adaptor with handlers := false})
      else none

def step (registry : AdaptorRegistry) (event : AdaptorEvent) : Option AdaptorRegistry :=
  if registry.ended ≠ none then none
  else match event with
    | .create edge => some (registry.registerNewAdaptor {destName := destAsStr edge})
    | .act index action =>
        registry.built[index]?.bind fun adaptor => registry.adaptorStep index adaptor action
    | .runCleanup =>
        match registry.strand with
        | [] => none
        | posted :: rest => some (deferredCleanup {registry with strand := rest} posted)

def system : EventSystem AdaptorRegistry AdaptorEvent := ⟨new, step⟩

/-- No cleanup has removed another live adaptor or has reached the fatal branch. -/
def Independent (registry : AdaptorRegistry) : Prop :=
  registry.removedLive = false ∧ registry.ended ≠ some .fatalCleanup

/-- An adaptor of the destination can still ask for a cleanup, or a cleanup that it asked for is still posted. -/
def Pending (registry : AdaptorRegistry) (index : ℕ) (adaptor : RemoteDestAdaptor) : Prop :=
  adaptor.spent = false ∨ ∃ posted ∈ registry.strand, posted.poster = index

/-- A chain is created only to a destination whose earlier adaptors are through with their cleanups. -/
def DistinctDest (registry : AdaptorRegistry) : AdaptorEvent → Prop
  | .create edge => ∀ entry ∈ registry.built.zipIdx, entry.1.destName = destAsStr edge →
      ¬ registry.Pending entry.2 entry.1
  | _ => True

instance decidableIndependent (registry : AdaptorRegistry) : Decidable registry.Independent :=
  inferInstanceAs (Decidable (_ ∧ _))

instance decidablePending (registry : AdaptorRegistry) (index : ℕ) (adaptor : RemoteDestAdaptor) :
    Decidable (registry.Pending index adaptor) := inferInstanceAs (Decidable (_ ∨ _))

instance decidableDistinctDest (registry : AdaptorRegistry) :
    (event : AdaptorEvent) → Decidable (registry.DistinctDest event)
  | .create _ => inferInstanceAs (Decidable (∀ entry ∈ registry.built.zipIdx, _))
  | .act _ _ => isTrue trivial
  | .runCleanup => isTrue trivial

/-- Only the adaptor itself can have its name while it is pending, and no posted cleanup finds it connected. -/
structure Owned (registry : AdaptorRegistry) : Prop where
  registered : ∀ id index, registry.adaptors id = some index →
    ∃ adaptor, registry.built[index]? = some adaptor ∧ adaptor.destName = id
  posted : ∀ posted ∈ registry.strand, ∃ adaptor, registry.built[posted.poster]? = some adaptor ∧
    adaptor.destName = posted.id ∧ adaptor.conn ≠ .pending ∧ adaptor.conn ≠ .connected
  owner : ∀ index adaptor, registry.built[index]? = some adaptor → registry.Pending index adaptor →
    ∀ other, registry.adaptors adaptor.destName = some other → other = index
  asked : ∀ (index : ℕ) (adaptor : RemoteDestAdaptor), registry.built[index]? = some adaptor →
    adaptor.closingCb = true → adaptor.conn ≠ .pending ∧ adaptor.conn ≠ .connected
  independent : registry.Independent

theorem new_owned : new.Owned := by
  constructor
  · intro id index registered
    cases registered
  · exact List.forall_mem_nil _
  · intro index adaptor present
    cases present
  · intro index adaptor present
    cases present
  · exact ⟨rfl, (Option.some_ne_none _).symm⟩

theorem built_setAdaptor {registry : AdaptorRegistry} {index : ℕ} {adaptor changed : RemoteDestAdaptor}
    (present : registry.built[index]? = some adaptor) (other : ℕ) :
    (registry.setAdaptor index changed).built[other]? =
      if index = other then some changed else registry.built[other]? := by
  have inside : index < registry.built.length := (List.getElem?_eq_some_iff.mp present).1
  rw [setAdaptor, List.getElem?_set, if_pos inside]

/-- A change of one adaptor is harmless when it keeps the name and wakes nothing up. -/
theorem Owned.setAdaptor {registry : AdaptorRegistry} (owned : registry.Owned) {index : ℕ}
    {adaptor changed : RemoteDestAdaptor} (present : registry.built[index]? = some adaptor)
    (sameName : changed.destName = adaptor.destName) (asleep : adaptor.spent = true → changed.spent = true)
    (closed : adaptor.conn ≠ .pending → adaptor.conn ≠ .connected →
      changed.conn ≠ .pending ∧ changed.conn ≠ .connected)
    (asked : changed.closingCb = true → changed.conn ≠ .pending ∧ changed.conn ≠ .connected) :
    (registry.setAdaptor index changed).Owned := by
  constructor
  · intro id other registered
    obtain ⟨found, isFound, name⟩ := owned.registered id other registered
    rw [built_setAdaptor present]
    by_cases same : index = other
    · subst same
      obtain rfl := Option.some.inj (present.symm.trans isFound)
      exact ⟨changed, if_pos rfl, sameName.trans name⟩
    · exact ⟨found, (if_neg same).trans isFound, name⟩
  · intro posted isPosted
    obtain ⟨found, isFound, name, notPending, notConnected⟩ := owned.posted posted isPosted
    rw [built_setAdaptor present]
    by_cases same : index = posted.poster
    · rw [← same, present] at isFound
      obtain rfl := Option.some.inj isFound
      exact ⟨changed, if_pos same, sameName.trans name, closed notPending notConnected⟩
    · exact ⟨found, (if_neg same).trans isFound, name, notPending, notConnected⟩
  · intro other found isFound pending
    rw [built_setAdaptor present] at isFound
    by_cases same : index = other
    · rw [if_pos same] at isFound
      obtain rfl := Option.some.inj isFound
      rw [sameName]
      apply owned.owner other adaptor (same ▸ present)
      apply pending.imp_left
      intro awake
      by_contra spent
      rw [asleep (Bool.eq_true_of_not_eq_false spent)] at awake
      cases awake
    · rw [if_neg same] at isFound
      exact owned.owner other found isFound pending
  · intro other found isFound
    rw [built_setAdaptor present] at isFound
    by_cases same : index = other
    · rw [if_pos same] at isFound
      obtain rfl := Option.some.inj isFound
      exact asked
    · rw [if_neg same] at isFound
      exact owned.asked other found isFound
  · exact owned.independent

/-- A cleanup may be posted by an adaptor that is not spent and no longer connected. -/
theorem Owned.cleanup {registry : AdaptorRegistry} (owned : registry.Owned) {index : ℕ} {adaptor : RemoteDestAdaptor}
    (present : registry.built[index]? = some adaptor) (awake : adaptor.spent = false)
    (notPending : adaptor.conn ≠ .pending) (notConnected : adaptor.conn ≠ .connected) :
    (registry.cleanup index adaptor).Owned := by
  constructor
  · exact owned.registered
  · intro posted isPosted
    rcases List.mem_append.mp isPosted with earlier | isNew
    · exact owned.posted posted earlier
    · obtain rfl := List.mem_singleton.mp isNew
      exact ⟨adaptor, present, rfl, notPending, notConnected⟩
  · intro other found isFound pending
    apply owned.owner other found isFound
    rcases pending with notSpent | ⟨posted, isPosted, isPoster⟩
    · exact .inl notSpent
    · rcases List.mem_append.mp isPosted with earlier | isNew
      · exact .inr ⟨posted, earlier, isPoster⟩
      · obtain rfl := List.mem_singleton.mp isNew
        obtain rfl : index = other := isPoster
        obtain rfl := Option.some.inj (present.symm.trans isFound)
        exact .inl awake
  · exact owned.asked
  · exact owned.independent

/-- The list of the adaptors grows at its end. -/
theorem built_registerNewAdaptor {registry : AdaptorRegistry} {adaptor found : RemoteDestAdaptor} {index : ℕ}
    (isFound : (registry.registerNewAdaptor adaptor).built[index]? = some found) :
    registry.built[index]? = some found ∨ index = registry.built.length ∧ found = adaptor := by
  rw [registerNewAdaptor, List.getElem?_append] at isFound
  split at isFound
  · exact .inl isFound
  · rw [List.getElem?_singleton] at isFound
    split at isFound
    · exact .inr ⟨by omega, (Option.some.inj isFound).symm⟩
    · cases isFound

theorem Owned.registerNewAdaptor {registry : AdaptorRegistry} (owned : registry.Owned) {edge : Edge}
    (distinct : registry.DistinctDest (.create edge)) :
    (registry.registerNewAdaptor {destName := destAsStr edge}).Owned := by
  have kept {index : ℕ} {adaptor : RemoteDestAdaptor} (present : registry.built[index]? = some adaptor) :
      (registry.registerNewAdaptor {destName := destAsStr edge}).built[index]? = some adaptor :=
    List.getElem?_append_left (List.getElem?_eq_some_iff.mp present).1 ▸ present
  have isNew : (registry.registerNewAdaptor {destName := destAsStr edge}).built[registry.built.length]? =
      some {destName := destAsStr edge} := by simp [AdaptorRegistry.registerNewAdaptor]
  constructor
  · intro id index registered
    change Function.update _ _ _ _ = _ at registered
    by_cases same : id = destAsStr edge
    · rw [same, Function.update_self] at registered
      obtain rfl := Option.some.inj registered
      exact ⟨_, isNew, same.symm⟩
    · rw [Function.update_of_ne same] at registered
      obtain ⟨adaptor, present, name⟩ := owned.registered id index registered
      exact ⟨adaptor, kept present, name⟩
  · intro posted isPosted
    obtain ⟨adaptor, present, closed⟩ := owned.posted posted isPosted
    exact ⟨adaptor, kept present, closed⟩
  · intro index adaptor present pending other registered
    change Function.update _ _ _ _ = _ at registered
    rcases built_registerNewAdaptor present with old | ⟨rfl, rfl⟩
    · have different : adaptor.destName ≠ destAsStr edge := by
        intro same
        exact distinct (adaptor, index) (List.mem_zipIdx_iff_getElem?.mpr old) same pending
      rw [Function.update_of_ne different] at registered
      exact owned.owner index adaptor old pending other registered
    · rw [Function.update_self] at registered
      exact (Option.some.inj registered).symm
  · intro index adaptor present asked
    rcases built_registerNewAdaptor present with old | ⟨rfl, rfl⟩
    · exact owned.asked index adaptor old asked
    · cases asked
  · exact owned.independent

/-- A posted cleanup finds the adaptor that asked for it, or nothing. -/
theorem Owned.deferredCleanup {registry : AdaptorRegistry} {posted : PostedCleanup} {rest : List PostedCleanup}
    (owned : registry.Owned) (first : registry.strand = posted :: rest) :
    (({registry with strand := rest} : AdaptorRegistry).deferredCleanup posted).Owned := by
  have isPosted : posted ∈ registry.strand := first ▸ List.mem_cons_self
  obtain ⟨poster, isPoster, name, notPending, notConnected⟩ := owned.posted posted isPosted
  have later (entry : PostedCleanup) (isLater : entry ∈ rest) : entry ∈ registry.strand :=
    first ▸ List.mem_cons_of_mem _ isLater
  have popped : ({registry with strand := rest} : AdaptorRegistry).Owned := by
    constructor
    · exact owned.registered
    · intro entry isEntry
      exact owned.posted entry (later entry isEntry)
    · intro index adaptor present pending
      apply owned.owner index adaptor present
      exact pending.imp_right fun ⟨entry, isEntry, same⟩ => ⟨entry, later entry isEntry, same⟩
    · exact owned.asked
    · exact owned.independent
  unfold AdaptorRegistry.deferredCleanup
  cases registered : registry.adaptors posted.id with
  | none => exact popped
  | some index =>
      obtain rfl : index = posted.poster :=
        owned.owner posted.poster poster isPoster (.inr ⟨posted, isPosted, rfl⟩) index (name ▸ registered)
      simp only [Option.bind_some, isPoster, Option.map_some, if_neg notConnected, ne_eq, not_true, decide_false,
        Bool.false_and, Bool.or_false]
      have fewer {id : String} {other : ℕ}
          (found : Function.update registry.adaptors posted.id none id = some other) :
          registry.adaptors id = some other := by
        by_cases same : id = posted.id
        · rw [same, Function.update_self] at found
          cases found
        · rwa [Function.update_of_ne same] at found
      constructor
      · intro id other found
        exact popped.registered id other (fewer found)
      · exact popped.posted
      · intro other adaptor present pending found isFound
        exact popped.owner other adaptor present pending found (fewer isFound)
      · exact popped.asked
      · exact popped.independent

theorem spent_of_handlers {adaptor : RemoteDestAdaptor} (handlers : adaptor.handlers = true) :
    adaptor.spent = false := by simp [RemoteDestAdaptor.spent, handlers]

theorem spent_of_pending {adaptor : RemoteDestAdaptor} (pending : adaptor.conn = .pending) :
    adaptor.spent = false := by simp [RemoteDestAdaptor.spent, pending]

theorem spent_of_connected {adaptor : RemoteDestAdaptor} (connected : adaptor.conn = .connected) :
    adaptor.spent = false := by simp [RemoteDestAdaptor.spent, connected]

/-- An adaptor with an awaited connection may get any outcome. -/
theorem Owned.connCreated {registry : AdaptorRegistry} (owned : registry.Owned) {index : ℕ}
    {adaptor changed : RemoteDestAdaptor} (present : registry.built[index]? = some adaptor)
    (pending : adaptor.conn = .pending) (sameName : changed.destName = adaptor.destName)
    (sameAsked : changed.closingCb = adaptor.closingCb) : (registry.setAdaptor index changed).Owned := by
  apply owned.setAdaptor present sameName
  · intro spent
    rw [spent_of_pending pending] at spent
    cases spent
  · intro notPending
    exact absurd pending notPending
  · intro asked
    rw [sameAsked] at asked
    exact absurd pending (owned.asked index adaptor present asked).1

/-- A stopping chain leaves a connection alone, or closes a connected one. -/
theorem Owned.chainStopping {registry : AdaptorRegistry} (owned : registry.Owned) {index : ℕ}
    {adaptor : RemoteDestAdaptor} (present : registry.built[index]? = some adaptor) :
    (registry.setAdaptor index adaptor.chainStopping).Owned := by
  have asked := owned.asked index adaptor present
  unfold RemoteDestAdaptor.chainStopping
  by_cases connected : adaptor.conn = .connected
  · rw [if_neg (not_not.mpr connected)]
    split
    · apply owned.setAdaptor present
      · rfl
      · intro spent
        rw [spent_of_connected connected] at spent
        cases spent
      · intro _ _
        exact ⟨AdaptorConn.noConfusion, AdaptorConn.noConfusion⟩
      · intro _
        exact ⟨AdaptorConn.noConfusion, AdaptorConn.noConfusion⟩
    · exact owned.setAdaptor present rfl id (fun notPending notConnected => ⟨notPending, notConnected⟩) asked
  · rw [if_pos connected]
    exact owned.setAdaptor present rfl id (fun notPending notConnected => ⟨notPending, notConnected⟩) asked

/-- Giving a connection up posts the cleanup of an adaptor that is no longer connected. -/
theorem Owned.breakConnection {registry : AdaptorRegistry} (owned : registry.Owned) {index : ℕ}
    {adaptor : RemoteDestAdaptor} (present : registry.built[index]? = some adaptor) (handlers : adaptor.handlers = true) :
    (registry.breakConnection index adaptor).Owned := by
  have broken : (registry.setAdaptor index adaptor.connectionBroken).Owned := by
    apply owned.setAdaptor present (show adaptor.connectionBroken.destName = adaptor.destName from rfl)
    · intro spent
      rw [spent_of_handlers handlers] at spent
      cases spent
    · intro _ _
      exact ⟨AdaptorConn.noConfusion, AdaptorConn.noConfusion⟩
    · intro _
      exact ⟨AdaptorConn.noConfusion, AdaptorConn.noConfusion⟩
  have presentBroken : (registry.setAdaptor index adaptor.connectionBroken).built[index]? =
      some adaptor.connectionBroken := (built_setAdaptor present index).trans (if_pos rfl)
  exact broken.cleanup presentBroken (spent_of_handlers handlers) AdaptorConn.noConfusion AdaptorConn.noConfusion

theorem Owned.adaptorStep {registry after : AdaptorRegistry} (owned : registry.Owned) {index : ℕ}
    {adaptor : RemoteDestAdaptor} {action : AdaptorAction} (present : registry.built[index]? = some adaptor)
    (stepped : registry.adaptorStep index adaptor action = some after) :
    after.ended = some .nullConnection ∧ after.Independent ∨ after.Owned := by
  have asked := owned.asked index adaptor present
  cases action with
  | addChain =>
      obtain rfl := Option.some.inj stepped
      exact .inr (owned.setAdaptor present rfl id (fun notPending notConnected => ⟨notPending, notConnected⟩) asked)
  | connCreated connected =>
      rw [AdaptorRegistry.adaptorStep, Option.ite_none_left_eq_some, not_not] at stepped
      obtain ⟨pending, created⟩ := stepped
      split at created
      · obtain rfl := Option.some.inj created
        exact .inr (owned.connCreated present pending rfl rfl)
      · obtain rfl := Option.some.inj created
        exact .inr (owned.connCreated present pending rfl rfl)
  | data sent =>
      rw [AdaptorRegistry.adaptorStep, Option.ite_none_left_eq_some] at stepped
      obtain ⟨sending, stepped⟩ := stepped
      split at stepped
      · obtain rfl := Option.some.inj stepped
        exact .inr owned
      · obtain rfl := Option.some.inj stepped
        left
        refine ⟨rfl, owned.independent.1, ?_⟩
        intro fatal
        cases fatal
  | connectionBroken =>
      rw [AdaptorRegistry.adaptorStep, Option.ite_none_left_eq_some, Bool.not_eq_true', Bool.not_eq_false] at stepped
      obtain ⟨handlers, broken⟩ := stepped
      split at broken
      · obtain rfl := Option.some.inj broken
        exact .inr owned
      · obtain rfl := Option.some.inj broken
        exact .inr (owned.breakConnection present handlers)
  | chainStopping =>
      rw [AdaptorRegistry.adaptorStep, Option.ite_none_left_eq_some] at stepped
      obtain rfl := Option.some.inj stepped.2
      exact .inr (owned.chainStopping present)
  | closeDone =>
      rw [AdaptorRegistry.adaptorStep, Option.ite_none_right_eq_some] at stepped
      obtain ⟨⟨handlers, closingCb⟩, closed⟩ := stepped
      obtain rfl := Option.some.inj closed
      exact .inr (owned.cleanup present (spent_of_handlers handlers) (asked closingCb).1 (asked closingCb).2)
  | released =>
      rw [AdaptorRegistry.adaptorStep, Option.ite_none_right_eq_some] at stepped
      obtain ⟨gone, released⟩ := stepped
      obtain rfl := Option.some.inj released
      right
      apply owned.setAdaptor present
      · rfl
      · intro _
        rcases gone with closing | reset
        · simp [RemoteDestAdaptor.spent, closing]
        · simp [RemoteDestAdaptor.spent, reset]
      · intro notPending notConnected
        exact ⟨notPending, notConnected⟩
      · exact asked

/-- A run keeps the names owned until the process ends. -/
def Sound (registry : AdaptorRegistry) : Prop := registry.Independent ∧ (registry.ended = none → registry.Owned)

theorem Owned.sound {registry : AdaptorRegistry} (owned : registry.Owned) : registry.Sound :=
  ⟨owned.independent, fun _ => owned⟩

theorem Sound.step {registry after : AdaptorRegistry} {event : AdaptorEvent} (sound : registry.Sound)
    (distinct : registry.DistinctDest event) (stepped : registry.step event = some after) : after.Sound := by
  unfold AdaptorRegistry.step at stepped
  rw [Option.ite_none_left_eq_some, not_not] at stepped
  obtain ⟨running, stepped⟩ := stepped
  have owned := sound.2 running
  cases event with
  | create edge =>
      obtain rfl := Option.some.inj stepped
      exact (owned.registerNewAdaptor distinct).sound
  | act index action =>
      obtain ⟨adaptor, present, acted⟩ := Option.bind_eq_some_iff.mp stepped
      rcases owned.adaptorStep present acted with ⟨ended, independent⟩ | owned
      · refine ⟨independent, fun running => ?_⟩
        rw [ended] at running
        cases running
      · exact owned.sound
  | runCleanup =>
      cases first : registry.strand with
      | nil =>
          rw [first] at stepped
          cases stepped
      | cons posted rest =>
          rw [first] at stepped
          obtain rfl := Option.some.inj stepped
          exact (owned.deferredCleanup first).sound

/-- With distinct destinations among the pending adaptors, the adaptors of different chains are independent. -/
theorem adaptors_independent (events : List AdaptorEvent) (distinct : system.EveryStep DistinctDest new events) :
    system.EveryState Independent new events := by
  apply EventSystem.EveryStep.everyState Sound _ _ new_owned.sound distinct
  · intro registry event after sound distinct stepped
    exact sound.step distinct stepped
  · intro registry sound
    exact sound.1

/-- An edge to a cube on another node. -/
def cubeEdge (cube : String) : Edge := ⟨1, some 1, none, none, some cube, some (toLex ("other", 1))⟩

/-- Both chains connect, and the first of them finishes and is cleaned up. -/
def finishFirst (first second : String) : List AdaptorEvent :=
  [.create (cubeEdge first), .create (cubeEdge second), .act 0 (.connCreated true), .act 1 (.connCreated true),
    .act 0 .chainStopping, .act 0 .closeDone, .runCleanup]

theorem adaptors_independent_finishFirst : system.EveryState Independent new (finishFirst "north" "south") :=
  adaptors_independent (finishFirst "north" "south") (by decide +kernel)

/-- The cleanup of the first chain finds the connected adaptor of the second one. -/
theorem cleanup_fatal_finishFirst : ∃ registry ∈ system.runFrom new (finishFirst "north" "north"),
    registry.ended = some .fatalCleanup ∧ ¬ registry.Independent := by
  decide +kernel

end AdaptorRegistry

end JetStream
