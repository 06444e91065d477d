import JetStream.Cube.Aggregate
import JetStream.Cube.Processor
import Mathlib.Algebra.Order.Ring.Rat
import Mathlib.Data.List.Induction

namespace JetStream

/-- A subscriber answers a tuple with an action and with the values that it asks for. -/
structure SubscriberAnswer where
  action : Action
  needNewValue : Bool
  needOldValue : Bool
  deriving DecidableEq

/-- A subscriber is called with the update and with the values that the cube has read for it. -/
inductive SubscriberCallback (I T : Type) where
  | insertCallback (id : I) (update : T) (newValue : Option T)
  | updateCallback (id : I) (update : T) (newValue oldValue : Option T)
  deriving DecidableEq

/-- A tuple comes with its levels and with the answers of the subscribers that the cube has at that time. -/
structure CubeInput (I T : Type) [LinearOrder I] where
  t : T
  levels : List ℕ
  answers : OrderedMap I SubscriberAnswer

/-- The processing info of a tuple lists the subscribers that will be called and the values to read for them. -/
structure ProcessingInfo (I K T : Type) where
  t : T
  key : K
  levels : List ℕ
  insert : List I
  update : List I
  needNewValue : Bool
  needOldValue : Bool
  deriving DecidableEq

/-- These answers put the subscriber on the insert list. -/
def SubscriberAnswer.Inserts (answer : SubscriberAnswer) : Prop := answer.action = .send ∨ answer.action = .sendNoBatch

/-- This answer puts the subscriber on the update list. -/
def SubscriberAnswer.Updates (answer : SubscriberAnswer) : Prop := answer.action = .sendUpdate

namespace ProcessingInfo

variable {I K T : Type} [LinearOrder I]

def new (t : T) (key : K) (levels : List ℕ) : ProcessingInfo I K T := ⟨t, key, levels, [], [], false, false⟩

/-- An answer is recorded only when the key is not in the batch, and its flags replace those of the answers before it. -/
def ask (inBatch : Bool) (tpi : ProcessingInfo I K T) (subscriber : I × SubscriberAnswer) : ProcessingInfo I K T :=
  if inBatch then tpi
  else
    let asked := { tpi with
      needNewValue := subscriber.2.needNewValue
      needOldValue := subscriber.2.needOldValue }
    match subscriber.2.action with
    | .noSend => asked
    | .send | .sendNoBatch => { asked with insert := tpi.insert ++ [subscriber.1] }
    | .sendUpdate => { asked with update := tpi.update ++ [subscriber.1] }

/-- The tuple is merged into the info that the batch has for its key, or gets a new one, and every subscriber is asked
in the order of the ids. -/
def doProcess (mergeTupleInto : T → T → Option T) (found : Option (ProcessingInfo I K T)) (key : K)
    (input : CubeInput I T) : Option (ProcessingInfo I K T × Bool) :=
  let tpi := found.elim (some (new input.t key input.levels)) fun tpi =>
    (mergeTupleInto tpi.t input.t).map fun merged => { tpi with t := merged }
  tpi.map fun tpi => (input.answers.entries.foldl (ask found.isSome) tpi,
    canBatch (input.answers.entries.map fun subscriber => subscriber.2.action))

/-- The first tuple of a key gets a new info, and the later ones find it in the batch. -/
def coalesce (mergeTupleInto : T → T → Option T) (key : K) (first : CubeInput I T) (later : List (CubeInput I T)) :
    Option (ProcessingInfo I K T) :=
  (doProcess mergeTupleInto none key first).bind fun started =>
    later.foldlM (fun tpi input => (doProcess mergeTupleInto (some tpi) key input).map Prod.fst) started.1

omit [LinearOrder I] in
/-- The listed subscribers that the cube still has are called, first for the insert and then for the update. -/
def saveCallback (subscribers : I → Bool) (tpi : ProcessingInfo I K T) (newTuple oldTuple : Option T) :
    List (SubscriberCallback I T) :=
  (tpi.insert.filter subscribers).map (fun id => .insertCallback id tpi.t newTuple) ++
    (tpi.update.filter subscribers).map fun id => .updateCallback id tpi.t newTuple oldTuple

/-- The subscriber gave such an answer on some tuple. -/
def Answered (inputs : List (CubeInput I T)) (id : I) (such : SubscriberAnswer → Prop) : Prop :=
  ∃ input ∈ inputs, ∃ answer, (id, answer) ∈ input.answers.entries ∧ such answer

/-- The info serves every subscriber when it reads each value that one asked for on some tuple, and lists and calls each
one that some tuple was for. -/
structure ServesAll (inputs : List (CubeInput I T)) (tpi : ProcessingInfo I K T) : Prop where
  newValue : tpi.needNewValue = true ↔ ∃ id, Answered inputs id fun answer => answer.needNewValue = true
  oldValue : tpi.needOldValue = true ↔ ∃ id, Answered inputs id fun answer => answer.needOldValue = true
  insert : ∀ id, Answered inputs id SubscriberAnswer.Inserts → id ∈ tpi.insert
  update : ∀ id, Answered inputs id SubscriberAnswer.Updates → id ∈ tpi.update
  insertCallback : ∀ subscribers newTuple oldTuple id, subscribers id = true →
    Answered inputs id SubscriberAnswer.Inserts →
      .insertCallback id tpi.t newTuple ∈ tpi.saveCallback subscribers newTuple oldTuple
  updateCallback : ∀ subscribers newTuple oldTuple id, subscribers id = true →
    Answered inputs id SubscriberAnswer.Updates →
      .updateCallback id tpi.t newTuple oldTuple ∈ tpi.saveCallback subscribers newTuple oldTuple

/-- The first tuple decides when its last answer asks for each value that any answer asks for, and when each later
tuple is only for subscribers that the first one was for. -/
structure FirstDecides (first : CubeInput I T) (later : List (CubeInput I T)) : Prop where
  newValue : (∃ id, Answered (first :: later) id fun answer => answer.needNewValue = true) →
    ∃ last ∈ first.answers.entries.getLast?, last.2.needNewValue = true
  oldValue : (∃ id, Answered (first :: later) id fun answer => answer.needOldValue = true) →
    ∃ last ∈ first.answers.entries.getLast?, last.2.needOldValue = true
  insert : ∀ id, Answered later id SubscriberAnswer.Inserts → Answered [first] id SubscriberAnswer.Inserts
  update : ∀ id, Answered later id SubscriberAnswer.Updates → Answered [first] id SubscriberAnswer.Updates

section Ask

omit [LinearOrder I]

variable (tpi : ProcessingInfo I K T) (entries : List (I × SubscriberAnswer))

/-- A tuple whose key is in the batch changes no list and no flag. -/
theorem foldl_ask_true : entries.foldl (ask true) tpi = tpi := by
  induction entries with
  | nil => rfl
  | cons subscriber entries ih => exact ih

/-- An answer lists its own subscriber when it is for that list. -/
theorem mem_ask (subscriber : I × SubscriberAnswer) (id : I) :
    (id ∈ (ask false tpi subscriber).insert ↔ id ∈ tpi.insert ∨ id = subscriber.1 ∧ subscriber.2.Inserts) ∧
    (id ∈ (ask false tpi subscriber).update ↔ id ∈ tpi.update ∨ id = subscriber.1 ∧ subscriber.2.Updates) := by
  obtain ⟨other, action, needNewValue, needOldValue⟩ := subscriber
  cases action <;> simp [ask, SubscriberAnswer.Inserts, SubscriberAnswer.Updates]

/-- The lists grow by the subscribers that answered for them. -/
theorem mem_foldl_ask (id : I) :
    (id ∈ (entries.foldl (ask false) tpi).insert ↔
      id ∈ tpi.insert ∨ ∃ answer, (id, answer) ∈ entries ∧ answer.Inserts) ∧
    (id ∈ (entries.foldl (ask false) tpi).update ↔
      id ∈ tpi.update ∨ ∃ answer, (id, answer) ∈ entries ∧ answer.Updates) := by
  induction entries generalizing tpi with
  | nil => simp
  | cons subscriber entries ih =>
      have listed (such : SubscriberAnswer → Prop) : (∃ answer, (id, answer) ∈ subscriber :: entries ∧ such answer) ↔
          id = subscriber.1 ∧ such subscriber.2 ∨ ∃ answer, (id, answer) ∈ entries ∧ such answer := by
        simp only [List.mem_cons, or_and_right, exists_or, Prod.ext_iff]
        refine or_congr_left ⟨?_, ?_⟩
        · rintro ⟨answer, ⟨same, rfl⟩, holds⟩
          exact ⟨same, holds⟩
        · rintro ⟨same, holds⟩
          exact ⟨subscriber.2, ⟨same, rfl⟩, holds⟩
      rw [List.foldl_cons, (ih _).1, (ih _).2, (mem_ask tpi subscriber id).1, (mem_ask tpi subscriber id).2, listed,
        listed, or_assoc, or_assoc]
      exact ⟨Iff.rfl, Iff.rfl⟩

/-- The flags are those of the last answer. -/
theorem need_foldl_ask :
    (entries.foldl (ask false) tpi).needNewValue =
      (entries.getLast?.elim tpi.needNewValue fun last => last.2.needNewValue) ∧
    (entries.foldl (ask false) tpi).needOldValue =
      (entries.getLast?.elim tpi.needOldValue fun last => last.2.needOldValue) := by
  cases entries using List.reverseRecOn with
  | nil => exact ⟨rfl, rfl⟩
  | append_singleton entries last =>
      obtain ⟨id, action, needNewValue, needOldValue⟩ := last
      rw [List.foldl_append, List.getLast?_concat, List.foldl_cons, List.foldl_nil]
      cases action <;> exact ⟨rfl, rfl⟩

end Ask

section Coalesce

variable {mergeTupleInto : T → T → Option T} {key : K} {first : CubeInput I T} {later : List (CubeInput I T)}
  {tpi : ProcessingInfo I K T}

/-- A later tuple of the key only changes the tuple of the info. -/
theorem doProcess_found (found : ProcessingInfo I K T) (input : CubeInput I T) :
    (doProcess mergeTupleInto (some found) key input).map Prod.fst =
      (mergeTupleInto found.t input.t).map fun merged => { found with t := merged } := by
  rw [doProcess, Option.map_map, Option.elim_some, Option.map_map]
  congr 1
  funext merged
  exact foldl_ask_true _ _

/-- Later tuples of the key keep the lists and the flags. -/
theorem foldlM_doProcess_found {started : ProcessingInfo I K T}
    (ran : later.foldlM (fun tpi input => (doProcess mergeTupleInto (some tpi) key input).map Prod.fst) started =
      some tpi) : tpi = { started with t := tpi.t } := by
  induction later generalizing started with
  | nil =>
      obtain rfl := Option.some.inj ran
      rfl
  | cons input later ih =>
      rw [List.foldlM_cons, doProcess_found] at ran
      obtain ⟨merged, found, rest⟩ := Option.bind_eq_some_iff.mp ran
      obtain ⟨t, -, rfl⟩ := Option.map_eq_some_iff.mp found
      have kept := ih rest
      exact kept

/-- The lists and the flags of a coalesced info come from the answers to the first tuple. -/
theorem coalesce_eq (coalesced : coalesce mergeTupleInto key first later = some tpi) :
    tpi = { first.answers.entries.foldl (ask false) (new first.t key first.levels) with t := tpi.t } :=
  foldlM_doProcess_found coalesced

/-- A coalesced info lists the subscribers that the first tuple was for. -/
theorem mem_coalesce (coalesced : coalesce mergeTupleInto key first later = some tpi) (id : I) :
    (id ∈ tpi.insert ↔ Answered [first] id SubscriberAnswer.Inserts) ∧
    (id ∈ tpi.update ↔ Answered [first] id SubscriberAnswer.Updates) := by
  have listed := mem_foldl_ask (new first.t key first.levels) first.answers.entries id
  rw [coalesce_eq coalesced]
  simpa [Answered, new] using listed

/-- A coalesced info has the flags of the last answer to the first tuple. -/
theorem need_coalesce (coalesced : coalesce mergeTupleInto key first later = some tpi) :
    (tpi.needNewValue = true ↔ ∃ last ∈ first.answers.entries.getLast?, last.2.needNewValue = true) ∧
    (tpi.needOldValue = true ↔ ∃ last ∈ first.answers.entries.getLast?, last.2.needOldValue = true) := by
  have flags := need_foldl_ask (new first.t key first.levels) first.answers.entries
  rw [coalesce_eq coalesced]
  dsimp only
  rw [flags.1, flags.2]
  cases first.answers.entries.getLast? with
  | none => simp [new]
  | some last => simp

theorem answered_cons (input : CubeInput I T) (inputs : List (CubeInput I T)) (id : I)
    (such : SubscriberAnswer → Prop) :
    Answered (input :: inputs) id such ↔ Answered [input] id such ∨ Answered inputs id such := by
  simp [Answered]

/-- The last answer is an answer to its tuple. -/
theorem answered_of_mem_getLast? (such : SubscriberAnswer → Prop)
    (found : ∃ last ∈ first.answers.entries.getLast?, such last.2) : ∃ id, Answered (first :: later) id such := by
  obtain ⟨last, member, holds⟩ := found
  exact ⟨last.1, first, List.mem_cons_self, last.2, List.mem_of_getLast? member, holds⟩

end Coalesce

section Callback

omit [LinearOrder I]

variable {tpi : ProcessingInfo I K T} {subscribers : I → Bool} {newTuple oldTuple : Option T} {id : I}

/-- A listed subscriber that the cube still has is called. -/
theorem insertCallback_mem_saveCallback :
    .insertCallback id tpi.t newTuple ∈ tpi.saveCallback subscribers newTuple oldTuple ↔
      id ∈ tpi.insert ∧ subscribers id = true := by
  simp [saveCallback]

theorem updateCallback_mem_saveCallback :
    .updateCallback id tpi.t newTuple oldTuple ∈ tpi.saveCallback subscribers newTuple oldTuple ↔
      id ∈ tpi.update ∧ subscribers id = true := by
  simp [saveCallback]

end Callback

/-- The coalesced tuples of a key serve every subscriber exactly when the first one decides. -/
theorem servesAll_iff_firstDecides {mergeTupleInto : T → T → Option T} {key : K} {first : CubeInput I T}
    {later : List (CubeInput I T)} {tpi : ProcessingInfo I K T}
    (coalesced : coalesce mergeTupleInto key first later = some tpi) :
    ServesAll (first :: later) tpi ↔ FirstDecides first later := by
  have listed := mem_coalesce coalesced
  obtain ⟨newValue, oldValue⟩ := need_coalesce coalesced
  constructor
  · intro serves
    refine ⟨fun asked => newValue.mp (serves.newValue.mpr asked), fun asked => oldValue.mp (serves.oldValue.mpr asked),
      fun id answered => ?_, fun id answered => ?_⟩
    · exact (listed id).1.mp (serves.insert id ((answered_cons first later id _).mpr (.inr answered)))
    · exact (listed id).2.mp (serves.update id ((answered_cons first later id _).mpr (.inr answered)))
  · intro decides
    have insert (id : I) (answered : Answered (first :: later) id SubscriberAnswer.Inserts) : id ∈ tpi.insert := by
      rcases (answered_cons first later id _).mp answered with answered | answered
      · exact (listed id).1.mpr answered
      · exact (listed id).1.mpr (decides.insert id answered)
    have update (id : I) (answered : Answered (first :: later) id SubscriberAnswer.Updates) : id ∈ tpi.update := by
      rcases (answered_cons first later id _).mp answered with answered | answered
      · exact (listed id).2.mpr answered
      · exact (listed id).2.mpr (decides.update id answered)
    exact {
      newValue := newValue.trans ⟨answered_of_mem_getLast? fun answer => answer.needNewValue = true, decides.newValue⟩
      oldValue := oldValue.trans ⟨answered_of_mem_getLast? fun answer => answer.needOldValue = true, decides.oldValue⟩
      insert := insert
      update := update
      insertCallback := fun _ _ _ id present answered => insertCallback_mem_saveCallback.mpr ⟨insert id answered, present⟩
      updateCallback := fun _ _ _ id present answered =>
        updateCallback_mem_saveCallback.mpr ⟨update id answered, present⟩ }

/-- Here both subscribers are sent every tuple and ask for the value that it leaves. -/
def agreeing : CubeInput ℕ (Tuple ℚ) :=
  ⟨⟨[{ iVal := some 2 }]⟩, [], ⟨[(1, ⟨.send, true, false⟩), (2, ⟨.sendUpdate, true, true⟩)], by decide⟩⟩

/-- The law applies to two tuples of one key whose subscribers agree. -/
theorem servesAll_agreeing :
    ∃ tpi : ProcessingInfo ℕ ℕ (Tuple ℚ), tpi = ⟨⟨[{ iVal := some 4 }]⟩, 0, [], [1], [2], true, true⟩ ∧
      (ServesAll [agreeing, agreeing] tpi ↔ FirstDecides agreeing [agreeing]) :=
  ⟨_, rfl, servesAll_iff_firstDecides
    (show coalesce (mergeTupleInto [.count 0]) 0 agreeing [agreeing] =
      some ⟨⟨[{ iVal := some 4 }]⟩, 0, [], [1], [2], true, true⟩ from rfl)⟩

/-- Here a queue subscriber asks for both values, and the filter subscriber after it asks for none. -/
def queueBeforeFilter : CubeInput ℕ (Tuple ℚ) :=
  ⟨⟨[{ iVal := some 2 }]⟩, [], ⟨[(1, ⟨.send, true, true⟩), (2, ⟨.noSend, false, false⟩)], by decide⟩⟩

/-- The queue subscriber is called without the new value that it has asked for. -/
theorem not_servesAll_queueBeforeFilter : ∃ tpi : ProcessingInfo ℕ ℕ (Tuple ℚ),
    coalesce (mergeTupleInto [.count 0]) 0 queueBeforeFilter [] = some tpi ∧
      tpi.insert = [1] ∧ tpi.needNewValue = false ∧ ¬ ServesAll [queueBeforeFilter] tpi := by
  refine ⟨⟨⟨[{ iVal := some 2 }]⟩, 0, [], [1], [], false, false⟩, rfl, rfl, rfl, fun serves => ?_⟩
  have asked : Answered [queueBeforeFilter] 1 fun answer => answer.needNewValue = true :=
    ⟨queueBeforeFilter, List.mem_singleton.mpr rfl, ⟨.send, true, true⟩, List.mem_cons_self, rfl⟩
  exact Bool.false_ne_true (serves.newValue.mpr ⟨1, asked⟩)

end ProcessingInfo

end JetStream
