import Mathlib.Data.List.Nodup
import JetStream.Lib.OrderedMap

namespace JetStream

/-- The processing info of a key holds the input tuples that have been merged into its tuple. -/
structure TupleProcessingInfo (K V : Type) where
  key : K
  inputs : List V
  deriving DecidableEq, Repr

/-- The batch stores tuples by position, finds positions by key and remembers removed positions. -/
structure TupleBatch (K V : Type) [LinearOrder K] where
  tpiStore : List (TupleProcessingInfo K V)
  lookup : OrderedMap K ℕ
  holes : List ℕ

/-- The tuples that the cube has saved are kept in order beside the batch. -/
structure BatchState (K V : Type) [LinearOrder K] where
  batch : TupleBatch K V
  saved : List (TupleProcessingInfo K V)

/-- An operation brings one tuple of a key and the batch flag that the subscribers chose for it. -/
structure BatchOp (K V : Type) where
  key : K
  input : V
  canBatch : Bool

variable {K V : Type} [LinearOrder K]

def TupleProcessingInfo.mergeTupleInto (tpi : TupleProcessingInfo K V) (input : V) : TupleProcessingInfo K V :=
  { tpi with inputs := tpi.inputs ++ [input] }

namespace TupleBatch

def new : TupleBatch K V := ⟨[], OrderedMap.empty, []⟩

def contains (batch : TupleBatch K V) (key : K) : Bool := (batch.lookup.get? key).isSome

def get (batch : TupleBatch K V) (key : K) : Option (TupleProcessingInfo K V) :=
  (batch.lookup.get? key).bind fun pos => batch.tpiStore[pos]?

def size (batch : TupleBatch K V) : ℕ := batch.tpiStore.length - batch.holes.length

def isEmpty (batch : TupleBatch K V) : Bool := batch.size = 0

def batchSet (batch : TupleBatch K V) (tpi : TupleProcessingInfo K V) (pos : ℕ) : TupleBatch K V :=
  { batch with tpiStore := batch.tpiStore.set pos tpi, lookup := batch.lookup.set tpi.key pos }

/-- A new key takes the oldest hole or a new position. -/
def batchAdd (batch : TupleBatch K V) (tpi : TupleProcessingInfo K V) : TupleBatch K V :=
  match batch.holes with
  | pos :: holes => { batch with holes := holes }.batchSet tpi pos
  | [] => { batch with
      tpiStore := batch.tpiStore ++ [tpi]
      lookup := batch.lookup.set tpi.key batch.tpiStore.length }

/-- A removed position becomes a hole and keeps its tuple and its key. -/
def removeTuple (batch : TupleBatch K V) (pos : ℕ) : TupleBatch K V := { batch with holes := batch.holes ++ [pos] }

/-- The lookup of a key that is not there adds it with position zero. -/
def lookupPos (batch : TupleBatch K V) (key : K) : ℕ × TupleBatch K V :=
  match batch.lookup.get? key with
  | some pos => (pos, batch)
  | none => (0, { batch with lookup := batch.lookup.set key 0 })

end TupleBatch

namespace BatchState

def new : BatchState K V := ⟨TupleBatch.new, []⟩

def saveTuple (state : BatchState K V) (tpi : TupleProcessingInfo K V) : BatchState K V :=
  { state with saved := state.saved ++ [tpi] }

def insertTuple (state : BatchState K V) (tpi : TupleProcessingInfo K V) (canBatch : Bool) : BatchState K V :=
  if canBatch then { state with batch := state.batch.batchAdd tpi } else state.saveTuple tpi

def updateBatchedTuple (state : BatchState K V) (tpi : TupleProcessingInfo K V) (canBatch : Bool) :
    BatchState K V :=
  let (pos, batch) := state.batch.lookupPos tpi.key
  if canBatch then { state with batch := batch.batchSet tpi pos }
  else { state with batch := batch.removeTuple pos }.saveTuple tpi

/-- A tuple whose key is found is merged in place into the stored one. -/
def doProcess (state : BatchState K V) (op : BatchOp K V) : Option (BatchState K V) :=
  if state.batch.contains op.key then do
    let pos ← state.batch.lookup.get? op.key
    let tpi ← state.batch.get op.key
    let merged := tpi.mergeTupleInto op.input
    let batch := { state.batch with tpiStore := state.batch.tpiStore.set pos merged }
    some ({ state with batch := batch }.updateBatchedTuple merged op.canBatch)
  else some (state.insertTuple ⟨op.key, [op.input]⟩ op.canBatch)

/-- The holes are erased in the order of their removal and the rest is saved in the order of the keys. -/
def flush (state : BatchState K V) : Option (BatchState K V) := do
  let store ← state.batch.holes.foldlM (fun (store : List (TupleProcessingInfo K V)) hole =>
    if hole < store.length then some (store.eraseIdx hole) else none) state.batch.tpiStore
  let tuples ← state.batch.lookup.entries.mapM fun entry => store[entry.2]?
  some ⟨TupleBatch.new, state.saved ++ tuples⟩

def run (ops : List (BatchOp K V)) : Option (BatchState K V) := ops.foldlM doProcess new

end BatchState

/-- The ledger says what a batch is for: it collects the inputs of each pending key and saves each one once. -/
structure Ledger (K V : Type) where
  pending : List (TupleProcessingInfo K V)
  saved : List (TupleProcessingInfo K V)

namespace Ledger

/-- A pending key collects its input or is saved with it. -/
def process (ledger : Ledger K V) (op : BatchOp K V) : Ledger K V :=
  match ledger.pending.find? fun tpi => tpi.key = op.key with
  | none =>
      if op.canBatch then { ledger with pending := ledger.pending ++ [⟨op.key, [op.input]⟩] }
      else { ledger with saved := ledger.saved ++ [⟨op.key, [op.input]⟩] }
  | some tpi =>
      if op.canBatch then { ledger with pending := ledger.pending.map fun other =>
        if other.key = op.key then other.mergeTupleInto op.input else other }
      else {
        pending := ledger.pending.filter fun other => other.key ≠ op.key
        saved := ledger.saved ++ [tpi.mergeTupleInto op.input] }

def run (ops : List (BatchOp K V)) : Ledger K V := ops.foldl process ⟨[], []⟩

end Ledger

/-- The lookup is a bijection between the pending keys and the positions that are not holes. -/
structure Aligned (batch : TupleBatch K V) (pending : List (TupleProcessingInfo K V)) : Prop where
  keys : ∀ key, batch.contains key = true ↔ ∃ tpi ∈ pending, tpi.key = key
  position : ∀ key pos, batch.lookup.get? key = some pos →
    pos ∉ batch.holes ∧ ∃ tpi ∈ pending, tpi.key = key ∧ batch.tpiStore[pos]? = some tpi
  injective : ∀ key key' pos, batch.lookup.get? key = some pos → batch.lookup.get? key' = some pos → key = key'
  onto : ∀ pos < batch.tpiStore.length, pos ∉ batch.holes → ∃ key, batch.lookup.get? key = some pos
  size : batch.size = pending.length

/-- These are the inputs that a list of saved tuples accounts for, each under the key it was saved with. -/
def contributions (saved : List (TupleProcessingInfo K V)) : List (K × V) :=
  saved.flatMap fun tpi => tpi.inputs.map fun input => (tpi.key, input)

/-- The batch stays aligned after every step, and the flush leaves every input saved exactly once. -/
def ExactlyOnce (ops : List (BatchOp K V)) : Prop :=
  (∀ n ≤ ops.length, ∃ state, BatchState.run (ops.take n) = some state ∧
    Aligned state.batch (Ledger.run (ops.take n)).pending) ∧
  ∃ state flushed, BatchState.run ops = some state ∧ state.flush = some flushed ∧
    (contributions flushed.saved).Perm (ops.map fun op => (op.key, op.input))

/-- Once a key has been batched, its later tuples are batched too. -/
def StaysBatched (ops : List (BatchOp K V)) : Prop :=
  ops.Pairwise fun earlier later => earlier.key = later.key → earlier.canBatch = true → later.canBatch = true

/-- Without holes the store is the pending list and the lookup returns the position of each key. -/
structure Mirrors (state : BatchState K V) (ledger : Ledger K V) : Prop where
  holes : state.batch.holes = []
  store : state.batch.tpiStore = ledger.pending
  lookup : ∀ key pos, state.batch.lookup.get? key = some pos ↔
    ∃ tpi, ledger.pending[pos]? = some tpi ∧ tpi.key = key
  saved : state.saved = ledger.saved

section Mirrors

variable {state : BatchState K V} {ledger : Ledger K V} {op : BatchOp K V}

theorem Mirrors.contains_iff (mirrors : Mirrors state ledger) (key : K) :
    state.batch.contains key = true ↔ ∃ tpi ∈ ledger.pending, tpi.key = key := by
  rw [TupleBatch.contains, Option.isSome_iff_exists]
  constructor
  · rintro ⟨pos, found⟩
    obtain ⟨tpi, stored, same⟩ := (mirrors.lookup key pos).mp found
    exact ⟨tpi, List.mem_of_getElem? stored, same⟩
  · rintro ⟨tpi, member, same⟩
    obtain ⟨pos, stored⟩ := List.mem_iff_getElem?.mp member
    exact ⟨pos, (mirrors.lookup key pos).mpr ⟨tpi, stored, same⟩⟩

/-- A key has one position in the pending list. -/
theorem Mirrors.position_unique (mirrors : Mirrors state ledger) {pos pos' : ℕ} {tpi tpi' : TupleProcessingInfo K V}
    (first : ledger.pending[pos]? = some tpi) (second : ledger.pending[pos']? = some tpi')
    (same : tpi.key = tpi'.key) : pos = pos' := by
  have left := (mirrors.lookup tpi'.key pos).mpr ⟨tpi, first, same⟩
  have right := (mirrors.lookup tpi'.key pos').mpr ⟨tpi', second, rfl⟩
  exact Option.some.inj (left.symm.trans right)

theorem Mirrors.aligned (mirrors : Mirrors state ledger) : Aligned state.batch ledger.pending where
  keys := mirrors.contains_iff
  position := by
    intro key pos found
    obtain ⟨tpi, stored, same⟩ := (mirrors.lookup key pos).mp found
    rw [mirrors.holes, mirrors.store]
    exact ⟨List.not_mem_nil, tpi, List.mem_of_getElem? stored, same, stored⟩
  injective := by
    intro key key' pos first second
    obtain ⟨tpi, stored, rfl⟩ := (mirrors.lookup key pos).mp first
    obtain ⟨tpi', stored', rfl⟩ := (mirrors.lookup key' pos).mp second
    rw [Option.some.inj (stored.symm.trans stored')]
  onto := by
    intro pos inside _
    rw [mirrors.store] at inside
    exact ⟨_, (mirrors.lookup _ pos).mpr ⟨_, List.getElem?_eq_getElem inside, rfl⟩⟩
  size := by
    rw [TupleBatch.size, mirrors.holes, mirrors.store]
    rfl

theorem mirrors_new : Mirrors (BatchState.new : BatchState K V) ⟨[], []⟩ where
  holes := rfl
  store := rfl
  lookup := by
    intro key pos
    simp [BatchState.new, TupleBatch.new]
  saved := rfl

/-- A new key is appended or saved at once. -/
theorem Mirrors.insert (mirrors : Mirrors state ledger) (fresh : ¬ ∃ tpi ∈ ledger.pending, tpi.key = op.key) :
    ∃ next, state.doProcess op = some next ∧ Mirrors next (ledger.process op) := by
  have absent : state.batch.contains op.key ≠ true := mt (mirrors.contains_iff op.key).mp fresh
  have unseen : ledger.pending.find? (fun tpi => tpi.key = op.key) = none := by
    rw [List.find?_eq_none]
    intro tpi member same
    exact fresh ⟨tpi, member, by simpa using same⟩
  refine ⟨_, if_neg absent, ?_⟩
  rw [Ledger.process, unseen]
  cases flag : op.canBatch with
  | false =>
      simp only [BatchState.insertTuple, Bool.false_eq_true, if_false, BatchState.saveTuple]
      exact ⟨mirrors.holes, mirrors.store, mirrors.lookup, by rw [mirrors.saved]⟩
  | true =>
      simp only [BatchState.insertTuple, if_true, TupleBatch.batchAdd, mirrors.holes]
      refine ⟨rfl, by rw [mirrors.store], ?_, mirrors.saved⟩
      intro key pos
      dsimp only
      rw [OrderedMap.get?_set, mirrors.store, List.getElem?_append]
      by_cases same : key = op.key
      · rw [if_pos same, Option.some_inj]
        constructor
        · rintro rfl
          exact ⟨⟨op.key, [op.input]⟩, by simp, same.symm⟩
        · rintro ⟨tpi, stored, found⟩
          by_cases inside : pos < ledger.pending.length
          · rw [if_pos inside] at stored
            exact absurd ⟨tpi, List.mem_of_getElem? stored, found.trans same⟩ fresh
          · rw [if_neg inside, List.getElem?_singleton, Option.ite_none_right_eq_some] at stored
            omega
      · rw [if_neg same, mirrors.lookup]
        constructor
        · rintro ⟨tpi, stored, found⟩
          have inside := (List.getElem?_eq_some_iff.mp stored).1
          exact ⟨tpi, by rw [if_pos inside]; exact stored, found⟩
        · rintro ⟨tpi, stored, found⟩
          by_cases inside : pos < ledger.pending.length
          · rw [if_pos inside] at stored
            exact ⟨tpi, stored, found⟩
          · rw [if_neg inside, List.getElem?_singleton, Option.ite_none_right_eq_some, Option.some_inj] at stored
            rw [← stored.2] at found
            exact absurd found.symm same

/-- A pending key is found at its position. -/
theorem Mirrors.pending_position (mirrors : Mirrors state ledger) {tpi : TupleProcessingInfo K V}
    (member : tpi ∈ ledger.pending) :
    ∃ pos, ledger.pending[pos]? = some tpi ∧ state.batch.lookup.get? tpi.key = some pos ∧
      state.batch.get tpi.key = some tpi ∧ ledger.pending.find? (fun other => other.key = tpi.key) = some tpi := by
  obtain ⟨pos, stored⟩ := List.mem_iff_getElem?.mp member
  have found := (mirrors.lookup tpi.key pos).mpr ⟨tpi, stored, rfl⟩
  refine ⟨pos, stored, found, by rw [TupleBatch.get, found, mirrors.store]; exact stored, ?_⟩
  cases search : ledger.pending.find? (fun other => other.key = tpi.key) with
  | none => exact absurd (List.find?_eq_none.mp search tpi member) (by simp)
  | some other =>
      obtain ⟨pos', stored'⟩ := List.mem_iff_getElem?.mp (List.mem_of_find?_eq_some search)
      have key : other.key = tpi.key := by simpa using List.find?_some search
      have same := mirrors.position_unique stored' stored key
      rw [same] at stored'
      rw [Option.some.inj (stored'.symm.trans stored)]

/-- The store changes at the one position of the key. -/
theorem Mirrors.set_eq_map (mirrors : Mirrors state ledger) {tpi : TupleProcessingInfo K V} {pos : ℕ} (input : V)
    (stored : ledger.pending[pos]? = some tpi) :
    ledger.pending.set pos (tpi.mergeTupleInto input) =
      ledger.pending.map fun other => if other.key = tpi.key then other.mergeTupleInto input else other := by
  apply List.ext_getElem?
  intro i
  rw [List.getElem?_map, List.getElem?_set]
  by_cases here : pos = i
  · subst here
    have inside := (List.getElem?_eq_some_iff.mp stored).1
    rw [if_pos rfl, if_pos inside, stored, Option.map_some, if_pos rfl]
  · rw [if_neg here]
    cases found : ledger.pending[i]? with
    | none => rfl
    | some other =>
        have different : other.key ≠ tpi.key := fun same => here (mirrors.position_unique found stored same).symm
        rw [Option.map_some, if_neg different]

/-- A batched update merges in place. -/
theorem Mirrors.update (mirrors : Mirrors state ledger) {tpi : TupleProcessingInfo K V}
    (member : tpi ∈ ledger.pending) (same : tpi.key = op.key) (flag : op.canBatch = true) :
    ∃ next, state.doProcess op = some next ∧ Mirrors next (ledger.process op) := by
  obtain ⟨pos, stored, found, got, search⟩ := mirrors.pending_position member
  have present : state.batch.contains op.key = true := (mirrors.contains_iff op.key).mpr ⟨tpi, member, same⟩
  rw [same] at found got search
  have key : (tpi.mergeTupleInto op.input).key = op.key := same
  have step : state.doProcess op = some { state with batch := { state.batch with
      tpiStore := ledger.pending.set pos (tpi.mergeTupleInto op.input)
      lookup := state.batch.lookup.set op.key pos } } := by
    rw [BatchState.doProcess, if_pos present, found, got]
    simp only [Option.bind_eq_bind, Option.bind_some, BatchState.updateBatchedTuple, TupleBatch.lookupPos, key, found,
      flag, if_true, TupleBatch.batchSet, mirrors.store, List.set_set]
  refine ⟨_, step, ?_⟩
  rw [Ledger.process, search]
  simp only [flag, if_true]
  refine ⟨mirrors.holes, ?_, ?_, mirrors.saved⟩
  · rw [← same]
    exact mirrors.set_eq_map op.input stored
  · intro other i
    have unchanged : (if other = op.key then some pos else state.batch.lookup.get? other) =
        state.batch.lookup.get? other := by
      by_cases here : other = op.key
      · rw [if_pos here, here, found]
      · rw [if_neg here]
    dsimp only
    rw [OrderedMap.get?_set, unchanged, mirrors.lookup, List.getElem?_map]
    cases pending : ledger.pending[i]? with
    | none => simp
    | some tpi' =>
        rw [Option.map_some]
        simp only [Option.some_inj, exists_eq_left']
        rw [apply_ite TupleProcessingInfo.key, TupleProcessingInfo.mergeTupleInto, ite_self]

/-- An update that is not batched leaves its key in the lookup. -/
theorem Mirrors.unbatch (mirrors : Mirrors state ledger) {tpi : TupleProcessingInfo K V}
    (member : tpi ∈ ledger.pending) (same : tpi.key = op.key) (flag : op.canBatch = false) :
    ∃ next, state.doProcess op = some next ∧ ¬ Aligned next.batch (ledger.process op).pending := by
  obtain ⟨pos, stored, found, got, search⟩ := mirrors.pending_position member
  have present : state.batch.contains op.key = true := (mirrors.contains_iff op.key).mpr ⟨tpi, member, same⟩
  rw [same] at found got search
  have key : (tpi.mergeTupleInto op.input).key = op.key := same
  have step : state.doProcess op = some (BatchState.saveTuple { state with batch := { state.batch with
      tpiStore := ledger.pending.set pos (tpi.mergeTupleInto op.input)
      holes := [pos] } } (tpi.mergeTupleInto op.input)) := by
    rw [BatchState.doProcess, if_pos present, found, got]
    simp only [Option.bind_eq_bind, Option.bind_some, BatchState.updateBatchedTuple, TupleBatch.lookupPos, key, found,
      flag, Bool.false_eq_true, if_false, TupleBatch.removeTuple, mirrors.store, mirrors.holes, List.nil_append]
  refine ⟨_, step, ?_⟩
  intro aligned
  obtain ⟨other, left, here⟩ := (aligned.keys op.key).mp present
  rw [Ledger.process, search] at left
  simp only [flag, Bool.false_eq_true, if_false, List.mem_filter, decide_eq_true_eq] at left
  exact left.2 here

end Mirrors

end JetStream
