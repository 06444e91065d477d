import Mathlib.Algebra.Field.Rat
import Mathlib.Data.List.Chain
import JetStream.Cube.Tuple

namespace JetStream

/-- The operator reads these elements of a tuple. -/
structure SeqToRatioConfig where
  totalField : ℕ
  respcodeField : ℕ
  urlField : ℕ

/-- The state holds the running total, the current URL and the remembered tuple. -/
structure SeqToRatio (D : Type) where
  totalVal : D
  curUrl : List Char
  targEl : Option (Tuple D)

namespace SeqToRatio

variable {D : Type} (ofInt : ℤ → D)

/-- An element without a double is read as an integer. -/
def numeric (e : Element D) : D :=
  match e.dVal with
  | some value => value
  | none => ofInt (e.iVal.getD 0)

variable [Zero D] [Add D] [Div D] (config : SeqToRatioConfig)

def new : SeqToRatio D := ⟨0, [], none⟩

/-- The URL of a tuple is empty when it has none. -/
def url (t : Tuple D) : Option (List Char) := t.e[config.urlField]?.map fun e => e.sVal.getD []

def respcode (t : Tuple D) : Option ℤ := t.e[config.respcodeField]?.map fun e => e.iVal.getD 0

def total (t : Tuple D) : Option D := t.e[config.totalField]?.map (numeric ofInt)

/-- The ratio is put at the end of the tuple. -/
def addRatio (t : Tuple D) (ratio : D) : Tuple D := ⟨t.e ++ [{ dVal := some ratio }]⟩

/-- A change of the URL gives out the remembered tuple with its ratio. -/
def emit (op : SeqToRatio D) : Option (Option (Tuple D)) :=
  match op.targEl with
  | none => some none
  | some targEl => (total ofInt config targEl).map fun value => some (addRatio targEl (value / op.totalVal))

/-- The tuple that is given out takes the place of the input before its total and response code are read, and reading
a missing element is not defined. -/
def processOne (op : SeqToRatio D) (t : Tuple D) : Option (SeqToRatio D × Option (Tuple D)) := do
  let url ← url config t
  let (op, emitted) ←
    if op.curUrl = [] then some ({ op with curUrl := url }, none)
    else if op.curUrl ≠ url then
      (emit ofInt config op).map fun emitted =>
        (⟨0, [], emitted⟩, emitted)
    else some (op, none)
  let t := emitted.getD t
  let value ← total ofInt config t
  let responseCode ← respcode config t
  some ({ op with
    totalVal := op.totalVal + value
    targEl := if responseCode = 200 ∨ op.targEl = none then some t else op.targEl }, emitted)

/-- A run gives the output and the running total of each step. -/
def run (op : SeqToRatio D) : List (Tuple D) → Option (List (Option (Tuple D) × D))
  | [] => some []
  | t :: rest => do
      let (next, emitted) ← processOne ofInt config op t
      let later ← run next rest
      some ((emitted, next.totalVal) :: later)

/-- A group has one URL and exactly one tuple with the response code 200. -/
structure UrlGroup where
  url : List Char
  before : List (Tuple D)
  hit : Tuple D
  after : List (Tuple D)
  sameUrl : ∀ t ∈ before ++ hit :: after, SeqToRatio.url config t = some url
  totals : ∀ t ∈ before ++ hit :: after, (total ofInt config t).isSome
  found : respcode config hit = some 200
  others : ∀ t ∈ before ++ after, ∃ code, respcode config t = some code ∧ code ≠ 200

variable {ofInt config}

namespace UrlGroup

variable (group : UrlGroup (D := D) ofInt config)

def tuples : List (Tuple D) := group.before ++ group.hit :: group.after

/-- This is the total of a tuple of the group. -/
def value (_ : UrlGroup (D := D) ofInt config) (t : Tuple D) : D := (total ofInt config t).getD 0

/-- The totals are added in their order. -/
def sum : D := group.tuples.foldl (fun sum t => sum + group.value t) 0

/-- The group is summed up by its tuple with the response code 200 and the ratio of that tuple's total. -/
def summary : Tuple D := addRatio group.hit (group.value group.hit / group.sum)

def first : Tuple D := group.before.headD group.hit

end UrlGroup

/-- Nothing is given out within a group, and each tuple is added to the group's total. -/
def expectedGroup (value : Tuple D → D) : Option (Tuple D) → D → List (Tuple D) → List (Option (Tuple D) × D)
  | _, _, [] => []
  | emitted, sum, t :: rest => (emitted, sum + value t) :: expectedGroup value none (sum + value t) rest

/-- A group gives out the summary of the group before it, and its totals are added from zero. -/
def expected : Option (Tuple D) → List (UrlGroup (D := D) ofInt config) → List (Option (Tuple D) × D)
  | _, [] => []
  | emitted, group :: rest => expectedGroup group.value emitted 0 group.tuples ++ expected (some group.summary) rest

section Step

variable {op : SeqToRatio D} {t targ : Tuple D}

omit [Zero D] [Add D] [Div D] in
/-- The elements of a tuple stay where they are when the ratio is added. -/
theorem getElem?_addRatio {i : ℕ} {e : Element D} (given : targ.e[i]? = some e) (ratio : D) :
    (addRatio targ ratio).e[i]? = some e := by
  obtain ⟨inside, rfl⟩ := List.getElem?_eq_some_iff.mp given
  rw [addRatio, List.getElem?_append_left inside, List.getElem?_eq_getElem inside]

omit [Zero D] [Add D] [Div D] in
theorem total_addRatio {value : D} (given : total ofInt config targ = some value) (ratio : D) :
    total ofInt config (addRatio targ ratio) = some value := by
  obtain ⟨e, found, read⟩ := Option.map_eq_some_iff.mp given
  rw [total, getElem?_addRatio found, Option.map_some, read]

omit [Zero D] [Add D] [Div D] in
theorem respcode_addRatio {code : ℤ} (given : respcode config targ = some code) (ratio : D) :
    respcode config (addRatio targ ratio) = some code := by
  obtain ⟨e, found, read⟩ := Option.map_eq_some_iff.mp given
  rw [respcode, getElem?_addRatio found, Option.map_some, read]

omit [Zero D] [Add D] [Div D] in
theorem url_addRatio {name : List Char} (given : url config targ = some name) (ratio : D) :
    url config (addRatio targ ratio) = some name := by
  obtain ⟨e, found, read⟩ := Option.map_eq_some_iff.mp given
  rw [url, getElem?_addRatio found, Option.map_some, read]

/-- A tuple with the current URL, or the first one after a change, is added and may be remembered. -/
theorem processOne_same {name : List Char} {value : D} {code : ℤ} (named : url config t = some name)
    (valued : total ofInt config t = some value) (coded : respcode config t = some code)
    (same : op.curUrl = [] ∨ op.curUrl = name) :
    processOne ofInt config op t = some (⟨op.totalVal + value, name,
      if code = 200 ∨ op.targEl = none then some t else op.targEl⟩, none) := by
  by_cases fresh : op.curUrl = []
  · simp [processOne, named, valued, coded, fresh]
  · obtain rfl := same.resolve_left fresh
    simp [processOne, named, valued, coded, fresh]

/-- A tuple with another URL gives out the remembered tuple, which is added in its place. -/
theorem processOne_change {name : List Char} {value : D} {code : ℤ} (named : url config t = some name)
    (remembered : op.targEl = some targ) (valued : total ofInt config targ = some value)
    (coded : respcode config targ = some code) (known : op.curUrl ≠ []) (other : op.curUrl ≠ name) :
    processOne ofInt config op t = some (⟨0 + value, [], some (addRatio targ (value / op.totalVal))⟩,
      some (addRatio targ (value / op.totalVal))) := by
  simp [processOne, named, known, other, emit, remembered, valued, total_addRatio valued, respcode_addRatio coded]

end Step

/-- A tuple with the response code 200 is remembered, and so is the first one of all. -/
def remembered (config : SeqToRatioConfig) (targEl : Option (Tuple D)) (tuples : List (Tuple D)) : Option (Tuple D) :=
  tuples.foldl (fun targEl t => if respcode config t = some 200 ∨ targEl = none then some t else targEl) targEl

omit [Zero D] [Add D] [Div D] in
theorem remembered_other {targ : Tuple D} {tuples : List (Tuple D)}
    (others : ∀ t ∈ tuples, ∃ code, respcode config t = some code ∧ code ≠ 200) :
    remembered config (some targ) tuples = some targ := by
  induction tuples with
  | nil => rfl
  | cons t rest ih =>
      obtain ⟨code, coded, different⟩ := others t List.mem_cons_self
      have kept : ¬ (respcode config t = some 200 ∨ some targ = none) := by simp [coded, different]
      rw [remembered, List.foldl_cons, if_neg kept]
      exact ih fun other member => others other (List.mem_cons_of_mem _ member)

omit [Zero D] [Add D] [Div D] in
theorem remembered_hit {targEl : Option (Tuple D)} {hit : Tuple D} (before : List (Tuple D)) {after : List (Tuple D)}
    (found : respcode config hit = some 200)
    (others : ∀ t ∈ after, ∃ code, respcode config t = some code ∧ code ≠ 200) :
    remembered config targEl (before ++ hit :: after) = some hit := by
  rw [remembered, List.foldl_append, List.foldl_cons, if_pos (Or.inl found)]
  exact remembered_other others

/-- Tuples with the current URL are added in turn and give nothing out. -/
theorem run_within {op : SeqToRatio D} {name : List Char} {tuples : List (Tuple D)} (more : List (Tuple D))
    (named : ∀ t ∈ tuples, url config t = some name) (totals : ∀ t ∈ tuples, (total ofInt config t).isSome)
    (codes : ∀ t ∈ tuples, (respcode config t).isSome) (same : op.curUrl = [] ∨ op.curUrl = name) :
    run ofInt config op (tuples ++ more) =
      (run ofInt config ⟨tuples.foldl (fun sum t => sum + (total ofInt config t).getD 0) op.totalVal,
          if tuples = [] then op.curUrl else name, remembered config op.targEl tuples⟩ more).map
        (expectedGroup (fun t => (total ofInt config t).getD 0) none op.totalVal tuples ++ ·) := by
  induction tuples generalizing op with
  | nil => cases run ofInt config op more <;> simp [remembered, expectedGroup, *]
  | cons t rest ih =>
      obtain ⟨value, valued⟩ := Option.isSome_iff_exists.mp (totals t List.mem_cons_self)
      obtain ⟨code, coded⟩ := Option.isSome_iff_exists.mp (codes t List.mem_cons_self)
      have step := processOne_same (named t List.mem_cons_self) valued coded same
      rw [List.cons_append, run, step]
      simp only [Option.bind_eq_bind, Option.bind_some]
      rw [ih (fun other member => named other (List.mem_cons_of_mem _ member))
        (fun other member => totals other (List.mem_cons_of_mem _ member))
        (fun other member => codes other (List.mem_cons_of_mem _ member)) (Or.inr rfl)]
      have keeps : remembered config (if code = 200 ∨ op.targEl = none then some t else op.targEl) rest =
          remembered config op.targEl (t :: rest) := by
        simp only [remembered, List.foldl_cons, coded, Option.some.injEq]
      simp only [keeps, List.foldl_cons, valued, Option.getD_some, ite_self, expectedGroup, reduceCtorEq, if_false]
      generalize run ofInt config _ more = later
      cases later <;> rfl

namespace UrlGroup

variable (group : UrlGroup (D := D) ofInt config)

/-- After a group that was counted in full, the operator holds its sum, its URL and its tuple to give out. -/
def counted : SeqToRatio D := ⟨group.sum, group.url, some group.hit⟩

/-- The tuple that begins the group is followed by these. -/
def later : List (Tuple D) := group.tuples.tail

omit [Zero D] [Add D] [Div D] in
theorem tuples_eq : group.tuples = group.first :: group.later := by
  rcases group with ⟨_, before, hit, after⟩
  cases before <;> rfl

omit [Zero D] [Add D] [Div D] in
theorem codes : ∀ t ∈ group.before ++ group.hit :: group.after, (respcode config t).isSome := by
  intro t member
  by_cases isHit : t = group.hit
  · rw [isHit, group.found]
    rfl
  · have elsewhere : t ∈ group.before ++ group.after := by simpa [isHit] using member
    obtain ⟨code, coded, -⟩ := group.others t elsewhere
    exact Option.isSome_iff_exists.mpr ⟨code, coded⟩

omit [Add D] [Div D] in
theorem total_eq {t : Tuple D} (member : t ∈ group.before ++ group.hit :: group.after) :
    total ofInt config t = some (group.value t) := by
  obtain ⟨sum, valued⟩ := Option.isSome_iff_exists.mp (group.totals t member)
  rw [UrlGroup.value, valued, Option.getD_some]

end UrlGroup

section Boundary

variable {group next : UrlGroup (D := D) ofInt config} {more : List (Tuple D)}

/-- The first group is counted in full. -/
theorem run_first (group : UrlGroup (D := D) ofInt config) (more : List (Tuple D)) :
    run ofInt config new (group.tuples ++ more) =
      (run ofInt config group.counted more).map (expectedGroup group.value none 0 group.tuples ++ ·) := by
  have nonempty : group.tuples ≠ [] := by simp [UrlGroup.tuples]
  have taken : remembered config none group.tuples = some group.hit :=
    remembered_hit group.before group.found fun t member => group.others t (List.mem_append_right _ member)
  have within := run_within more group.sameUrl group.totals group.codes
    (Or.inl rfl : (new : SeqToRatio D).curUrl = [] ∨ new.curUrl = group.url)
  rw [← UrlGroup.tuples, if_neg nonempty, show (new : SeqToRatio D).targEl = none from rfl, taken] at within
  exact within

/-- The tuple that begins a group gives out the summary of the group before, and the total of that group's tuple with
the response code 200 is added in its place. -/
theorem run_boundary (known : group.url ≠ []) (other : group.url ≠ next.url) :
    run ofInt config group.counted (next.tuples ++ more) =
      (run ofInt config ⟨0 + group.value group.hit, [], some group.summary⟩ (next.later ++ more)).map
        ((some group.summary, 0 + group.value group.hit) :: ·) := by
  have isFirst : next.first ∈ next.before ++ next.hit :: next.after := by
    rw [← UrlGroup.tuples, next.tuples_eq]
    exact List.mem_cons_self
  have isHit : group.hit ∈ group.before ++ group.hit :: group.after :=
    List.mem_append_right _ List.mem_cons_self
  have step : processOne ofInt config group.counted next.first =
      some (⟨0 + group.value group.hit, [], some group.summary⟩, some group.summary) :=
    processOne_change (next.sameUrl _ isFirst) rfl (group.total_eq isHit) group.found known other
  rw [next.tuples_eq, List.cons_append, run, step]
  simp only [Option.bind_eq_bind, Option.bind_some]
  generalize run ofInt config _ (next.later ++ more) = later
  cases later <;> rfl

omit [Zero D] [Add D] [Div D] in
theorem UrlGroup.mem_of_mem_later {t : Tuple D} (member : t ∈ next.later) :
    t ∈ next.before ++ next.hit :: next.after :=
  List.mem_of_mem_tail member

/-- The rest of the group is added to the same total. -/
theorem run_later (sum : D) (targEl : Option (Tuple D)) :
    run ofInt config ⟨sum, [], targEl⟩ (next.later ++ more) =
      (run ofInt config ⟨next.later.foldl (fun sum t => sum + next.value t) sum,
          if next.later = [] then [] else next.url, remembered config targEl next.later⟩ more).map
        (expectedGroup next.value none sum next.later ++ ·) :=
  run_within more (fun t member => next.sameUrl t (UrlGroup.mem_of_mem_later member))
    (fun t member => next.totals t (UrlGroup.mem_of_mem_later member))
    (fun t member => next.codes t (UrlGroup.mem_of_mem_later member)) (Or.inl rfl)

omit [Div D] in
theorem UrlGroup.sum_eq (next : UrlGroup (D := D) ofInt config) :
    next.sum = next.later.foldl (fun sum t => sum + next.value t) (0 + next.value next.first) := by
  rw [UrlGroup.sum, next.tuples_eq, List.foldl_cons]

omit [Div D] in
theorem expectedGroup_tuples (emitted : Option (Tuple D)) :
    expectedGroup next.value emitted 0 next.tuples =
      (emitted, 0 + next.value next.first) ::
        expectedGroup next.value none (0 + next.value next.first) next.later := by
  rw [next.tuples_eq, expectedGroup]

/-- A group is counted in full after another when its first tuple has the total that is added in its place, and is not
the one that has to be remembered. -/
theorem run_next (known : group.url ≠ []) (other : group.url ≠ next.url)
    (equal : 0 + next.value next.first = 0 + group.value group.hit) (kept : next.before ≠ []) :
    run ofInt config group.counted (next.tuples ++ more) =
      (run ofInt config next.counted more).map
        (expectedGroup next.value (some group.summary) 0 next.tuples ++ ·) := by
  obtain ⟨t, before, split⟩ := List.exists_cons_of_ne_nil kept
  have rest : next.later = before ++ next.hit :: next.after := by
    rw [UrlGroup.later, UrlGroup.tuples, split, List.cons_append, List.tail_cons]
  have nonempty : next.later ≠ [] := by simp [rest]
  have taken : remembered config (some group.summary) next.later = some next.hit := by
    rw [rest]
    exact remembered_hit before next.found fun t member => next.others t (List.mem_append_right _ member)
  rw [run_boundary known other, run_later, if_neg nonempty, taken, ← equal, ← next.sum_eq, expectedGroup_tuples,
    Option.map_map]
  rfl

/-- A tuple that is given out has the URL of the remembered one. -/
theorem url_emitted {op : SeqToRatio D} {t targ : Tuple D} {read name : List Char} {value held : D} {code kept : ℤ}
    (named : url config t = some read) (valued : total ofInt config t = some value)
    (coded : respcode config t = some code) (remembers : op.targEl = some targ) (targUrl : url config targ = some name)
    (targTotal : total ofInt config targ = some held) (targCode : respcode config targ = some kept) :
    ∃ after emitted, processOne ofInt config op t = some (after, emitted) ∧
      ∀ out ∈ emitted, url config out = some name := by
  by_cases same : op.curUrl = [] ∨ op.curUrl = read
  · exact ⟨_, _, processOne_same named valued coded same, by simp⟩
  · rw [not_or] at same
    refine ⟨_, _, processOne_change named remembers targTotal targCode same.1 same.2, ?_⟩
    rintro out ⟨rfl⟩
    exact url_addRatio targUrl _

/-- The summary of a group is not given out when the tuple of another URL is still remembered. -/
theorem run_forgotten {op : SeqToRatio D} {third : UrlGroup (D := D) ofInt config}
    {later : List (Option (Tuple D) × D)} (remembers : op.targEl = some group.summary)
    (other : group.url ≠ next.url) :
    run ofInt config op (third.tuples ++ more) ≠
      some (expectedGroup third.value (some next.summary) 0 third.tuples ++ later) := by
  intro given
  have isFirst : third.first ∈ third.before ++ third.hit :: third.after := by
    rw [← UrlGroup.tuples, third.tuples_eq]
    exact List.mem_cons_self
  have isHit (group : UrlGroup (D := D) ofInt config) : group.hit ∈ group.before ++ group.hit :: group.after :=
    List.mem_append_right _ List.mem_cons_self
  obtain ⟨code, coded⟩ := Option.isSome_iff_exists.mp (third.codes _ isFirst)
  obtain ⟨after, emitted, step, named⟩ := url_emitted (third.sameUrl _ isFirst) (third.total_eq isFirst) coded
    remembers (url_addRatio (group.sameUrl _ (isHit group)) _) (total_addRatio (group.total_eq (isHit group)) _)
    (respcode_addRatio group.found _)
  rw [third.tuples_eq, List.cons_append, run, step, expectedGroup, List.cons_append] at given
  simp only [Option.bind_eq_bind, Option.bind_some, Option.bind_eq_some_iff, Option.some.injEq, List.cons.injEq,
    Prod.mk.injEq] at given
  obtain ⟨-, -, ⟨rfl, -⟩, -⟩ := given
  have stale := named next.summary rfl
  rw [UrlGroup.summary, url_addRatio (next.sameUrl _ (isHit next)), Option.some.injEq] at stale
  exact other stale.symm

/-- The tuple that begins a group shows whether the operator knew the group before, and what was added in its place. -/
theorem boundary_of_run {later : List (Option (Tuple D) × D)} (other : group.url ≠ next.url)
    (given : run ofInt config group.counted (next.tuples ++ more) =
      some (expectedGroup next.value (some group.summary) 0 next.tuples ++ later)) :
    group.url ≠ [] ∧ 0 + next.value next.first = 0 + group.value group.hit := by
  have isFirst : next.first ∈ next.before ++ next.hit :: next.after := by
    rw [← UrlGroup.tuples, next.tuples_eq]
    exact List.mem_cons_self
  by_cases known : group.url = []
  · obtain ⟨code, coded⟩ := Option.isSome_iff_exists.mp (next.codes _ isFirst)
    have step := processOne_same (next.sameUrl _ isFirst) (next.total_eq isFirst) coded
      (Or.inl known : group.counted.curUrl = [] ∨ group.counted.curUrl = next.url)
    rw [next.tuples_eq, List.cons_append, run, step, expectedGroup, List.cons_append] at given
    simp [Option.bind_eq_some_iff] at given
  · rw [run_boundary known other, expectedGroup_tuples, List.cons_append] at given
    obtain ⟨_, -, same⟩ := Option.map_eq_some_iff.mp given
    exact ⟨known, (congrArg Prod.snd (List.cons.inj same).1).symm⟩

/-- The group that ends the run is counted in full, whether or not its first tuple has to be remembered. -/
theorem run_last (known : group.url ≠ []) (other : group.url ≠ next.url)
    (equal : 0 + next.value next.first = 0 + group.value group.hit) :
    run ofInt config group.counted (next.tuples ++ []) =
      some (expectedGroup next.value (some group.summary) 0 next.tuples) := by
  rw [run_boundary known other, run_later, run, ← equal, expectedGroup_tuples, Option.map_some, Option.map_some,
    List.append_nil]

/-- The summary is not given out when the tuple that begins the group has to be remembered. -/
theorem before_ne_nil_of_run {third : UrlGroup (D := D) ofInt config} {later : List (Option (Tuple D) × D)}
    (known : group.url ≠ []) (other : group.url ≠ next.url)
    (equal : 0 + next.value next.first = 0 + group.value group.hit)
    (given : run ofInt config group.counted (next.tuples ++ (third.tuples ++ more)) =
      some (expectedGroup next.value (some group.summary) 0 next.tuples ++
        (expectedGroup third.value (some next.summary) 0 third.tuples ++ later))) :
    next.before ≠ [] := by
  intro lost
  have rest : next.later = next.after := by
    rw [UrlGroup.later, UrlGroup.tuples, lost, List.nil_append, List.tail_cons]
  have stale : remembered config (some group.summary) next.later = some group.summary := by
    rw [rest]
    exact remembered_other fun t member => next.others t (List.mem_append_right _ member)
  rw [run_boundary known other, run_later, stale, ← equal, expectedGroup_tuples, Option.map_map] at given
  obtain ⟨found, ran, same⟩ := Option.map_eq_some_iff.mp given
  rw [List.append_cancel_left (List.cons.inj same).2] at ran
  exact run_forgotten rfl other ran

end Boundary

/-- A tuple that begins a group stands for the tuple that is counted in its place, and is not the one that has to be
remembered for a group that follows. -/
def Chained : List (UrlGroup (D := D) ofInt config) → Prop
  | group :: next :: rest =>
      group.url ≠ [] ∧ 0 + next.value next.first = 0 + group.value group.hit ∧ (rest ≠ [] → next.before ≠ []) ∧
        Chained (next :: rest)
  | _ => True

theorem run_counted_iff {group : UrlGroup (D := D) ofInt config} {groups : List (UrlGroup (D := D) ofInt config)}
    (distinct : (group :: groups).IsChain fun group next => group.url ≠ next.url) :
    run ofInt config group.counted (groups.flatMap UrlGroup.tuples) = some (expected (some group.summary) groups) ↔
      Chained (group :: groups) := by
  induction groups generalizing group with
  | nil => simp [run, expected, Chained]
  | cons next rest ih =>
      obtain ⟨other, distinct⟩ := List.isChain_cons_cons.mp distinct
      rw [List.flatMap_cons, Chained, expected]
      constructor
      · intro given
        obtain ⟨known, equal⟩ := boundary_of_run other given
        cases rest with
        | nil => exact ⟨known, equal, fun more => absurd rfl more, trivial⟩
        | cons third rest =>
            have kept : next.before ≠ [] := by
              rw [List.flatMap_cons, expected] at given
              exact before_ne_nil_of_run known other equal given
            rw [run_next known other equal kept] at given
            obtain ⟨found, ran, same⟩ := Option.map_eq_some_iff.mp given
            rw [List.append_cancel_left same] at ran
            exact ⟨known, equal, fun _ => kept, (ih distinct).mp ran⟩
      · rintro ⟨known, equal, kept, chained⟩
        cases rest with
        | nil => rw [List.flatMap_nil, expected, run_last known other equal, List.append_nil]
        | cons third rest =>
            rw [run_next known other equal (kept (List.cons_ne_nil _ _)), (ih distinct).mpr chained, Option.map_some]

/-- Every group of a stream is summed up when the group after it begins, with each tuple in the total of its own group,
exactly when each tuple that begins a later group stands for the tuple that is counted in its place. -/
theorem run_expected_iff {groups : List (UrlGroup (D := D) ofInt config)}
    (distinct : groups.IsChain fun group next => group.url ≠ next.url) :
    run ofInt config new (groups.flatMap UrlGroup.tuples) = some (expected none groups) ↔ Chained groups := by
  cases groups with
  | nil => simp [run, expected, Chained]
  | cons group groups =>
      rw [List.flatMap_cons, run_first, expected, ← run_counted_iff distinct]
      constructor
      · intro given
        obtain ⟨found, ran, same⟩ := Option.map_eq_some_iff.mp given
        rw [List.append_cancel_left same] at ran
        exact ran
      · intro ran
        rw [ran, Option.map_some]

/-- The totals are integers, and the response code and the URL are elements 1 and 2. -/
def accessLog : SeqToRatioConfig := ⟨0, 1, 2⟩

def logTuple (total respcode : ℤ) (url : List Char) : Tuple ℚ :=
  ⟨[{ iVal := some total }, { iVal := some respcode }, { sVal := some url }]⟩

/-- The tuple with the response code 200 follows others. -/
def logGroup (name : List Char) (missed : ℤ) (found : ℤ) : UrlGroup (D := ℚ) (fun i => i) accessLog where
  url := name
  before := [logTuple missed 404 name]
  hit := logTuple found 200 name
  after := []
  sameUrl := by simp [logTuple, url, accessLog]
  totals := by simp [logTuple, total, accessLog]
  found := by simp [logTuple, respcode, accessLog]
  others := by simp [logTuple, respcode, accessLog]

theorem run_expected_iff_logs :
    run (fun i => (i : ℚ)) accessLog new
        ([logGroup ['a'] 3 3, logGroup ['b'] 3 5, logGroup ['c'] 5 1].flatMap UrlGroup.tuples) =
      some (expected none [logGroup ['a'] 3 3, logGroup ['b'] 3 5, logGroup ['c'] 5 1]) :=
  (run_expected_iff (by simp [logGroup])).mpr (by simp [Chained, logGroup, UrlGroup.value, UrlGroup.first, logTuple,
    total, accessLog, numeric])

/-- The total of the tuple that begins the second group is not counted in it, and the total that was given out is counted
twice. -/
theorem run_counts_summary_again :
    run (fun i => (i : ℚ)) accessLog new ([logGroup ['a'] 1 3, logGroup ['b'] 5 5].flatMap UrlGroup.tuples) =
        some [(none, 1), (none, 4), (some (logGroup ['a'] 1 3).summary, 3), (none, 8)] ∧
      expected none [logGroup ['a'] 1 3, logGroup ['b'] 5 5] =
        [(none, 1), (none, 4), (some (logGroup ['a'] 1 3).summary, 5), (none, 10)] ∧
      run (fun i => (i : ℚ)) accessLog new ([logGroup ['a'] 1 3, logGroup ['b'] 5 5].flatMap UrlGroup.tuples) ≠
        some (expected none [logGroup ['a'] 1 3, logGroup ['b'] 5 5]) := by
  decide +kernel

end SeqToRatio

end JetStream
