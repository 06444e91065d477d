import JetStream.Dataplane.TimerSource
import JetStream.Lib.TextStream
import Mathlib.Data.List.Basic

namespace JetStream

/-- The file is what opening it finds, if it can be opened, and the stream is there once the file is open. -/
structure CFileRead where
  file : Option (List Char)
  skipEmpty : Bool
  inFile : Option (TextStream Char)
  lineno : UInt32

namespace CFileRead

def new (file : Option (List Char)) (skipEmpty : Bool) : CFileRead := ⟨file, skipEmpty, none, 0⟩

def linesPerEmit : ℕ := 4000

/-- The loop reads lines as long as the stream is good, and it numbers those that it keeps. -/
def readLines (skipEmpty : Bool) : ℕ → TextStream Char → UInt32 → List (List Char × UInt64) →
    TextStream Char × UInt32 × List (List Char × UInt64)
  | 0, stream, lineno, tuples => (stream, lineno, tuples)
  | i + 1, stream, lineno, tuples =>
      if !stream.good then (stream, lineno, tuples)
      else
        let (stream, line) := stream.getline '\n' []
        if skipEmpty && line.isEmpty then readLines skipEmpty i stream lineno tuples
        else readLines skipEmpty i stream (lineno + 1) (tuples ++ [(line, lineno.toUInt64)])

/-- The file is opened first, and the source goes on at once until the stream is not good any more. -/
def emitData (reader : CFileRead) : Option (CFileRead × List (List (List Char × UInt64)) × ℤ) :=
  match reader.inFile <|> reader.file.map .ofText with
  | none => some (reader, [], -1)
  | some stream =>
      let (stream, lineno, tuples) := readLines reader.skipEmpty linesPerEmit stream reader.lineno []
      some ({ reader with inFile := some stream, lineno := lineno }, [tuples], if stream.good then 0 else -1)

/-- What a file source is handed is dropped with a warning. -/
def operator : SourceOperator CFileRead Unit (List (List Char × UInt64)) := ⟨fun reader _ => reader, emitData⟩

/-- The lines are numbered from the given one on. -/
def numbered : UInt32 → List (List Char) → List (List Char × UInt64)
  | _, [] => []
  | lineno, line :: lines => (line, lineno.toUInt64) :: numbered (lineno + 1) lines

def kept (skipEmpty : Bool) (lines : List (List Char)) : List (List Char) :=
  lines.filter fun line => !(skipEmpty && line.isEmpty)

variable {skipEmpty : Bool} {lineno : UInt32} {tuples : List (List Char × UInt64)}

theorem numbered_append (lineno : UInt32) (first second : List (List Char)) :
    numbered lineno (first ++ second) = numbered lineno first ++ numbered (lineno + .ofNat first.length) second := by
  induction first generalizing lineno with
  | nil => simp [numbered]
  | cons line first ih =>
      rw [List.cons_append, numbered, ih, List.length_cons, UInt32.ofNat_add, UInt32.add_comm (.ofNat _),
        ← UInt32.add_assoc]
      rfl

@[simp] theorem map_fst_numbered (lineno : UInt32) (lines : List (List Char)) :
    (numbered lineno lines).map Prod.fst = lines := by
  induction lines generalizing lineno with
  | nil => rfl
  | cons line lines ih => rw [numbered, List.map_cons, ih]

theorem length_numbered (lineno : UInt32) (lines : List (List Char)) :
    (numbered lineno lines).length = lines.length := by
  rw [← List.length_map Prod.fst, map_fst_numbered]

theorem kept_append (skipEmpty : Bool) (first second : List (List Char)) :
    kept skipEmpty (first ++ second) = kept skipEmpty first ++ kept skipEmpty second := List.filter_append ..

theorem kept_singleton (skipEmpty : Bool) (line : List Char) :
    kept skipEmpty [line] = if skipEmpty && line.isEmpty then [] else [line] := by
  rw [kept, List.filter_singleton]
  cases skipEmpty && line.isEmpty <;> rfl

/-- A line that is read is kept with its number or skipped. -/
theorem readLines_succ (skipEmpty : Bool) (i : ℕ) {stream next : TextStream Char} {line : List Char}
    (goes : stream.good = true) (read : stream.getline '\n' [] = (next, line)) (lineno : UInt32)
    (tuples : List (List Char × UInt64)) : readLines skipEmpty (i + 1) stream lineno tuples =
      readLines skipEmpty i next (lineno + .ofNat (kept skipEmpty [line]).length)
        (tuples ++ numbered lineno (kept skipEmpty [line])) := by
  rw [readLines, goes, read]
  simp only [Bool.not_true, Bool.false_eq_true, if_false, kept_singleton]
  split_ifs with skipped
  · rw [numbered, List.append_nil, List.length_nil]
    exact congrArg (readLines skipEmpty i next · tuples) (UInt32.add_zero lineno).symm
  · rfl

/-- The loop takes as many lines as it may, or all of them when there are not more. -/
theorem readLines_ofText (skipEmpty : Bool) (i : ℕ) (text : List Char) (lineno : UInt32)
    (tuples : List (List Char × UInt64)) : ∃ stream taken,
      readLines skipEmpty i (.ofText text) lineno tuples = (stream, lineno + .ofNat (kept skipEmpty taken).length,
        tuples ++ numbered lineno (kept skipEmpty taken)) ∧
      ((∃ rest, stream = .ofText rest ∧ text.splitOn '\n' = taken ++ rest.splitOn '\n' ∧ taken.length = i) ∨
        stream.good = false ∧ text.splitOn '\n' = taken ∧ taken.length ≤ i) := by
  induction i generalizing text lineno tuples with
  | zero => exact ⟨.ofText text, [], by simp [readLines, kept, numbered], Or.inl ⟨text, rfl, rfl, rfl⟩⟩
  | succ i ih =>
      by_cases present : '\n' ∈ text
      · obtain ⟨line, left, rfl, absent⟩ := List.eq_append_cons_of_mem present
        have read := @TextStream.getline_append_cons Char _ '\n' [] line left absent
        obtain ⟨stream, taken, ran, ends⟩ := ih left (lineno + .ofNat (kept skipEmpty [line]).length)
          (tuples ++ numbered lineno (kept skipEmpty [line]))
        have split : (line ++ '\n' :: left).splitOn '\n' = line :: left.splitOn '\n' :=
          List.splitOn_append_cons_self_of_not_mem absent left
        have cons : kept skipEmpty (line :: taken) = kept skipEmpty [line] ++ kept skipEmpty taken :=
          kept_append skipEmpty [line] taken
        refine ⟨stream, line :: taken, ?_, ?_⟩
        · rw [readLines_succ skipEmpty i rfl read, ran, cons, numbered_append, List.length_append, UInt32.ofNat_add,
            UInt32.add_assoc, List.append_assoc]
        · rw [split]
          rcases ends with ⟨rest, good, lines, count⟩ | ⟨stopped, lines, count⟩
          · exact Or.inl ⟨rest, good, by rw [lines, List.cons_append], by rw [List.length_cons, count]⟩
          · exact Or.inr ⟨stopped, by rw [lines], by rw [List.length_cons]; omega⟩
      · have read := @TextStream.getline_of_not_mem Char _ '\n' [] text present
        refine ⟨⟨[], true, text.isEmpty⟩, [text], ?_, Or.inr ⟨rfl, List.splitOn_eq_singleton present, ?_⟩⟩
        · rw [readLines_succ skipEmpty i rfl read]
          cases i <;> rfl
        · rw [List.length_singleton]
          omega

/-- The file has been read up to a place, or it cannot be opened. -/
structure Going (file : Option (List Char)) (skipEmpty : Bool) (reader : CFileRead)
    (emitted : List (List (List Char × UInt64))) : Prop where
  found : reader.file = file
  skips : reader.skipEmpty = skipEmpty
  batches : ∀ batch ∈ emitted, batch.length ≤ linesPerEmit
  place : file = none ∧ reader.inFile = none ∧ emitted = [] ∨
    ∃ content taken rest, file = some content ∧ (reader.inFile <|> reader.file.map .ofText) = some (.ofText rest) ∧
      content.splitOn '\n' = taken ++ rest.splitOn '\n' ∧ taken.length = emitted.length * linesPerEmit ∧
      reader.lineno = .ofNat (kept skipEmpty taken).length ∧ emitted.flatten = numbered 0 (kept skipEmpty taken)

/-- The file has been read to its end, or it cannot be opened. -/
structure Done (file : Option (List Char)) (skipEmpty : Bool) (emitted : List (List (List Char × UInt64))) : Prop where
  batches : ∀ batch ∈ emitted, batch.length ≤ linesPerEmit
  whole : file = none ∧ emitted = [] ∨
    ∃ content, file = some content ∧ emitted.flatten = numbered 0 (kept skipEmpty (content.splitOn '\n')) ∧
      emitted.length * linesPerEmit < (content.splitOn '\n').length + linesPerEmit

variable {file : Option (List Char)} {reader next : CFileRead} {emitted calls : List (List (List Char × UInt64))}
    {delay : ℤ}

theorem new_going (file : Option (List Char)) (skipEmpty : Bool) : (new file skipEmpty).Going file skipEmpty [] where
  found := rfl
  skips := rfl
  batches := nofun
  place := by
    cases file with
    | none => exact Or.inl ⟨rfl, rfl, rfl⟩
    | some content => exact Or.inr ⟨content, [], content, rfl, rfl, rfl, (Nat.zero_mul _).symm, rfl, rfl⟩

/-- One emission reads the next lines, and it is the last one when the file has no more or cannot be opened. -/
theorem Going.emitData (going : reader.Going file skipEmpty emitted)
    (emits : reader.emitData = some (next, calls, delay)) :
    calls.length ≤ 1 ∧ (delay = 0 ∧ next.Going file skipEmpty (emitted ++ calls) ∨
      delay = -1 ∧ Done file skipEmpty (emitted ++ calls)) := by
  unfold CFileRead.emitData at emits
  rcases going.place with ⟨missing, closed, rfl⟩ | ⟨content, taken, rest, found, stream, lines, count, number, read⟩
  · rw [closed, going.found, missing] at emits
    obtain ⟨rfl, rfl, rfl⟩ := by simpa using emits
    exact ⟨Nat.zero_le 1, Or.inr ⟨rfl, nofun, Or.inl ⟨missing, rfl⟩⟩⟩
  · obtain ⟨last, more, ran, ends⟩ := readLines_ofText skipEmpty linesPerEmit rest reader.lineno []
    rw [stream, going.skips] at emits
    simp only [ran, List.nil_append, Option.some.injEq, Prod.mk.injEq] at emits
    obtain ⟨rfl, rfl, rfl⟩ := emits
    have flatten : (emitted ++ [numbered reader.lineno (kept skipEmpty more)]).flatten =
        numbered 0 (kept skipEmpty (taken ++ more)) := by
      rw [List.flatten_append, List.flatten_singleton, read, kept_append, numbered_append, number, UInt32.zero_add]
    have batches (few : more.length ≤ linesPerEmit) :
        ∀ batch ∈ emitted ++ [numbered reader.lineno (kept skipEmpty more)], batch.length ≤ linesPerEmit := by
      intro batch member
      rcases List.mem_append.mp member with before | now
      · exact going.batches batch before
      · rw [List.mem_singleton.mp now, length_numbered]
        exact Nat.le_trans (List.length_filter_le _ _) few
    refine ⟨Nat.le_refl 1, ?_⟩
    rcases ends with ⟨left, rfl, split, full⟩ | ⟨stopped, split, few⟩
    · refine Or.inl ⟨rfl, going.found, rfl, batches (Nat.le_of_eq full), Or.inr ⟨content, taken ++ more, left,
        found, rfl, ?_, ?_, ?_, flatten⟩⟩
      · rw [lines, split, List.append_assoc]
      · rw [List.length_append, List.length_append, List.length_singleton, count, full, Nat.add_mul, Nat.one_mul]
      · rw [kept_append, List.length_append, UInt32.ofNat_add, number]
    · refine Or.inr ⟨?_, batches few, Or.inr ⟨content, found, ?_, ?_⟩⟩
      · rw [stopped]
        rfl
      · rw [flatten, lines, split]
      · have some_left : 0 < more.length := by
          rw [← split]
          exact List.length_pos_iff.mpr (List.splitOn_ne_nil _ _)
        rw [lines, split, List.length_append, List.length_append, List.length_singleton, count, Nat.add_mul]
        omega

theorem keeps (file : Option (List Char)) (skipEmpty : Bool) : TimerSource.Keeps operator (fun _ => True)
    (fun reader _ emitted => reader.Going file skipEmpty emitted) (fun _ _ emitted => Done file skipEmpty emitted) where
  process := fun _ _ _ _ _ going => going
  processDone := fun _ _ _ _ _ done => done
  single := by
    intro reader next calls delay emits
    unfold operator CFileRead.emitData at emits
    dsimp only at emits
    split at emits
    · obtain ⟨-, rfl, -⟩ := by simpa using emits
      exact Nat.zero_le 1
    · obtain ⟨-, rfl, -⟩ := by simpa using emits
      exact Nat.le_refl 1
  emit := by
    intro reader _ emitted next calls delay going emits later
    obtain ⟨-, ⟨-, goes⟩ | ⟨rfl, -⟩⟩ := going.emitData emits
    · exact goes
    · exact absurd later (by decide)
  finish := by
    intro reader _ emitted next calls delay going emits ended
    obtain ⟨-, ⟨rfl, -⟩ | ⟨-, done⟩⟩ := going.emitData emits
    · exact absurd ended (by decide)
    · exact done

theorem emitData_isSome (reader : CFileRead) : reader.emitData.isSome := by
  unfold CFileRead.emitData
  split <;> rfl

/-- This is what a file source promises about a run. -/
structure Reads (file : Option (List Char)) (skipEmpty : Bool) (events : List (SourceEvent Unit))
    (source : TimerSource CFileRead Unit (List (List Char × UInt64))) : Prop where
  batches : ∀ batch ∈ source.emitted, batch.length ≤ linesPerEmit
  missing : file = none → source.emitted = []
  inOrder : ∀ content, file = some content →
    source.emitted.flatten <+: numbered 0 (kept skipEmpty (content.splitOn '\n'))
  bounded : ∀ content, file = some content →
    source.emitted.length * linesPerEmit < (content.splitOn '\n').length + linesPerEmit
  whole : ∀ content, file = some content → source.unregistered = 1 →
    source.emitted.flatten = numbered 0 (kept skipEmpty (content.splitOn '\n'))
  roundTrip : ∀ content, file = some content → source.unregistered = 1 → skipEmpty = false →
    ['\n'].intercalate (source.emitted.flatten.map Prod.fst) = content
  ends : .chainStopping ∉ events → (∀ wait, TimerSource.step operator source (.expires wait) = none ∧
    TimerSource.step operator source (.emitWrapper wait) = none) → source.unregistered = 1

/-- However the timer runs, the source gives the lines of its file in order and ends by itself behind the last one. -/
theorem fileRead_reads (file : Option (List Char)) (skipEmpty : Bool) (events : List (SourceEvent Unit))
    (source : TimerSource CFileRead Unit (List (List Char × UInt64)))
    (ran : (TimerSource.system operator (new file skipEmpty)).runFrom (.started (new file skipEmpty)) events =
      some source) : Reads file skipEmpty events source := by
  have outcome := TimerSource.outcome (keeps file skipEmpty) (new_going file skipEmpty) (fun _ _ => trivial) ran
  have whole (content : List Char) (found : file = some content) (ended : source.unregistered = 1) :
      source.emitted.flatten = numbered 0 (kept skipEmpty (content.splitOn '\n')) := by
    rcases outcome.phase with ⟨zero, -⟩ | ⟨-, -, done⟩
    · rw [ended] at zero
      cases zero
    · rcases done.whole with ⟨missing, -⟩ | ⟨_, same, flatten, -⟩
      · rw [found] at missing
        cases missing
      · rw [found] at same
        obtain rfl := Option.some.inj same
        exact flatten
  refine ⟨?_, ?_, ?_, ?_, whole, ?_, fun inside stuck => outcome.ends (fun reader _ _ _ => emitData_isSome reader)
    inside stuck⟩
  · rcases outcome.phase with ⟨-, going⟩ | ⟨-, -, done⟩
    · exact going.batches
    · exact done.batches
  · rintro rfl
    rcases outcome.phase with ⟨-, going⟩ | ⟨-, -, done⟩
    · obtain ⟨-, -, nothing⟩ | ⟨content, taken, rest, found, -⟩ := going.place
      · exact nothing
      · cases found
    · obtain ⟨-, nothing⟩ | ⟨content, found, -⟩ := done.whole
      · exact nothing
      · cases found
  · rintro content rfl
    rcases outcome.phase with ⟨-, going⟩ | ⟨ended, -, -⟩
    · obtain ⟨missing, -⟩ | ⟨_, taken, rest, found, -, lines, -, -, flatten⟩ := going.place
      · cases missing
      · obtain rfl := Option.some.inj found
        rw [flatten, lines, kept_append, numbered_append]
        exact List.prefix_append _ _
    · exact ⟨[], by rw [List.append_nil, whole content rfl ended]⟩
  · rintro content rfl
    rcases outcome.phase with ⟨-, going⟩ | ⟨-, -, done⟩
    · obtain ⟨missing, -⟩ | ⟨_, taken, rest, found, -, lines, count, -⟩ := going.place
      · cases missing
      · obtain rfl := Option.some.inj found
        rw [lines, List.length_append, ← count]
        have some_left := List.length_pos_iff.mpr (List.splitOn_ne_nil '\n' rest)
        omega
    · obtain ⟨missing, -⟩ | ⟨_, found, -, bounded⟩ := done.whole
      · cases missing
      · obtain rfl := Option.some.inj found
        exact bounded
  · rintro content found ended rfl
    rw [whole content found ended, map_fst_numbered, kept]
    simp only [Bool.false_and, Bool.not_false, List.filter_true]
    exact List.intercalate_splitOn '\n'

/-- The empty line is skipped, and the numbers have no gap for it. -/
theorem fileRead_reads_skipsEmpty : ∃ source,
    (TimerSource.system operator (new (some ['a', '\n', '\n', 'b']) true)).runFrom
        (.started (new (some ['a', '\n', '\n', 'b']) true)) [.expires 0, .emitWrapper 0] = some source ∧
      source.emitted = [[(['a'], 0), (['b'], 1)]] ∧
      Reads (some ['a', '\n', '\n', 'b']) true [.expires 0, .emitWrapper 0] source :=
  ⟨_, rfl, rfl, fileRead_reads _ _ _ _ rfl⟩

end CFileRead

end JetStream
