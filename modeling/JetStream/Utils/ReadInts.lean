import JetStream.Utils.ReadNumber
import Mathlib.Data.List.DropRight
import Mathlib.Data.List.TakeWhile

namespace JetStream

/-- These characters separate words, in the standard libraries of both languages. -/
def isSpace (c : Char) : Bool := c.isWhitespace || c = '\x0b' || c = '\x0c'

/-- The words of a text stand between its white space. -/
def splitWords : ℕ → List Char → List (List Char)
  | 0, _ => []
  | fuel + 1, text =>
      let text := text.dropWhile isSpace
      if text = [] then []
      else text.takeWhile (!isSpace ·) :: splitWords fuel (text.dropWhile (!isSpace ·))

/-- Each word takes at least one character. -/
def pySplit (text : List Char) : List (List Char) := splitWords text.length text

/-- A word is an integer when it has digits behind its sign and nothing else. -/
def pyInt (word : List Char) : Option ℤ :=
  let (negative, text) := readSign word
  let (value, size, rest) := readDigits text
  if size = 0 ∨ rest ≠ [] then none else some (if negative then -value else value)

/-- The text of an integer with any rest behind it is read as `int`. -/
def readInt (text : List Char) : Option (ℤ × List Char) :=
  let (negative, text) := readSign (text.dropWhile isSpace)
  let (value, size, rest) := readDigits text
  let value : ℤ := if negative then -value else value
  if size = 0 ∨ value < -intMax - 1 ∨ intMax < value then none else some (value, rest)

/-- A stream gives its integers up to the first text that is not one. -/
def streamInts : ℕ → List Char → List ℤ
  | 0, _ => []
  | fuel + 1, text =>
      match readInt text with
      | none => []
      | some (value, rest) => value :: streamInts fuel rest

/-- Each integer takes at least one character. -/
def istreamRange (text : List Char) : List ℤ := streamInts text.length text

section Words

variable {word rest : List Char}

/-- The text behind a word is empty or begins with white space. -/
def Separated (rest : List Char) : Prop := ∀ c ∈ rest.head?, isSpace c = true

theorem not_isDigit_of_isSpace {c : Char} (space : isSpace c = true) : c.isDigit = false := by
  simp only [isSpace, Char.isWhitespace, Bool.or_eq_true, decide_eq_true_eq] at space
  rcases space with ((((rfl | rfl) | rfl) | rfl) | rfl) | rfl
  all_goals decide

theorem takeWhile_append_of_separated {p : Char → Bool} (all : ∀ c ∈ word, p c = true)
    (stops : ∀ c ∈ rest.head?, p c = false) :
    (word ++ rest).takeWhile p = word ∧ (word ++ rest).dropWhile p = rest := by
  rw [List.takeWhile_append_of_pos all, List.dropWhile_append_of_pos all]
  cases rest with
  | nil => simp
  | cons c rest =>
      have stop : p c = false := stops c rfl
      simp [stop]

/-- The digits of a word end with the word. -/
theorem readDigits_append {value size : ℕ} (read : readDigits word = (value, size, [])) (separated : Separated rest) :
    readDigits (word ++ rest) = (value, size, rest) := by
  have none : word.dropWhile Char.isDigit = [] := congrArg (·.2.2) read
  have digits : ∀ c ∈ word, c.isDigit = true := List.dropWhile_eq_nil_iff.mp none
  have whole : word.takeWhile Char.isDigit = word := List.takeWhile_eq_self_iff.mpr digits
  obtain ⟨taken, dropped⟩ := takeWhile_append_of_separated digits fun c head => not_isDigit_of_isSpace (separated c head)
  simp only [readDigits, whole, Prod.mk.injEq] at read
  obtain ⟨rfl, rfl, -⟩ := read
  simp only [readDigits, taken, dropped]

theorem readSign_append (nonempty : word ≠ []) :
    readSign (word ++ rest) = ((readSign word).1, (readSign word).2 ++ rest) := by
  obtain ⟨c, word, rfl⟩ := List.exists_cons_of_ne_nil nonempty
  rw [List.cons_append]
  unfold readSign
  split <;> simp_all

theorem readInt_dropWhile (text : List Char) : readInt (text.dropWhile isSpace) = readInt text := by
  rw [readInt, readInt, List.dropWhile_idempotent]

/-- The stream reads a word that is an integer and leaves the text behind it. -/
theorem readInt_append {value : ℤ} (read : pyInt word = some value) (large : -intMax - 1 ≤ value)
    (small : value ≤ intMax) (begins : ∀ c ∈ word.head?, isSpace c = false) (separated : Separated rest) :
    readInt (word ++ rest) = some (value, rest) := by
  have nonempty : word ≠ [] := by
    rintro rfl
    cases read
  have start : (word ++ rest).dropWhile isSpace = word ++ rest := by
    obtain ⟨c, word, rfl⟩ := List.exists_cons_of_ne_nil nonempty
    rw [List.cons_append, List.dropWhile_cons_of_neg (by rw [begins c rfl]; exact Bool.false_ne_true)]
  rw [pyInt] at read
  generalize signed : readSign word = sign at read
  obtain ⟨negative, text⟩ := sign
  dsimp only at read
  generalize digits : readDigits text = parts at read
  obtain ⟨magnitude, size, left⟩ := parts
  dsimp only at read
  by_cases refused : size = 0 ∨ left ≠ []
  · rw [if_pos refused] at read
    cases read
  · rw [if_neg refused, Option.some.injEq] at read
    rw [not_or, not_not] at refused
    obtain ⟨some, rfl⟩ := refused
    have inside : ¬ (size = 0 ∨ value < -intMax - 1 ∨ (intMax : ℤ) < value) := by omega
    simp only [readInt, start, readSign_append nonempty, signed, readDigits_append digits separated, read,
      if_neg inside]

theorem splitWords_cons {fuel : ℕ} {text : List Char} (words : splitWords (fuel + 1) text ≠ []) :
    ∃ word rest, text.dropWhile isSpace = word ++ rest ∧ splitWords (fuel + 1) text = word :: splitWords fuel rest ∧
      (∀ c ∈ word.head?, isSpace c = false) ∧ Separated rest := by
  rw [splitWords] at words ⊢
  by_cases empty : text.dropWhile isSpace = []
  · exact absurd (if_pos empty) words
  · refine ⟨(text.dropWhile isSpace).takeWhile (!isSpace ·), (text.dropWhile isSpace).dropWhile (!isSpace ·),
      List.takeWhile_append_dropWhile.symm, if_neg empty, ?_, ?_⟩
    · intro c head
      have member := List.mem_takeWhile_imp (List.mem_of_mem_head? head)
      simpa using member
    · intro c head
      have stops := List.head?_dropWhile_not (!isSpace ·) (text.dropWhile isSpace)
      rw [head] at stops
      simpa using stops

/-- Where every word is an integer that fits an `int`, the stream gives the integers of the words. -/
theorem streamInts_eq {fuel : ℕ} {text : List Char} {values : List ℤ}
    (read : (splitWords fuel text).mapM pyInt = some values) (fits : ∀ value ∈ values, -intMax - 1 ≤ value ∧ value ≤ intMax) :
    streamInts fuel text = values := by
  induction fuel generalizing text values with
  | zero =>
      obtain rfl : [] = values := Option.some.inj read
      rfl
  | succ fuel ih =>
      by_cases done : splitWords (fuel + 1) text = []
      · rw [done] at read
        obtain rfl : [] = values := Option.some.inj read
        have blank : text.dropWhile isSpace = [] := by
          by_contra word
          rw [splitWords, if_neg word] at done
          cases done
        rw [streamInts, ← readInt_dropWhile, blank]
        rfl
      · obtain ⟨word, rest, text_eq, words, begins, separated⟩ := splitWords_cons done
        rw [words, List.mapM_cons] at read
        simp only [Option.bind_eq_bind, Option.bind_eq_some_iff, Option.pure_def, Option.some.injEq] at read
        obtain ⟨value, first, others, later, rfl⟩ := read
        obtain ⟨large, small⟩ := fits value List.mem_cons_self
        rw [streamInts, ← readInt_dropWhile, text_eq, readInt_append first large small begins separated]
        dsimp only
        rw [ih later fun other member => fits other (List.mem_cons_of_mem _ member)]

/-- Both languages read the same integers from a text of integers that fit an `int`. -/
theorem istreamRange_eq {text : List Char} {values : List ℤ} (read : (pySplit text).mapM pyInt = some values)
    (fits : ∀ value ∈ values, -intMax - 1 ≤ value ∧ value ≤ intMax) : istreamRange text = values :=
  streamInts_eq read fits

end Words

example : istreamRange " 1 -2\t+03 x".toList = [1, -2, 3] := by decide

end JetStream
