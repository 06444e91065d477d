import Mathlib.Data.Nat.Notation

/-- A stream gives a text from the front, and it remembers that it came to the end and that a read failed. -/
structure TextStream (α : Type) where
  rest : List α
  eof : Bool
  fail : Bool
  deriving DecidableEq

namespace TextStream

variable {α : Type}

def good (stream : TextStream α) : Bool := !stream.eof && !stream.fail

def ofText (text : List α) : TextStream α := ⟨text, false, false⟩

@[simp] theorem good_ofText (text : List α) : (ofText text).good = true := rfl

@[simp] theorem rest_ofText (text : List α) : (ofText text).rest = text := rfl

theorem eq_ofText {stream : TextStream α} (goes : stream.good = true) : stream = ofText stream.rest := by
  obtain ⟨rest, eof, fail⟩ := stream
  cases eof <;> cases fail <;> first | rfl | cases goes

variable [DecidableEq α]

/-- A text is cut at the first delimiter, which is dropped. -/
def cut (delim : α) : List α → List α × Option (List α)
  | [] => ([], none)
  | c :: rest =>
      if c = delim then ([], some rest)
      else
        let (taken, left) := cut delim rest
        (c :: taken, left)

/-- The read takes the text in front of the delimiter. It fails when it takes nothing at all, and on a stream that is
not good it leaves its target as it was. -/
def getline (delim : α) (stream : TextStream α) (str : List α) : TextStream α × List α :=
  if stream.good then
    match cut delim stream.rest with
    | (taken, none) => (⟨[], true, taken.isEmpty⟩, taken)
    | (taken, some left) => (ofText left, taken)
  else ({ stream with fail := true }, str)

variable {delim : α} {stream : TextStream α} {str taken left : List α}

theorem cut_append_cons (absent : delim ∉ taken) : cut delim (taken ++ delim :: left) = (taken, some left) := by
  induction taken with
  | nil => exact if_pos rfl
  | cons c taken ih =>
      obtain ⟨different, absent⟩ := List.ne_and_not_mem_of_not_mem_cons absent
      rw [List.cons_append, cut, if_neg different.symm, ih absent]

theorem cut_of_not_mem (absent : delim ∉ taken) : cut delim taken = (taken, none) := by
  induction taken with
  | nil => rfl
  | cons c taken ih =>
      obtain ⟨different, absent⟩ := List.ne_and_not_mem_of_not_mem_cons absent
      rw [cut, if_neg different.symm, ih absent]

theorem getline_not_good (stopped : stream.good = false) :
    stream.getline delim str = ({ stream with fail := true }, str) := by
  rw [getline, stopped, if_neg Bool.false_ne_true]

/-- A line that ends with its delimiter leaves the stream good. -/
theorem getline_append_cons (absent : delim ∉ taken) :
    (ofText (taken ++ delim :: left)).getline delim str = (ofText left, taken) := by
  rw [getline, good_ofText, if_pos rfl, rest_ofText, cut_append_cons absent]

/-- The last line comes to the end of the text. -/
theorem getline_of_not_mem (absent : delim ∉ taken) :
    (ofText taken).getline delim str = (⟨[], true, taken.isEmpty⟩, taken) := by
  rw [getline, good_ofText, if_pos rfl, rest_ofText, cut_of_not_mem absent]

/-- A read that does not fail takes something. -/
theorem length_getline_lt (succeeds : ¬ (stream.getline delim str).1.fail) :
    (stream.getline delim str).1.rest.length < stream.rest.length := by
  cases goes : stream.good with
  | false =>
      rw [getline_not_good goes] at succeeds
      exact absurd rfl succeeds
  | true =>
      rw [eq_ofText goes] at succeeds ⊢
      generalize stream.rest = text at succeeds ⊢
      by_cases present : delim ∈ text
      · obtain ⟨taken, left, rfl, absent⟩ := List.eq_append_cons_of_mem present
        rw [getline_append_cons absent, rest_ofText, rest_ofText, List.length_append, List.length_cons]
        omega
      · rw [getline_of_not_mem present] at succeeds ⊢
        exact List.length_pos_iff.mpr fun empty => succeeds (List.isEmpty_iff.mpr empty)

end TextStream
