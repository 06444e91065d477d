import Mathlib.Data.Int.Log
import Mathlib.Data.List.Count
import Mathlib.Data.Rat.Floor
import Mathlib.Algebra.BigOperators.Group.List.Basic
import Mathlib.Algebra.Order.Field.Power
import Mathlib.Tactic.Linarith
import Mathlib.Tactic.NormNum
import Mathlib.Tactic.Positivity

namespace Printing

/-- Every field is followed by the delimiter. -/
def delimited (delimiter : Char) (fields : List (List Char)) : List Char :=
  fields.flatMap fun field => field ++ [delimiter]

/-- A prefix ends at the delimiter that its own number of delimiters determines. -/
theorem append_delimiter_inj {delimiter : Char} {x y a b : List Char}
    (count : x.count delimiter = y.count delimiter) (same : x ++ delimiter :: a = y ++ delimiter :: b) :
    x = y ∧ a = b := by
  induction x generalizing y with
  | nil =>
      cases y with
      | nil => exact ⟨rfl, (List.cons.inj same).2⟩
      | cons d y =>
          rw [List.nil_append, List.cons_append, List.cons.injEq] at same
          rw [List.count_nil, ← same.1, List.count_cons_self] at count
          omega
  | cons c x ih =>
      cases y with
      | nil =>
          rw [List.nil_append, List.cons_append, List.cons.injEq] at same
          rw [List.count_nil, same.1, List.count_cons_self] at count
          omega
      | cons d y =>
          rw [List.cons_append, List.cons_append, List.cons.injEq] at same
          obtain ⟨rfl, rest⟩ := same
          rw [List.count_cons, List.count_cons, Nat.add_right_cancel_iff] at count
          obtain ⟨rfl, tail⟩ := ih count rest
          exact ⟨rfl, tail⟩

/-- Delimited fields are determined when the fields at each position have the same number of delimiters. -/
theorem delimited_inj {delimiter : Char} {first second : List (List Char)}
    (counts : first.map (List.count delimiter) = second.map (List.count delimiter))
    (same : delimited delimiter first = delimited delimiter second) : first = second := by
  induction first generalizing second with
  | nil =>
      cases second with
      | nil => rfl
      | cons y second => cases counts
  | cons x first ih =>
      cases second with
      | nil => cases counts
      | cons y second =>
          rw [List.map_cons, List.map_cons, List.cons.injEq] at counts
          simp only [delimited, List.flatMap_cons, List.append_assoc, List.singleton_append] at same
          obtain ⟨rfl, rest⟩ := append_delimiter_inj counts.1 same
          rw [ih counts.2 rest]

theorem count_delimited (delimiter : Char) (fields : List (List Char)) :
    (delimited delimiter fields).count delimiter = (fields.map (List.count delimiter)).sum + fields.length := by
  induction fields with
  | nil => rfl
  | cons field rest ih =>
      rw [delimited, List.flatMap_cons, List.count_append, List.count_append, ← delimited, ih, List.count_singleton_self,
        List.map_cons, List.sum_cons, List.length_cons]
      omega

/-- This field repeats one token and has the given number of delimiters. -/
def repeated (delimiter token : Char) (n : ℕ) : List Char :=
  (List.replicate n [token, delimiter]).flatten ++ [token]

/-- Repeated tokens run together across the fields. -/
theorem delimited_repeated (delimiter token : Char) (counts : List ℕ) :
    delimited delimiter (counts.map (repeated delimiter token)) =
      (List.replicate (counts.map (· + 1)).sum [token, delimiter]).flatten := by
  induction counts with
  | nil => rfl
  | cons n rest ih =>
      rw [List.map_cons, delimited, List.flatMap_cons, ← delimited, ih, List.map_cons, List.sum_cons,
        List.replicate_add, List.flatten_append]
      congr 1
      rw [repeated, List.append_assoc, List.replicate_succ', List.flatten_append]
      rfl

/-- This is the decimal form of an integer. -/
def decimal (value : ℤ) : List Char :=
  if value < 0 then '-' :: Nat.toDigits 10 value.natAbs else Nat.toDigits 10 value.natAbs

theorem toDigits_inj {first second : ℕ} (same : Nat.toDigits 10 first = Nat.toDigits 10 second) :
    first = second := by
  rw [← Nat.ofDigitChars_ten_toDigits (n := first), same, Nat.ofDigitChars_ten_toDigits]

theorem not_mem_toDigits {c : Char} (other : c.isDigit = false) (n : ℕ) : c ∉ Nat.toDigits 10 n := by
  intro member
  have digit := Nat.isDigit_of_mem_toDigits (by decide) le_rfl member
  rw [other] at digit
  cases digit

theorem decimal_inj {first second : ℤ} (same : decimal first = decimal second) : first = second := by
  have minus : ∀ n, '-' ∉ Nat.toDigits 10 n := not_mem_toDigits rfl
  unfold decimal at same
  by_cases left : first < 0
  · by_cases right : second < 0
    · rw [if_pos left, if_pos right] at same
      have sizes := toDigits_inj (List.cons.inj same).2
      omega
    · rw [if_pos left, if_neg right] at same
      exact absurd (same ▸ List.mem_cons_self) (minus second.natAbs)
  · by_cases right : second < 0
    · rw [if_neg left, if_pos right] at same
      exact absurd (same.symm ▸ List.mem_cons_self) (minus first.natAbs)
    · rw [if_neg left, if_neg right] at same
      have sizes := toDigits_inj same
      omega

/-- A decimal form contains only digits and a sign. -/
theorem count_decimal {c : Char} (other : c.isDigit = false) (sign : c ≠ '-') (value : ℤ) :
    (decimal value).count c = 0 := by
  rw [List.count_eq_zero]
  unfold decimal
  split
  · rw [List.mem_cons, not_or]
    exact ⟨sign, not_mem_toDigits other _⟩
  · exact not_mem_toDigits other _

/-- A tie goes to the even neighbour. -/
def roundHalfEven (value : ℚ) : ℤ :=
  if value - ⌊value⌋ < 1 / 2 then ⌊value⌋
  else if 1 / 2 < value - ⌊value⌋ then ⌊value⌋ + 1
  else if ⌊value⌋ % 2 = 0 then ⌊value⌋ else ⌊value⌋ + 1

/-- A positive value has six significant digits and a decimal exponent. -/
def significant (value : ℚ) : ℕ × ℤ :=
  let exponent := Int.log 10 value
  let digits := (roundHalfEven (value / 10 ^ (exponent - 5))).toNat
  if digits = 10 ^ 6 then (10 ^ 5, exponent + 1) else (digits, exponent)

def stripZeros (digits : List Char) : List Char := (digits.reverse.dropWhile (· = '0')).reverse

/-- A fraction without digits has no point. -/
def withFraction (whole fraction : List Char) : List Char :=
  if fraction = [] then whole else whole ++ '.' :: fraction

/-- This is the `%g` form with the default precision of six. -/
def general (value : ℚ) : List Char :=
  if value = 0 then ['0']
  else
    let (number, exponent) := significant |value|
    let digits := Nat.toDigits 10 number
    let body :=
      if 0 ≤ exponent ∧ exponent < 6 then
        withFraction (digits.take (exponent.toNat + 1)) (stripZeros (digits.drop (exponent.toNat + 1)))
      else if -4 ≤ exponent ∧ exponent < 0 then
        withFraction ['0'] (List.replicate (exponent.natAbs - 1) '0' ++ stripZeros digits)
      else
        withFraction (digits.take 1) (stripZeros (digits.drop 1)) ++ 'e' :: (if exponent < 0 then '-' else '+') ::
          (if exponent.natAbs < 10 then ['0'] else []) ++ Nat.toDigits 10 exponent.natAbs
    if value < 0 then '-' :: body else body

/-- Six digits cannot tell a value slightly above one from one. -/
theorem general_near_one {value : ℚ} (lower : 1 ≤ value) (upper : value < 1 + 1 / 10 ^ 6) : general value = ['1'] := by
  have floor : ⌊value⌋₊ = 1 := by
    rw [Nat.floor_eq_iff (by linarith)]
    constructor
    · exact_mod_cast lower
    · norm_num at upper ⊢
      linarith
  have exponent : Int.log 10 value = 0 := by
    rw [Int.log_of_one_le_right 10 lower, floor]
    rfl
  have scaled : ⌊value * 10 ^ 5⌋ = 10 ^ 5 := by
    rw [Int.floor_eq_iff]
    constructor
    · push_cast
      linarith
    · push_cast
      linarith
  have rounded : roundHalfEven (value * 10 ^ 5) = 10 ^ 5 := by
    rw [roundHalfEven, scaled, if_pos]
    push_cast
    linarith
  have shown : significant value = (100000, 0) := by
    have power : value / 10 ^ ((0 : ℤ) - 5) = value * 10 ^ 5 := by
      rw [zero_sub, zpow_neg, div_inv_eq_mul]
      rfl
    simp only [significant, exponent, power, rounded]
    decide
  have digits : Nat.toDigits 10 100000 = ['1', '0', '0', '0', '0', '0'] := by decide
  rw [general, if_neg (by linarith), abs_of_pos (by linarith), shown]
  dsimp only
  rw [digits, if_neg (by linarith)]
  rfl

end Printing
