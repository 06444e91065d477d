import JetStream.Lib.Float64
import JetStream.Machine

namespace JetStream

/-- The text of an integer is read as `unsigned`, where the sign negates the magnitude modulo the word size. -/
def readUnsigned (value : ℤ) : Option ℕ := if value.natAbs < 2 ^ 32 then some (toUInt32 value) else none

/-- This is the value of the leading digits and their number, with the text behind them. -/
def readDigits (text : List Char) : ℕ × ℕ × List Char :=
  let digits := text.takeWhile Char.isDigit
  (digits.foldl (fun value digit => 10 * value + (digit.toNat - 48)) 0, digits.length, text.dropWhile Char.isDigit)

def readSign : List Char → Bool × List Char
  | '-' :: rest => (true, rest)
  | '+' :: rest => (false, rest)
  | text => (false, text)

/-- The text of an integer with any rest behind it is read as `unsigned`. -/
def readUnsignedText (text : List Char) : Option ℕ :=
  let (negative, text) := readSign (text.dropWhile Char.isWhitespace)
  let (value, size, _) := readDigits text
  if size = 0 then none else readUnsigned (if negative then -value else value)

def readFraction : List Char → ℕ × ℕ × List Char
  | '.' :: rest => readDigits rest
  | text => (0, 0, text)

/-- An exponent needs a digit, and a text without exponent has exponent zero. -/
def readExponent : List Char → Option ℤ
  | 'e' :: rest | 'E' :: rest =>
      let (negative, rest) := readSign rest
      let (value, size, _) := readDigits rest
      if size = 0 then none else some (if negative then -value else value)
  | _ => some 0

/-- The power of ten goes to the numerator or to the denominator. -/
def scaleByTen (significand : ℕ) (exponent : ℤ) : ℕ × ℕ :=
  if 0 ≤ exponent then (significand * 10 ^ exponent.toNat, 1) else (significand, 10 ^ (-exponent).toNat)

/-- A value beyond the finite doubles is not read. -/
def checkFinite (value : Float64) : Option Float64 :=
  match value with
  | .finite _ _ => some value
  | _ => none

/-- The text of a decimal is read as a `double`. -/
def readDouble (text : List Char) : Option Float64 :=
  let (negative, text) := readSign (text.dropWhile Char.isWhitespace)
  let (whole, wholeSize, text) := readDigits text
  let (fraction, fractionSize, text) := readFraction text
  if wholeSize + fractionSize = 0 then none
  else (readExponent text).bind fun exponent =>
    let (numerator, denominator) := scaleByTen (whole * 10 ^ fractionSize + fraction) (exponent - fractionSize)
    checkFinite (.ofRatio (if negative then -numerator else numerator) denominator)

theorem scaleByTen_pos (significand : ℕ) (exponent : ℤ) : 0 < (scaleByTen significand exponent).2 := by
  unfold scaleByTen
  split_ifs
  · exact Nat.one_pos
  · exact Nat.pow_pos (by decide)

theorem checkFinite_eq_some {value result : Float64} (checked : checkFinite value = some result) :
    result = value ∧ ∃ sign units, result = .finite sign units := by
  cases value with
  | nan => cases checked
  | infinity negative => cases checked
  | finite sign units =>
      obtain rfl := Option.some.inj checked
      exact ⟨rfl, sign, units, rfl⟩

/-- What is read is the double of a ratio, and it is finite. -/
theorem readDouble_eq_some {text : List Char} {value : Float64} (read : readDouble text = some value) :
    ∃ (numerator : ℤ) (denominator : ℕ), 0 < denominator ∧ value = .ofRatio numerator denominator ∧
      ∃ sign units, value = .finite sign units := by
  unfold readDouble at read
  dsimp only at read
  by_cases digits : (readDigits (readSign (text.dropWhile Char.isWhitespace)).2).2.1 +
      (readFraction (readDigits (readSign (text.dropWhile Char.isWhitespace)).2).2.2).2.1 = 0
  · rw [if_pos digits] at read
    cases read
  · rw [if_neg digits] at read
    obtain ⟨exponent, -, found⟩ := Option.bind_eq_some_iff.mp read
    obtain ⟨same, finite⟩ := checkFinite_eq_some found
    exact ⟨_, _, scaleByTen_pos _ _, same, finite⟩

example : readDouble "0.5".toList = some (.ofRatio 1 2) := by decide +kernel

end JetStream
