import Mathlib.Algebra.Order.Ring.Int
import Mathlib.Data.Nat.Notation
import Mathlib.Data.Int.Notation

/-- A finite double is a signed multiple of the smallest subnormal number. -/
inductive Float64 where
  | nan
  | infinity (negative : Bool)
  | finite (negative : Bool) (units : ℕ)
  deriving DecidableEq

namespace Float64

/-- The number one has this many units of the smallest subnormal number. -/
def one : ℕ := 2 ^ 1074

/-- The finite magnitudes stay below this many units. -/
def limit : ℕ := 2 ^ 2098

/-- The quotient is rounded to the nearest integer, and a tie goes to the even one. -/
def nearestEven (numerator denominator : ℕ) : ℕ :=
  let quotient := numerator / denominator
  let twice := 2 * (numerator % denominator)
  if denominator < twice ∨ denominator = twice ∧ quotient % 2 = 1 then quotient + 1 else quotient

/-- The quotient is rounded to a significand of 53 bits. -/
def roundUnits (numerator denominator : ℕ) : ℕ :=
  let shift := (numerator / denominator).log2 + 1 - 53
  nearestEven numerator (denominator * 2 ^ shift) * 2 ^ shift

/-- A magnitude beyond the finite ones rounds to infinity. -/
@[irreducible] def round (negative : Bool) (numerator denominator : ℕ) : Float64 :=
  if roundUnits numerator denominator < limit then .finite negative (roundUnits numerator denominator)
  else .infinity negative

/-- A decimal literal is rounded from its exact ratio. -/
@[irreducible] def ofRatio (numerator : ℤ) (denominator : ℕ) : Float64 :=
  round (numerator < 0) (numerator.natAbs * one) denominator

/-- An integer is rounded to the nearest double. -/
def ofInt (value : ℤ) : Float64 := ofRatio value 1

/-- Both zeros have the same value. -/
def value (negative : Bool) (units : ℕ) : ℤ := if negative then -units else units

/-- The comparison fails on a NaN. -/
def less : Float64 → Float64 → Bool
  | .finite negative units, .finite negative' units' => value negative units < value negative' units'
  | .finite _ _, .infinity negative => !negative
  | .infinity negative, .finite _ _ => negative
  | .infinity negative, .infinity negative' => negative && !negative'
  | _, _ => false

instance : LT Float64 := ⟨fun first second => first.less second = true⟩

instance (first second : Float64) : Decidable (first < second) := inferInstanceAs (Decidable (_ = true))

/-- The comparison that admits equal values fails on a NaN too. -/
def lessEq : Float64 → Float64 → Bool
  | .finite negative units, .finite negative' units' => value negative units ≤ value negative' units'
  | .finite _ _, .infinity negative => !negative
  | .infinity negative, .finite _ _ => negative
  | .infinity negative, .infinity negative' => negative || !negative'
  | _, _ => false

instance : LE Float64 := ⟨fun first second => first.lessEq second = true⟩

instance (first second : Float64) : Decidable (first ≤ second) := inferInstanceAs (Decidable (_ = true))

def neg : Float64 → Float64
  | .nan => .nan
  | .infinity negative => .infinity !negative
  | .finite negative units => .finite (!negative) units

/-- The exact sum is rounded, and a sum that vanishes is negative only when both summands are. -/
def addFinite (negative : Bool) (units : ℕ) (negative' : Bool) (units' : ℕ) : Float64 :=
  let sum := value negative units + value negative' units'
  if sum = 0 then .finite (negative && negative') 0 else round (sum < 0) sum.natAbs 1

def add : Float64 → Float64 → Float64
  | .finite negative units, .finite negative' units' => addFinite negative units negative' units'
  | .infinity negative, .finite _ _ => .infinity negative
  | .finite _ _, .infinity negative => .infinity negative
  | .infinity negative, .infinity negative' => if negative = negative' then .infinity negative else .nan
  | _, _ => .nan

def sub (first second : Float64) : Float64 := first.add second.neg

def mul : Float64 → Float64 → Float64
  | .finite negative units, .finite negative' units' => round (negative ^^ negative') (units * units') one
  | .infinity negative, .finite negative' units => if units = 0 then .nan else .infinity (negative ^^ negative')
  | .finite negative units, .infinity negative' => if units = 0 then .nan else .infinity (negative ^^ negative')
  | .infinity negative, .infinity negative' => .infinity (negative ^^ negative')
  | _, _ => .nan

def div : Float64 → Float64 → Float64
  | .finite negative units, .finite negative' units' =>
      if units' = 0 then (if units = 0 then .nan else .infinity (negative ^^ negative'))
      else round (negative ^^ negative') (units * one) units'
  | .infinity negative, .finite negative' _ => .infinity (negative ^^ negative')
  | .finite negative _, .infinity negative' => .finite (negative ^^ negative') 0
  | _, _ => .nan

instance : Add Float64 := ⟨add⟩
instance : Sub Float64 := ⟨sub⟩
instance : Mul Float64 := ⟨mul⟩
instance : Div Float64 := ⟨div⟩

/-- The function `fmin` prefers a number over a NaN. -/
def fmin (first second : Float64) : Float64 :=
  if first = .nan then second else if second = .nan then first else if second < first then second else first

/-- The function `std::min` gives its first argument unless the second one is smaller. -/
def stdMin (first second : Float64) : Float64 := if second < first then second else first

/-- The conversion to an integer drops the fraction. -/
def truncate : Float64 → ℤ
  | .finite negative units => value negative (units / one)
  | _ => 0

/-- The conversion to a 32-bit word is defined when the truncated value fits. -/
def toWord : Float64 → Option ℕ
  | .finite negative units =>
      let whole := (finite negative units).truncate
      if 0 ≤ whole ∧ whole < 2 ^ 32 then some whole.toNat else none
  | _ => none

theorem finite_lt_finite {negative negative' : Bool} {units units' : ℕ} :
    Float64.finite negative units < .finite negative' units' ↔ value negative units < value negative' units' :=
  decide_eq_true_iff

theorem finite_le_iff_not_lt {negative negative' : Bool} {units units' : ℕ} :
    Float64.finite negative units ≤ .finite negative' units' ↔ ¬ Float64.finite negative' units' < .finite negative units :=
  decide_eq_true_iff.trans (not_lt.symm.trans (not_congr finite_lt_finite.symm))

theorem finite_lt_of_not_le {negative negative' : Bool} {units units' : ℕ}
    (greater : ¬ Float64.finite negative units ≤ .finite negative' units') :
    Float64.finite negative' units' < .finite negative units :=
  by_contra fun notLess => greater (finite_le_iff_not_lt.mpr notLess)

theorem not_nan_lt (value : Float64) : ¬ Float64.nan < value := Bool.false_ne_true

theorem lt_trans {first second third : Float64} (before : first < second) (after : second < third) : first < third := by
  change less _ _ = true at before after
  show less _ _ = true
  cases first <;> cases second <;> cases third <;> simp_all [less]
  exact before.trans after

/-- Nothing lies above positive infinity. -/
theorem not_lt_of_le {first second : Float64} (below : first ≤ second) : ¬ second < first := by
  intro above
  change first.lessEq second = true at below
  change second.less first = true at above
  cases first <;> cases second <;> simp_all [less, lessEq]
  omega

theorem not_infinity_lt (value : Float64) : ¬ Float64.infinity false < value := by
  show ¬ less _ _ = true
  cases value <;> simp [less]

theorem ofInt_zero : ofInt 0 = .finite false 0 := by decide +kernel

/-- What is comparable, but neither negative nor positive, is a zero. -/
theorem eq_zero_of_not_lt {value bound : Float64} (comparable : value < bound) (nonnegative : ¬ value < .ofInt 0)
    (nonpositive : ¬ .ofInt 0 < value) : ∃ negative, value = .finite negative 0 := by
  rw [ofInt_zero] at nonnegative nonpositive
  cases value with
  | nan => exact absurd comparable (not_nan_lt bound)
  | infinity negative =>
      cases negative with
      | false => exact absurd (by decide) nonpositive
      | true => exact absurd (by decide) nonnegative
  | finite negative units =>
      have zero : units = 0 := by
        rw [finite_lt_finite] at nonnegative nonpositive
        unfold value at nonnegative nonpositive
        cases negative <;> simp_all
      exact ⟨negative, by rw [zero]⟩

theorem mul_comm (first second : Float64) : first * second = second * first := by
  show mul _ _ = mul _ _
  cases first <;> cases second <;> simp [mul, Nat.mul_comm, Bool.xor_comm]

/-- What lies below the middle above an integer does not round beyond it. -/
theorem nearestEven_le {numerator denominator bound : ℕ} (below : 2 * numerator < (2 * bound + 1) * denominator) :
    nearestEven numerator denominator ≤ bound := by
  have positive : 0 < denominator := Nat.pos_of_ne_zero fun zero => by simp [zero] at below
  have division := Nat.div_add_mod numerator denominator
  have small : numerator / denominator ≤ bound := by
    apply Nat.le_of_lt_succ
    rw [Nat.div_lt_iff_lt_mul positive, Nat.succ_mul]
    rw [Nat.add_mul, Nat.mul_assoc] at below
    omega
  unfold nearestEven
  dsimp only
  split_ifs with up
  · apply Nat.lt_of_le_of_ne small
    intro same
    rw [same] at division
    rw [Nat.add_mul, Nat.mul_assoc, Nat.mul_comm bound] at below
    omega
  · exact small

/-- A multiple of the denominator is not rounded. -/
theorem nearestEven_mul (quotient : ℕ) {denominator : ℕ} (positive : 0 < denominator) :
    nearestEven (quotient * denominator) denominator = quotient := by
  unfold nearestEven
  dsimp only
  rw [Nat.mul_div_cancel _ positive, Nat.mul_mod_left, if_neg]
  omega

/-- A magnitude with at most 53 significant bits is not rounded. -/
theorem roundUnits_mul_two_pow {significand exponent : ℕ} (bits : significand < 2 ^ 53) :
    roundUnits (significand * 2 ^ exponent) 1 = significand * 2 ^ exponent := by
  have shifts : (significand * 2 ^ exponent).log2 + 1 - 53 ≤ exponent := by
    rcases Nat.eq_zero_or_pos significand with zero | positive
    · rw [zero, Nat.zero_mul, Nat.log2_zero]
      omega
    · have magnitude : (significand * 2 ^ exponent).log2 < 53 + exponent := by
        rw [Nat.log2_lt (Nat.mul_pos positive (Nat.two_pow_pos _)).ne', Nat.pow_add]
        exact Nat.mul_lt_mul_of_pos_right bits (Nat.two_pow_pos _)
      omega
  obtain ⟨rest, split⟩ := Nat.exists_eq_add_of_le' shifts
  unfold roundUnits
  dsimp only
  rw [Nat.div_one, Nat.one_mul]
  generalize (significand * 2 ^ exponent).log2 + 1 - 53 = shift at split
  rw [split, Nat.pow_add, ← Nat.mul_assoc, nearestEven_mul _ (Nat.two_pow_pos _)]

/-- Rounding keeps the order of numerators. -/
theorem nearestEven_mono {numerator larger denominator : ℕ} (less : numerator ≤ larger) :
    nearestEven numerator denominator ≤ nearestEven larger denominator := by
  rcases (Nat.div_le_div_right (c := denominator) less).lt_or_eq with smaller | same
  · unfold nearestEven
    dsimp only
    split <;> split <;> omega
  · have first := Nat.div_add_mod numerator denominator
    have second := Nat.div_add_mod larger denominator
    rw [same] at first
    unfold nearestEven
    dsimp only
    rw [same]
    split <;> split <;> omega

theorem le_nearestEven (numerator denominator : ℕ) : numerator / denominator ≤ nearestEven numerator denominator := by
  unfold nearestEven
  dsimp only
  split <;> omega

/-- The significand has at most 53 bits. -/
theorem nearestEven_le_two_pow (numerator : ℕ) {denominator : ℕ} (positive : 0 < denominator) :
    nearestEven numerator (denominator * 2 ^ ((numerator / denominator).log2 + 1 - 53)) ≤ 2 ^ 53 := by
  apply nearestEven_le
  have magnitude : numerator / denominator < 2 ^ ((numerator / denominator).log2 + 1) := Nat.lt_log2_self
  have wide : 2 ^ ((numerator / denominator).log2 + 1) ≤ 2 ^ 53 * 2 ^ ((numerator / denominator).log2 + 1 - 53) := by
    rw [← Nat.pow_add]
    exact Nat.pow_le_pow_right (by decide) (by omega)
  have scaled : numerator < 2 ^ 53 * 2 ^ ((numerator / denominator).log2 + 1 - 53) * denominator :=
    (Nat.div_lt_iff_lt_mul positive).mp (magnitude.trans_le wide)
  rw [Nat.add_mul, Nat.mul_assoc, Nat.mul_comm denominator, ← Nat.mul_assoc (2 ^ 53)]
  omega

/-- A rounded magnitude has at most 53 significant bits. -/
theorem exists_roundUnits_eq (numerator : ℕ) {denominator : ℕ} (positive : 0 < denominator) :
    ∃ significand exponent, significand ≤ 2 ^ 53 ∧ roundUnits numerator denominator = significand * 2 ^ exponent :=
  ⟨_, _, nearestEven_le_two_pow numerator positive, rfl⟩

/-- Rounding keeps the order of magnitudes. -/
theorem roundUnits_mono {numerator larger denominator : ℕ} (positive : 0 < denominator) (less : numerator ≤ larger) :
    roundUnits numerator denominator ≤ roundUnits larger denominator := by
  have quotients : numerator / denominator ≤ larger / denominator := Nat.div_le_div_right less
  have logs : (numerator / denominator).log2 ≤ (larger / denominator).log2 := by
    rcases Nat.eq_zero_or_pos (numerator / denominator) with zero | nonzero
    · rw [zero, Nat.log2_zero]
      exact Nat.zero_le _
    · rw [Nat.le_log2 (by omega)]
      exact (Nat.log2_self_le nonzero.ne').trans quotients
  have upper := nearestEven_le_two_pow numerator positive
  unfold roundUnits
  dsimp only
  rcases Nat.lt_or_ge ((numerator / denominator).log2 + 1 - 53) ((larger / denominator).log2 + 1 - 53) with gap | same
  · have nonzero : larger / denominator ≠ 0 := by
      intro zero
      rw [zero, Nat.log2_zero] at gap
      omega
    have low := Nat.log2_self_le nonzero
    have least : 2 ^ 52 ≤ nearestEven larger (denominator * 2 ^ ((larger / denominator).log2 + 1 - 53)) := by
      refine le_trans ?_ (le_nearestEven _ _)
      rw [← Nat.div_div_eq_div_mul, Nat.le_div_iff_mul_le (Nat.two_pow_pos _), ← Nat.pow_add]
      exact (Nat.pow_le_pow_right Nat.two_pos (by omega)).trans low
    calc nearestEven numerator (denominator * 2 ^ ((numerator / denominator).log2 + 1 - 53)) *
          2 ^ ((numerator / denominator).log2 + 1 - 53)
        ≤ 2 ^ 53 * 2 ^ ((numerator / denominator).log2 + 1 - 53) := Nat.mul_le_mul_right _ upper
      _ = 2 ^ (53 + ((numerator / denominator).log2 + 1 - 53)) := (Nat.pow_add _ _ _).symm
      _ ≤ 2 ^ (52 + ((larger / denominator).log2 + 1 - 53)) := Nat.pow_le_pow_right Nat.two_pos (by omega)
      _ = 2 ^ 52 * 2 ^ ((larger / denominator).log2 + 1 - 53) := Nat.pow_add _ _ _
      _ ≤ _ := Nat.mul_le_mul_right _ least
  · have equal : (numerator / denominator).log2 + 1 - 53 = (larger / denominator).log2 + 1 - 53 := by omega
    rw [equal]
    exact Nat.mul_le_mul_right _ (nearestEven_mono less)

/-- A common factor does not change the rounding. -/
theorem nearestEven_mul_mul {factor : ℕ} (positive : 0 < factor) (numerator denominator : ℕ) :
    nearestEven (factor * numerator) (factor * denominator) = nearestEven numerator denominator := by
  unfold nearestEven
  dsimp only
  rw [Nat.mul_div_mul_left _ _ positive, Nat.mul_mod_mul_left, Nat.mul_left_comm]
  simp only [Nat.mul_lt_mul_left positive, Nat.mul_right_inj positive.ne']

theorem roundUnits_mul_mul {factor : ℕ} (positive : 0 < factor) (numerator denominator : ℕ) :
    roundUnits (factor * numerator) (factor * denominator) = roundUnits numerator denominator := by
  unfold roundUnits
  dsimp only
  rw [Nat.mul_div_mul_left _ _ positive, Nat.mul_assoc, nearestEven_mul_mul positive]

section Scale

variable {last top : ℕ}

/-- A rounded magnitude below a power of two stays at least half a unit in the last place below it. -/
theorem roundUnits_le_of_lt_two_pow (gap : top = last + 53) {numerator denominator : ℕ} (positive : 0 < denominator)
    (below : roundUnits numerator denominator < 2 ^ top) : roundUnits numerator denominator + 2 ^ last ≤ 2 ^ top := by
  obtain ⟨significand, exponent, bits, same⟩ := exists_roundUnits_eq numerator positive
  rw [same] at below ⊢
  by_cases fine : exponent < last
  · have power : 2 ^ (exponent + 1) ≤ 2 ^ last := Nat.pow_le_pow_right Nat.two_pos fine
    have product : significand * 2 ^ exponent ≤ 2 ^ 53 * 2 ^ exponent := Nat.mul_le_mul_right _ bits
    rw [Nat.pow_succ] at power
    rw [gap, Nat.pow_add]
    omega
  · have unit : 2 ^ last ≤ 2 ^ exponent := Nat.pow_le_pow_right Nat.two_pos (Nat.le_of_not_lt fine)
    rcases Nat.eq_zero_or_pos significand with zero | nonzero
    · rw [zero, Nat.zero_mul, Nat.zero_add]
      exact Nat.pow_le_pow_right Nat.two_pos (by omega)
    · have whole : exponent < top := by
        apply (Nat.pow_lt_pow_iff_right Nat.one_lt_two).mp
        exact (Nat.le_mul_of_pos_left _ nonzero).trans_lt below
      have split : 2 ^ top = 2 ^ (top - exponent) * 2 ^ exponent := by
        rw [← Nat.pow_add, Nat.sub_add_cancel whole.le]
      rw [split] at below ⊢
      have next := Nat.mul_le_mul_right (2 ^ exponent) (Nat.lt_of_mul_lt_mul_right below)
      rw [Nat.succ_mul] at next
      omega

/-- An integer times a magnitude that stays below a power of two rounds to less than the integer times the power. -/
theorem roundUnits_mul_lt (gap : top = last + 53) {count units : ℕ} (positive : 0 < count) (bits : count < 2 ^ 53)
    (below : units + 2 ^ last ≤ 2 ^ top) : roundUnits (count * units) 1 < count * 2 ^ top := by
  have product : count * units + count * 2 ^ last ≤ count * 2 ^ top := by
    rw [← Nat.mul_add]
    exact Nat.mul_le_mul_left _ below
  have margin : 0 < count * 2 ^ last := Nat.mul_pos positive (Nat.two_pow_pos _)
  rcases Nat.eq_zero_or_pos (count * units) with zero | nonzero
  · rw [zero]
    exact (Nat.le_of_eq (by decide)).trans_lt (Nat.mul_pos positive (Nat.two_pow_pos _))
  have magnitude : (count * units).log2 < 53 + top := by
    rw [Nat.log2_lt nonzero.ne', Nat.pow_add]
    exact (Nat.lt_of_lt_of_le (by omega) product).trans (Nat.mul_lt_mul_of_pos_right bits (Nat.two_pow_pos _))
  have low := Nat.log2_self_le nonzero.ne'
  unfold roundUnits
  dsimp only
  rw [Nat.div_one, Nat.one_mul]
  generalize shifted : (count * units).log2 + 1 - 53 = shift
  have split : count * 2 ^ top = count * 2 ^ (top - shift) * 2 ^ shift := by
    rw [Nat.mul_assoc, ← Nat.pow_add, Nat.sub_add_cancel (by omega)]
  have whole : 0 < count * 2 ^ (top - shift) := Nat.mul_pos positive (Nat.two_pow_pos _)
  have half : 2 ^ shift < 2 * (count * 2 ^ last) := by
    rcases Nat.eq_zero_or_pos shift with none_ | some_
    · rw [none_]
      omega
    · have exponent : (count * units).log2 = shift + 52 := by omega
      have large : count * 2 ^ top = 2 ^ 53 * (count * 2 ^ last) := by
        rw [gap, Nat.pow_add, Nat.mul_comm (2 ^ last), Nat.mul_left_comm]
      rw [exponent, Nat.pow_add] at low
      omega
  have rounded : nearestEven (count * units) (2 ^ shift) ≤ count * 2 ^ (top - shift) - 1 := by
    apply nearestEven_le
    have odd : 2 * (count * 2 ^ (top - shift) - 1) + 1 = 2 * (count * 2 ^ (top - shift)) - 1 := by omega
    rw [odd, Nat.sub_mul, Nat.one_mul, Nat.mul_assoc 2, ← split]
    omega
  rw [split]
  exact Nat.mul_lt_mul_of_pos_right (by omega) (Nat.two_pow_pos _)

/-- The rounded quotient of two small integers has the floor of the exact one. -/
theorem roundUnits_quotient (gap : top = last + 53) {dividend divisor : ℕ} (positive : 0 < divisor)
    (bits : dividend + divisor < 2 ^ 53) :
    dividend / divisor * 2 ^ top ≤ roundUnits (dividend * 2 ^ top) divisor ∧
      roundUnits (dividend * 2 ^ top) divisor < (dividend / divisor + 1) * 2 ^ top := by
  have floor : dividend / divisor * divisor ≤ dividend := Nat.div_mul_le_self _ _
  have next : dividend < (dividend / divisor + 1) * divisor := by
    rw [Nat.mul_comm]
    exact Nat.lt_mul_div_succ dividend positive
  generalize dividend / divisor = quotient at floor next ⊢
  have atLeast : quotient ≤ quotient * divisor := Nat.le_mul_of_pos_right _ positive
  have unscaled (magnitude : ℕ) : roundUnits (divisor * magnitude) divisor = roundUnits magnitude 1 := by
    have scaled := roundUnits_mul_mul positive magnitude 1
    rwa [Nat.mul_one] at scaled
  constructor
  · rw [← @roundUnits_mul_two_pow quotient top (by omega), ← unscaled]
    apply roundUnits_mono positive
    rw [← Nat.mul_assoc, Nat.mul_comm divisor]
    exact Nat.mul_le_mul_right _ floor
  · have product : (quotient + 1) * divisor ≤ 2 ^ 53 := by
      rw [Nat.add_mul, Nat.one_mul]
      omega
    have count : quotient + 1 < 2 ^ 53 := by omega
    have units : 2 ^ top - 2 ^ last + 2 ^ last ≤ 2 ^ top := by
      rw [Nat.sub_add_cancel]
      exact Nat.pow_le_pow_right Nat.two_pos (by omega)
    refine lt_of_le_of_lt ?_ (roundUnits_mul_lt gap (Nat.succ_pos quotient) count units)
    rw [← unscaled]
    apply roundUnits_mono positive
    have margin : (quotient + 1) * divisor * 2 ^ last ≤ 2 ^ top := by
      rw [gap, Nat.pow_add, Nat.mul_comm (2 ^ last)]
      exact Nat.mul_le_mul_right _ product
    have whole : (dividend + 1) * 2 ^ top ≤ (quotient + 1) * divisor * 2 ^ top := Nat.mul_le_mul_right _ next
    rw [← Nat.mul_assoc, Nat.mul_comm divisor, Nat.mul_sub]
    rw [Nat.add_mul, Nat.one_mul] at whole
    omega

theorem mul_two_pow_lt {high : ℕ} (wide : 53 + top ≤ high) {count : ℕ} (bits : count < 2 ^ 53) :
    count * 2 ^ top < 2 ^ high := by
  have larger : 2 ^ (53 + top) ≤ 2 ^ high := Nat.pow_le_pow_right Nat.two_pos wide
  rw [Nat.pow_add] at larger
  exact (Nat.mul_lt_mul_of_pos_right bits (Nat.two_pow_pos _)).trans_le larger

end Scale

/-- A small magnitude is rounded to a finite double. -/
theorem round_eq_finite {negative : Bool} {numerator denominator : ℕ}
    (small : roundUnits numerator denominator < limit) :
    round negative numerator denominator = .finite negative (roundUnits numerator denominator) := by
  unfold round
  exact if_pos small

theorem mul_one_lt_limit {count : ℕ} (bits : count < 2 ^ 53) : count * one < limit :=
  mul_two_pow_lt (by decide) bits

/-- An integer below two to the 53 is a double. -/
theorem ofInt_natCast {count : ℕ} (bits : count < 2 ^ 53) : ofInt count = .finite false (count * one) := by
  have exact_ : roundUnits (count * one) 1 = count * one := roundUnits_mul_two_pow bits
  have small : roundUnits (count * one) 1 < limit := exact_.symm ▸ mul_one_lt_limit bits
  unfold ofInt ofRatio
  rw [Int.natAbs_natCast, round_eq_finite small, exact_]
  simp

theorem one_pos : 0 < one := Nat.pow_pos Nat.two_pos

theorem ofInt_one : ofInt 1 = .finite false one := by
  rw [← Nat.cast_one, ofInt_natCast (by decide), Nat.one_mul]

/-- A decimal between zero and one is a finite double that stays below one by half a unit in the last place. -/
theorem exists_ofRatio_eq {numerator : ℤ} {denominator : ℕ} (defined : 0 < denominator)
    (positive : ofInt 0 < ofRatio numerator denominator) (below : ofRatio numerator denominator < ofInt 1) :
    ∃ units, ofRatio numerator denominator = .finite false units ∧ units + 2 ^ 1021 ≤ one := by
  have same : ofRatio numerator denominator = round (numerator < 0) (numerator.natAbs * one) denominator := by
    unfold ofRatio
    rfl
  rw [same] at positive below ⊢
  by_cases small : roundUnits (numerator.natAbs * one) denominator < limit
  · rw [round_eq_finite small] at positive below ⊢
    rw [ofInt_zero, finite_lt_finite] at positive
    rw [ofInt_one, finite_lt_finite] at below
    cases sign : decide (numerator < 0) with
    | true =>
        rw [sign] at positive
        simp only [value, if_true, if_false, Bool.false_eq_true] at positive
        omega
    | false =>
        rw [sign] at below
        simp only [value, if_false, Bool.false_eq_true] at below
        exact ⟨_, rfl, @roundUnits_le_of_lt_two_pow 1021 1074 rfl _ _ defined (Int.ofNat_lt.mp below)⟩
  · have infinite : round (numerator < 0) (numerator.natAbs * one) denominator = .infinity (numerator < 0) := by
      unfold round
      exact if_neg small
    rw [infinite] at positive below
    cases sign : decide (numerator < 0) with
    | true =>
        rw [sign, ofInt_zero] at positive
        exact absurd positive (by decide)
    | false =>
        rw [sign] at below
        exact absurd below (not_infinity_lt _)

/-- An integer times a decimal between zero and one lies below the integer. -/
theorem ofInt_mul_eq {count units : ℕ} (positive : 0 < count) (bits : count < 2 ^ 53)
    (below : units + 2 ^ 1021 ≤ one) :
    ∃ product < count * one, ofInt count * .finite false units = .finite false product := by
  have less : roundUnits (count * units) 1 < count * one := @roundUnits_mul_lt 1021 1074 rfl _ _ positive bits below
  have same : roundUnits (count * one * units) one = roundUnits (count * units) 1 := by
    have scaled := roundUnits_mul_mul one_pos (count * units) 1
    rw [Nat.mul_one, Nat.mul_left_comm, ← Nat.mul_assoc] at scaled
    exact scaled
  refine ⟨_, less, ?_⟩
  rw [ofInt_natCast bits]
  show round (false ^^ false) (count * one * units) one = _
  rw [round_eq_finite, same]
  · rfl
  · rw [same]
    exact less.trans (mul_one_lt_limit bits)

/-- An integer times a decimal between zero and one is never more than the integer. -/
theorem ofInt_mul_le {count : ℕ} {units : ℕ} (bits : count < 2 ^ 53) (below : units + 2 ^ 1021 ≤ one) :
    ofInt count * .finite false units ≤ ofInt count := by
  rcases Nat.eq_zero_or_pos count with zero | positive
  · rw [zero, Nat.cast_zero, ofInt_zero]
    show lessEq (round (false ^^ false) (0 * units) one) (.finite false 0) = true
    rw [Nat.zero_mul, round_eq_finite (by decide +kernel)]
    decide +kernel
  · obtain ⟨product, less, same⟩ := ofInt_mul_eq positive bits below
    rw [same, ofInt_natCast bits]
    exact decide_eq_true (Int.ofNat_le.mpr less.le)

/-- A double above zero and up to one has some of the units of one. -/
theorem exists_eq_of_pos_le {q : Float64} (above : ofInt 0 < q) (atMost : q ≤ ofInt 1) :
    ∃ units, q = .finite false units ∧ 0 < units ∧ units ≤ one := by
  rw [ofInt_zero] at above
  rw [ofInt_one] at atMost
  cases q with
  | nan => exact absurd atMost Bool.false_ne_true
  | infinity negative =>
      cases negative with
      | false => exact absurd atMost Bool.false_ne_true
      | true => exact absurd above Bool.false_ne_true
  | finite negative units =>
      rw [finite_lt_finite] at above
      cases negative with
      | false =>
          have below : value false units ≤ value false one := of_decide_eq_true atMost
          simp only [value, Bool.false_eq_true, if_false] at above below
          exact ⟨units, rfl, by omega, by omega⟩
      | true =>
          simp only [value, if_true, Bool.false_eq_true, if_false] at above
          omega

/-- An integer bounds a double when it bounds its units. -/
theorem finite_le_ofInt {units count : ℕ} (bits : count < 2 ^ 53) :
    finite false units ≤ ofInt count ↔ units ≤ count * one := by
  rw [ofInt_natCast bits]
  change decide (value false units ≤ value false (count * one)) = true ↔ _
  rw [decide_eq_true_iff]
  exact Int.ofNat_le

/-- A positive part of a positive integer is positive and at most the integer. -/
theorem mul_ofInt_eq {units count : ℕ} (above : 0 < units) (atMost : units ≤ one) (positive : 0 < count)
    (bits : count < 2 ^ 53) :
    ∃ product, 0 < product ∧ product ≤ count * one ∧ finite false units * ofInt count = .finite false product := by
  have scaled (numerator : ℕ) : roundUnits (numerator * one) one = roundUnits numerator 1 := by
    have same := roundUnits_mul_mul one_pos numerator 1
    rw [Nat.mul_one, Nat.mul_comm] at same
    exact same
  have upper : roundUnits (units * count * one) one ≤ count * one := by
    refine (roundUnits_mono one_pos (Nat.mul_le_mul_right _ (Nat.mul_le_mul_right _ atMost))).trans_eq ?_
    rw [scaled, Nat.mul_comm]
    exact roundUnits_mul_two_pow bits
  have lower : 0 < roundUnits (units * count * one) one := by
    have least := roundUnits_mono Nat.one_pos (Nat.mul_pos above positive)
    rw [scaled]
    exact (by decide : 0 < roundUnits 1 1).trans_le least
  refine ⟨_, lower, upper, ?_⟩
  rw [ofInt_natCast bits]
  show round (false ^^ false) (units * (count * one)) one = _
  rw [← Nat.mul_assoc, round_eq_finite (upper.trans_lt (mul_one_lt_limit bits))]
  rfl

/-- The truncated product is an index below the integer. -/
theorem truncate_ofInt_mul_lt {count units : ℕ} (positive : 0 < count) (bits : count < 2 ^ 53)
    (below : units + 2 ^ 1021 ≤ one) : (ofInt count * .finite false units).truncate.toNat < count := by
  obtain ⟨product, less, same⟩ := ofInt_mul_eq positive bits below
  rw [same]
  show (product / one : ℕ) < count
  rw [Nat.div_lt_iff_lt_mul one_pos]
  exact less

theorem finite_div_finite {units units' : ℕ} (positive : 0 < units') :
    finite false units / finite false units' = round false (units * one) units' := if_neg positive.ne'

theorem truncate_finite (units : ℕ) : (finite false units).truncate = (units / one : ℕ) := rfl

/-- A converted double is finite, and its word counts the whole units of one of a number that is not negative. -/
theorem toWord_eq_some {number : Float64} {size : ℕ} (converted : number.toWord = some size) :
    size < 2 ^ 32 ∧ ((∃ units, number = .finite false units ∧ units / one = size) ∨
      ∃ units, number = .finite true units ∧ size = 0) := by
  cases number with
  | nan => cases converted
  | infinity negative => cases converted
  | finite negative units =>
      rw [toWord, Option.ite_none_right_eq_some] at converted
      obtain ⟨⟨-, upper⟩, same⟩ := converted
      obtain rfl := Option.some.inj same
      refine ⟨by omega, ?_⟩
      cases negative with
      | false => exact .inl ⟨units, rfl, by rw [truncate_finite, Int.toNat_natCast]⟩
      | true =>
          have whole : (0 : ℤ) ≤ (units / one : ℕ) := Int.natCast_nonneg _
          exact .inr ⟨units, rfl, Int.toNat_eq_zero.mpr (Int.neg_nonpos_of_nonneg whole)⟩

section Word

variable {number : Float64} {size count : ℕ} (converted : number.toWord = some size) (positive : 0 < count)
  (bits : count < 2 ^ 53)

include converted positive bits in
/-- The converted word is below exactly the counts that the double is below. -/
theorem lt_ofInt_iff_of_toWord : number < ofInt count ↔ size < count := by
  have scaled : 0 < count * one := Nat.mul_pos positive one_pos
  rw [ofInt_natCast bits]
  obtain ⟨-, ⟨units, rfl, rfl⟩ | ⟨units, rfl, rfl⟩⟩ := toWord_eq_some converted
  · rw [finite_lt_finite, Nat.div_lt_iff_lt_mul one_pos]
    exact Int.ofNat_lt
  · refine iff_of_true (finite_lt_finite.mpr ?_) positive
    rw [value, value, if_pos rfl, if_neg Bool.false_ne_true]
    generalize count * one = bound at scaled
    omega

include converted positive bits in
/-- The converted word reaches exactly the counts that the double reaches. -/
theorem ofInt_le_iff_of_toWord : ofInt count ≤ number ↔ count ≤ size := by
  rw [← not_lt, ← lt_ofInt_iff_of_toWord converted positive bits, ofInt_natCast bits]
  obtain ⟨-, ⟨units, rfl, -⟩ | ⟨units, rfl, -⟩⟩ := toWord_eq_some converted <;> exact finite_le_iff_not_lt

end Word

/-- A double from a positive count up to a word has a conversion. -/
theorem exists_toWord {number : Float64} {lower upper : ℕ} (positive : 0 < lower) (bits : lower < 2 ^ 53)
    (above : ofInt lower ≤ number) (below : number < ofInt upper) (word : upper ≤ 2 ^ 32) :
    ∃ size, number.toWord = some size := by
  have scaled : 0 < lower * one := Nat.mul_pos positive one_pos
  rw [ofInt_natCast bits] at above
  rw [ofInt_natCast (word.trans_lt (by decide))] at below
  cases number with
  | nan => cases above
  | infinity negative =>
      cases negative with
      | false => cases below
      | true => cases above
  | finite negative units =>
      rw [finite_lt_finite] at below
      have reaches : value false (lower * one) ≤ value negative units := of_decide_eq_true above
      cases negative with
      | false =>
          have whole : units / one < upper := (Nat.div_lt_iff_lt_mul one_pos).mpr (Int.ofNat_lt.mp below)
          refine ⟨units / one, ?_⟩
          rw [toWord, truncate_finite, if_pos ⟨Int.natCast_nonneg _, by omega⟩, Int.toNat_natCast]
      | true =>
          rw [value, value, if_pos rfl, if_neg Bool.false_ne_true] at reaches
          generalize lower * one = bound at scaled reaches
          omega

/-- The product of two small integers is exact. -/
theorem ofInt_mul_ofInt {first second : ℕ} (firstBits : first < 2 ^ 53) (secondBits : second < 2 ^ 53)
    (bits : first * second < 2 ^ 53) : ofInt first * ofInt second = ofInt (first * second : ℕ) := by
  rw [ofInt_natCast firstBits, ofInt_natCast secondBits, ofInt_natCast bits]
  show round (false ^^ false) (first * one * (second * one)) one = _
  have same : roundUnits (first * one * (second * one)) one = first * second * one := by
    have scaled := roundUnits_mul_mul one_pos (first * second * one) 1
    rw [Nat.mul_one] at scaled
    rw [Nat.mul_mul_mul_comm, ← Nat.mul_assoc, Nat.mul_comm _ one, scaled]
    exact roundUnits_mul_two_pow bits
  rw [round_eq_finite, same]
  · rfl
  · rw [same]
    exact mul_one_lt_limit bits

/-- The truncated quotient of two small integers is the integer quotient. -/
theorem truncate_ofInt_div {dividend divisor : ℕ} (positive : 0 < divisor) (bits : dividend + divisor < 2 ^ 53) :
    (ofInt dividend / ofInt divisor).truncate = (dividend / divisor : ℕ) := by
  rw [ofInt_natCast (show dividend < 2 ^ 53 by omega), ofInt_natCast (show divisor < 2 ^ 53 by omega)]
  have scaled : roundUnits (dividend * one * one) (divisor * one) = roundUnits (dividend * one) divisor := by
    rw [Nat.mul_comm _ one, Nat.mul_comm divisor, roundUnits_mul_mul one_pos]
  obtain ⟨lower, upper⟩ : dividend / divisor * one ≤ roundUnits (dividend * one) divisor ∧
      roundUnits (dividend * one) divisor < (dividend / divisor + 1) * one :=
    @roundUnits_quotient 1021 1074 rfl dividend divisor positive bits
  have quotient : dividend / divisor + 1 < 2 ^ 53 := by
    have atMost := Nat.div_le_self dividend divisor
    omega
  have small : roundUnits (dividend * one) divisor < limit := upper.trans (mul_one_lt_limit quotient)
  rw [finite_div_finite (Nat.mul_pos positive one_pos), round_eq_finite (by rw [scaled]; exact small), scaled,
    truncate_finite, Nat.div_eq_of_lt_le lower upper]

/-- A power of two is not rounded. -/
theorem roundUnits_two_pow (exponent : ℕ) : roundUnits (2 ^ exponent) 1 = 2 ^ exponent := by
  have same := @roundUnits_mul_two_pow 1 exponent (by decide)
  rwa [Nat.one_mul] at same

theorem mul_two_pow_le {count bits exponent : ℕ} (below : count < 2 ^ bits) :
    count * 2 ^ exponent ≤ 2 ^ (bits + exponent) := by
  rw [Nat.pow_add]
  exact Nat.mul_le_mul_right _ below.le

theorem roundUnits_one : roundUnits one 1 = one := roundUnits_two_pow 1074

/-- A 64-bit integer is rounded to a finite double. -/
theorem ofInt_eq_finite {count : ℕ} (bits : count < 2 ^ 64) :
    ofInt count = .finite false (roundUnits (count * one) 1) := by
  have small : roundUnits (count * one) 1 < limit := by
    refine (roundUnits_mono Nat.one_pos (mul_two_pow_le bits)).trans_lt ?_
    rw [roundUnits_two_pow]
    exact Nat.pow_lt_pow_right Nat.one_lt_two (by decide)
  unfold ofInt ofRatio
  rw [Int.natAbs_natCast, round_eq_finite small]
  simp

/-- These doubles are probabilities. -/
def InUnit (probability : Float64) : Prop := ofInt 0 ≤ probability ∧ probability ≤ ofInt 1

instance (probability : Float64) : Decidable probability.InUnit := inferInstanceAs (Decidable (_ ∧ _))

theorem inUnit_finite {units : ℕ} (below : units ≤ one) : InUnit (.finite false units) := by
  constructor
  · rw [ofInt_zero]
    exact decide_eq_true (Int.ofNat_le.mpr (Nat.zero_le units))
  · rw [ofInt_one]
    exact decide_eq_true (Int.ofNat_le.mpr below)

theorem roundUnits_le_one {units : ℕ} (below : units ≤ one) : roundUnits units 1 ≤ one := by
  exact (roundUnits_mono Nat.one_pos below).trans roundUnits_one.le

theorem one_lt_limit : one < limit := Nat.pow_lt_pow_right Nat.one_lt_two (by decide)

/-- A part of a count is a probability, and so is the rest. -/
theorem inUnit_div {part total : ℕ} (within : part ≤ total) (positive : 0 < total) (bits : total < 2 ^ 64) :
    InUnit (ofInt part / ofInt total) ∧ InUnit (ofInt 1 - ofInt part / ofInt total) := by
  have order : roundUnits (part * one) 1 ≤ roundUnits (total * one) 1 :=
    roundUnits_mono Nat.one_pos (Nat.mul_le_mul_right _ within)
  have nonzero : 0 < roundUnits (total * one) 1 := by
    have least := roundUnits_mono Nat.one_pos (Nat.le_mul_of_pos_left one positive)
    rw [roundUnits_one] at least
    exact one_pos.trans_le least
  have quotient : roundUnits (roundUnits (part * one) 1 * one) (roundUnits (total * one) 1) ≤ one := by
    refine (roundUnits_mono nonzero (Nat.mul_le_mul_right one order)).trans ?_
    have scaled := roundUnits_mul_mul nonzero one 1
    rw [Nat.mul_one] at scaled
    rw [scaled]
    exact roundUnits_le_one le_rfl
  have divided : ofInt part / ofInt total =
      .finite false (roundUnits (roundUnits (part * one) 1 * one) (roundUnits (total * one) 1)) := by
    rw [ofInt_eq_finite (within.trans_lt bits), ofInt_eq_finite bits]
    show (if _ then _ else _) = _
    rw [if_neg nonzero.ne', round_eq_finite (quotient.trans_lt one_lt_limit)]
    rfl
  rw [divided]
  generalize roundUnits (roundUnits (part * one) 1 * one) (roundUnits (total * one) 1) = units at quotient
  refine ⟨inUnit_finite quotient, ?_⟩
  rw [ofInt_one]
  show InUnit (addFinite false one true units)
  have difference : value false one + value true units = ((one - units : ℕ) : ℤ) := by
    simp only [value, if_true, Bool.false_eq_true, if_false]
    omega
  unfold addFinite
  dsimp only
  rw [difference]
  split
  · exact inUnit_finite (Nat.zero_le _)
  · rw [Int.natAbs_natCast, round_eq_finite]
    · have sign : decide (((one - units : ℕ) : ℤ) < 0) = false := by simp
      rw [sign]
      exact inUnit_finite (roundUnits_le_one (Nat.sub_le _ _))
    · exact (roundUnits_le_one (Nat.sub_le _ _)).trans_lt one_lt_limit

end Float64
