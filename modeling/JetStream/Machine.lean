import Mathlib.Algebra.Order.Ring.Int
import Mathlib.Data.Nat.Notation
import Mathlib.Data.Int.Notation

namespace JetStream

/-- This is the largest value of the 32-bit `int`. -/
def intMax : ℕ := 2 ^ 31 - 1

/-- A conversion to `int32` keeps the low 32 bits as a signed value. -/
def toInt32 (value : ℕ) : ℤ := (value : ℤ).bmod (2 ^ 32)

/-- A conversion to `uint32` keeps the low 32 bits as an unsigned value. -/
def toUInt32 (value : ℤ) : ℕ := (value % 2 ^ 32).toNat

/-- A conversion to `size_t` keeps the low 64 bits as an unsigned value. -/
def toSizeT (value : ℤ) : ℕ := (value % 2 ^ 64).toNat

/-- An unsigned 32-bit decrement wraps below zero. -/
def unsignedPred (n : ℕ) : ℕ := if n = 0 then 2 ^ 32 - 1 else n - 1

/-- A `count_val_t` sum keeps its low 32 bits. -/
def addCount (first second : ℕ) : ℕ := (first + second) % 2 ^ 32

/-- Adding an `int` to a `count_val_t` keeps the low 32 bits. -/
def addInt (count : ℕ) (value : ℤ) : ℕ := toUInt32 (count + value)

theorem addCount_eq {first second : ℕ} (fits : first + second < 2 ^ 32) :
    addCount first second = first + second := Nat.mod_eq_of_lt fits

theorem toInt32_eq {value : ℕ} (fits : value < 2 ^ 31) : toInt32 value = value := by
  unfold toInt32
  rw [Int.bmod_eq_emod_of_lt] <;> omega

theorem toUInt32_natCast {value : ℕ} (fits : value < 2 ^ 32) : toUInt32 value = value := by
  unfold toUInt32
  omega

/-- Two sums agree modulo the word size when one summand has been reduced. -/
theorem addInt_toUInt32 (first second : ℤ) : addInt (toUInt32 first) second = toUInt32 (first + second) := by
  unfold addInt toUInt32
  omega

theorem addCount_toUInt32 (first second : ℤ) :
    addCount (toUInt32 first) (toUInt32 second) = toUInt32 (first + second) := by
  unfold addCount toUInt32
  omega

/-- Adding a count as an `int` is the same as adding it as a `count_val_t`. -/
theorem addInt_toInt32 (count value : ℕ) : addInt (count % 2 ^ 32) (toInt32 value) = (count + value) % 2 ^ 32 := by
  unfold addInt toUInt32 toInt32 Int.bmod
  dsimp only
  split <;> omega

/-- A summand disappears exactly when its low 32 bits are zero. -/
theorem toUInt32_add_eq_right (first second : ℤ) :
    toUInt32 (first + second) = toUInt32 second ↔ toUInt32 first = 0 := by
  unfold toUInt32
  omega

theorem toSizeT_natCast {value : ℕ} (fits : value < 2 ^ 64) : toSizeT value = value := by
  unfold toSizeT
  omega

end JetStream
