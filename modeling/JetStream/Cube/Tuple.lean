import Mathlib.Data.Int.Notation

namespace JetStream

/-- An element may hold a value of each type, and `D` is the type of doubles. -/
structure Element (D : Type) where
  sVal : Option (List Char) := none
  iVal : Option ℤ := none
  dVal : Option D := none
  tVal : Option ℤ := none
  deriving DecidableEq, Repr

/-- A tuple is a list of elements. -/
structure Tuple (D : Type) where
  e : List (Element D)
  deriving DecidableEq, Repr

end JetStream
