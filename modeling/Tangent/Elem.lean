/-! The element arithmetic that expressions, kernels and programs are written over. -/

namespace Tangent

/--
What a number has to offer to be evaluated and differentiated along.

No law is assumed, so a statement about every `Elem` holds of rounding arithmetic too.
-/
class Elem (α : Type) where
  zero : α
  one : α
  add : α → α → α
  mul : α → α → α
  exp : α → α
  /-- Whether a number is written by clearing memory rather than by filling it. -/
  isZero : α → Bool

/-- The exponent of two that Euler's number is. -/
def twosInE : Float := 1.4426950408889634

/--
The exponential of a double, scaled from the power of two nearest to it.

When that power is out of range the result is infinite, even where the exponential itself is not.
-/
def expFloat (x : Float) : Float :=
  if 1023.5 ≤ x * twosInE then 1.0 / 0.0 else x.exp

/-- Doubles are the numbers a program runs on, and both zeros count as zero. -/
instance : Elem Float where
  zero := 0.0
  one := 1.0
  add := (· + ·)
  mul := (· * ·)
  exp := expFloat
  isZero x := x == 0.0

end Tangent
