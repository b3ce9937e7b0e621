/-! The binary64 format: a double taken apart exactly, and the double nearest to a ratio. -/

namespace Tangent

/-- A number that is kept in the sixty-four bits of the format. -/
class Stored (α : Type) where
  toBits : α → UInt64
  ofBits : UInt64 → α

/-- Doubles have the format themselves. Every NaN is kept alike. -/
@[default_instance]
instance : Stored Float where
  toBits x := if x.isNaN then 0x7ff8000000000001 else x.toBits
  ofBits := Float.ofBits

namespace Binary64

variable {α : Type} [Stored α]

/-- The magnitude of a finite double, which is `significand * 2 ^ exponent` exactly. -/
structure Magnitude where
  significand : Nat
  exponent : Int
deriving DecidableEq, Repr

/-- The eleven bits that hold the biased exponent. -/
def exponentField (x : α) : Nat :=
  (Stored.toBits x >>> 52).toNat % 2048

/-- The bit above the fifty-two of the fraction, which a normal double has without writing it. -/
def hiddenBit : Nat := 0x10000000000000

/-- The fifty-two bits that hold the fraction. -/
def fractionField (x : α) : Nat :=
  (Stored.toBits x).toNat % hiddenBit

/-- Whether the sign bit is set, which it also is on a negative zero. -/
def signBit (x : α) : Bool :=
  Stored.toBits x >>> 63 == 1

/-- Whether a double is neither infinite nor a NaN. -/
def finite (x : α) : Bool :=
  exponentField x != 2047

/-- Whether a double is no number at all. -/
def isNaN (x : α) : Bool :=
  exponentField x == 2047 && fractionField x != 0

/-- The magnitude of a finite double, with the hidden bit put back unless it is subnormal. -/
def magnitude (x : α) : Magnitude :=
  if exponentField x == 0 then ⟨fractionField x, -1074⟩
  else ⟨hiddenBit + fractionField x, (exponentField x : Int) - 1075⟩

/-- A ratio rounded to the nearest integer, a tie to the even one. -/
def roundRatio (num den : Nat) : Nat :=
  let quotient := num / den
  let twice := 2 * (num % den)
  if twice > den || (twice == den && quotient % 2 == 1) then quotient + 1 else quotient

/-- The ratio `num / den` divided by `2 ^ shift`, as a new numerator and denominator. -/
def scaleDown (num den : Nat) (shift : Int) : Nat × Nat :=
  if shift ≥ 0 then (num, den * Nat.pow 2 shift.toNat) else (num * Nat.pow 2 (-shift).toNat, den)

/-- The bits of positive infinity. -/
def infinityBits : Nat := 2047 * hiddenBit

/--
The bits of the double nearest to a ratio, a tie to the even significand.

The first guess at the exponent leaves a quotient of fifty-three or fifty-four bits, and one
step mends the longer case. Carrying out of the significand moves the exponent by itself.
-/
def nearestBits (num den : Nat) : Nat :=
  if num == 0 then 0
  else
    let guess := max (-1074) ((num.log2 : Int) - (den.log2 : Int) - 53)
    let (guessNum, guessDen) := scaleDown num den guess
    let exponent := if guessNum / guessDen ≥ 2 * hiddenBit then guess + 1 else guess
    let (num, den) := scaleDown num den exponent
    min infinityBits ((exponent + 1074).toNat * hiddenBit + roundRatio num den)

/-- The bit of the sign. -/
def negativeBit : Nat := 0x8000000000000000

/-- The double nearest to a ratio with a sign; too large a ratio gives an infinity. -/
def nearest (negative : Bool) (num den : Nat) : α :=
  let bits := nearestBits num den
  Stored.ofBits (UInt64.ofNat (if negative then negativeBit + bits else bits))

end Binary64

end Tangent
