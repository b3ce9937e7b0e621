import Tangent.Decimal.Binary64

/-! Mean, standard error and range of a sample, in one pass. -/

namespace Tangent.Sample

/-- The arithmetic that a summary is computed in. -/
class Measure (α : Type) where
  zero : α
  add : α → α → α
  sub : α → α → α
  mul : α → α → α
  div : α → α → α
  ofNat : Nat → α
  sqrt : α → α
  least : α → α → α
  greatest : α → α → α
  /-- What an empty sample is summed up to. -/
  undefined : α

/-- The lesser of two doubles: negative infinity first, then a NaN, and -0 below +0. -/
def leastFloat (x y : Float) : Float :=
  let lowest := -1.0 / 0.0
  if x == lowest || y == lowest then lowest
  else if x.isNaN || y.isNaN then 0.0 / 0.0
  else if x == 0.0 && y == 0.0 then (if Binary64.signBit x then x else y)
  else if x < y then x else y

/-- The greater of two doubles: positive infinity first, then a NaN, and +0 above -0. -/
def greatestFloat (x y : Float) : Float :=
  let highest := 1.0 / 0.0
  if x == highest || y == highest then highest
  else if x.isNaN || y.isNaN then 0.0 / 0.0
  else if x == 0.0 && y == 0.0 then (if Binary64.signBit x then y else x)
  else if x > y then x else y

instance : Measure Float where
  zero := 0.0
  add := (· + ·)
  sub := (· - ·)
  mul := (· * ·)
  div := (· / ·)
  ofNat := Float.ofNat
  sqrt := Float.sqrt
  least := leastFloat
  greatest := greatestFloat
  undefined := 0.0 / 0.0

/-- What is known of a sample. -/
structure Summary (α : Type) where
  mean : α
  /-- The standard error of the mean. -/
  error : α
  least : α
  greatest : α
  size : Nat

/-- What is kept of the values seen so far. -/
structure Moments (α : Type) where
  seen : Nat
  mean : α
  /-- The sum of squared distances from the mean. -/
  spread : α
  least : α
  greatest : α

variable {α : Type} [Measure α]

/-- What is kept before any value was seen; the first one stands for both ends of the range. -/
def Moments.before (first : α) : Moments α := ⟨0, Measure.zero, Measure.zero, first, first⟩

/-- Takes one value more into account. -/
def Moments.push (m : Moments α) (x : α) : Moments α :=
  let delta := Measure.sub x m.mean
  let mean := Measure.add m.mean (Measure.div delta (Measure.ofNat (m.seen + 1)))
  { seen := m.seen + 1
    mean
    spread := Measure.add m.spread (Measure.mul delta (Measure.sub x mean))
    least := Measure.least m.least x
    greatest := Measure.greatest m.greatest x }

/-- The standard error of the mean, which is zero for a single value. -/
def Moments.error (m : Moments α) : α :=
  if m.seen > 1 then
    Measure.sqrt (Measure.div (Measure.div m.spread (Measure.ofNat (m.seen - 1)))
      (Measure.ofNat m.seen))
  else Measure.zero

/-- Sums a sample up. -/
def summarize : List α → Summary α
  | [] => ⟨Measure.undefined, Measure.undefined, Measure.undefined, Measure.undefined, 0⟩
  | first :: rest =>
    let m := (first :: rest).foldl Moments.push (.before first)
    ⟨m.mean, m.error, m.least, m.greatest, m.seen⟩

end Tangent.Sample
