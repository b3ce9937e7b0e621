import Tangent.Decimal.Binary64

/-! Decimal digits of a double: the fewest that read back, or a given number of them. -/

namespace Tangent.Decimal

open Binary64

variable {α : Type} [Stored α]

/--
A positive decimal `0.d₁d₂… * 10 ^ point`.

The first digit is not zero; no digits at all stand for zero.
-/
structure Digits where
  digits : List Nat
  point : Int
deriving DecidableEq, Repr

/-- The ratio `num / den` divided by `10 ^ place`, as a new numerator and denominator. -/
def overPowerOfTen (num den : Nat) (place : Int) : Nat × Nat :=
  if place ≥ 0 then (num, den * Nat.pow 10 place.toNat)
  else (num * Nat.pow 10 (-place).toNat, den)

/-- Whether a ratio is at least `10 ^ place`. -/
def reaches (num den : Nat) (place : Int) : Bool :=
  let (num, den) := overPowerOfTen num den place
  num ≥ den

/--
The position of a positive ratio: the least `p` with `num / den < 10 ^ p`.

The lengths in bits bound the ratio from below by a power of two, hence by a power of ten, and
at most three steps are left to the true position.
-/
def position (num den : Nat) : Int :=
  let lower := (((num.log2 : Int) - (den.log2 : Int) - 1) * 30103) / 100000
  if reaches num den (lower + 2) then lower + 3
  else if reaches num den (lower + 1) then lower + 2
  else if reaches num den lower then lower + 1
  else lower

/-- The decimal digits of a number, most significant first. -/
def digitsOf (n : Nat) : List Nat :=
  (Nat.toDigits 10 n).map (fun c => c.toNat - 48)

/-- Digits without the zeros at their end. -/
def trimZeros (digits : List Nat) : List Nat :=
  (digits.reverse.dropWhile (· == 0)).reverse

/-- An integer on a decimal grid, as digits: `n * 10 ^ place`. -/
def ofGrid (n : Nat) (place : Int) : Digits :=
  let digits := digitsOf n
  ⟨trimZeros digits, place + digits.length⟩

/--
The reals that read back as a given double, in quarters of its last place.

The ends belong to the interval exactly when the significand is even. Below a power of two the
doubles lie twice as close, which halves the distance to the lower end.
-/
structure Interval where
  low : Nat
  value : Nat
  high : Nat
  closed : Bool
  /-- Binary exponent of one quarter of the last place. -/
  exponent : Int

/-- The interval of reals that read back as a finite positive double. -/
def Interval.ofMagnitude (m : Magnitude) : Interval :=
  let narrow := m.significand == hiddenBit && m.exponent > -1074
  { low := 4 * m.significand - (if narrow then 1 else 2)
    value := 4 * m.significand
    high := 4 * m.significand + 2
    closed := m.significand % 2 == 0
    exponent := m.exponent - 2 }

/--
The best decimal on the grid `10 ^ place` inside an interval, if there is one.

The value's two neighbours on the grid are tried; of two hits the nearer wins, and of two equally
near ones the even.
-/
def Interval.onGrid? (i : Interval) (place : Int) : Option Nat :=
  -- All three bounds over one denominator, in units of the grid.
  let (unit, den) := overPowerOfTen 1 1 place
  let (unit, den) := scaleDown unit den (-i.exponent)
  let below := i.value * unit / den
  let above := below + 1
  let belowFits := if i.closed then i.low * unit ≤ below * den else i.low * unit < below * den
  let aboveFits := if i.closed then above * den ≤ i.high * unit else above * den < i.high * unit
  if i.value * unit % den == 0 then some below
  else if belowFits && aboveFits then some (roundRatio (i.value * unit) den)
  else if belowFits then some below
  else if aboveFits then some above
  else none

/-- The first grid, from the given number of digits on, that meets the interval. -/
def Interval.shortestFrom (i : Interval) (top : Int) (count : Nat) : Nat → Digits
  | 0 => ofGrid i.value i.exponent
  | fuel + 1 =>
    match i.onGrid? (top - count) with
    | some n => ofGrid n (top - count)
    | none => i.shortestFrom top (count + 1) fuel

/-- A finite double as a ratio. -/
def ratio (m : Magnitude) : Nat × Nat :=
  scaleDown m.significand 1 (-m.exponent)

/-- The fewest digits that read back as the double, and of those the nearest to it. -/
def shortest (x : α) : Digits :=
  let m := magnitude x
  if m.significand == 0 then ⟨[], 0⟩
  else
    let (num, den) := ratio m
    -- Seventeen digits tell any two doubles apart.
    (Interval.ofMagnitude m).shortestFrom (position num den) 1 17

/-- The double rounded to a number of significant digits, a tie to the even digit. -/
def rounded (count : Nat) (x : α) : Digits :=
  let m := magnitude x
  if m.significand == 0 then ⟨[], 0⟩
  else
    let (num, den) := ratio m
    let place := position num den - count
    let (num, den) := overPowerOfTen num den place
    ofGrid (roundRatio num den) place

end Tangent.Decimal
