import Tangent.Decimal.Binary64

/-! Reading a decimal: the double nearest to digits and a power of ten. -/

namespace Tangent.Decimal

/-- The value of a digit. -/
def digitValue (c : Char) : Nat := c.toNat - 48

/-- The number a row of digits stands for. -/
def natOfDigits (digits : List Char) : Nat :=
  digits.foldl (fun n c => 10 * n + digitValue c) 0

/-- A decimal number as it was written. -/
structure Literal where
  negative : Bool
  whole : List Char
  fraction : List Char
  exponent : Int

/--
The double nearest to a literal; too large a one gives an infinity.

Beyond four hundred places on either side the answer no longer depends on the digits.
-/
def Literal.toFloat {α : Type} [Stored α] (l : Literal) : α :=
  let coefficient := natOfDigits (l.whole ++ l.fraction)
  let power := l.exponent - l.fraction.length
  let length := ((Nat.toDigits 10 coefficient).length : Int)
  if coefficient == 0 || length + power < -400 then Binary64.nearest l.negative 0 1
  else if length + power > 400 then Binary64.nearest l.negative (Nat.pow 10 400) 1
  else if power ≥ 0 then Binary64.nearest l.negative (coefficient * Nat.pow 10 power.toNat) 1
  else Binary64.nearest l.negative coefficient (Nat.pow 10 (-power).toNat)

/-- A sign in front, if there is one. -/
def takeSign : List Char → Bool × List Char
  | '-' :: rest => (true, rest)
  | '+' :: rest => (false, rest)
  | cs => (false, cs)

/-- The digits in front, and what follows them. -/
def takeDigits (cs : List Char) : List Char × List Char :=
  (cs.takeWhile Char.isDigit, cs.dropWhile Char.isDigit)

/-- The size of an exponent, of which further digits are passed over once it is ten thousand. -/
def exponentSize (digits : List Char) : Nat :=
  digits.foldl (fun n c => if n < 10000 then 10 * n + digitValue c else n) 0

/-- An exponent in front, if there is one; a mark without digits is none. -/
def takeExponent : List Char → Int × List Char
  | mark :: cs =>
    if mark == 'e' || mark == 'E' then
      let (negative, rest) := takeSign cs
      let (digits, after) := takeDigits rest
      if digits.isEmpty then (0, mark :: cs)
      else ((if negative then -(exponentSize digits : Int) else exponentSize digits), after)
    else (0, mark :: cs)
  | [] => (0, [])

end Tangent.Decimal
