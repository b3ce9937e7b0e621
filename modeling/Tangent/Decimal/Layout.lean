import Tangent.Decimal.Digits

/-! How a double is written: when the exponent is spelled out, and with how many places. -/

namespace Tangent.Decimal

variable {α : Type} [Stored α]

/-- Digits as text. -/
def digitText (digits : List Nat) : String :=
  String.ofList (digits.map Nat.digitChar)

/-- As many zeros as asked for. -/
def zeros (count : Nat) : String :=
  String.ofList (List.replicate count '0')

/-- Digits padded with zeros on the right to at least a given length. -/
def padRight (digits : List Nat) (count : Nat) : List Nat :=
  digits ++ List.replicate (count - digits.length) 0

/-- The digits around a decimal point, with no places beyond the last digit. -/
def positional (d : Digits) : String :=
  if d.point ≤ 0 then
    if d.digits.isEmpty then "0"
    else "0." ++ zeros (-d.point).toNat ++ digitText d.digits
  else
    let whole := padRight (d.digits.take d.point.toNat) d.point.toNat
    let rest := d.digits.drop d.point.toNat
    if rest.isEmpty then digitText whole else digitText whole ++ "." ++ digitText rest

/-- The power of ten of the leading digit, which is zero for zero. -/
def exponentOf (d : Digits) : Int :=
  if d.digits.isEmpty then 0 else d.point - 1

/-- An exponent with its sign and at least a given number of digits. -/
def exponentText (width : Nat) (e : Int) : String :=
  let digits := (Nat.toDigits 10 e.natAbs)
  (if e < 0 then "e-" else "e+") ++ zeros (width - digits.length) ++ String.ofList digits

/-- One digit, the rest after a point padded to a number of places, and the exponent. -/
def scientific (places : Nat) (width : Int → Nat) (d : Digits) : String :=
  let digits := padRight d.digits (places + 1)
  let rest := digits.drop 1
  let mantissa := digitText (digits.take 1)
  (if rest.isEmpty then mantissa else mantissa ++ "." ++ digitText rest)
    ++ exponentText (width (exponentOf d)) (exponentOf d)

/-- A double with its sign and the names of the values that have no digits. -/
def signed (x : α) (body : α → String) : String :=
  if Binary64.finite x then (if Binary64.signBit x then "-" else "") ++ body x
  else if Binary64.isNaN x then "NaN"
  else if Binary64.signBit x then "-Inf" else "+Inf"

/-- The fewest digits that read back; the exponent is spelled out below `1e-4` and from `1e6` on. -/
def exact (x : α) : String :=
  signed x fun x =>
    let d := shortest x
    let e := exponentOf d
    if e < -4 || e ≥ 6 then scientific 0 (fun _ => 2) d else positional d

/-- Ten significant digits with the exponent always spelled out. -/
def tenDigits (x : α) : String :=
  signed x fun x => scientific 9 (fun _ => 2) (rounded 10 x)

/--
A number of significant digits without trailing zeros.

The exponent is spelled out below `1e-4` and where the digits end before the units.
-/
def significant (count : Nat) (x : α) : String :=
  signed x fun x =>
    let d := rounded count x
    let e := exponentOf d
    if e < -4 || e ≥ count then scientific 0 (fun _ => 2) d else positional d

/--
The fewest digits that read back, as a saved program's header writes them.

The exponent is spelled out below `1e-6` and from `1e21` on, and a negative one is not padded.
-/
def headerNumber (x : α) : String :=
  signed x fun x =>
    let d := shortest x
    let e := exponentOf d
    if e < -6 || e ≥ 21 then scientific 0 (fun e => if e < 0 then 1 else 2) d
    else positional d

end Tangent.Decimal
