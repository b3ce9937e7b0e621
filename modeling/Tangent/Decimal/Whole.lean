import Tangent.Decimal.Read

/-! Reading whole numbers, in the base that a mark in front of the digits says. -/

namespace Tangent.Decimal

/-- Why a text is no whole number. -/
inductive WholeFault where
  | malformed
  | outOfRange
deriving DecidableEq, Repr

/-- The wording of a fault. -/
def WholeFault.message : WholeFault → String
  | .malformed => "invalid syntax"
  | .outOfRange => "value out of range"

/-- The value of a digit of any base, where letters follow the ten figures. -/
def anyDigit? (c : Char) : Option Nat :=
  if c.isDigit then some (digitValue c)
  else if c.isAlpha then some (c.toLower.toNat - 87)
  else none

/-- Reads digits after a number, up to a limit; underscores count for nothing where allowed. -/
def readDigits (base limit : Nat) (underscores : Bool) : Nat → List Char → Except WholeFault Nat
  | n, [] => .ok n
  | n, c :: cs =>
    if underscores && c == '_' then readDigits base limit underscores n cs
    else
      match anyDigit? c with
      | none => .error .malformed
      | some digit =>
        if digit ≥ base then .error .malformed
        else if base * n + digit > limit then .error .outOfRange
        else readDigits base limit underscores (base * n + digit) cs

/-- Whether every underscore has a digit on both sides. -/
def parted (afterDigit : Bool) : List Char → Bool
  | [] => true
  | c :: cs =>
    if c == '_' then afterDigit && !(cs.isEmpty || cs.head? == some '_') && parted false cs
    else parted true cs

/-- The base that a mark in front says, and the digits after the mark. -/
def baseOf : List Char → Nat × List Char
  | '0' :: mark :: c :: cs =>
    match mark.toLower with
    | 'b' => (2, c :: cs)
    | 'o' => (8, c :: cs)
    | 'x' => (16, c :: cs)
    | _ => (8, mark :: c :: cs)
  | '0' :: cs => (8, cs)
  | cs => (10, cs)

/-- The largest word. -/
def maxWord : Nat := 0xffffffffffffffff

/-- The magnitude of the least signed word, which no other one reaches. -/
def signedReach : Nat := 0x8000000000000000

/-- Reads a number without a sign. -/
def readNatural (cs : List Char) : Except WholeFault Nat := do
  if cs.isEmpty then throw .malformed
  let (base, digits) := baseOf cs
  let n ← readDigits base maxWord true 0 digits
  if parted (digits.length < cs.length) digits then return n else throw .malformed

/-- A magnitude with its sign, if a signed word can hold it. -/
def withSign (negative : Bool) (magnitude : Nat) : Except WholeFault Int :=
  if negative then
    if magnitude ≤ signedReach then .ok (-magnitude) else .error .outOfRange
  else if magnitude < signedReach then .ok magnitude
  else .error .outOfRange

/-- Reads a number that may have a sign. -/
def readInteger (cs : List Char) : Except WholeFault Int := do
  let (negative, digits) := takeSign cs
  withSign negative (← readNatural digits)

/-- Reads decimal digits that may have a sign. -/
def readSigned (cs : List Char) : Except WholeFault Int := do
  let (negative, digits) := takeSign cs
  if digits.isEmpty then throw .malformed
  withSign negative (← readDigits 10 maxWord false 0 digits)

end Tangent.Decimal
