import Tangent.Action
import Tangent.Decimal.Binary64
import Tangent.Sample.Generator
import Tangent.Vector.Host

/-! Drawing the data of variables. -/

namespace Tangent.Sample

/-- How the data of a variable is distributed. -/
inductive Distribution where
  | uniform
  | normal
  | constant
deriving DecidableEq, Repr

/-- The name of a distribution. -/
def Distribution.name : Distribution → String
  | .uniform => "uniform"
  | .normal => "normal"
  | .constant => "constant"

/-- The distribution of a name. -/
def Distribution.ofName? (name : String) : Option Distribution :=
  [Distribution.uniform, .normal, .constant].find? (fun d => d.name == name)

/-- The natural logarithm of two. -/
def logTwo : Float := 0.6931471805599453

/--
The natural logarithm.

Below the normal range a number is read with the hidden bit and half the least normal exponent,
so that the logarithm levels off there instead of falling on.
-/
def logarithm (x : Float) : Float :=
  if Binary64.exponentField x == 0 && Binary64.fractionField x != 0 && !Binary64.signBit x then
    Float.log (Float.ofBits (x.toBits ||| 0x0010000000000000)) - logTwo
  else Float.log x

/-- A full turn. -/
def fullTurn : Float := 6.283185307179586

/-- Two independent normal numbers out of two uniform ones. -/
def boxMuller (u v : Float) : Float × Float :=
  let radius := Float.sqrt (-2.0 * logarithm u)
  let angle := fullTurn * v
  (radius * Float.cos angle, radius * Float.sin angle)

/-- Draws uniform numbers after those drawn already. -/
def uniformFrom (drawn : Array Float) (g : Generator) : Nat → Array Float × Generator
  | 0 => (drawn, g)
  | count + 1 => uniformFrom (drawn.push g.unit.1) g.unit.2 count

/-- A pair of normal numbers, and the generator after it. -/
def normalPair (g : Generator) : (Float × Float) × Generator :=
  let (u, g) := g.unit
  let (v, g) := g.unit
  (boxMuller (1.0 - u) v, g)

/-- Draws normal numbers in pairs, of which an odd last one gives away its second half. -/
def normalFrom (drawn : Array Float) (g : Generator) : Nat → Array Float × Generator
  | 0 => (drawn, g)
  | 1 =>
    -- The second half is drawn all the same, as if one more number had been asked for.
    let (pair, g) := normalPair g
    (drawn.push pair.1, g)
  | count + 2 =>
    let (pair, g) := normalPair g
    normalFrom ((drawn.push pair.1).push pair.2) g count

/-- Draws a number of values; a constant draws nothing. -/
def drawCount (d : Distribution) (value : Float) (count : Nat) (g : Generator) :
    Array Float × Generator :=
  match d with
  | .uniform => uniformFrom #[] g count
  | .normal => normalFrom #[] g count
  | .constant => (Array.replicate count value, g)

/-- Draws as many values as a machine integer says, if memory can hold them. -/
def draw (d : Distribution) (value : Float) (n : Int64) (g : Generator) :
    Except Fault (Array Float × Generator) :=
  if n < 0 || n > Host.largestBlock then .error .access
  else .ok (drawCount d value n.toNatClampNeg g)

end Tangent.Sample
