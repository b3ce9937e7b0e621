import Tangent.Decimal.Layout
import Tangent.Yaml.Page

/-! Data without places in a text, and how it is written as a document. -/

namespace Tangent.Yaml

/-- Numbers, texts, lists and mappings with one entry. -/
inductive Data (α : Type) where
  | number (value : α)
  | text (value : String)
  | list (items : List (Data α))
  | entry (key : String) (value : Data α)

/-- A number that has a written form as a scalar. -/
class Scalable (α : Type) where
  write : α → String

/-- Doubles are written with the fewest digits that read back, and infinities by their words. -/
instance : Scalable Float where
  write x :=
    if Binary64.finite x then Decimal.exact x
    else if x.isNaN then ".nan"
    else if x < 0.0 then "-.inf"
    else ".inf"

namespace Data

variable {α : Type}

/-- The columns of one level of nesting. -/
def level : Nat := 4

/-- The indentation of what is nested: behind the mark of an entry, or at the next level. -/
def nestedIndent (outer : Option Nat) (afterDash : Bool) : Nat :=
  match outer with
  | none => 0
  | some indent => if afterDash then indent + 2 else level * ((indent + level) / level)

/-- The indentation of the further lines of a scalar. -/
def scalarIndent (outer : Option Nat) (afterDash : Bool) : Nat :=
  if outer.isNone then level else nestedIndent outer afterDash

mutual

/-- Writes data inside an indentation, after a key or after the mark of an entry. -/
def writeOn [Scalable α] (outer : Option Nat) (afterDash : Bool) (p : Page) : Data α → Page
  | .number value => writePlain p (Scalable.write value).toList
  | .text value => writeText (scalarIndent outer afterDash) p value
  | .list [] => (p.separate.putAll ['[', ']']).closed
  | .list (item :: rest) => writeItems (nestedIndent outer afterDash) p (item :: rest)
  | .entry key value =>
    let indent := nestedIndent outer afterDash
    let p := (writeText indent (p.toIndent indent) key).mark ':' false
    value.writeOn (some indent) false p

/-- Writes the entries of a list, each after a mark of its own. -/
def writeItems [Scalable α] (indent : Nat) (p : Page) : List (Data α) → Page
  | [] => p
  | item :: rest =>
    writeItems indent (item.writeOn (some indent) true ((p.toIndent indent).mark '-' true)) rest

end

/-- A document. -/
def write [Scalable α] (d : Data α) : String := ((d.writeOn none false .blank).toIndent 0).text

end Data

end Tangent.Yaml
