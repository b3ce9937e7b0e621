import Tangent.Expr.Basic
import Tangent.Text.Quoted
import Tangent.Yaml.Data
import Tangent.Yaml.Reads

/-!
Expressions in documents.

A node is a mapping with one entry, whose key says the kind; a number stands for a constant.
-/

namespace Tangent

/-- Why a node of a document is no expression, and on which line. -/
inductive ExpressionError where
  | notNumber (line : Nat) (text : String)
  | notMapping (line : Nat)
  | notSingle (line : Nat)
  | badConst (line : Nat)
  | noName (line : Nat)
  | notList (line : Nat) (kind : Kind)
  | noOperands (line : Nat) (kind : Kind)
  | unknownKind (line : Nat) (key : String)
  | endless (line : Nat)
deriving DecidableEq, Repr

/-- The wording shared by all messages about an expression that cannot be used. -/
def invalidExpressionText : String := "invalid expression"

/-- The message of an expression error. -/
def ExpressionError.message (e : ExpressionError) : String :=
  let text :=
    match e with
    | .notNumber line text => s!"line {line}: scalar {Text.quote text} is not a number"
    | .notMapping line => s!"line {line}: expected a mapping"
    | .notSingle line => s!"line {line}: node must have exactly one key"
    | .badConst line => s!"line {line}: const: yaml: expected a number"
    | .noName line => s!"line {line}: var needs a name"
    | .notList line kind => s!"line {line}: {kind.name} expects a list"
    | .noOperands line kind => s!"line {line}: {kind.name} needs at least one operand"
    | .unknownKind line key => s!"line {line}: unknown node {Text.quote key}"
    | .endless line => s!"line {line}: expression contains itself"
  s!"{invalidExpressionText}: {text}"

/-- A number that scalars can stand for. -/
class Numeral (α : Type) where
  ofScalar? : Yaml.Scalar → Option α

/-- A scalar that stands for nothing is zero. -/
instance : Numeral Float where
  ofScalar? s := do
    match ← s.value? with
    | .null => return 0.0
    | value => value.float?

/-- A reading of scalars as text, of which there is none for a scalar that is no text. -/
class ScalarText where
  text? : Yaml.Scalar → Option String

/-- A scalar that stands for nothing has no text, and what is no text is read as it is written. -/
instance : ScalarText where
  text? s := do
    match ← s.value? with
    | .null => none
    | value => return s.textOf value

namespace Expr

open Yaml (Node)

variable {α : Type}

/-- What a node says as a key. -/
def keyText : Node → String
  | .scalar _ s => s.text
  | .alias _ name _ => name
  | .loop content => content.name
  | _ => ""

/-- The number a node stands for. -/
def numberOf? [Numeral α] : Node → Option α
  | .scalar _ s => Numeral.ofScalar? s
  | .alias _ _ target => numberOf? target
  | _ => none

/-- The name a node stands for, which is not empty. -/
def nameOf? [ScalarText] : Node → Option String
  | .scalar _ s => do
    let name ← ScalarText.text? s
    if name.isEmpty then none else return name
  | .alias _ _ target => nameOf? target
  | _ => none

/-- The kind that a key says. -/
def kindOf? (key : String) : Option Kind :=
  [Kind.const, .var, .add, .mul, .exp].find? (fun kind => kind.name == key)

mutual

/--
Reads an expression, or reports the first fault, where a node comes before its operands.

An alias of something that it is part of would be followed for ever; here it is an error.
-/
def ofNode [Numeral α] [ScalarText] : Node → Except ExpressionError (Expr α)
  | .alias _ _ target =>
    -- Reading goes through one alias, which in a document never stands for another one.
    if target.isAlias then .error (.notMapping target.line) else ofNode target
  | .scalar line s =>
    match Numeral.ofScalar? s with
    | some value => .ok (.const value)
    | none => .error (.notNumber line s.text)
  | .list line _ _ => .error (.notMapping line)
  | .mapping _ _ [(key, body)] =>
    match kindOf? (keyText key) with
    | some .const =>
      match numberOf? body with
      | some value => .ok (.const value)
      | none => .error (.badConst body.line)
    | some .var =>
      match nameOf? body with
      | some name => .ok (.var name)
      | none => .error (.noName body.line)
    | some .add => (ofOperands .add body).map .add
    | some .mul => (ofOperands .mul body).map .mul
    | some .exp => (ofNode body).map .exp
    | none => .error (.unknownKind key.line (keyText key))
  | .mapping line _ _ => .error (.notSingle line)
  | .loop content =>
    .error (if content.isList then .notMapping content.targetLine else .endless content.targetLine)

/-- Reads the operands of a sum or a product. -/
def ofOperands [Numeral α] [ScalarText] (kind : Kind) :
    Node → Except ExpressionError (List (Expr α))
  | .list line _ [] => .error (.noOperands line kind)
  | .list _ _ items => ofNodes items
  | .scalar line _ => .error (.notList line kind)
  | .mapping line _ _ => .error (.notList line kind)
  | .alias line _ _ => .error (.notList line kind)
  | .loop content => .error (.notList content.line kind)

/-- Reads several expressions in turn. -/
def ofNodes [Numeral α] [ScalarText] : List Node → Except ExpressionError (List (Expr α))
  | [] => .ok []
  | node :: rest => do
    let first ← ofNode node
    let others ← ofNodes rest
    return first :: others

end

/-- A mapping that is tagged as nothing has no entry but an empty node. -/
def emptyForm : Yaml.Form ExpressionError (Expr α) where
  names := some ["node"]
  reads _ current _ := Yaml.follow fun node =>
    if node.isNull then return .hole
    else do
      Yaml.expected node.line "nothing"
      return current

/-- Reads an expression over what was there, which a null leaves. -/
def read [Numeral α] [ScalarText] (current : Expr α) : Node → Yaml.Reads ExpressionError (Expr α) :=
  Yaml.follow fun node =>
    if node.isNull then do return (← emptyForm.readHere? current node).getD current
    else
      match ofNode node with
      | .ok e => return e
      | .error cause => throw (.content cause)

/-- The expression a text holds, if it holds anything. -/
def ofDocument [Numeral α] [ScalarText] (text : String) :
    Except (Yaml.Refusal ExpressionError) (Option (Expr α)) := do
  match ← Yaml.readDocument (read .hole) .hole text with
  | .hole => return none
  | e => return some e

mutual

/-- An expression as data. -/
def toData : Expr α → Except Fault (Yaml.Data α)
  | .const value => .ok (.entry "const" (.number value))
  | .var name => .ok (.entry "var" (.text name))
  | .add operands => do return .entry "add" (.list (← toDataAll operands))
  | .mul operands => do return .entry "mul" (.list (← toDataAll operands))
  | .exp exponent => do return .entry "exp" (← exponent.toData)
  | .hole => .error (emptyFault (.hole : Expr α))
  | .unset kind => .error (emptyFault (.unset kind : Expr α))

/-- Several expressions as data. -/
def toDataAll : List (Expr α) → Except Fault (List (Yaml.Data α))
  | [] => .ok []
  | e :: rest => do
    let first ← e.toData
    let others ← toDataAll rest
    return first :: others

end

/-- A whole expression as data, of which there is none for an empty tree. -/
def toData? : Expr α → Except Fault (Option (Yaml.Data α))
  | .hole => .ok none
  | e => e.toData.map some

/-- An expression as a document. -/
def document [Yaml.Scalable α] (e : Expr α) : Except Fault String := do
  match ← e.toData? with
  | none => return "null\n"
  | some data => return data.write

end Expr

end Tangent
