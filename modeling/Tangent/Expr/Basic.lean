import Tangent.Action
import Tangent.NameMap
import Tangent.Decimal.Layout

/-! Expression trees: their kinds, their operands and their written form. -/

namespace Tangent

/-- What a node of an expression does with its operands. -/
inductive Kind where
  | const
  | var
  | add
  | mul
  | exp
deriving DecidableEq, Repr

/-- The name of a kind. -/
def Kind.name : Kind → String
  | .const => "const"
  | .var => "var"
  | .add => "add"
  | .mul => "mul"
  | .exp => "exp"

/-- The kind with a given number, counted in the order above. -/
def Kind.ofCode? (code : Int) : Option Kind :=
  match code with
  | 0 => some .const
  | 1 => some .var
  | 2 => some .add
  | 3 => some .mul
  | 4 => some .exp
  | _ => none

/--
An expression over named inputs.

Sums and products take any number of operands. A place in a tree may also be empty: `hole` says
nothing about what belongs there, `unset` says the kind, as an empty pointer of that kind would.
A pointer that is not empty is identified with the node it leads to, so a node that is shared, or
handed over by value, is not told from any other.
-/
inductive Expr (α : Type) where
  | const (value : α)
  | var (name : String)
  | add (operands : List (Expr α))
  | mul (operands : List (Expr α))
  | exp (exponent : Expr α)
  | hole
  | unset (kind : Kind)

/-- A number that has a written form. -/
class Written (α : Type) where
  write : α → String

/-- Doubles are written with the fewest digits that read back. -/
instance : Written Float := ⟨Decimal.exact⟩

namespace Expr

variable {α : Type}

instance : Inhabited (Expr α) := ⟨.hole⟩

/-- Whether a place in a tree holds no node. -/
def isEmpty : Expr α → Bool
  | .hole => true
  | .unset _ => true
  | _ => false

/-- What reading an empty place does: of a `hole` not even the kind is known. -/
def emptyFault : Expr α → Fault
  | .hole => .panic "expr: unknown node type <nil>"
  | _ => .access

/-- The kind of a node. -/
def kind : Expr α → Except Fault Kind
  | .const _ => .ok .const
  | .var _ => .ok .var
  | .add _ => .ok .add
  | .mul _ => .ok .mul
  | .exp _ => .ok .exp
  | .hole => .error .access
  | .unset _ => .error .access

/-- The operands of a node in order. -/
def children : Expr α → Except Fault (List (Expr α))
  | .const _ => .ok []
  | .var _ => .ok []
  | .add operands => .ok operands
  | .mul operands => .ok operands
  | .exp exponent => .ok [exponent]
  | .hole => .error .access
  | .unset _ => .error .access

mutual

/-- The number of nodes of a tree without empty places. -/
def size : Expr α → Except Fault Nat
  | .const _ => .ok 1
  | .var _ => .ok 1
  | .add operands => (sizeAll operands).map (· + 1)
  | .mul operands => (sizeAll operands).map (· + 1)
  | .exp exponent => exponent.size.map (· + 1)
  | .hole => .error .access
  | .unset _ => .error .access

/-- The number of nodes of several trees. -/
def sizeAll : List (Expr α) → Except Fault Nat
  | [] => .ok 0
  | e :: rest => do
    let first ← e.size
    let others ← sizeAll rest
    return first + others

end

mutual

/-- The written form of a tree: an operation with its operands in brackets. -/
def write [Written α] : Expr α → Except Fault String
  | .const value => .ok (Written.write value)
  | .var name => .ok name
  | .add operands => do return "(add" ++ (← writeAll operands) ++ ")"
  | .mul operands => do return "(mul" ++ (← writeAll operands) ++ ")"
  | .exp exponent => do return "(exp " ++ (← exponent.write) ++ ")"
  | .hole => .error (emptyFault (.hole : Expr α))
  | .unset kind => .error (emptyFault (.unset kind : Expr α))

/-- The written forms of operands, each after a space. -/
def writeAll [Written α] : List (Expr α) → Except Fault String
  | [] => .ok ""
  | e :: rest => do
    let first ← e.write
    let others ← writeAll rest
    return " " ++ first ++ others

end

/-- What a walk over a tree meets, node by node. -/
inductive Label (α : Type) where
  | const (value : α)
  | var (name : String)
  | add (operands : Nat)
  | mul (operands : Nat)
  | exp

mutual

/-- The nodes of a tree, each before its operands. -/
def labels : Expr α → Except Fault (List (Label α))
  | .const value => .ok [.const value]
  | .var name => .ok [.var name]
  | .add operands => do return .add operands.length :: (← labelsAll operands)
  | .mul operands => do return .mul operands.length :: (← labelsAll operands)
  | .exp exponent => do return .exp :: (← exponent.labels)
  | .hole => .error (emptyFault (.hole : Expr α))
  | .unset kind => .error (emptyFault (.unset kind : Expr α))

/-- The nodes of several trees in turn. -/
def labelsAll : List (Expr α) → Except Fault (List (Label α))
  | [] => .ok []
  | e :: rest => do
    let first ← e.labels
    let others ← labelsAll rest
    return first ++ others

end

/-- The name a node asks for, if it is a variable. -/
def Label.name? : Label α → Option String
  | .var name => some name
  | _ => none

/-- The names that occur in a tree, in order and without repetition. -/
def vars (e : Expr α) : Except Fault (List String) := do
  let found := (← e.labels).filterMap Label.name?
  return (NameMap.ofList (found.map (fun name => (name, ())))).names

mutual

/-- Whether an exponential occurs anywhere in a tree. -/
def hasExp : Expr α → Bool
  | .const _ => false
  | .var _ => false
  | .add operands => hasExpAny operands
  | .mul operands => hasExpAny operands
  | .exp _ => true
  | .hole => false
  | .unset _ => false

/-- Whether an exponential occurs in one of several trees. -/
def hasExpAny : List (Expr α) → Bool
  | [] => false
  | e :: rest => e.hasExp || hasExpAny rest

end

end Expr

end Tangent
