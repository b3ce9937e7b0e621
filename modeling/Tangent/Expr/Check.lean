import Tangent.Expr.Basic

/-! Which trees can be evaluated, and where the first fault of the others lies. -/

namespace Tangent

/-- Operand positions that lead from the root of a tree to one of its places. -/
abbrev Place := List Nat

/-- The written form of a place. -/
def Place.text (place : Place) : String :=
  place.foldl (fun text position => s!"{text}.{position}") "root"

/-- What keeps a tree from being evaluated. -/
inductive TreeError where
  /-- A place holds no node. -/
  | emptyPlace (place : Place)
  /-- A sum or a product has nothing to work on. -/
  | noOperands (kind : Kind) (place : Place)
deriving DecidableEq, Repr

/-- The wording shared by all messages about an empty place. -/
def emptyPlaceText : String := "nil expression node"

/-- The wording shared by all messages about a missing operand list. -/
def noOperandsText : String := "n-ary node has no operands"

/-- The message of a tree error. -/
def TreeError.message : TreeError → String
  | .emptyPlace place => s!"{emptyPlaceText} at {place.text}"
  | .noOperands kind place => s!"{kind.name} at {place.text}: {noOperandsText}"

namespace Expr

variable {α : Type}

mutual

/-- Accepts a tree, or reports its first fault, where a node comes before its operands. -/
def check (place : Place) : Expr α → Except TreeError Unit
  | .const _ => .ok ()
  | .var _ => .ok ()
  | .add [] => .error (.noOperands .add place)
  | .add (e :: rest) => checkAll place 0 (e :: rest)
  | .mul [] => .error (.noOperands .mul place)
  | .mul (e :: rest) => checkAll place 0 (e :: rest)
  | .exp exponent => exponent.check (place ++ [0])
  | .hole => .error (.emptyPlace place)
  | .unset _ => .error (.emptyPlace place)

/-- Accepts operands, of which the first has the given position. -/
def checkAll (place : Place) (position : Nat) : List (Expr α) → Except TreeError Unit
  | [] => .ok ()
  | e :: rest => do
    e.check (place ++ [position])
    checkAll place (position + 1) rest

end

/-- Accepts a tree, or reports its first fault. -/
def validate (e : Expr α) : Except TreeError Unit := e.check []

end Expr

end Tangent
