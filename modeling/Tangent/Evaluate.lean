import Tangent.Vector.Host
import Tangent.Walk

/-! Direct evaluation of an expression and its derivative in memory. -/

namespace Tangent

/-- Why an evaluation stopped. -/
inductive EvalError where
  | derivLength (length need : Nat)
  | dataLength (name : String) (length need : Nat)
  | walk (cause : WalkError)
deriving DecidableEq, Repr

/-- The message of an evaluation error. -/
def EvalError.message : EvalError → String
  | .derivLength length need =>
    s!"buffer length does not match path count: deriv has {length} elements, need {need}"
  | .dataLength name length need =>
    "buffer length does not match path count: variable " ++ Text.quote name ++
      s!" has {length} elements, need {need}"
  | .walk cause => cause.message

/-- Binds inputs in order, each of which has to cover all paths. -/
def bindInputs {α : Type} (paths : Nat) (c : Context α View) :
    List (String × Binding α View) → Except EvalError (Context α View)
  | [] => .ok c
  | (name, input) :: rest =>
    if input.data.length < paths then .error (.dataLength name input.data.length paths)
    else bindInputs paths (c.bind name input.data input.seed) rest

/-- Leaves value and derivative of a tree in two registers, one element for each path. -/
def evaluate {σ α : Type} [Elem α] (be : Backend σ WalkError α View) (root : Expr α)
    (inputs : NameMap (Binding α View)) (value deriv : View) : Action σ EvalError Unit := do
  let paths := value.length
  if deriv.length < paths then Action.fail (.derivLength deriv.length paths)
  let c := Context.new (Int64.ofNat paths) value deriv
  let c ← Action.ofExcept (bindInputs paths c inputs.entries)
  (Walk.generate be c root).adapt .walk

end Tangent
