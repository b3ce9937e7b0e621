import Tangent.Expr.Check
import Tangent.Text.Quoted
import Tangent.Vector.Backend

/-!
The walk that evaluates an expression together with its derivative.

A node leaves its value and its derivative in two registers. Sums and products collect what their
operands leave there in a borrowed block. The walk only calls a backend, so the same walk
computes on memory and records a program.
-/

namespace Tangent

/-- The data of a variable and its derivative along the direction of the walk. -/
structure Binding (α β : Type) where
  data : β
  seed : α
deriving Repr

/-- What a walk works on: the number of paths, the two registers and the variables. -/
structure Context (α β : Type) where
  paths : Int64
  value : β
  deriv : β
  bindings : NameMap (Binding α β)

/-- Why a walk stopped. -/
inductive WalkError where
  | emptyPlace
  | noOperands (kind : Kind)
  | unbound (name : String)
  | paths (count : Int64)
  | alloc (requested : Int64) (cause : AllocError)
deriving DecidableEq, Repr

/-- The message of a walk error. -/
def WalkError.message : WalkError → String
  | .emptyPlace => emptyPlaceText
  | .noOperands kind => s!"{kind.name}: {noOperandsText}"
  | .unbound name => "unbound variable: " ++ Text.quote name
  | .paths count => s!"path count must be positive: got {count}"
  | .alloc requested cause => s!"acquire {requested} elements: {cause.message}"

namespace Context

variable {α β : Type}

/-- A context without variables. -/
def new (paths : Int64) (value deriv : β) : Context α β := ⟨paths, value, deriv, .empty⟩

/-- Binds a variable. -/
def bind (c : Context α β) (name : String) (data : β) (seed : α) : Context α β :=
  { c with bindings := c.bindings.insert name ⟨data, seed⟩ }

/-- What a variable is bound to. -/
def lookup (c : Context α β) (name : String) : Except WalkError (Binding α β) :=
  match c.bindings.find? name with
  | some binding => .ok binding
  | none => .error (.unbound name)

/-- The bound names in order. -/
def names (c : Context α β) : List String := c.bindings.names

/-- Accepts a context with at least one path. -/
def validate (c : Context α β) : Except WalkError Unit :=
  if c.paths ≤ 0 then .error (.paths c.paths) else .ok ()

end Context

namespace Walk

variable {σ α β : Type}

/-- Multiplies each of several buffers by a source. -/
def mulEach (be : Backend σ WalkError α β) (src : β) (n : Int64) :
    List β → Action σ WalkError Unit
  | [] => pure ()
  | dst :: rest => do
    be.mul src dst n
    mulEach be src n rest

/-- Adds each of several buffers to a destination. -/
def addEach (be : Backend σ WalkError α β) (dst : β) (n : Int64) :
    List β → Action σ WalkError Unit
  | [] => pure ()
  | src :: rest => do
    be.add src dst n
    addEach be dst n rest

/-- The derivative of a product is the sum of its partial products. -/
def sumPartials (be : Backend σ WalkError α β) (deriv : β) (n : Int64) :
    List β → Action σ WalkError Unit
  | [] => pure ()
  | first :: rest => do
    be.copy first deriv n
    addEach be deriv n rest

mutual

/-- Leaves the value and the derivative of a tree in the registers. -/
def visit [Elem α] (be : Backend σ WalkError α β) (c : Context α β) :
    Expr α → Action σ WalkError Unit
  | .hole => Action.fail .emptyPlace
  | .unset _ => Action.fail .emptyPlace
  | .const value => do
    be.set c.value value c.paths
    be.zero c.deriv c.paths
  | .var name => do
    let binding ← Action.ofExcept (c.lookup name)
    be.copy binding.data c.value c.paths
    be.set c.deriv binding.seed c.paths
  | .add operands =>
    if operands.isEmpty then Action.fail (.noOperands .add)
    else
      -- One stretch for the sum of the values and one for the sum of the derivatives.
      be.withTemp (2 * c.paths) (.alloc (2 * c.paths)) fun temp => do
        let value ← be.slot temp 0 c.paths
        let deriv ← be.slot temp 1 c.paths
        be.zero temp.buffer (2 * c.paths)
        visitSum be c value deriv operands
        be.copy value c.value c.paths
        be.copy deriv c.deriv c.paths
  | .mul operands =>
    if operands.isEmpty then Action.fail (.noOperands .mul)
    else
      -- One stretch for the product and one for each factor's partial product.
      let size := (Int64.ofNat operands.length + 1) * c.paths
      be.withTemp size (.alloc size) fun temp => do
        let value ← be.slot temp 0 c.paths
        let partials ← be.slots temp c.paths 1 operands.length
        -- All products start with one, so that no factor is a special case.
        be.fill temp.buffer Elem.one size
        visitProduct be c value [] partials operands
        sumPartials be c.deriv c.paths partials
        be.copy value c.value c.paths
  | .exp exponent => do
    visit be c exponent
    -- The new value is a factor of the derivative, so it comes first.
    be.exp c.value c.paths
    be.mul c.value c.deriv c.paths

/-- Adds the values and derivatives of operands to two stretches. -/
def visitSum [Elem α] (be : Backend σ WalkError α β) (c : Context α β) (value deriv : β) :
    List (Expr α) → Action σ WalkError Unit
  | [] => pure ()
  | e :: rest => do
    visit be c e
    be.add c.value value c.paths
    be.add c.deriv deriv c.paths
    visitSum be c value deriv rest

/--
Multiplies the values of factors into the product and the partial products.

A factor enters its own partial product with its derivative and all others with its value. The
partial products of the factors before come first, then that of the factor itself.
-/
def visitProduct [Elem α] (be : Backend σ WalkError α β) (c : Context α β) (value : β)
    (before after : List β) : List (Expr α) → Action σ WalkError Unit
  | [] => pure ()
  | e :: rest => do
    visit be c e
    be.mul c.value value c.paths
    -- There is a partial product for every factor, so these do not run out first.
    match after with
    | [] => pure ()
    | own :: after => do
      be.mul c.deriv own c.paths
      mulEach be c.value c.paths before
      mulEach be c.value c.paths after
      visitProduct be c value (before ++ [own]) after rest

end

/-- The walk over a whole tree, for at least one path. -/
def generate [Elem α] (be : Backend σ WalkError α β) (c : Context α β) (root : Expr α) :
    Action σ WalkError Unit := do
  Action.ofExcept c.validate
  visit be c root

end Walk

end Tangent
