import Tangent.Expr.Check
import Tangent.Expr.Document
import Tangent.Sample.Draw

/-! Descriptions of a run: what is evaluated, on which inputs, and within which limits. -/

namespace Tangent

/-- How the data of an input is drawn, and its derivative. -/
structure Variable where
  /-- The name of a distribution. -/
  dist : String
  /-- What a constant input holds. -/
  value : Float
  seed : Float

/-- A variable of which nothing was said. -/
instance : Inhabited Variable := ⟨⟨"", 0.0, 0.0⟩⟩

/-- Settings of a run. -/
structure Runtime where
  /-- Whether expressions are evaluated at once instead of being compiled. -/
  eager : Bool
  /-- How many chunks kernels work on at a time; zero leaves it open. -/
  workers : Int64
  /-- The most elements that temporaries may hold; zero means no limit. -/
  maxTempElements : Int64
  /-- How many directions of a gradient are worked on at a time. -/
  concurrency : Int64
  logLevel : String

/-- A description of a run. -/
structure Config where
  paths : Int64
  randomSeed : UInt64
  declared : NameMap Variable
  expression : Expr Float
  runtime : Runtime

/-- Why a description cannot be used. -/
inductive ConfigError where
  | paths (count : Int64)
  | noExpression
  | tree (cause : TreeError)
  | negativeLimit
  | unknownDist (name dist : String)
  | undeclared (name : String)
  | document (text : String)
  | expression (cause : ExpressionError)
deriving DecidableEq, Repr

namespace Config

/-- The most paths a run may have. -/
def maxPaths : Int64 := 67108864

/-- The wording shared by all messages about a description. -/
def invalidText : String := "invalid config"

end Config

/-- The message of a config error. -/
def ConfigError.message : ConfigError → String
  | .paths count => s!"{Config.invalidText}: paths must be in [1, {Config.maxPaths}], got {count}"
  | .noExpression => s!"{Config.invalidText}: expression is required"
  | .tree cause => s!"{invalidExpressionText}: {cause.message}"
  | .negativeLimit => s!"{Config.invalidText}: runtime limits must not be negative"
  | .unknownDist name dist =>
    s!"{Config.invalidText}: variable {Text.quote name}: unknown dist {Text.quote dist}"
  | .undeclared name =>
    s!"{Config.invalidText}: expression uses undeclared variable {Text.quote name}"
  | .document text => s!"{Config.invalidText}: {text}"
  | .expression cause => s!"{Config.invalidText}: {cause.message}"

namespace Config

/-- The variables of the demonstration: one uniform input, along which the derivative is taken. -/
def demoVariables : NameMap Variable := .ofList [("x", ⟨"uniform", 0.0, 1.0⟩)]

/-- The demonstration, from which a description departs: `0 + exp (1 + 2 x)`. -/
def demo : Config where
  paths := 10000
  randomSeed := 1
  declared := demoVariables
  expression :=
    .add [.const 0.0, .exp (.add [.const 1.0, .mul [.const 2.0, .var "x"]])]
  runtime := ⟨false, 0, 0, 4, "info"⟩

/-- Accepts a distribution by its name. -/
def checkDist (entry : String × Variable) : Except ConfigError Unit :=
  match Sample.Distribution.ofName? entry.2.dist with
  | some _ => .ok ()
  | none => .error (.unknownDist entry.1 entry.2.dist)

/-- Accepts a name that is declared. -/
def checkDeclared (c : Config) (name : String) : Except ConfigError Unit :=
  if c.declared.contains name then .ok () else .error (.undeclared name)

/-- Accepts the number of paths. -/
def checkPaths (c : Config) : Except ConfigError Unit :=
  if c.paths ≤ 0 || c.paths > maxPaths then .error (.paths c.paths) else .ok ()

/-- Accepts the expression as a tree. -/
def checkTree (c : Config) : Except ConfigError Unit :=
  match c.expression with
  | .hole => .error .noExpression
  | e => e.validate.mapError .tree

/-- Accepts the limits of a run. -/
def checkLimits (c : Config) : Except ConfigError Unit :=
  if c.runtime.workers < 0 || c.runtime.maxTempElements < 0 || c.runtime.concurrency < 0 then
    .error .negativeLimit
  else .ok ()

/-- The names that occur in the expression. -/
def names (c : Config) : List String := c.expression.vars.toOption.getD []

/-- Accepts a description that can be run. -/
def validate (c : Config) : Except ConfigError Unit := do
  c.checkPaths
  c.checkTree
  c.checkLimits
  c.declared.entries.forM checkDist
  c.names.forM c.checkDeclared

/-- The derivative of every input. -/
def seeds (c : Config) : NameMap Float := c.declared.mapValues (fun _ v => v.seed)

end Config

end Tangent
