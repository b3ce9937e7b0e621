import Tangent.Config.Basic
import Tangent.File.Bytes

/-! Descriptions of a run in documents. What a document leaves out stays as it was. -/

namespace Tangent.Config

open Yaml (Node Reads readInt readNat readFloat readBool readText)

/-- The settings of a variable. -/
def variableForm : Yaml.Form ExpressionError Variable where
  names := some ["dist", "value", "seed"]
  reads _ v name node := do
    match name with
    | "dist" => return { v with dist := ← readText v.dist node }
    | "value" => return { v with value := ← readFloat v.value node }
    | "seed" => return { v with seed := ← readFloat v.seed node }
    | _ => return v

/-- The variables, each by its name. -/
def variablesForm : Yaml.Form ExpressionError (NameMap Variable) where
  names := none
  reads broughtIn found name node := do
    match ← variableForm.read? default node with
    | some v => return found.insert name v
    | none =>
      -- A null that is brought in does not replace a variable.
      if broughtIn && found.contains name then return found
      else return found.insert name default

/-- The settings of a run. -/
def runtimeForm : Yaml.Form ExpressionError Runtime where
  names := some ["eager", "workers", "max_temp_elements", "concurrency", "log_level"]
  reads _ r name node := do
    match name with
    | "eager" => return { r with eager := ← readBool r.eager node }
    | "workers" => return { r with workers := ← readInt r.workers node }
    | "max_temp_elements" =>
      return { r with maxTempElements := ← readInt r.maxTempElements node }
    | "concurrency" => return { r with concurrency := ← readInt r.concurrency node }
    | "log_level" => return { r with logLevel := ← readText r.logLevel node }
    | _ => return r

/-- Reads variables; a null stands for those of the demonstration. -/
def readVariables (node : Node) : Reads ExpressionError (NameMap Variable) := do
  -- Variables that are given replace all of the demonstration, also by none at all.
  return (← variablesForm.read? .empty node).getD demoVariables

/-- The parts of a description. -/
def form : Yaml.Form ExpressionError Config where
  names := some ["paths", "random_seed", "variables", "expression", "runtime"]
  reads _ c name node := do
    match name with
    | "paths" => return { c with paths := ← readInt c.paths node }
    | "random_seed" => return { c with randomSeed := ← readNat c.randomSeed node }
    | "variables" => return { c with declared := ← readVariables node }
    | "expression" => return { c with expression := ← Expr.read c.expression node }
    | "runtime" => return { c with runtime := ← runtimeForm.read c.runtime node }
    | _ => return c

/-- Why a description cannot be read. -/
def refused : Yaml.Refusal ExpressionError → ConfigError
  | .document text => .document text
  | .content cause => .expression cause

/-- The description of a text, as far as it departs from the demonstration, if it can be run. -/
def parse (text : String) : Except ConfigError Config := do
  let c ← (Yaml.readDocument (form.read demo) demo text).mapError refused
  c.validate
  return c

/-- The description of a file, which has to be text. -/
def ofBytes (bytes : Bytes) : Except ConfigError Config :=
  if isText bytes.length bytes then parse (String.ofList (charsOf bytes))
  else .error (.document (Yaml.Problem.message ⟨1, .control⟩))

end Tangent.Config
