/-! Computations over a state that can stop early, and whose state outlives the stop. -/

namespace Tangent

/-- A stop that is no answer: something was used in a way it must not be used. -/
inductive Fault where
  /-- A misuse that was noticed and described. -/
  | panic (text : String)
  /-- An access outside the memory at hand. -/
  | access
deriving DecidableEq, Repr

/-- Why a computation stopped before its end. -/
inductive Halt (ε : Type) where
  | error (cause : ε)
  | fault (misuse : Fault)
deriving DecidableEq, Repr

/-- The same stop with its error seen from the outside. -/
def Halt.map {ε ε' : Type} (f : ε → ε') : Halt ε → Halt ε'
  | .error cause => .error (f cause)
  | .fault misuse => .fault misuse

/-- A computation over a state. Its effects up to a stop stay. -/
abbrev Action (σ ε : Type) := EStateM (Halt ε) σ

namespace Action

variable {σ τ ε ε' α : Type}

/-- Stops with an error. -/
def fail (cause : ε) : Action σ ε α := throw (.error cause)

/-- Stops with a description of a misuse. -/
def panic (text : String) : Action σ ε α := throw (.fault (.panic text))

/-- Stops at an access outside memory. -/
def access : Action σ ε α := throw (.fault .access)

/-- Turns an answer that may be an error into a stop. -/
def ofExcept : Except ε α → Action σ ε α
  | .ok a => pure a
  | .error cause => fail cause

/-- The same computation with its errors seen from the outside. -/
def adapt (f : ε → ε') (body : Action σ ε α) : Action σ ε' α := fun s =>
  match body s with
  | .ok a s => .ok a s
  | .error halt s => .error (halt.map f) s

/--
Runs a computation and then a closing step, however the computation ended.

A stop of the closing step hides how the computation ended.
-/
def closing (body : Action σ ε α) (close : Action σ ε Unit) : Action σ ε α := fun s =>
  match body s with
  | .ok a s =>
    match close s with
    | .ok () s => .ok a s
    | .error halt s => .error halt s
  | .error halt s =>
    match close s with
    | .ok () s => .error halt s
    | .error later s => .error later s

/-- Runs a computation on a part of a larger state. -/
def focus (get : τ → σ) (put : σ → τ → τ) (body : Action σ ε α) : Action τ ε α := fun t =>
  match body (get t) with
  | .ok a s => .ok a (put s t)
  | .error halt s => .error halt (put s t)

/-- How a computation ended and the state it left. -/
def outcome (body : Action σ ε α) (s : σ) : Except (Halt ε) α × σ :=
  match body s with
  | .ok a s => (.ok a, s)
  | .error halt s => (.error halt, s)

end Action

end Tangent
