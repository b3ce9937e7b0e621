import Tangent.Vector.Host

/-! What is measured while vectors are worked on, and a backend that measures. -/

namespace Tangent

/-- The measured series. -/
structure Meter where
  kernelCalls : Tally
  allocations : Nat
  releases : Nat
  /-- Elements on loan. -/
  liveElements : Int
  succeeded : Nat
  failed : Nat
deriving Repr

namespace Meter

/-- Nothing measured yet. -/
def new : Meter := ⟨.empty, 0, 0, 0, 0, 0⟩

instance : Inhabited Meter := ⟨new⟩

/-- A kernel ran. -/
def kernel (m : Meter) (op : Op) : Meter := { m with kernelCalls := m.kernelCalls.bump op }

/-- A block was lent. -/
def alloc (m : Meter) (n : Int) : Meter :=
  { m with allocations := m.allocations + 1, liveElements := m.liveElements + n }

/-- A block was taken back. -/
def release (m : Meter) (n : Int) : Meter :=
  { m with releases := m.releases + 1, liveElements := m.liveElements - n }

/-- A program ran, with or without an error. -/
def run (m : Meter) (ok : Bool) : Meter :=
  if ok then { m with succeeded := m.succeeded + 1 } else { m with failed := m.failed + 1 }

/-- Programs run so far. -/
def runs (m : Meter) : Nat := m.succeeded + m.failed

end Meter

/-- A backend's state with its measurements. -/
structure Metered (σ : Type) where
  inner : σ
  meter : Meter

namespace Metered

variable {σ ε α τ : Type}

/-- Nothing measured yet. -/
def new (inner : σ) : Metered σ := ⟨inner, .new⟩

/-- Runs a step of the measured backend. -/
def within (body : Action σ ε τ) : Action (Metered σ) ε τ :=
  Action.focus Metered.inner (fun inner m => { m with inner }) body

/-- Changes the measurements. -/
def record (f : Meter → Meter) : Action (Metered σ) ε Unit :=
  modify fun m => { m with meter := f m.meter }

/-- Measures a kernel call and then makes it. -/
def measured (op : Op) (body : Action σ ε τ) : Action (Metered σ) ε τ := do
  record (·.kernel op)
  within body

/-- A lent block is measured, a refused one is not. -/
def alloc (be : Backend σ ε α View) (n : Int64) :
    Action (Metered σ) ε (Except AllocError View) := do
  match ← within (be.alloc n) with
  | .error cause => return .error cause
  | .ok view =>
    record fun m => (m.kernel .alloc).alloc n.toInt
    return .ok view

/-- The block given back is measured before the backend has a say in it. -/
def free (be : Backend σ ε α View) (v : View) : Action (Metered σ) ε Unit := do
  record fun m => (m.kernel .free).release v.length
  within (be.free v)

/-- The measuring backend around a backend. -/
def backend (be : Backend σ ε α View) : Backend (Metered σ) ε α View where
  alloc := alloc be
  free := free be
  offset v off := within (be.offset v off)
  fill dst value n := measured .fill (be.fill dst value n)
  zero dst n := measured .zero (be.zero dst n)
  copy src dst n := measured .copy (be.copy src dst n)
  add src dst n := measured .add (be.add src dst n)
  mul src dst n := measured .mul (be.mul src dst n)
  exp dst n := measured .exp (be.exp dst n)

end Metered

end Tangent
