import Tangent.Vector.Backend

/-! A backend that counts what passes through it. -/

namespace Tangent

/-- A backend's state with a record of the calls made. -/
structure Counted (σ β : Type) where
  inner : σ
  calls : Tally
  failed : Nat
  liveElements : Int64
  peakElements : Int64
  /-- Blocks handed out and not given back, the latest first. -/
  handles : List (β × Int64)

namespace Counted

variable {σ ε α β τ : Type}

/-- Nothing counted yet. -/
def new (inner : σ) : Counted σ β := ⟨inner, .empty, 0, 0, 0, []⟩

/-- Blocks handed out less blocks given back. -/
def live (c : Counted σ β) : Int := (c.calls.count .alloc : Int) - (c.calls.count .free : Int)

/-- Runs a step of the counted backend. -/
def within (body : Action σ ε τ) : Action (Counted σ β) ε τ :=
  Action.focus Counted.inner (fun inner c => { c with inner }) body

/-- Counts a call and then makes it. -/
def counted (op : Op) (body : Action σ ε τ) : Action (Counted σ β) ε τ := do
  modify fun c => { c with calls := c.calls.bump op }
  within body

/-- Takes the latest handle of a buffer out of the record, with its size. -/
def takeHandle? [Handle β] (buffer : β) : List (β × Int64) → Option (Int64 × List (β × Int64))
  | [] => none
  | (held, n) :: rest =>
    if Handle.same held buffer then some (n, rest)
    else (takeHandle? buffer rest).map (fun found => (found.1, (held, n) :: found.2))

/-- A failed allocation counts apart from the calls. -/
def alloc (be : Backend σ ε α β) (n : Int64) :
    Action (Counted σ β) ε (Except AllocError β) := do
  match ← within (be.alloc n) with
  | .error cause =>
    modify fun c => { c with failed := c.failed + 1 }
    return .error cause
  | .ok buffer =>
    modify fun c =>
      { c with
        calls := c.calls.bump .alloc
        handles := (buffer, n) :: c.handles
        liveElements := c.liveElements + n
        peakElements := max c.peakElements (c.liveElements + n) }
    return .ok buffer

/-- The call is counted before the backend has a say in it. -/
def free [Handle β] (be : Backend σ ε α β) (buffer : β) : Action (Counted σ β) ε Unit := do
  modify fun c =>
    -- A buffer that was never handed out is counted, but takes no elements off.
    let c := { c with calls := c.calls.bump .free }
    match takeHandle? buffer c.handles with
    | none => c
    | some (n, handles) => { c with handles, liveElements := c.liveElements - n }
  within (be.free buffer)

/-- The counting backend around a backend. -/
def backend [Handle β] (be : Backend σ ε α β) : Backend (Counted σ β) ε α β where
  alloc := alloc be
  free := free be
  offset buffer off := within (be.offset buffer off)
  fill dst value n := counted .fill (be.fill dst value n)
  zero dst n := counted .zero (be.zero dst n)
  copy src dst n := counted .copy (be.copy src dst n)
  add src dst n := counted .add (be.add src dst n)
  mul src dst n := counted .mul (be.mul src dst n)
  exp dst n := counted .exp (be.exp dst n)

end Counted

end Tangent
