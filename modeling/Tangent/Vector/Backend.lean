import Tangent.Action
import Tangent.Elem
import Tangent.Vector.Op

/-! What a vector backend offers, and temporary blocks that are given back on every way out. -/

namespace Tangent

/-- Why a block of storage was not handed out. -/
inductive AllocError where
  /-- The size is not positive. -/
  | size (requested : Int64)
  /-- The limit on elements in memory would be passed. -/
  | memoryLimit (requested inUse limit : Int64)
  /-- The limit on elements of a recorded program would be passed. -/
  | recordLimit (requested inUse limit : Int64)
deriving DecidableEq, Repr

/-- The wording shared by all messages about a failed allocation. -/
def allocationFailedText : String := "vector: allocation failed"

/-- The wording shared by all messages about a block that cannot be freed. -/
def doubleFreeText : String := "vector: buffer freed twice or never allocated"

/-- The message of an allocation error. -/
def AllocError.message : AllocError → String
  | .size requested => s!"{allocationFailedText}: size {requested}"
  | .memoryLimit requested inUse limit =>
    s!"{allocationFailedText}: {requested} elements requested, {inUse} of {limit} in use"
  | .recordLimit requested inUse limit =>
    s!"{allocationFailedText}: {requested} temp elements requested, {inUse} of {limit} in use"

/--
A backend over a state `σ`, with numbers `α` in buffers `β`.

Lengths and offsets are machine integers. Only `alloc` answers with an error; everything else
either works or stops at a misuse. In `copy`, `add` and `mul` the source comes first.
-/
structure Backend (σ ε α β : Type) where
  alloc : Int64 → Action σ ε (Except AllocError β)
  free : β → Action σ ε Unit
  offset : β → Int64 → Action σ ε β
  fill : β → α → Int64 → Action σ ε Unit
  zero : β → Int64 → Action σ ε Unit
  copy : β → β → Int64 → Action σ ε Unit
  add : β → β → Int64 → Action σ ε Unit
  mul : β → β → Int64 → Action σ ε Unit
  exp : β → Int64 → Action σ ε Unit

/-- Which buffers name the same storage when one is given back. -/
class Handle (β : Type) where
  same : β → β → Bool

/-- A block on loan, with the size that was asked for. -/
structure Temp (β : Type) where
  buffer : β
  length : Int64
  /-- Whether the block was given back already. -/
  released : Bool
deriving Repr

namespace Backend

variable {σ ε α β : Type}

/-- Writes a constant, which for zero means clearing. -/
def set [Elem α] (be : Backend σ ε α β) (dst : β) (value : α) (n : Int64) : Action σ ε Unit :=
  if Elem.isZero value then be.zero dst n else be.fill dst value n

/-- Borrows a block. -/
def acquire (be : Backend σ ε α β) (n : Int64) : Action σ ε (Except AllocError (Temp β)) := do
  match ← be.alloc n with
  | .ok buffer => return .ok ⟨buffer, n, false⟩
  | .error cause => return .error cause

/-- The view of the `i`-th stretch of `stride` elements of a block. -/
def slot (be : Backend σ ε α β) (temp : Temp β) (i stride : Int64) : Action σ ε β :=
  if i < 0 || (i + 1) * stride > temp.length then
    Action.panic
      s!"vector: slot {i} of stride {stride} outside {temp.length}-element temp"
  else be.offset temp.buffer (i * stride)

/-- The views of `count` stretches from the `i`-th on. -/
def slots (be : Backend σ ε α β) (temp : Temp β) (stride : Int64) (i : Int64) :
    Nat → Action σ ε (List β)
  | 0 => pure []
  | count + 1 => do
    let first ← be.slot temp i stride
    let others ← be.slots temp stride (i + 1) count
    return first :: others

/-- Gives a block back, unless that was done before. -/
def release (be : Backend σ ε α β) (temp : Temp β) : Action σ ε Unit :=
  if temp.released then pure () else be.free temp.buffer

/-- Works on a borrowed block and gives it back on every way out. -/
def withTemp (be : Backend σ ε α β) (n : Int64) (refused : AllocError → ε)
    (body : Temp β → Action σ ε Unit) : Action σ ε Unit := do
  match ← be.acquire n with
  | .error cause => Action.fail (refused cause)
  | .ok temp => (body temp).closing (be.release temp)

end Backend

end Tangent
