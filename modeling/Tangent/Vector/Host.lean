import Tangent.Vector.Backend
import Tangent.Vector.Ranges
import Tangent.Vector.Store

/-! The backend that works in memory. -/

namespace Tangent

/-- Two views name the same storage when they start at the same element, or see nothing. -/
instance : Handle View where
  same a b :=
    if a.length == 0 || b.length == 0 then a.length == b.length
    else a.block == b.block && a.start == b.start

/-- Memory, the blocks of it that are on loan, and the limits it works under. -/
structure Host (α : Type) where
  store : Store α
  /-- Numbers of the blocks on loan, with the sizes asked for. -/
  live : List (Nat × Int64)
  liveElements : Int64
  /-- The most elements that may be on loan; zero or less means no limit. -/
  limit : Int64
  chunking : Chunking
  /-- What a new block holds, by its number and position, before anything is written. -/
  blank : Nat → Nat → α

namespace Host

variable {ε α : Type}

/-- Fresh memory, whose new blocks hold zeros. -/
def new [Elem α] (limit : Int64) (chunking : Chunking) : Host α :=
  { store := .empty, live := [], liveElements := 0, limit, chunking,
    blank := fun _ _ => Elem.zero }

/-- The name of the backend. -/
def name : String := "CPU"

/-- Puts caller-owned numbers into memory. -/
def adopt (h : Host α) (data : Array α) : View × Host α :=
  let (view, store) := h.store.push data
  (view, { h with store })

/-- What a view shows. -/
def contents (h : Host α) (v : View) : Array α := h.store.contents v

/-- The largest block that can be asked for: eight bytes an element, 48 address bits. -/
def largestBlock : Int64 := 0x200000000000

/-- Lends a block. -/
def alloc (n : Int64) : Action (Host α) ε (Except AllocError View) := do
  if n ≤ 0 then return .error (.size n)
  let h ← get
  -- The sum is a machine integer, so a request that wraps around slips under the limit.
  if h.limit > 0 && h.liveElements + n > h.limit then
    return .error (.memoryLimit n h.liveElements h.limit)
  -- No address can be given to a larger block, limit or not.
  if n > largestBlock then Action.access
  -- Blocks are never taken out of the store, so the next number is fresh.
  let number := h.store.blocks.size
  let (view, h) := h.adopt (Array.ofFn (fun i : Fin n.toNatClampNeg => h.blank number i))
  set { h with live := (number, n) :: h.live, liveElements := h.liveElements + n }
  return .ok view

/-- Takes a block back, which has to be on loan and given from its first element. -/
def free (v : View) : Action (Host α) ε Unit := do
  if v.length == 0 then Action.panic s!"free: {doubleFreeText}: empty buffer"
  let h ← get
  -- A view that starts further in does not stand for its block.
  match if v.start == 0 then h.live.lookup v.block else none with
  | none => Action.panic s!"free: {doubleFreeText}"
  | some n =>
    set { h with
      live := h.live.filter (fun entry => entry.1 != v.block)
      liveElements := h.liveElements - n }

/-- The rest of a view. -/
def offset (v : View) (off : Int64) : Action (Host α) ε View :=
  if off < 0 || off.toNatClampNeg > v.length then Action.access
  else pure (v.drop off.toNatClampNeg)

/-- Stops unless a view sees at least `n` elements. -/
def need (operation : String) (v : View) (n : Int64) : Action (Host α) ε Unit :=
  if (v.length : Int) < n.toInt then
    Action.panic s!"{operation}: buffer has {v.length} elements, need {n}"
  else pure ()

/--
Runs a step on every chunk of the first `n` indices.

The workers take their chunks at the same time and in no fixed order. If a source and a destination
overlap they race, and of all the results that may come out this one takes the chunks in order. A
chunking that is not proper never gets to the end of the range; here it stops short of it.
-/
def forChunks (n : Int64) (step : Nat → Nat → Store α → Store α) : Action (Host α) ε Unit :=
  modify fun h =>
    let onChunk (s : Store α) (chunk : Int64 × Int64) : Store α :=
      step chunk.1.toNatClampNeg (chunk.2.toNatClampNeg - chunk.1.toNatClampNeg) s
    { h with store := (h.chunking.chunks n).foldl onChunk h.store }

/-- A kernel that changes each element on its own. -/
def mapKernel (operation : String) (f : α → α) (dst : View) (n : Int64) :
    Action (Host α) ε Unit := do
  need operation dst n
  forChunks n (Store.mapRange f dst)

/-- A kernel that combines each element of a source into a destination. -/
def zipKernel (operation : String) (f : α → α → α) (src dst : View) (n : Int64) :
    Action (Host α) ε Unit := do
  need operation src n
  need operation dst n
  forChunks n (Store.zipRange f src dst)

/-- Fills with a constant. -/
def fill (dst : View) (value : α) (n : Int64) : Action (Host α) ε Unit :=
  mapKernel "fill" (fun _ => value) dst n

/-- Clears. -/
def zero [Elem α] (dst : View) (n : Int64) : Action (Host α) ε Unit :=
  mapKernel "zero" (fun _ => Elem.zero) dst n

/-- Copies. -/
def copy (src dst : View) (n : Int64) : Action (Host α) ε Unit := do
  need "copy" src n
  need "copy" dst n
  forChunks n (Store.copyRange src dst)

/-- Adds a source to a destination. -/
def add [Elem α] (src dst : View) (n : Int64) : Action (Host α) ε Unit :=
  zipKernel "add" (fun x y => Elem.add y x) src dst n

/-- Multiplies a destination by a source. -/
def mul [Elem α] (src dst : View) (n : Int64) : Action (Host α) ε Unit :=
  zipKernel "mul" (fun x y => Elem.mul y x) src dst n

/-- Takes the exponential of each element. -/
def exp [Elem α] (dst : View) (n : Int64) : Action (Host α) ε Unit :=
  mapKernel "exp" Elem.exp dst n

/-- The operations of memory as a backend. -/
def backend [Elem α] : Backend (Host α) ε α View :=
  { alloc, free, offset, fill, zero, copy, add, mul, exp }

end Host

end Tangent
