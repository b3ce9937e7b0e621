/-! Blocks of numbers, and views that see a stretch of one block. -/

namespace Tangent

/-- A stretch of a block: the `length` elements from `start` on. -/
structure View where
  block : Nat
  start : Nat
  length : Nat
deriving DecidableEq, Repr

/-- A view that sees nothing. -/
def View.empty : View := ⟨0, 0, 0⟩

instance : Inhabited View := ⟨View.empty⟩

/-- The rest of a view after its first `n` elements. -/
def View.drop (v : View) (n : Nat) : View := ⟨v.block, v.start + n, v.length - n⟩

/-- The first `n` elements of a view. -/
def View.take (v : View) (n : Nat) : View := ⟨v.block, v.start, min n v.length⟩

/-- Blocks by their number. A block keeps its number and its size. -/
structure Store (α : Type) where
  blocks : Array (Array α)

namespace Store

variable {α : Type}

/-- A store without blocks. -/
def empty : Store α := ⟨#[]⟩

instance : Inhabited (Store α) := ⟨empty⟩

/-- Adds a block and gives a view of all of it. -/
def push (s : Store α) (data : Array α) : View × Store α :=
  (⟨s.blocks.size, 0, data.size⟩, ⟨s.blocks.push data⟩)

/-- The element at a position of a view. -/
def read? (s : Store α) (v : View) (i : Nat) : Option α :=
  s.blocks[v.block]?.bind (fun block => block[v.start + i]?)

/-- Changes the element at a position of a view. -/
def modify (s : Store α) (v : View) (i : Nat) (f : α → α) : Store α :=
  ⟨s.blocks.modify v.block (fun block => block.modify (v.start + i) f)⟩

/-- What a view shows from a position on. -/
def contentsFrom (s : Store α) (v : View) (first : Nat) (count : Nat) : Array α :=
  match s.blocks[v.block]? with
  | some block => block.extract (v.start + first) (v.start + first + count)
  | none => #[]

/-- What a view shows. -/
def contents (s : Store α) (v : View) : Array α :=
  s.contentsFrom v 0 v.length

/-- Changes `count` elements of a view from a position on, each on its own. -/
def mapRange (f : α → α) (v : View) (first : Nat) : Nat → Store α → Store α
  | 0, s => s
  | count + 1, s => mapRange f v (first + 1) count (s.modify v first f)

/--
Combines `count` elements of a source into a destination, in ascending order.

Where the two overlap, a later step reads what an earlier one wrote.
-/
def zipRange (f : α → α → α) (src dst : View) (first : Nat) : Nat → Store α → Store α
  | 0, s => s
  | count + 1, s =>
    match s.read? src first with
    | some x => zipRange f src dst (first + 1) count (s.modify dst first (f x))
    | none => zipRange f src dst (first + 1) count s

/-- Writes numbers into a view from a position on. -/
def writeFrom (v : View) (first : Nat) : List α → Store α → Store α
  | [], s => s
  | x :: rest, s => writeFrom v (first + 1) rest (s.modify v first (fun _ => x))

/-- Copies `count` elements as they were before the copy, also where the two overlap. -/
def copyRange (src dst : View) (first count : Nat) (s : Store α) : Store α :=
  writeFrom dst first (s.contentsFrom src first count).toList s

end Store

end Tangent
