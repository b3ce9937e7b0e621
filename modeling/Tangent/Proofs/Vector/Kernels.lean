import Tangent.Proofs.Vector.Backend
import Tangent.Proofs.Vector.Store
import Tangent.Vector.Host

/-!
What kernels do to memory, whatever their buffers hold.

A kernel asks for the length of its buffers and for nothing else, so it goes through on every
buffer that is long enough, and does the same on a buffer that is cut to size.
-/

namespace Tangent

variable {ε α : Type}

/-- What an operation does to each element. -/
def Unary.apply [Elem α] : Unary α → α → α
  | .fill value => fun _ => value
  | .zero => fun _ => Elem.zero
  | .exp => Elem.exp

namespace Store

/-- Changing elements of a cut view is changing those of the view. -/
theorem mapRange_take (f : α → α) (v : View) (m first count : Nat) (s : Store α) :
    mapRange f (v.take m) first count s = mapRange f v first count s := by
  -- Where an element lies does not depend on the length of the view.
  induction count generalizing first s with
  | zero => rfl
  | succ count ih => exact ih (first + 1) _

/-- Combining elements of cut views is combining those of the views. -/
theorem zipRange_take (f : α → α → α) (src dst : View) (m first count : Nat) (s : Store α) :
    zipRange f (src.take m) (dst.take m) first count s = zipRange f src dst first count s := by
  induction count generalizing first s with
  | zero => rfl
  | succ count ih =>
    -- Both sides read the same element, and go on the same way whether it is there or not.
    have read : s.read? (src.take m) first = s.read? src first := rfl
    rw [zipRange, zipRange, read]
    cases s.read? src first with
    | none => exact ih (first + 1) s
    | some x => exact ih (first + 1) _

/-- Writing to a cut view is writing to the view. -/
theorem writeFrom_take (v : View) (m first : Nat) (xs : List α) (s : Store α) :
    writeFrom (v.take m) first xs s = writeFrom v first xs s := by
  -- One element after the other goes to the same place.
  induction xs generalizing first s with
  | nil => rfl
  | cons x xs ih => exact ih (first + 1) _

/-- Writing adds no block. -/
theorem size_writeFrom (v : View) (first : Nat) (xs : List α) (s : Store α) :
    (writeFrom v first xs s).blocks.size = s.blocks.size := by
  -- One element is written after the other.
  induction xs generalizing first s with
  | nil => rfl
  | cons x xs ih => rw [writeFrom, ih, size_modify]

end Store

section Effects

variable [Elem α]

/-- What an operation does to a range of a buffer. -/
def Unary.onRange (op : Unary α) (dst : View) : Nat → Nat → Store α → Store α :=
  Store.mapRange op.apply dst

/-- What an operation does to a range of its buffers. -/
def Binary.onRange : Binary → View → View → Nat → Nat → Store α → Store α
  | .copy => Store.copyRange
  | .add => Store.zipRange (fun x y => Elem.add y x)
  | .mul => Store.zipRange (fun x y => Elem.mul y x)

/-- What an operation makes of an element of the source and one of the destination. -/
def Binary.apply : Binary → α → α → α
  | .copy => fun x _ => x
  | .add => fun x y => Elem.add y x
  | .mul => fun x y => Elem.mul y x

/-- An operation on buffers that are apart combines their elements. -/
theorem Binary.onRange_eq (op : Binary) {src dst : View} {n : Nat} (apart : src.Apart dst n)
    (first count : Nat) (s : Store α) (inside : first + count ≤ n) :
    op.onRange src dst first count s = Store.zipRange op.apply src dst first count s := by
  -- A copy takes the element of the source, and reads nothing that it has written.
  cases op with
  | copy => exact Store.copyRange_eq_zipRange apart first count s inside
  | add => rfl
  | mul => rfl

/-- An operation on no elements changes nothing. -/
theorem Binary.onRange_zero (op : Binary) (src dst : View) (first : Nat) (s : Store α) :
    op.onRange src dst first 0 s = s := by
  -- Copying reads the whole source before it writes, so it has a loop of its own.
  cases op with
  | copy => exact Store.copyRange_zero src dst first s
  | add => rfl
  | mul => rfl

/-- An operation on buffers that are apart is done in one go or in two. -/
theorem Binary.onRange_add (op : Binary) {src dst : View} {n : Nat} (apart : src.Apart dst n)
    (first a b : Nat) (s : Store α) (inside : first + a + b ≤ n) :
    op.onRange src dst first (a + b) s =
      op.onRange src dst (first + a) b (op.onRange src dst first a s) := by
  -- Copying in two parts is the same only because the second part is not written by the first.
  cases op with
  | copy => exact Store.copyRange_add apart first a b s inside
  | add => exact Store.zipRange_add _ src dst first a b s
  | mul => exact Store.zipRange_add _ src dst first a b s

/-- A buffer cut to size is worked on like the buffer. -/
theorem Unary.onRange_take (op : Unary α) (dst : View) (m : Nat) :
    op.onRange (dst.take m) = op.onRange dst := by
  -- An operation uses the start of its buffer and not the length of it.
  funext first count s
  exact Store.mapRange_take op.apply dst m first count s

/-- Buffers cut to size are worked on like the buffers. -/
theorem Binary.onRange_take (op : Binary) (src dst : View) (m : Nat) :
    (op.onRange (src.take m) (dst.take m) : Nat → Nat → Store α → Store α) =
      op.onRange src dst := by
  -- Copying writes a list of elements, the others go element by element.
  funext first count s
  cases op with
  | copy => exact Store.writeFrom_take dst m first _ s
  | add => exact Store.zipRange_take _ src dst m first count s
  | mul => exact Store.zipRange_take _ src dst m first count s

/-- Working on a buffer adds no block. -/
theorem Unary.size_onRange (op : Unary α) (dst : View) (first count : Nat) (s : Store α) :
    (op.onRange dst first count s).blocks.size = s.blocks.size :=
  -- Elements are changed in place.
  Store.size_mapRange _ _ _ _ _

/-- Working on two buffers adds no block. -/
theorem Binary.size_onRange (op : Binary) (src dst : View) (first count : Nat) (s : Store α) :
    (op.onRange src dst first count s).blocks.size = s.blocks.size := by
  -- Elements are changed in place.
  cases op with
  | copy => exact Store.size_writeFrom _ _ _ _
  | add => exact Store.size_zipRange _ _ _ _ _ _
  | mul => exact Store.size_zipRange _ _ _ _ _ _

namespace Host

/-- Memory after a step was taken on every chunk of the first `n` indices. -/
def afterChunks (h : Host α) (n : Int64) (step : Nat → Nat → Store α → Store α) : Host α :=
  { h with store := (h.chunking.chunks n).foldl (fun s chunk =>
      step chunk.1.toNatClampNeg (chunk.2.toNatClampNeg - chunk.1.toNatClampNeg) s) h.store }

omit [Elem α] in
/-- Steps that add no block add none chunk by chunk. -/
theorem size_afterChunks (h : Host α) (n : Int64) {step : Nat → Nat → Store α → Store α}
    (keeps : ∀ first count s, (step first count s).blocks.size = s.blocks.size) :
    (h.afterChunks n step).store.blocks.size = h.store.blocks.size := by
  -- Which chunks there are does not matter, nor in which order they come.
  unfold afterChunks
  generalize h.chunking.chunks n = chunks
  generalize h.store = s
  induction chunks generalizing s with
  | nil => rfl
  | cons chunk rest ih =>
    simp only [List.foldl_cons] at ih ⊢
    rw [ih, keeps]

omit [Elem α] in
/-- A buffer of enough elements is not complained about. -/
theorem need_enough (operation : String) {v : View} {n : Int64} (long : n.toInt ≤ v.length)
    (h : Host α) : (need operation v n : Action (Host α) ε Unit) h = .ok () h := by
  -- The complaint is made only about fewer elements.
  rw [need, if_neg (by omega)]
  rfl

/-- An operation on one buffer goes through when the buffer is long enough. -/
theorem one_ok (op : Unary α) {dst : View} {n : Int64} (long : n.toInt ≤ dst.length) (h : Host α) :
    (backend.one op dst n : Action (Host α) ε Unit) h =
      .ok () (h.afterChunks n (op.onRange dst)) := by
  -- Each operation asks for the length of its buffer, then goes over the chunks.
  cases op with
  | fill value => exact Action.bind_ok (need_enough "fill" long h)
  | zero => exact Action.bind_ok (need_enough "zero" long h)
  | exp => exact Action.bind_ok (need_enough "exp" long h)

/-- An operation on two buffers goes through when both are long enough. -/
theorem two_ok (op : Binary) {src dst : View} {n : Int64} (source : n.toInt ≤ src.length)
    (target : n.toInt ≤ dst.length) (h : Host α) :
    (backend.two op src dst n : Action (Host α) ε Unit) h =
      .ok () (h.afterChunks n (op.onRange src dst)) := by
  -- Each operation asks for the length of its source, then for that of its destination.
  cases op with
  | copy =>
    exact (Action.bind_ok (need_enough "copy" source h)).trans
      (Action.bind_ok (need_enough "copy" target h))
  | add =>
    exact (Action.bind_ok (need_enough "add" source h)).trans
      (Action.bind_ok (need_enough "add" target h))
  | mul =>
    exact (Action.bind_ok (need_enough "mul" source h)).trans
      (Action.bind_ok (need_enough "mul" target h))

end Host

end Effects

end Tangent
