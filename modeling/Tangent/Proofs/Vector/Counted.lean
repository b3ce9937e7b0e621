import Tangent.Proofs.Action
import Tangent.Proofs.Vector.Backend
import Tangent.Vector.Counting

/-!
A backend whose calls are counted.

What goes through on the backend goes through with its calls counted, and the books are changed
with it.
-/

namespace Tangent

namespace Counted

variable {σ ε α β : Type} [Handle β] {be : Backend σ ε α β} {s : Counted σ β} {s' : σ}

/-- An operation on one buffer is counted and made. -/
theorem one_ok {op : Unary α} {x : β} {n : Int64} (ran : be.one op x n s.inner = .ok () s') :
    (backend be).one op x n s = .ok () { s with inner := s', calls := s.calls.bump op.op } := by
  -- The call is counted before it is made.
  cases op <;> exact (Action.modify_bind _ _ _).trans (Action.focus_ok ran)

/-- An operation on two buffers is counted and made. -/
theorem two_ok {op : Binary} {x y : β} {n : Int64} (ran : be.two op x y n s.inner = .ok () s') :
    (backend be).two op x y n s = .ok () { s with inner := s', calls := s.calls.bump op.op } := by
  -- The call is counted before it is made.
  cases op <;> exact (Action.modify_bind _ _ _).trans (Action.focus_ok ran)

/-- The rest of a buffer is not counted. -/
theorem offset_ok {x y : β} {k : Int64} (found : be.offset x k s.inner = .ok y s.inner) :
    (backend be).offset x k s = .ok y s := by
  -- It is looked for in the backend below.
  show within (be.offset x k) s = _
  exact Action.focus_ok found

/-- A block that is lent is counted with its elements. -/
theorem alloc_ok {x : β} {n : Int64} (ran : be.alloc n s.inner = .ok (.ok x) s') :
    (backend be).alloc n s = .ok (.ok x) { s with
      inner := s'
      calls := s.calls.bump .alloc
      handles := (x, n) :: s.handles
      liveElements := s.liveElements + n
      peakElements := max s.peakElements (s.liveElements + n) } :=
  -- The record is made after the answer.
  Action.bind_ok (Action.focus_ok ran)

/-- A block that is refused is counted apart. -/
theorem alloc_refused {cause : AllocError} {n : Int64}
    (ran : be.alloc n s.inner = .ok (.error cause) s') :
    (backend be).alloc n s = .ok (.error cause) { s with inner := s', failed := s.failed + 1 } :=
  -- The record is made after the answer.
  Action.bind_ok (Action.focus_ok ran)

/-- A buffer that names no block of the record is not found in it. -/
theorem takeHandle?_eq_none {x : β} {handles : List (β × Int64)}
    (apart : ∀ entry ∈ handles, Handle.same entry.1 x = false) : takeHandle? x handles = none := by
  -- The record is searched from its newest entry on.
  induction handles with
  | nil => rfl
  | cons entry rest ih =>
    have others := ih (fun entry listed => apart entry (List.mem_cons_of_mem _ listed))
    simp [takeHandle?, apart entry List.mem_cons_self, others]

/-- The latest handle of a block is found, and those of other blocks are kept. -/
theorem takeHandle?_among {x held : β} {n : Int64} {later earlier : List (β × Int64)}
    (own : Handle.same held x = true)
    (apart : ∀ entry ∈ later, Handle.same entry.1 x = false) :
    takeHandle? x (later ++ (held, n) :: earlier) = some (n, later ++ earlier) := by
  -- Later handles are passed over, since each of them is another block.
  induction later with
  | nil => simp [takeHandle?, own]
  | cons entry rest ih =>
    have found := ih (fun entry listed => apart entry (List.mem_cons_of_mem _ listed))
    simp [takeHandle?, apart entry List.mem_cons_self, found]

/-- A block that is held is given back with its elements. -/
theorem free_held {x : β} {n : Int64} {others : List (β × Int64)}
    (found : takeHandle? x s.handles = some (n, others)) (ran : be.free x s.inner = .ok () s') :
    (backend be).free x s = .ok () { s with
      inner := s'
      calls := s.calls.bump .free
      handles := others
      liveElements := s.liveElements - n } := by
  -- The books are changed first, and the backend is asked with the state it had.
  refine (Action.modify_bind _ _ _).trans ?_
  simp only [found]
  exact Action.focus_ok ran

/-- The latest block is given back with its elements. -/
theorem free_ok {x : β} {n : Int64} {others : List (β × Int64)}
    (latest : s.handles = (x, n) :: others) (itself : Handle.same x x = true)
    (ran : be.free x s.inner = .ok () s') :
    (backend be).free x s = .ok () { s with
      inner := s'
      calls := s.calls.bump .free
      handles := others
      liveElements := s.liveElements - n } :=
  -- The latest handle is found first.
  free_held (by simp [latest, takeHandle?, itself]) ran

end Counted

end Tangent
