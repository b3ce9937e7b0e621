import Tangent.Evaluate
import Tangent.Metrics.Meter
import Tangent.Proofs.Walk.Related
import Tangent.Vector.Counting

/-!
Backends that watch another one.

A backend that counts or measures hands every call on, so a walk on it is the walk on the backend
it watches, whatever happens in it.
-/

namespace Tangent

variable {σ τ ε ε' α β κ κ' : Type}

/-- A backend that hands every call on to another one. -/
structure Backend.Watches (part : τ → σ) (outer : Backend τ ε α β) (inner : Backend σ ε α β) :
    Prop where
  alloc : ∀ n, Action.Shadows part (outer.alloc n) (inner.alloc n)
  free : ∀ x, Action.Shadows part (outer.free x) (inner.free x)
  offset : ∀ x off, Action.Shadows part (outer.offset x off) (inner.offset x off)
  one : ∀ op x n, Action.Shadows part (outer.one op x n) (inner.one op x n)
  two : ∀ op x y n, Action.Shadows part (outer.two op x y n) (inner.two op x y n)

/-- Counting calls changes nothing about them. -/
theorem Counted.watches [Handle β] (be : Backend σ ε α β) :
    (Counted.backend be).Watches Counted.inner be where
  alloc n := by
    -- The answer is looked at to count it, and then passed on as it is.
    have asked : Action.Shadows Counted.inner (Counted.alloc be n) (be.alloc n >>= pure) :=
      (Action.Shadows.focus (fun _ _ => rfl) (be.alloc n)).bind (fun answer => by
        cases answer <;> exact (Action.Shadows.pure _).after (fun _ => rfl))
    rwa [bind_pure] at asked
  free x := (Action.Shadows.focus (fun _ _ => rfl) (be.free x)).after (fun t => by
    dsimp only
    split <;> rfl)
  offset x off := .focus (fun _ _ => rfl) _
  one op x n := by
    cases op <;> exact (Action.Shadows.focus (fun _ _ => rfl) _).after (fun _ => rfl)
  two op x y n := by
    cases op <;> exact (Action.Shadows.focus (fun _ _ => rfl) _).after (fun _ => rfl)

/-- Measuring calls changes nothing about them, either. -/
theorem Metered.watches (be : Backend σ ε α View) :
    (Metered.backend be).Watches Metered.inner be where
  -- Each call is handed on to the inner backend, and what is written down lies outside of it.
  alloc n := by
    have asked : Action.Shadows Metered.inner (Metered.alloc be n) (be.alloc n >>= pure) :=
      (Action.Shadows.focus (fun _ _ => rfl) (be.alloc n)).bind (fun answer => by
        cases answer with
        | error cause => exact .pure _
        | ok view => exact (Action.Shadows.pure _).after (fun _ => rfl))
    rwa [bind_pure] at asked
  free x := (Action.Shadows.focus (fun _ _ => rfl) (be.free x)).after (fun _ => rfl)
  offset x off := .focus (fun _ _ => rfl) _
  one op x n := by
    cases op <;> exact (Action.Shadows.focus (fun _ _ => rfl) _).after (fun _ => rfl)
  two op x y n := by
    cases op <;> exact (Action.Shadows.focus (fun _ _ => rfl) _).after (fun _ => rfl)

namespace Backend.Watches

section Blocks

variable {part : τ → σ} {outer : Backend τ ε α β} {inner : Backend σ ε α β}

/-- A request for a block to work on is handed on. -/
theorem acquire (watches : outer.Watches part inner) (n : Int64) :
    Action.Shadows part (outer.acquire n) (inner.acquire n) := by
  -- A block that was lent is wrapped, and a refusal is handed on.
  refine (watches.alloc n).bind (fun answer => ?_)
  cases answer <;> exact .pure _

/-- A stretch of a block is looked for on the backend that is watched. -/
theorem slot (watches : outer.Watches part inner) (temp : Temp β) (i stride : Int64) :
    Action.Shadows part (outer.slot temp i stride) (inner.slot temp i stride) := by
  -- The check needs no call.
  unfold Backend.slot
  split
  · exact .throw _
  · exact watches.offset _ _

end Blocks

variable {part : τ → σ} {outer : Backend τ WalkError α β} {inner : Backend σ WalkError α β}

/-- Work on a borrowed block is handed on. -/
theorem withTemp (watches : outer.Watches part inner) (n : Int64)
    (refused : AllocError → WalkError) {body : Temp β → Action τ WalkError Unit}
    {body' : Temp β → Action σ WalkError Unit}
    (works : ∀ temp, Action.Shadows part (body temp) (body' temp)) :
    Action.Shadows part (outer.withTemp n refused body) (inner.withTemp n refused body') := by
  -- The block is borrowed, worked on unless it was refused, and given back at the end.
  unfold Backend.withTemp
  refine (watches.acquire n).bind (fun answer => ?_)
  cases answer with
  | error cause => exact .throw _
  | ok temp =>
    refine (works temp).closing ?_
    unfold Backend.release
    split
    · exact .pure _
    · exact watches.free _

/-- All that a walk is made of is handed on. -/
theorem related (watches : outer.Watches part inner) :
    Walk.Related outer inner (fun _ => Action.Shadows part) where
  -- A walk is made of the calls, of answers and of sequences of them.
  pure := .pure
  throw := .throw
  bind first next := first.bind next
  offset := watches.offset
  one := watches.one
  two := watches.two
  withTemp n _ _ works := watches.withTemp n _ works

variable [Elem α]

/-- A walk on a backend that watches another one is the walk on the other. -/
theorem visit (watches : outer.Watches part inner) (c : Context α β) (e : Expr α) :
    Action.Shadows part (Walk.visit outer c e) (Walk.visit inner c e) :=
  -- What holds of calls holds of walks.
  watches.related.visit c e

/-- A whole walk is the walk on the backend that is watched. -/
theorem generate (watches : outer.Watches part inner) (c : Context α β) (root : Expr α) :
    Action.Shadows part (Walk.generate outer c root) (Walk.generate inner c root) :=
  -- What holds of calls holds of walks.
  watches.related.generate c root

end Backend.Watches

/-- An evaluation is the one on the backend that is watched. -/
theorem Backend.Watches.evaluate [Elem α] {part : τ → σ} {outer : Backend τ WalkError α View}
    {inner : Backend σ WalkError α View} (watches : outer.Watches part inner) (root : Expr α)
    (inputs : NameMap (Binding α View)) (value deriv : View) :
    Action.Shadows part (Tangent.evaluate outer root inputs value deriv)
      (Tangent.evaluate inner root inputs value deriv) := by
  have walked : ∀ c : Context α View, Action.Shadows part
      ((Walk.generate outer c root).adapt EvalError.walk)
      ((Walk.generate inner c root).adapt EvalError.walk) :=
    fun c => (watches.generate c root).adapt _
  simp only [Tangent.evaluate]
  -- The lengths are compared first, which needs no call.
  split
  · exact (Action.Shadows.throw _).bind (fun _ => (Action.Shadows.ofExcept _).bind walked)
  · exact (Action.Shadows.ofExcept _).bind walked

end Tangent
