import Tangent.Proofs.Action
import Tangent.Proofs.Expr.Shape
import Tangent.Proofs.Vector.Backend
import Tangent.Walk

/-!
What a walk passes on from its calls to the whole.

A walk is made of calls to its backend, sequences of them and blocks that are borrowed. Whatever
holds of these, on one backend or between two, holds of walks over all trees.
-/

namespace Tangent

variable {σ τ α β : Type}

/--
A relation between computations on two backends that goes with everything a walk is made of.

For a property of computations on one backend, the other one does not matter.
-/
structure Walk.Related (be : Backend σ WalkError α β) (be' : Backend τ WalkError α β)
    (P : ∀ κ : Type, Action σ WalkError κ → Action τ WalkError κ → Prop) : Prop where
  pure : ∀ {κ : Type} (a : κ), P κ (pure a) (pure a)
  throw : ∀ {κ : Type} (halt : Halt WalkError), P κ (throw halt) (throw halt)
  bind : ∀ {κ κ' : Type} {first : Action σ WalkError κ} {first' : Action τ WalkError κ}
    {next : κ → Action σ WalkError κ'} {next' : κ → Action τ WalkError κ'}, P κ first first' →
    (∀ a, P κ' (next a) (next' a)) → P κ' (first >>= next) (first' >>= next')
  offset : ∀ x off, P β (be.offset x off) (be'.offset x off)
  one : ∀ op x n, P Unit (be.one op x n) (be'.one op x n)
  two : ∀ op x y n, P Unit (be.two op x y n) (be'.two op x y n)
  withTemp : ∀ n {body : Temp β → Action σ WalkError Unit}
    {body' : Temp β → Action τ WalkError Unit},
    (∀ temp, P Unit (body temp) (body' temp)) →
    P Unit (be.withTemp n (.alloc n) body) (be'.withTemp n (.alloc n) body')

namespace Walk.Related

variable {be : Backend σ WalkError α β} {be' : Backend τ WalkError α β}
  {P : ∀ κ : Type, Action σ WalkError κ → Action τ WalkError κ → Prop}

/-- What is known beforehand is an answer or a stop. -/
theorem ofExcept (related : Related be be' P) {κ : Type} (answer : Except WalkError κ) :
    P κ (Action.ofExcept answer) (Action.ofExcept answer) := by
  -- Both sides make nothing of it but the answer.
  cases answer with
  | ok a => exact related.pure a
  | error cause => exact related.throw (.error cause)

/-- Writing a constant is one operation. -/
theorem set [Elem α] (related : Related be be' P) (dst : β) (value : α) (n : Int64) :
    P Unit (be.set dst value n) (be'.set dst value n) := by
  -- On both sides it is the operation that fills a buffer.
  rw [Backend.set_eq_one, Backend.set_eq_one]
  exact related.one _ dst n

/-- A stretch of a block is looked for, or is a misuse. -/
theorem slot (related : Related be be' P) (temp : Temp β) (i stride : Int64) :
    P β (be.slot temp i stride) (be'.slot temp i stride) := by
  -- The checks before the call look at the block alone.
  unfold Backend.slot
  split
  · exact related.throw _
  · exact related.offset _ _

/-- Stretches of a block are looked for one after the other. -/
theorem slots (related : Related be be' P) (temp : Temp β) (stride : Int64) (count : Nat) :
    ∀ i, P (List β) (be.slots temp stride i count) (be'.slots temp stride i count) := by
  -- The number of stretches goes down, and the position goes up.
  induction count with
  | zero => exact fun i => related.pure _
  | succ count ih =>
    exact fun i => related.bind (related.slot temp i stride)
      (fun _ => related.bind (ih _) (fun _ => related.pure _))

/-- Multiplications by a source are made one after the other. -/
theorem mulEach (related : Related be be' P) (src : β) (n : Int64) (xs : List β) :
    P Unit (Walk.mulEach be src n xs) (Walk.mulEach be' src n xs) := by
  -- The buffers are taken in their order.
  induction xs with
  | nil => exact related.pure _
  | cons x xs ih => exact related.bind (related.two .mul src x n) (fun _ => ih)

/-- Additions to a destination are made one after the other. -/
theorem addEach (related : Related be be' P) (dst : β) (n : Int64) (xs : List β) :
    P Unit (Walk.addEach be dst n xs) (Walk.addEach be' dst n xs) := by
  -- The buffers are taken in their order.
  induction xs with
  | nil => exact related.pure _
  | cons x xs ih => exact related.bind (related.two .add x dst n) (fun _ => ih)

/-- The sum of partial products is a copy and additions. -/
theorem sumPartials (related : Related be be' P) (dst : β) (n : Int64) (xs : List β) :
    P Unit (Walk.sumPartials be dst n xs) (Walk.sumPartials be' dst n xs) := by
  -- Without partial products nothing is done.
  cases xs with
  | nil => exact related.pure _
  | cons x xs => exact related.bind (related.two .copy x dst n) (fun _ => related.addEach dst n xs)

variable [Elem α]

/-- What holds of operands holds of their sum. -/
theorem visitSum (related : Related be be' P) (c : Context α β) (value deriv : β)
    {operands : List (Expr α)}
    (each : ∀ e ∈ operands, P Unit (Walk.visit be c e) (Walk.visit be' c e)) :
    P Unit (Walk.visitSum be c value deriv operands)
      (Walk.visitSum be' c value deriv operands) := by
  -- Each operand is followed by two additions.
  induction operands with
  | nil => exact related.pure _
  | cons e rest ih =>
    refine related.bind (each e (by simp)) (fun _ => ?_)
    refine related.bind (related.two .add _ _ _) (fun _ => ?_)
    exact related.bind (related.two .add _ _ _)
      (fun _ => ih (fun e found => each e (by simp [found])))

/-- What holds of factors holds of their product. -/
theorem visitProduct (related : Related be be' P) (c : Context α β) (value : β)
    {operands : List (Expr α)}
    (each : ∀ e ∈ operands, P Unit (Walk.visit be c e) (Walk.visit be' c e)) :
    ∀ before after, P Unit (Walk.visitProduct be c value before after operands)
      (Walk.visitProduct be' c value before after operands) := by
  induction operands with
  | nil => exact fun _ _ => related.pure _
  | cons e rest ih =>
    intro before after
    -- The factor is walked over before its own stretch is looked for.
    refine related.bind (each e (by simp)) (fun _ => ?_)
    refine related.bind (related.two .mul _ _ _) (fun _ => ?_)
    cases after with
    | nil => exact related.pure _
    | cons own after =>
      refine related.bind (related.two .mul _ _ _) (fun _ => ?_)
      refine related.bind (related.mulEach _ _ _) (fun _ => ?_)
      refine related.bind (related.mulEach _ _ _) (fun _ => ?_)
      exact ih (fun e found => each e (by simp [found])) _ _

/-- What holds of calls holds of the walk over a tree. -/
theorem visit (related : Related be be' P) (c : Context α β) (e : Expr α) :
    P Unit (Walk.visit be c e) (Walk.visit be' c e) := by
  induction e using Expr.induction with
  | const value => exact related.bind (related.set _ _ _) (fun _ => related.one .zero _ _)
  | var name =>
    refine related.bind (related.ofExcept (c.lookup name)) (fun b => ?_)
    exact related.bind (related.two .copy _ _ _) (fun _ => related.set _ _ _)
  | add operands ih =>
    simp only [Walk.visit]
    split
    · exact related.throw _
    · -- The block of a sum is cleared, and the two results are copied out of it in the end.
      refine related.withTemp _ (fun temp => ?_)
      refine related.bind (related.slot _ _ _) (fun value => ?_)
      refine related.bind (related.slot _ _ _) (fun deriv => ?_)
      refine related.bind (related.one .zero _ _) (fun _ => ?_)
      refine related.bind (related.visitSum c value deriv ih) (fun _ => ?_)
      exact related.bind (related.two .copy _ _ _) (fun _ => related.two .copy _ _ _)
  | mul operands ih =>
    simp only [Walk.visit]
    split
    · exact related.throw _
    · -- The block of a product is filled, and its partial products are added up in the end.
      refine related.withTemp _ (fun temp => ?_)
      refine related.bind (related.slot _ _ _) (fun value => ?_)
      refine related.bind (related.slots _ _ _ _) (fun partials => ?_)
      refine related.bind (related.one (.fill Elem.one) _ _) (fun _ => ?_)
      refine related.bind (related.visitProduct c value ih [] partials) (fun _ => ?_)
      exact related.bind (related.sumPartials _ _ _) (fun _ => related.two .copy _ _ _)
  | exp exponent ih =>
    refine related.bind ih (fun _ => ?_)
    exact related.bind (related.one .exp _ _) (fun _ => related.two .mul _ _ _)
  | hole => exact related.throw _
  | unset kind => exact related.throw _

/-- What holds of calls holds of whole walks. -/
theorem generate (related : Related be be' P) (c : Context α β) (root : Expr α) :
    P Unit (Walk.generate be c root) (Walk.generate be' c root) :=
  -- The context is checked first, and both sides have the same one.
  related.bind (related.ofExcept c.validate) (fun _ => related.visit c root)

end Walk.Related

end Tangent
