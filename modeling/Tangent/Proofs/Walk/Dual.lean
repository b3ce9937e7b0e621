import Tangent.Elem
import Tangent.Proofs.Expr.Shape

/-!
Values with derivatives, one path at a time.

The operations stand in the order in which a walk performs them, so that nothing has to be known
about the arithmetic to compare the two.
-/

namespace Tangent

variable {α : Type} [Elem α]

namespace Dual

/-- What memory holds after a constant was written to it. -/
def stored (x : α) : α := if Elem.isZero x then Elem.zero else x

/-- Numbers multiplied from the left, starting at one. -/
def product (xs : List α) : α := xs.foldl Elem.mul Elem.one

/-- Numbers added from the left, starting at the first. -/
def total : List α → α
  | [] => Elem.zero
  | first :: rest => rest.foldl Elem.add first

/-- The product of factors, one of which enters with its derivative and all others by value. -/
def partialProduct (ds : List (α × α)) (own : Nat) : α :=
  product (ds.mapIdx (fun i d => if i = own then d.2 else d.1))

/-- The dual of a sum: values and derivatives are added, each starting at zero. -/
def sum (ds : List (α × α)) : α × α :=
  ((ds.map (·.1)).foldl Elem.add Elem.zero, (ds.map (·.2)).foldl Elem.add Elem.zero)

/-- The dual of a product: the derivative is the total of the partial products. -/
def mul (ds : List (α × α)) : α × α :=
  (product (ds.map (·.1)), total ((List.range ds.length).map (partialProduct ds)))

/-- The dual of an exponential, whose value is a factor of its derivative. -/
def exp (d : α × α) : α × α := (Elem.exp d.1, Elem.mul d.2 (Elem.exp d.1))

/-- One more factor is multiplied from the right. -/
theorem product_concat (xs : List α) (x : α) : product (xs ++ [x]) = Elem.mul (product xs) x := by
  -- Factors are multiplied from the left.
  simp [product]

/-- One more factor enters a partial product with its value, or as its own with its derivative. -/
theorem partialProduct_concat (ds : List (α × α)) (d : α × α) (own : Nat) :
    partialProduct (ds ++ [d]) own =
      Elem.mul (partialProduct ds own) (if ds.length = own then d.2 else d.1) := by
  -- The position of the new factor is the length of the list.
  simp [partialProduct, List.mapIdx_append, product_concat]

end Dual

namespace Expr

mutual

/-- The value and the derivative of a tree, where each name stands for a value and a seed. -/
def dual (input : String → α × α) : Expr α → α × α
  | .const value => (Dual.stored value, Elem.zero)
  | .var name => ((input name).1, Dual.stored (input name).2)
  | .add operands => Dual.sum (duals input operands)
  | .mul operands => Dual.mul (duals input operands)
  | .exp exponent => Dual.exp (exponent.dual input)
  -- A walk stops at an empty place, so nothing is left to be said about it.
  | .hole => (Elem.zero, Elem.zero)
  | .unset _ => (Elem.zero, Elem.zero)

/-- The values and derivatives of several trees. -/
def duals (input : String → α × α) : List (Expr α) → List (α × α)
  | [] => []
  | e :: rest => e.dual input :: duals input rest

end

/-- Each tree has one dual, in order. -/
theorem duals_eq_map (input : String → α × α) (operands : List (Expr α)) :
    duals input operands = operands.map (dual input) := by
  -- The list is gone through operand by operand.
  induction operands with
  | nil => rfl
  | cons e rest ih => rw [duals, ih, List.map_cons]

/-- The dual of a tree depends on the names that the tree mentions only. -/
theorem dual_congr {f g : String → α × α} (e : Expr α) :
    (∀ name ∈ e.mentioned, f name = g name) → e.dual f = e.dual g := by
  -- Every name of an operand is one of the whole tree, so the operands have the same duals.
  have all {operands : List (Expr α)}
      (each : ∀ e ∈ operands, (∀ name ∈ e.mentioned, f name = g name) → e.dual f = e.dual g)
      (same : ∀ name ∈ mentionedIn operands, f name = g name) :
      duals f operands = duals g operands := by
    rw [duals_eq_map, duals_eq_map]
    refine List.map_congr_left (fun e found => each e found (fun name named => ?_))
    exact same name (mem_mentionedIn.mpr ⟨e, found, named⟩)
  induction e using induction with
  | const value => exact fun _ => rfl
  | var name =>
    intro same
    rw [dual, dual, same name (by simp [mentioned])]
  | add operands ih =>
    intro same
    rw [dual, dual, all ih same]
  | mul operands ih =>
    intro same
    rw [dual, dual, all ih same]
  | exp exponent ih =>
    intro same
    rw [dual, dual, ih same]
  | hole => exact fun _ => rfl
  | unset kind => exact fun _ => rfl

end Expr

end Tangent
