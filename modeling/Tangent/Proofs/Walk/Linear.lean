import Tangent.Proofs.Walk.Derivative

/-!
What the seeds do to the dual of a tree.

They do not enter the value. Over a ring the derivative is linear in them, so it is the sum of the
derivatives along single variables, each times the seed of its variable.
-/

namespace Tangent

variable {R : Type} [CommRing R]

/-- The product rule is linear in the derivatives of the factors. -/
theorem productSlope_combine {φ : Type} (a b : R) (x dx dy : φ → R) (factors : List φ) :
    productSlope (factors.map x) (factors.map (fun e => a * dx e + b * dy e)) =
      a * productSlope (factors.map x) (factors.map dx) +
        b * productSlope (factors.map x) (factors.map dy) := by
  -- A factor more is one more term of the product rule.
  induction factors with
  | nil => simp [productSlope]
  | cons e rest ih =>
    simp only [List.map_cons, productSlope_cons, ih]
    ring

namespace Expr

variable (exp : R → R) (x dx dy : String → R)

/-- The derivative is linear in the direction. -/
theorem slope_combine (a b : R) (e : Expr R) :
    e.slope exp x (fun name => a * dx name + b * dy name) =
      a * e.slope exp x dx + b * e.slope exp x dy := by
  -- Only variables look at the direction, and each rule hands linearity on.
  induction e using induction with
  | const value => simp [slope]
  | var name => rfl
  | add operands ih =>
    simp only [slope, slopes_eq_map, List.map_congr_left ih, List.sum_map_add,
      List.sum_map_mul_left]
  | mul operands ih =>
    simp only [slope, slopes_eq_map, denoteAll_eq_map, List.map_congr_left ih,
      productSlope_combine]
  | exp exponent ih =>
    rw [slope, slope, slope, ih]
    ring
  | hole => simp [slope]
  | unset kind => simp [slope]

/-- The derivative along a combination of directions is the combination of the derivatives. -/
theorem slope_sum {φ : Type} (weight : φ → R) (toward : φ → String → R) (parts : List φ)
    (e : Expr R) :
    e.slope exp x (fun name => (parts.map (fun v => weight v * toward v name)).sum) =
      (parts.map (fun v => weight v * e.slope exp x (toward v))).sum := by
  induction parts with
  | nil =>
    -- No direction at all is zero times any.
    have none := e.slope_combine exp x x x 0 0
    simpa using none
  | cons v rest ih =>
    have first := e.slope_combine exp x (toward v)
      (fun name => (rest.map (fun v => weight v * toward v name)).sum) (weight v) 1
    simp only [one_mul, ih] at first
    simpa using first

variable {dx dy}

/-- The derivative depends on the direction of the names that the tree mentions only. -/
theorem slope_congr (e : Expr R) (same : ∀ name ∈ e.mentioned, dx name = dy name) :
    e.slope exp x dx = e.slope exp x dy := by
  -- Over the elements of a ring the slope is the derivative of the dual, which is known to agree.
  classical
  let _ := Elem.ofRing exp
  have alike := e.dual_congr (f := fun name => (x name, dx name))
    (g := fun name => (x name, dy name)) (fun name named => by rw [same name named])
  rw [dual_ofRing, dual_ofRing] at alike
  exact congrArg Prod.snd alike

/-- The derivative is made up of the derivatives along single variables. -/
theorem slope_eq_sum {names : List String} (distinct : names.Nodup) (e : Expr R)
    (covered : ∀ name ∈ e.mentioned, name ∈ names) :
    e.slope exp x dx =
      (names.map (fun v => dx v * e.slope exp x (Pi.single v 1))).sum := by
  rw [← slope_sum]
  apply slope_congr
  intro name named
  -- Of all single variables only the name itself has a part in its direction.
  have alone : ∀ v, v ≠ name → v ∈ names → dx v * (Pi.single v 1 : String → R) name = 0 := by
    intro v other _
    rw [Pi.single_eq_of_ne other.symm, mul_zero]
  rw [List.sum_map_eq_nsmul_single name _ alone,
    List.count_eq_one_of_mem distinct (covered name named), Pi.single_eq_same, mul_one, one_smul]

end Expr

end Tangent
