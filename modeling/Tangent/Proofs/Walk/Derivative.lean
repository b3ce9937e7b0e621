import Tangent.Proofs.Evaluate

/-!
Evaluation over a ring.

Where the numbers are a commutative ring, what a walk leaves is the value of its tree and the
derivative along the seeds: the second component of evaluating the tree over dual numbers.
-/

namespace Tangent

variable {R S : Type}

/-- The arithmetic of a ring, with any function in place of the exponential. -/
@[reducible] def Elem.ofRing [CommRing R] [DecidableEq R] (exp : R → R) : Elem R where
  zero := 0
  one := 1
  add := (· + ·)
  mul := (· * ·)
  exp := exp
  isZero x := decide (x = 0)

namespace Expr

mutual

/-- What a tree denotes in a ring into which its constants are embedded. -/
def denote [CommSemiring S] (embed : R → S) (exp : S → S) (x : String → S) : Expr R → S
  | .const value => embed value
  | .var name => x name
  | .add operands => (denoteAll embed exp x operands).sum
  | .mul operands => (denoteAll embed exp x operands).prod
  | .exp exponent => exp (exponent.denote embed exp x)
  -- A tree with an empty place denotes nothing in particular.
  | .hole => 0
  | .unset _ => 0

/-- What several trees denote. -/
def denoteAll [CommSemiring S] (embed : R → S) (exp : S → S) (x : String → S) :
    List (Expr R) → List S
  | [] => []
  | e :: rest => e.denote embed exp x :: denoteAll embed exp x rest

end

end Expr

section Ring

variable [CommRing R]

/-- The product rule: each factor's derivative, times the product of the other factors. -/
def productSlope (xs dxs : List R) : R :=
  ((List.range xs.length).map (fun i => dxs.getD i 0 * (xs.eraseIdx i).prod)).sum

namespace Expr

mutual

/-- The derivative of a tree along a direction, by the rules of differentiation. -/
def slope (exp : R → R) (x dx : String → R) : Expr R → R
  | .const _ => 0
  | .var name => dx name
  | .add operands => (slopes exp x dx operands).sum
  | .mul operands => productSlope (denoteAll id exp x operands) (slopes exp x dx operands)
  -- The function in place of the exponential counts as its own derivative.
  | .exp exponent => exp (exponent.denote id exp x) * exponent.slope exp x dx
  | .hole => 0
  | .unset _ => 0

/-- The derivatives of several trees. -/
def slopes (exp : R → R) (x dx : String → R) : List (Expr R) → List R
  | [] => []
  | e :: rest => e.slope exp x dx :: slopes exp x dx rest

end

end Expr

/-- The product rule for one more factor in front. -/
theorem productSlope_cons (x dx : R) (xs dxs : List R) :
    productSlope (x :: xs) (dx :: dxs) = dx * xs.prod + x * productSlope xs dxs := by
  simp only [productSlope, List.length_cons, List.range_succ_eq_map, List.map_cons, List.map_map,
    List.sum_cons, List.getD_cons_zero, List.eraseIdx_zero, List.tail_cons, Function.comp_def,
    Nat.succ_eq_add_one, List.getD_cons_succ, List.eraseIdx_cons_succ, List.prod_cons,
    ← List.sum_map_mul_left]
  -- In the slope of a later factor the new one is among the other factors.
  congr 2
  refine List.map_congr_left (fun i _ => ?_)
  ring

/-- The function in place of the exponential, on dual numbers. -/
def dualExp (exp : R → R) (u : DualNumber R) : DualNumber R :=
  .inl (exp u.fst) + (exp u.fst * u.snd) • DualNumber.eps

/-- Dual numbers are added component by component. -/
theorem components_sum (us : List (DualNumber R)) :
    us.sum.fst = (us.map (·.fst)).sum ∧ us.sum.snd = (us.map (·.snd)).sum :=
  -- Both projections are homomorphisms of addition.
  ⟨map_list_sum (TrivSqZeroExt.fstHom R R R) us, map_list_sum (TrivSqZeroExt.sndHom R R) us⟩

/-- The infinitesimal part of a product of dual numbers follows the product rule. -/
theorem snd_prod (us : List (DualNumber R)) :
    us.prod.snd = productSlope (us.map (·.fst)) (us.map (·.snd)) := by
  induction us with
  | nil => simp [productSlope]
  | cons u us ih =>
    -- The product of two dual numbers follows the rule for two factors.
    rw [List.prod_cons, List.map_cons, List.map_cons, productSlope_cons, ← ih,
      DualNumber.snd_mul, TrivSqZeroExt.fst_list_prod]
    ring

namespace Expr

omit [CommRing R] in
/-- Each tree denotes one element, in order. -/
theorem denoteAll_eq_map [CommSemiring S] (embed : R → S) (exp : S → S) (x : String → S)
    (operands : List (Expr R)) :
    denoteAll embed exp x operands = operands.map (denote embed exp x) := by
  -- The list is gone through operand by operand.
  induction operands with
  | nil => rfl
  | cons e rest ih => rw [denoteAll, ih, List.map_cons]

variable (exp : R → R) (x dx : String → R)

/-- Each tree has one derivative, in order. -/
theorem slopes_eq_map (operands : List (Expr R)) :
    slopes exp x dx operands = operands.map (slope exp x dx) := by
  -- The list is gone through operand by operand.
  induction operands with
  | nil => rfl
  | cons e rest ih => rw [slopes, ih, List.map_cons]

/-- What a tree denotes over dual numbers, with the seeds as infinitesimal parts of the inputs. -/
def denoteDual (e : Expr R) : DualNumber R :=
  e.denote .inl (dualExp exp) (fun name => .inl (x name) + dx name • DualNumber.eps)

/-- Operands known component by component are known in order. -/
theorem map_denoteDual {operands : List (Expr R)}
    (each : ∀ e ∈ operands, (e.denoteDual exp x dx).fst = e.denote id exp x ∧
      (e.denoteDual exp x dx).snd = e.slope exp x dx) :
    (operands.map (denoteDual exp x dx)).map (·.fst) = denoteAll id exp x operands ∧
      (operands.map (denoteDual exp x dx)).map (·.snd) = slopes exp x dx operands := by
  -- Both lists are images of the operands, and the images agree one by one.
  rw [denoteAll_eq_map, slopes_eq_map, List.map_map, List.map_map]
  exact ⟨List.map_congr_left (fun e found => (each e found).1),
    List.map_congr_left (fun e found => (each e found).2)⟩

/-- Evaluating over dual numbers gives the value and, as infinitesimal part, the derivative. -/
theorem denoteDual_eq (e : Expr R) :
    (e.denoteDual exp x dx).fst = e.denote id exp x ∧
      (e.denoteDual exp x dx).snd = e.slope exp x dx := by
  -- Each rule of differentiation is a fact about one operation on dual numbers.
  induction e using induction with
  | const value => simp [denoteDual, denote, slope]
  | var name => simp [denoteDual, denote, slope]
  | add operands ih =>
    have opened : (Expr.add operands).denoteDual exp x dx =
        (operands.map (denoteDual exp x dx)).sum := by
      rw [denoteDual, denote, denoteAll_eq_map]
      rfl
    obtain ⟨values, derivatives⟩ := map_denoteDual exp x dx ih
    rw [opened, (components_sum _).1, (components_sum _).2, values, derivatives, denote, slope]
    exact ⟨rfl, rfl⟩
  | mul operands ih =>
    have opened : (Expr.mul operands).denoteDual exp x dx =
        (operands.map (denoteDual exp x dx)).prod := by
      rw [denoteDual, denote, denoteAll_eq_map]
      rfl
    obtain ⟨values, derivatives⟩ := map_denoteDual exp x dx ih
    rw [opened, TrivSqZeroExt.fst_list_prod, snd_prod, values, derivatives, denote, slope]
    exact ⟨rfl, rfl⟩
  | exp exponent ih =>
    -- The chain rule is built into the function on dual numbers.
    have opened : (Expr.exp exponent).denoteDual exp x dx =
        dualExp exp (exponent.denoteDual exp x dx) := rfl
    simp [opened, dualExp, ih, denote, slope]
  | hole => simp [denoteDual, denote, slope]
  | unset kind => simp [denoteDual, denote, slope]

end Expr

variable [DecidableEq R]

namespace Dual

/-- Storing a ring element keeps it. -/
theorem stored_ofRing (exp : R → R) (x : R) : @stored R (Elem.ofRing exp) x = x := by
  -- What counts as zero in a ring is zero.
  show (if decide (x = 0) = true then 0 else x) = x
  split
  · rename_i zero
    exact (of_decide_eq_true zero).symm
  · rfl

/-- Multiplying from the left, starting at one, is the product. -/
theorem product_ofRing (exp : R → R) (xs : List R) :
    @product R (Elem.ofRing exp) xs = xs.prod :=
  -- In a ring the product of a list may be taken from the left.
  List.prod_eq_foldl.symm

/-- Adding from the left, starting at the first, is the sum. -/
theorem total_ofRing (exp : R → R) (xs : List R) : @total R (Elem.ofRing exp) xs = xs.sum := by
  -- Starting at the first is starting at zero and adding the first.
  cases xs with
  | nil => rfl
  | cons x xs =>
    show xs.foldl (· + ·) x = _
    simp [List.sum_eq_foldl]

/-- A partial product is its own factor's derivative times the other factors. -/
theorem partialProduct_ofRing (exp : R → R) (ds : List (R × R)) {own : Nat}
    (inside : own < ds.length) :
    @partialProduct R (Elem.ofRing exp) ds own =
      (ds.map (·.2)).getD own 0 * ((ds.map (·.1)).eraseIdx own).prod := by
  rw [@partialProduct.eq_def R (Elem.ofRing exp), product_ofRing]
  -- The factors in front of the own one are multiplied from outside, so their order matters.
  induction ds generalizing own with
  | nil => simp at inside
  | cons d ds ih =>
    cases own with
    | zero =>
      -- Behind the own factor all others enter with their values.
      have others : ds.mapIdx (fun _ d => d.1) = ds.map (·.1) :=
        List.ext_getElem (by simp) (by simp)
      simp [List.mapIdx_cons, others]
    | succ own =>
      have rest := @ih own (by simpa using inside)
      simp only [List.mapIdx_cons, Nat.add_right_cancel_iff, List.prod_cons, rest, List.map_cons,
        List.getD_cons_succ, List.eraseIdx_cons_succ]
      rw [if_neg (by omega)]
      ring

/-- The dual of a product follows the product rule. -/
theorem mul_ofRing (exp : R → R) (ds : List (R × R)) :
    @mul R (Elem.ofRing exp) ds =
      ((ds.map (·.1)).prod, productSlope (ds.map (·.1)) (ds.map (·.2))) := by
  rw [@mul.eq_def R (Elem.ofRing exp), product_ofRing, total_ofRing, productSlope, List.length_map]
  -- The totals agree term by term.
  congr 2
  exact List.map_congr_left (fun i listed =>
    partialProduct_ofRing exp ds (List.mem_range.mp listed))

end Dual

/-- Over a ring, the dual of a tree is what it denotes, with its derivative. -/
theorem Expr.dual_ofRing (exp : R → R) (input : String → R × R) (e : Expr R) :
    @Expr.dual R (Elem.ofRing exp) input e =
      (e.denote id exp (fun name => (input name).1),
        e.slope exp (fun name => (input name).1) (fun name => (input name).2)) := by
  let _ := Elem.ofRing exp
  -- Duals are computed in a fixed order, which does not matter in a ring.
  induction e using Expr.induction with
  | const value => rw [dual, denote, slope, Dual.stored_ofRing]; rfl
  | var name => rw [dual, denote, slope, Dual.stored_ofRing]
  | add operands ih =>
    rw [dual, denote, slope, duals_eq_map, denoteAll_eq_map, slopes_eq_map,
      List.map_congr_left ih, Dual.sum, List.map_map, List.map_map]
    exact congrArg₂ Prod.mk List.sum_eq_foldl.symm List.sum_eq_foldl.symm
  | mul operands ih =>
    rw [dual, denote, slope, duals_eq_map, denoteAll_eq_map, slopes_eq_map,
      List.map_congr_left ih, Dual.mul_ofRing, List.map_map, List.map_map]
    rfl
  | exp exponent ih =>
    rw [dual, denote, slope, ih]
    exact congrArg₂ Prod.mk rfl (mul_comm _ _)
  | hole => rfl
  | unset kind => rfl

/--
Evaluation differentiates: over a ring, and with any function in place of the exponential, it
returns, and leaves what the tree denotes together with the infinitesimal part of what it denotes
over dual numbers, which is the derivative along the seeds.
-/
theorem evaluate_differentiates (exp : R → R) {h : Host R} {root : Expr R}
    {inputs : NameMap (Binding R View)} {value deriv : View}
    (setup : Walk.Setup h (evaluationContext inputs value deriv) value.length root)
    (unlimited : h.limit ≤ 0) :
    let _ := Elem.ofRing exp
    ∃ h', evaluate Host.backend root inputs value deriv h = .ok () h' ∧
      ∀ p < value.length, ∀ x dx : String → R,
        (∀ name b, inputs.find? name = some b →
          h.store.read? b.data p = some (x name) ∧ b.seed = dx name) →
        h'.store.read? value p = some (root.denote id exp x) ∧
          h'.store.read? deriv p = some (root.denoteDual exp x dx).snd ∧
          (root.denoteDual exp x dx).snd = root.slope exp x dx := by
  intro _
  obtain ⟨h', ran⟩ := setup.succeeds unlimited
  have left := (setup.leaves ran).2
  refine ⟨h', ?_, fun p below x dx given => ?_⟩
  · rw [evaluate_eq_generate setup.laid]
    exact Action.adapt_ok ran
  -- On the variables of the tree, the inputs of the path are the given ones.
  obtain ⟨names, listed, covered⟩ := setup.bound
  have same : root.dual ((evaluationContext inputs value deriv).input h.store p) =
      root.dual (fun name => (x name, dx name)) := by
    refine Expr.dual_congr root (fun name named => ?_)
    have bound := covered name ((Expr.mem_vars listed name).mpr named)
    obtain ⟨b, found⟩ := Option.isSome_iff_exists.mp bound
    obtain ⟨held, seed⟩ := given name b found
    rw [Context.input, found]
    simp only [held, seed, Option.getD_some]
  -- The registers show the dual at those inputs, which is the value with the derivative.
  have valueHeld := left.value.holds p below
  have derivHeld := left.deriv.holds p below
  rw [same, Expr.dual_ofRing] at valueHeld derivHeld
  have derivative := (root.denoteDual_eq exp x dx).2
  exact ⟨valueHeld, derivative ▸ derivHeld, derivative⟩

/-- Over the integers with `u * u + 1` for the exponential, at zero and at one. -/
theorem evaluate_differentiates_sample :
    let _ : Elem ℤ := Elem.ofRing (fun u => u * u + 1)
    Walk.Setup (Walk.sampleHost : Host ℤ)
        (evaluationContext Walk.sampleInputs ⟨0, 0, 2⟩ ⟨1, 0, 3⟩) 2 Walk.sampleTree ∧
      ∃ h', evaluate Host.backend Walk.sampleTree Walk.sampleInputs ⟨0, 0, 2⟩ ⟨1, 0, 3⟩
          (Walk.sampleHost : Host ℤ) = .ok () h' ∧
        h'.store.read? ⟨0, 0, 2⟩ 1 = some 2 ∧ h'.store.read? ⟨1, 0, 3⟩ 1 = some 4 := by
  -- At one the function in place of the exponential is two, and so is its slope.
  intro _
  have setup : Walk.Setup (Walk.sampleHost : Host ℤ)
      (evaluationContext Walk.sampleInputs ⟨0, 0, 2⟩ ⟨1, 0, 3⟩) 2 Walk.sampleTree :=
    Walk.sample_setup
  obtain ⟨h', ran, left⟩ := evaluate_differentiates (fun u : ℤ => u * u + 1) setup (by decide)
  obtain ⟨valueHeld, derivHeld, rules⟩ := left 1 (by decide) (fun _ => 1) (fun _ => 1)
    (fun name b found => by
      rw [Walk.find?_sampleInputs] at found
      split at found
      · cases found
        exact ⟨rfl, rfl⟩
      · cases found)
  refine ⟨setup, h', ran, ?_, ?_⟩
  · rw [valueHeld]
    decide
  · rw [derivHeld, rules]
    decide

end Ring

end Tangent
