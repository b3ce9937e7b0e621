import Tangent.Proofs.Walk.Operands

/-!
The walk on memory.

A walk leaves the value and the derivative of its tree in the registers, path by path, and changes
no other position that was there before. Where it stops early, it stops at the defect of its tree.
-/

namespace Tangent.Walk

variable {α : Type}

section Nodes

variable [Elem α] {c : Context α View} {n : Nat} {input : Nat → String → α × α}

omit [Elem α] in
/-- Two steps that leave two views apart from each other leave both. -/
theorem leaves_both {h : Host α} (ready : h.Ready) {v w : View} (apart : v.Apart w n)
    {first second : Action (Host α) WalkError Unit} {f g : Nat → α} (region : Region)
    (covered : ∀ block i, v.spots n block i ∨ w.spots n block i → region block i)
    (one : h.Leaves first v n f)
    (other : ∀ t, ({ h with store := t } : Host α).Ready →
      Store.Changes (v.spots n) h.store t → t.Shows v n f →
      ({ h with store := t } : Host α).Leaves second w n g) :
    ∃ t, Store.Changes region h.store t ∧ (do first; second) h = .ok () { h with store := t } ∧
      t.Shows v n f ∧ t.Shows w n g := by
  -- The second step changes the second view only, which is apart from the first.
  obtain ⟨t, ran, changed, left⟩ := one
  obtain ⟨t', ran', changed', left'⟩ := other t (ready.of_grown changed.grows) changed left
  refine ⟨t', ?_, (Action.bind_ok ran).trans ran', ?_, left'⟩
  · exact (changed.mono (fun block i inside => covered block i (.inl inside))).trans changed'
      (fun block i _ inside => covered block i (.inr inside))
  · exact (spotsOf_single changed').shows_apart left (by simpa using apart)

omit [Elem α] in
/-- A step that leaves the value and one that leaves the derivative leave the dual. -/
theorem ends_registers {h : Host α} (ready : h.Ready) (apart : c.value.Apart c.deriv n)
    {first second : Action (Host α) WalkError Unit} {d : Nat → α × α}
    (value : h.Leaves first c.value n (fun p => (d p).1))
    (deriv : ∀ t, ({ h with store := t } : Host α).Ready →
      Store.Changes (c.value.spots n) h.store t → t.Shows c.value n (fun p => (d p).1) →
      ({ h with store := t } : Host α).Leaves second c.deriv n (fun p => (d p).2)) :
    ∃ t, Store.Changes (c.registers n) h.store t ∧
      h.Ends (do first; second) t none (Leaves c n d t) := by
  -- The registers are apart, so the second step leaves the value alone.
  obtain ⟨t, changed, ran, shownValue, shownDeriv⟩ :=
    leaves_both ready apart (c.registers n) (fun _ _ inside => inside) value deriv
  exact ⟨t, changed, ran, shownValue, shownDeriv⟩

/-- A constant is written with a derivative of zero. -/
theorem visits_const (value : α) : Visits c n input (.const value) := by
  -- The registers are written one after the other.
  intro h ready fits _
  have small := fits.small
  simp only [visit, Expr.defect?, Expr.dual, fits.paths]
  exact ends_registers ready fits.apart (Host.set_leaves ready small fits.value value)
    (fun t ready changed _ => Host.zero_leaves ready small (changed.reaches fits.deriv))

/-- A variable is copied, and its seed written as its derivative. -/
theorem visits_var (name : String) : Visits c n input (.var name) := by
  intro h ready fits _
  have small := fits.small
  cases found : c.bindings.find? name with
  | none =>
    -- An unbound name stops the walk before anything is written.
    refine ⟨h.store, .refl _ _, ?_⟩
    have unbound : c.bindings.contains name = false := by simp [NameMap.contains, found]
    simp only [visit, Context.lookup, found, Expr.defect?, Host.terms, unbound, Bool.false_eq_true,
      if_false]
    rfl
  | some b =>
    have bound : c.bindings.contains name = true := by simp [NameMap.contains, found]
    -- The seed is the same on all paths.
    have own := fits.bound name b found
    have seed : ∀ p, Dual.stored (input p name).2 = Dual.stored b.seed := fun p => by rw [own.seed]
    simp only [visit, Context.lookup, found, Expr.defect?, Host.terms, bound, if_true, Expr.dual,
      fits.paths, seed]
    exact ends_registers ready fits.apart
      (Host.copy_leaves ready small own.value own.data fits.value)
      (fun t ready changed _ => Host.set_leaves ready small (changed.reaches fits.deriv) b.seed)

/-- The exponential of the value is taken, and multiplied into the derivative. -/
theorem visits_exp {exponent : Expr α} (visits : Visits c n input exponent) :
    Visits c n input (.exp exponent) := by
  intro h ready fits small
  obtain ⟨t, changed, ends⟩ := visits h ready fits small
  simp only [visit, Expr.defect?, Expr.dual]
  rw [← Option.or_none (o := exponent.defect? (h.terms c) h.liveElements)]
  refine ends.andThen changed (fun left => ?_)
  -- The value is the exponential already when the derivative is multiplied by it.
  have ready := ready.of_grown changed.grows
  rw [fits.paths]
  obtain ⟨u, changed', ends'⟩ := ends_registers ready fits.apart
    (d := fun p => Dual.exp (exponent.dual (input p)))
    (Host.exp_leaves ready fits.small left.value)
    (fun t ready changed shown => Host.mul_leaves ready fits.small fits.apart shown
      ((spotsOf_single changed).shows_apart left.deriv (by simpa using fits.apart.symm)))
  exact ⟨u, changed.trans changed' (fun _ _ _ inside => inside), ends'⟩

/-- The stretches of a borrowed block that follow each other are apart. -/
theorem apart_drop (v : View) {i j n : Nat} (ordered : i < j) :
    (v.drop (i * n)).Apart (v.drop (j * n)) n := by
  intro _
  -- The earlier one ends where the next one starts, or before.
  have : (i + 1) * n ≤ j * n := Nat.mul_le_mul_right n ordered
  have : (i + 1) * n = i * n + n := Nat.succ_mul i n
  simp only [View.drop]
  omega

/-- A stretch of a borrowed block, one number per path. -/
theorem slot_paths {s : Store α} (fits : c.Fits n input s) {h : Host α} (i : Nat) {m : Nat}
    (inside : (i + 1) * n ≤ m) (small : m ≤ Host.room) (g : Host α) :
    (Host.backend.slot (h.loan m) (Int64.ofNat i) c.paths : Action (Host α) WalkError View) g =
      .ok ((h.nextBlock m).drop (i * n)) g := by
  -- The paths are counted by a machine integer.
  rw [fits.paths]
  exact Host.slot_ok fits.positive inside small g

/-- Several stretches of a borrowed block, one number per path in each. -/
theorem slots_paths {s : Store α} (fits : c.Fits n input s) {h : Host α} (i count : Nat) {m : Nat}
    (inside : (i + count) * n ≤ m) (small : m ≤ Host.room) (g : Host α) :
    (Host.backend.slots (h.loan m) c.paths (Int64.ofNat i) count :
        Action (Host α) WalkError (List View)) g =
      .ok ((List.range' i count).map (fun j => (h.nextBlock m).drop (j * n))) g := by
  -- The paths are counted by a machine integer.
  rw [fits.paths]
  exact Host.slots_ok fits.positive small g count i inside

/-- The sums of the operands' duals are collected in a block and copied to the registers. -/
theorem visits_add {operands : List (Expr α)} (each : ∀ e ∈ operands, Visits c n input e) :
    Visits c n input (.add operands) := by
  intro h ready fits small
  cases empty : operands.isEmpty with
  | true =>
    -- A sum of nothing stops the walk.
    refine ⟨h.store, .refl _ _, ?_⟩
    simp only [visit, Expr.defect?, empty, if_true]
    rfl
  | false =>
    obtain ⟨block, below⟩ := Expr.broadest_add_le empty small
    have size : 2 * c.paths = Int64.ofNat (2 * n) := fits.mul_paths 2
    have positive := fits.positive
    simp only [visit, Expr.defect?, empty, Bool.false_eq_true, if_false, Host.terms_paths, size]
    refine Host.ends_withTemp ready c (by omega) block ?_
    have lent : Amid c n h.store (h.lend (2 * n)) :=
      ⟨ready.lend _, Host.changes_lend h _ _⟩
    -- The block has a stretch for the values and one for the derivatives, both cleared.
    have first := slot_paths fits (h := h) 0 (by omega) block (h.lend (2 * n))
    have second := slot_paths fits (h := h) 1 (by omega) block (h.lend (2 * n))
    obtain ⟨t, ran, changed, zeros⟩ := Host.zero_leaves (ε := WalkError) lent.ready block
      (Host.reaches_nextBlock h (2 * n))
    have amid := lent.views (spotsOf_single changed) (by simp [Host.nextBlock])
    obtain ⟨u, amid', ends⟩ := visitSum_memory fits ⟨Nat.le_refl _, Nat.le_refl _⟩
      (apart_drop (h.nextBlock (2 * n)) (Nat.zero_lt_one)) operands
      { h.lend (2 * n) with store := t } (fun _ => (Elem.zero, Elem.zero)) amid
      (zeros.drop (0 * n) (by omega)) (zeros.drop (1 * n) (by omega)) each below
    rw [← Option.or_none (o := Expr.defectIn? (h.terms c) (h.lend (2 * n)).liveElements operands)]
    obtain ⟨w, changed', ends'⟩ := ends.andThen amid'.changed (fun shown => by
      obtain ⟨shownValue, shownDeriv⟩ := shown
      -- The block is new, so neither register overlaps the sums that are copied to it.
      obtain ⟨w, changed', ends'⟩ := ends_registers amid'.ready fits.apart
        (d := fun p => (Expr.add operands).dual (input p))
        (copy_paths fits amid'.ready (fits.apart_new (Nat.le_refl _)).1.symm shownValue
          (amid'.changed.reaches fits.value))
        (fun t ready changed _ => copy_paths fits ready (fits.apart_new (Nat.le_refl _)).2.symm
          ((spotsOf_single changed).shows_apart shownDeriv
            (by simpa using (fits.apart_new (Nat.le_refl _)).1.symm))
          (changed.reaches (amid'.changed.reaches fits.deriv)))
      exact ⟨w, amid'.changed.trans changed' (fun _ _ _ inside => inside), ends'⟩)
    refine ⟨w, changed', .of_eq ?_ ends'⟩
    exact (Action.bind_ok first).trans ((Action.bind_ok second).trans (Action.bind_ok ran))

/-- The partial products of operands, each with its stretch of a borrowed block. -/
def partials (v : View) (n : Nat) (input : Nat → String → α × α) (operands : List (Expr α)) :
    List (View × (Nat → α)) :=
  (List.range operands.length).map (fun i =>
    (v.drop ((1 + i) * n), fun p => Dual.partialProduct (Expr.duals (input p) operands) i))

/-- The stretches of the partial products follow that of the product. -/
theorem map_fst_partials (v : View) (input : Nat → String → α × α) (operands : List (Expr α)) :
    (partials v n input operands).map (·.1) =
      (List.range' 1 operands.length).map (fun j => v.drop (j * n)) := by
  -- The partial products are numbered from one on.
  simp [partials, List.range'_eq_map_range, Function.comp_def]

/-- The derivative of a product is the total of its partial products. -/
theorem total_partials (v : View) (operands : List (Expr α)) (p : Nat) :
    Dual.total ((partials v n input operands).map (fun x => x.2 p)) =
      ((Expr.mul operands).dual (input p)).2 := by
  -- There are as many partial products as duals.
  simp [partials, Expr.dual, Dual.mul, Expr.duals_eq_map, Function.comp_def]

/-- A block of ones shows the products of no factors. -/
theorem factors_ones {v : View} {m count : Nat} {t : Store α}
    (ones : t.Shows v m (fun _ => Elem.one)) (inside : (count + 1) * n ≤ m) :
    Factors n (v.drop (0 * n)) ((List.range' 1 count).map (fun j => v.drop (j * n)))
      (fun _ => []) t where
  -- Products of no factors are one, which is what every stretch of the block shows.
  product := ones.drop (0 * n) (by
    have : (0 + 1) * n ≤ (count + 1) * n := Nat.mul_le_mul_right n (by omega)
    omega)
  partials i w found := by
    obtain ⟨j, listed, rfl⟩ := List.mem_map.mp (List.mem_of_getElem? found)
    have above : (j + 1) * n ≤ (count + 1) * n :=
      Nat.mul_le_mul_right n (by have := List.mem_range'_1.mp listed; omega)
    exact ones.drop (j * n) (by rw [Nat.succ_mul] at above; omega)

/-- The stretches of a product and its partial products are apart from each other. -/
theorem pairwise_stretches (v : View) (n count : Nat) :
    (v.drop (0 * n) :: ([] ++ (List.range' 1 count).map (fun j => v.drop (j * n)))).Pairwise
      (fun v w => v.Apart w n) := by
  -- They follow each other from the start of the block.
  have all : (v.drop (0 * n) :: ([] ++ (List.range' 1 count).map (fun j => v.drop (j * n)))) =
      (List.range' 0 (count + 1)).map (fun j => v.drop (j * n)) := by simp [List.range'_succ]
  rw [all, List.pairwise_map]
  exact (List.pairwise_lt_range' 1 Nat.one_pos).imp (apart_drop v)

/-- From the products of all factors the registers get the dual of the product. -/
theorem product_registers {s : Store α} (fits : c.Fits n input s) {h : Host α}
    (amid : Amid c n s h) {v : View} (fresh : s.blocks.size ≤ v.block) {operands : List (Expr α)}
    (some : operands.isEmpty = false)
    (factors : Factors n (v.drop (0 * n))
      ((List.range' 1 operands.length).map (fun j => v.drop (j * n)))
      (fun p => Expr.duals (input p) operands) h.store) :
    ∃ t, Store.Changes (c.registers n) h.store t ∧
      h.Ends (do
        sumPartials Host.backend c.deriv c.paths
          ((List.range' 1 operands.length).map (fun j => v.drop (j * n)))
        Host.backend.copy (v.drop (0 * n)) c.value c.paths) t none
        (Leaves c n (fun p => (Expr.mul operands).dual (input p)) t) := by
  have clear : ∀ k, c.value.Apart (v.drop k) n ∧ c.deriv.Apart (v.drop k) n :=
    fun k => fits.apart_new fresh
  -- Each partial product comes with its stretch, so that the sum over them is the derivative.
  rw [← map_fst_partials v input] at factors ⊢
  have each : ∀ x ∈ partials v n input operands,
      h.store.Shows x.1 n x.2 ∧ x.1.Apart c.deriv n := by
    intro x found
    obtain ⟨i, listed, rfl⟩ := List.mem_map.mp found
    refine ⟨factors.partials i _ ?_, (clear _).2.symm⟩
    simp [partials, List.mem_range.mp listed]
  have nonempty : partials v n input operands ≠ [] := by
    intro none
    have := congrArg List.length none
    simp_all [partials]
  have summed :=
    sumPartials_memory fits amid.ready (amid.changed.reaches fits.deriv) _ nonempty each
  simp only [total_partials] at summed
  obtain ⟨t, changed, ran, shownDeriv, shownValue⟩ := leaves_both amid.ready fits.apart.symm
    (c.registers n) (fun _ _ inside => inside.symm) summed
    (fun t ready changed _ => copy_paths fits ready (clear _).1.symm
      ((spotsOf_single changed).shows_apart factors.product (by simpa using (clear _).2.symm))
      (changed.reaches (amid.changed.reaches fits.value)))
  exact ⟨t, changed, ran, shownValue, shownDeriv⟩

/-- Product and partial products are collected in a block; the registers get them from there. -/
theorem visits_mul {operands : List (Expr α)} (each : ∀ e ∈ operands, Visits c n input e) :
    Visits c n input (.mul operands) := by
  intro h ready fits small
  cases empty : operands.isEmpty with
  | true =>
    refine ⟨h.store, .refl _ _, ?_⟩
    simp only [visit, Expr.defect?, empty, if_true]
    rfl
  | false =>
    obtain ⟨block, below⟩ := Expr.broadest_mul_le empty small
    have size : (Int64.ofNat operands.length + 1) * c.paths =
        Int64.ofNat ((operands.length + 1) * n) := by
      rw [← fits.mul_paths, Int64.ofNat_add]
      rfl
    have positive := fits.positive
    simp only [visit, Expr.defect?, empty, Bool.false_eq_true, if_false, Host.terms_paths, size]
    generalize held : (operands.length + 1) * n = m at block ⊢
    refine Host.ends_withTemp ready c (by rw [← held]; positivity) block ?_
    have lent : Amid c n h.store (h.lend m) := ⟨ready.lend _, Host.changes_lend h _ _⟩
    -- The first stretch of the block is for the product, the others for the partial products.
    have first := slot_paths fits (h := h) 0
      (by rw [← held]; exact Nat.mul_le_mul_right n (by omega)) block (h.lend m)
    have others := slots_paths fits (h := h) 1 operands.length
      (by rw [← held]; exact Nat.mul_le_mul_right n (by omega)) block (h.lend m)
    obtain ⟨t, ran, changed, ones⟩ := Host.fill_leaves (ε := WalkError) lent.ready block
      (Host.reaches_nextBlock h m) Elem.one
    obtain ⟨u, amid, ends⟩ := visitProduct_memory fits operands
      { h.lend m with store := t } [] _ (fun _ => [])
      (lent.views (spotsOf_single changed) (by simp [Host.nextBlock]))
      (by simp +contextual [Host.nextBlock, View.drop, eq_comm])
      (pairwise_stretches (h.nextBlock m) n operands.length)
      (fun _ => rfl) (by simp) (factors_ones ones (by omega)) each below
    rw [← Option.or_none (o := Expr.defectIn? (h.terms c) (h.lend m).liveElements operands)]
    obtain ⟨w, changed', ends'⟩ := ends.andThen amid.changed (fun factors => by
      obtain ⟨w, changed', ends'⟩ :=
        product_registers fits amid (Nat.le_refl _) empty factors
      exact ⟨w, amid.changed.trans changed' (fun _ _ _ inside => inside), ends'⟩)
    refine ⟨w, changed', .of_eq ?_ ends'⟩
    exact (Action.bind_ok first).trans ((Action.bind_ok others).trans (Action.bind_ok ran))

/-- Every walk leaves the duals of its tree in the registers, or stops at the tree's defect. -/
theorem visit_memory (e : Expr α) : Visits c n input e := by
  -- A walk over a node needs nothing of its operands but that their walks do the same.
  induction e using Expr.induction with
  | const value => exact visits_const value
  | var name => exact visits_var name
  | add operands ih => exact visits_add ih
  | mul operands ih => exact visits_mul ih
  | exp exponent ih => exact visits_exp ih
  | hole => exact fun h _ _ _ => ⟨h.store, .refl _ _, rfl⟩
  | unset kind => exact fun h _ _ _ => ⟨h.store, .refl _ _, rfl⟩

end Nodes

end Tangent.Walk
