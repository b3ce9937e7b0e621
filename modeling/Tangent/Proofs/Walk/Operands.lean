import Tangent.Proofs.Walk.Fits

/-!
Walks over the operands of a sum or a product.

The duals of the operands are collected in a borrowed block: the sums one operand after the other,
the product and its partial products one factor after the other.
-/

namespace Tangent.Walk

variable {α : Type}

section Operands

variable [Elem α] {c : Context α View} {n : Nat} {input : Nat → String → α × α} {s : Store α}

/-- Adding combines by addition. -/
theorem add_combines (fits : c.Fits n input s) :
    Update.Combines n Elem.add
      (fun src dst => Host.backend.add src dst c.paths : View → View → Action (Host α) _ Unit) := by
  -- The paths are counted by a machine integer.
  intro h src dst f g ready apart source target
  rw [fits.paths]
  exact Host.add_leaves ready fits.small apart source target

/-- Multiplying combines by multiplication. -/
theorem mul_combines (fits : c.Fits n input s) :
    Update.Combines n Elem.mul
      (fun src dst => Host.backend.mul src dst c.paths : View → View → Action (Host α) _ Unit) := by
  -- The paths are counted by a machine integer.
  intro h src dst f g ready apart source target
  rw [fits.paths]
  exact Host.mul_leaves ready fits.small apart source target

/-- Copying all paths leaves what the source shows. -/
theorem copy_paths (fits : c.Fits n input s) {h : Host α} {src dst : View} {f : Nat → α}
    (ready : h.Ready) (apart : src.Apart dst n) (source : h.store.Shows src n f)
    (target : h.store.Reaches dst n) :
    h.Leaves (Host.backend.copy src dst c.paths : Action (Host α) WalkError Unit) dst n f := by
  -- The paths are counted by a machine integer.
  rw [fits.paths]
  exact Host.copy_leaves ready fits.small apart source target

/-- One operand after the other is added to the two sums. -/
theorem visitSum_memory (fits : c.Fits n input s) {value deriv : View}
    (fresh : s.blocks.size ≤ value.block ∧ s.blocks.size ≤ deriv.block)
    (apart : value.Apart deriv n) (operands : List (Expr α)) :
    ∀ (h : Host α) (sums : Nat → α × α), Amid c n s h →
      h.store.Shows value n (fun p => (sums p).1) → h.store.Shows deriv n (fun p => (sums p).2) →
      (∀ e ∈ operands, Visits c n input e) → n * Expr.broadestOf operands ≤ Host.room →
      ∃ t, Amid c n s { h with store := t } ∧
        h.Ends (visitSum Host.backend c value deriv operands) t
          (Expr.defectIn? (h.terms c) h.liveElements operands)
          (t.Shows value n (fun p =>
              ((Expr.duals (input p) operands).map (·.1)).foldl Elem.add (sums p).1) ∧
            t.Shows deriv n (fun p =>
              ((Expr.duals (input p) operands).map (·.2)).foldl Elem.add (sums p).2)) := by
  -- The sums so far are part of the statement, so the induction is for all of them.
  induction operands with
  | nil =>
    intro h sums amid shownValue shownDeriv _ _
    exact ⟨h.store, amid, rfl, shownValue, shownDeriv⟩
  | cons e rest ih =>
    intro h sums amid shownValue shownDeriv visits small
    obtain ⟨smallHead, smallRest⟩ := Expr.broadestOf_cons_le small
    obtain ⟨t, changed, ends⟩ :=
      visits e (by simp) h amid.ready (fits.of_changes amid.changed) smallHead
    have amid := amid.registers changed
    refine ends.andThen amid (fun left => ?_)
    -- The sums lie in a new block, so the walk over the operand left them alone.
    have shownValue := fits.shows_new fresh.1 changed shownValue
    have shownDeriv := fits.shows_new fresh.2 changed shownDeriv
    -- Both registers are added, each to its own sum.
    obtain ⟨t', ran', changed', left'⟩ := Update.chain_combines (add_combines fits)
      (visitSum Host.backend c value deriv rest)
      [⟨c.value, value, fun p => (e.dual (input p)).1⟩,
        ⟨c.deriv, deriv, fun p => (e.dual (input p)).2⟩]
      { h with store := t } amid.ready (by simp [left.value, left.deriv])
      (by simp [shownValue.reaches, shownDeriv.reaches])
      (by simp [fits.apart_new fresh.1, fits.apart_new fresh.2]) (by simpa using apart)
    obtain ⟨u, amid', ends'⟩ := ih { h with store := t' }
      (fun p => (Elem.add (sums p).1 (e.dual (input p)).1,
        Elem.add (sums p).2 (e.dual (input p)).2))
      (amid.views changed' (by simpa using fresh))
      (left' ⟨c.value, value, _⟩ (by simp) _ shownValue)
      (left' ⟨c.deriv, deriv, _⟩ (by simp) _ shownDeriv)
      (fun e found => visits e (by simp [found])) smallRest
    exact ⟨u, amid', .of_eq ran' ends'⟩

/-- Multiplying several targets by one source is a chain of updates. -/
theorem mulEach_chain (n : Int64) (src : View) (f : Nat → α)
    (rest : Action (Host α) WalkError Unit) (views : List View) :
    (do mulEach Host.backend src n views; rest) =
      Update.chain (fun src dst => Host.backend.mul src dst n) rest
        (views.map (fun v => ⟨src, v, f⟩)) := by
  -- Both take the targets in the same order.
  induction views with
  | nil => rfl
  | cons v views ih =>
    rw [List.map_cons, Update.chain, ← ih, mulEach, bind_assoc]

/-- A product and its partial products, of the factors that were multiplied so far. -/
structure Factors (n : Nat) (value : View) (partials : List View) (done : Nat → List (α × α))
    (t : Store α) : Prop where
  product : t.Shows value n (fun p => Dual.product ((done p).map (·.1)))
  partials : ∀ i v, partials[i]? = some v →
    t.Shows v n (fun p => Dual.partialProduct (done p) i)

/-- The updates by one factor: the product, its own partial product, and all others. -/
def factorUpdates (c : Context α View) (value own : View) (others : List View) (d : Nat → α × α) :
    List (Update α) :=
  ⟨c.value, value, fun p => (d p).1⟩ :: ⟨c.deriv, own, fun p => (d p).2⟩ ::
    others.map (fun v => ⟨c.value, v, fun p => (d p).1⟩)

omit [Elem α] in
/-- The updates by one factor reach every product. -/
theorem map_target_factorUpdates (c : Context α View) (value own : View) (others : List View)
    (d : Nat → α × α) :
    (factorUpdates c value own others d).map (·.target) = value :: own :: others := by
  -- The updates are listed as the products are: the value, the own one and then the others.
  simp [factorUpdates, Function.comp_def]

omit [Elem α] in
/-- The updates by one factor take what the registers show. -/
theorem Leaves.source {d : Nat → α × α} {t : Store α} (left : Leaves c n d t)
    {value own : View} {others : List View} {u : Update α}
    (found : u ∈ factorUpdates c value own others d) :
    (u.source = c.value ∨ u.source = c.deriv) ∧ t.Shows u.source n u.operand := by
  simp only [factorUpdates, List.mem_cons, List.mem_map] at found
  -- Only the factor's own partial product takes the derivative.
  rcases found with rfl | rfl | ⟨v, _, rfl⟩
  · exact ⟨.inl rfl, left.value⟩
  · exact ⟨.inr rfl, left.deriv⟩
  · exact ⟨.inl rfl, left.value⟩

/-- All products are there. -/
theorem Factors.reaches {value : View} {partials : List View} {done : Nat → List (α × α)}
    {t : Store α} (factors : Factors n value partials done t) {v : View}
    (found : v ∈ value :: partials) : t.Reaches v n := by
  -- Every one of them is known by what it shows.
  rcases List.mem_cons.mp found with rfl | found
  · exact factors.product.reaches
  · obtain ⟨i, found⟩ := List.mem_iff_getElem?.mp found
    exact (factors.partials i v found).reaches

/-- After the updates by a factor the products are those of one factor more. -/
theorem factors_concat {value own : View} {before after : List View}
    {done : Nat → List (α × α)} {d : Nat → α × α} {t u : Store α}
    (count : ∀ p, (done p).length = before.length)
    (factors : Factors n value (before ++ own :: after) done t)
    (left : ∀ w ∈ factorUpdates c value own (before ++ after) d, ∀ g, t.Shows w.target n g →
      u.Shows w.target n (fun p => Elem.mul (g p) (w.operand p))) :
    Factors n value (before ++ own :: after) (fun p => done p ++ [d p]) u where
  product := by
    -- The product takes every factor by its value.
    have shown := left _ List.mem_cons_self _ factors.product
    exact shown.congr (fun p _ => by simp [Dual.product_concat])
  partials i v found := by
    have old := factors.partials i v found
    by_cases same : i = before.length
    · -- The factor enters its own partial product with its derivative.
      subst same
      have own : v = own := by simpa using found.symm
      subst own
      have shown := left _ (List.mem_cons_of_mem _ List.mem_cons_self) _ old
      exact shown.congr (fun p _ => by simp [Dual.partialProduct_concat, count])
    · -- Every other partial product stands before or after that of the factor.
      have among : v ∈ before ++ after := by
        rcases Nat.lt_or_gt_of_ne same with low | high
        · rw [List.getElem?_append_left low] at found
          exact List.mem_append_left _ (List.mem_of_getElem? found)
        · rw [List.getElem?_append_right (by omega)] at found
          obtain ⟨j, rest⟩ : ∃ j, i - before.length = j + 1 := ⟨i - before.length - 1, by omega⟩
          rw [rest, List.getElem?_cons_succ] at found
          exact List.mem_append_right _ (List.mem_of_getElem? found)
      have shown := left _
        (List.mem_cons_of_mem _ (List.mem_cons_of_mem _ (List.mem_map_of_mem among))) _ old
      exact shown.congr (fun p _ => by
        simp [Dual.partialProduct_concat, count, show before.length ≠ i from fun h => same h.symm])

/-- The updates by a factor leave the products of one factor more. -/
theorem multiply_factor (fits : c.Fits n input s) {h : Host α} (amid : Amid c n s h)
    {value own : View} {before after : List View} {done : Nat → List (α × α)} {d : Nat → α × α}
    (fresh : ∀ v ∈ value :: (before ++ own :: after), s.blocks.size ≤ v.block)
    (separate : (value :: (before ++ own :: after)).Pairwise (fun v w => v.Apart w n))
    (count : ∀ p, (done p).length = before.length) (left : Leaves c n d h.store)
    (factors : Factors n value (before ++ own :: after) done h.store)
    (rest : Action (Host α) WalkError Unit) :
    ∃ t, Update.chain (fun src dst => Host.backend.mul src dst c.paths) rest
        (factorUpdates c value own (before ++ after) d) h = rest { h with store := t } ∧
      Amid c n s { h with store := t } ∧
      Factors n value (before ++ own :: after) (fun p => done p ++ [d p]) t := by
  -- The updates come in another order than the views, which does not matter for being apart.
  have order : (value :: (before ++ own :: after)).Perm (value :: own :: (before ++ after)) :=
    List.perm_middle.cons value
  have target : ∀ u ∈ factorUpdates c value own (before ++ after) d,
      u.target ∈ value :: (before ++ own :: after) := fun u found => by
    rw [order.mem_iff, ← map_target_factorUpdates c value own (before ++ after) d]
    exact List.mem_map_of_mem found
  obtain ⟨t, ran, changed, left'⟩ := Update.chain_combines (mul_combines fits) rest
    (factorUpdates c value own (before ++ after) d) h amid.ready
    (fun u found => (left.source found).2) (fun u found => factors.reaches (target u found))
    (fun u found w found' => by
      -- The sources are the registers, and no target is one of them.
      have clear := fits.apart_new (fresh _ (target w found'))
      rcases (left.source found).1 with same | same
      · rw [same]; exact clear.1
      · rw [same]; exact clear.2)
    (by
      have apart := (order.pairwise_iff (fun {v w} => View.Apart.symm)).mp separate
      rwa [← map_target_factorUpdates c value own (before ++ after) d, List.pairwise_map] at apart)
  refine ⟨t, ran, amid.views changed (fun v found => ?_), factors_concat count factors left'⟩
  obtain ⟨u, among, rfl⟩ := List.mem_map.mp found
  exact fresh _ (target u among)

/-- After the walk over a factor come the updates by it, then the other factors. -/
theorem visitProduct_cons (c : Context α View) (value own : View) (before after : List View)
    (d : Nat → α × α) (e : Expr α) (rest : List (Expr α)) :
    visitProduct Host.backend c value before (own :: after) (e :: rest) = (do
      visit Host.backend c e
      Update.chain (fun src dst => Host.backend.mul src dst c.paths)
        (visitProduct Host.backend c value (before ++ [own]) after rest)
        (factorUpdates c value own (before ++ after) d)) := by
  -- The updates of the other partial products are those before and those after.
  simp only [visitProduct, factorUpdates, Update.chain, List.map_append, Update.chain_append,
    ← mulEach_chain]

/-- One factor after the other is multiplied into the product and the partial products. -/
theorem visitProduct_memory (fits : c.Fits n input s) {value : View} (operands : List (Expr α)) :
    ∀ (h : Host α) (before after : List View) (done : Nat → List (α × α)), Amid c n s h →
      (∀ v ∈ value :: (before ++ after), s.blocks.size ≤ v.block) →
      (value :: (before ++ after)).Pairwise (fun v w => v.Apart w n) →
      (∀ p, (done p).length = before.length) → after.length = operands.length →
      Factors n value (before ++ after) done h.store →
      (∀ e ∈ operands, Visits c n input e) → n * Expr.broadestOf operands ≤ Host.room →
      ∃ t, Amid c n s { h with store := t } ∧
        h.Ends (visitProduct Host.backend c value before after operands) t
          (Expr.defectIn? (h.terms c) h.liveElements operands)
          (Factors n value (before ++ after)
            (fun p => done p ++ Expr.duals (input p) operands) t) := by
  -- Factors move from those to come to those that are done, with their partial products.
  induction operands with
  | nil =>
    intro h before after done amid _ _ _ _ factors _ _
    exact ⟨h.store, amid, rfl, by simpa [Expr.duals] using factors⟩
  | cons e rest ih =>
    intro h before after done amid fresh separate count remaining factors visits small
    -- There is a partial product for each factor that is left.
    obtain ⟨own, after, rfl⟩ : ∃ own others, after = own :: others := by
      cases after with
      | nil => simp at remaining
      | cons own others => exact ⟨own, others, rfl⟩
    obtain ⟨smallHead, smallRest⟩ := Expr.broadestOf_cons_le small
    obtain ⟨t, changed, ends⟩ :=
      visits e (by simp) h amid.ready (fits.of_changes amid.changed) smallHead
    have amid := amid.registers changed
    rw [visitProduct_cons c value own before after (fun p => e.dual (input p))]
    refine ends.andThen amid (fun left => ?_)
    -- The products lie in a new block, so the walk over the factor left them alone.
    have kept : Factors n value (before ++ own :: after) done t :=
      ⟨fits.shows_new (fresh value (by simp)) changed factors.product, fun i v found =>
        fits.shows_new (fresh v (List.mem_cons_of_mem _ (List.mem_of_getElem? found))) changed
          (factors.partials i v found)⟩
    obtain ⟨t', ran', amid', factors'⟩ :=
      multiply_factor fits amid fresh separate count left kept
        (visitProduct Host.backend c value (before ++ [own]) after rest)
    have regroup : before ++ own :: after = before ++ [own] ++ after := by simp
    rw [regroup] at fresh separate factors'
    obtain ⟨u, amidLast, ends'⟩ := ih { h with store := t' } (before ++ [own]) after _ amid'
      fresh separate (fun p => by simp [count p]) (by simpa using remaining) factors'
      (fun e found => visits e (by simp [found])) smallRest
    simp only [regroup, Expr.duals]
    simp only [List.append_assoc, List.singleton_append] at ends' ⊢
    exact ⟨u, amidLast, .of_eq ran' ends'⟩

/-- Each further source is added to the destination. -/
theorem addEach_memory (fits : c.Fits n input s) {dst : View}
    (sources : List (View × (Nat → α))) :
    ∀ (h : Host α) (g : Nat → α), h.Ready → h.store.Shows dst n g →
      (∀ x ∈ sources, h.store.Shows x.1 n x.2 ∧ x.1.Apart dst n) →
      h.Leaves (addEach Host.backend dst c.paths (sources.map (·.1))) dst n
        (fun p => (sources.map (fun x => x.2 p)).foldl Elem.add (g p)) := by
  -- No source is the destination, so the later ones still show what they showed.
  induction sources with
  | nil => exact fun h g _ shown _ => ⟨h.store, rfl, .refl _ _, shown⟩
  | cons x rest ih =>
    intro h g ready shown each
    obtain ⟨t, ran, changed, left⟩ :=
      add_combines fits ready (each x (by simp)).2 (each x (by simp)).1 shown
    obtain ⟨t', ran', changed', left'⟩ := ih { h with store := t } _
      (ready.of_grown changed.grows) left (fun y found => by
        have ⟨source, apart⟩ := each y (by simp [found])
        exact ⟨(spotsOf_single changed).shows_apart source (by simpa using apart), apart⟩)
    exact ⟨t', (Action.bind_ok ran).trans ran', changed.trans changed' (fun _ _ _ inside => inside),
      left'⟩

/-- The derivative of a product is left as the total of its partial products. -/
theorem sumPartials_memory (fits : c.Fits n input s) {h : Host α} (ready : h.Ready) {dst : View}
    (reached : h.store.Reaches dst n) (sources : List (View × (Nat → α))) (some : sources ≠ [])
    (each : ∀ x ∈ sources, h.store.Shows x.1 n x.2 ∧ x.1.Apart dst n) :
    h.Leaves (sumPartials Host.backend dst c.paths (sources.map (·.1))) dst n
      (fun p => Dual.total (sources.map (fun x => x.2 p))) := by
  -- The first partial product is copied over whatever was there, the others are added.
  obtain ⟨first, rest, rfl⟩ := List.exists_cons_of_ne_nil some
  have ⟨source, apart⟩ := each first (by simp)
  obtain ⟨t, ran, changed, left⟩ := copy_paths fits ready apart source reached
  obtain ⟨t', ran', changed', left'⟩ := addEach_memory fits rest { h with store := t } _
    (ready.of_grown changed.grows) left (fun y found => by
      have ⟨source, apart⟩ := each y (by simp [found])
      exact ⟨(spotsOf_single changed).shows_apart source (by simpa using apart), apart⟩)
  exact ⟨t', (Action.bind_ok ran).trans ran', changed.trans changed' (fun _ _ _ inside => inside),
    left'⟩

end Operands

end Tangent.Walk
