import Tangent.Proofs.Vector.Host
import Tangent.Proofs.Walk.Transparent

/-!
Measuring a walk and counting its calls.

What is measured of a walk in memory is what is counted of it, however the walk ends: every call,
the blocks that were lent and those that were taken back. Nothing of it stays on loan.
-/

namespace Tangent

namespace Metered

variable {σ α κ κ' : Type}

/-- Measurements of a state that agree with what was counted of it. -/
structure Tallies (s : Metered σ) (t : Counted σ View) : Prop where
  inner : s.inner = t.inner
  calls : ∀ op, s.meter.kernelCalls.count op = t.calls.count op
  allocations : s.meter.allocations = t.calls.count .alloc
  releases : s.meter.releases = t.calls.count .free

/-- Outcomes that are the same, with measurements that agree with the counts. -/
structure Matches (held : Int) (left : Except (Halt WalkError) κ × Metered σ)
    (right : Except (Halt WalkError) κ × Counted σ View) : Prop where
  ended : left.1 = right.1
  agree : Tallies left.2 right.2
  held : left.2.meter.liveElements = held

/-- Computations that keep measurements and counts in agreement, and no block on loan. -/
def Keeps (κ : Type) (body : Action (Metered σ) WalkError κ)
    (body' : Action (Counted σ View) WalkError κ) : Prop :=
  ∀ s t, Tallies s t → Matches s.meter.liveElements (body.outcome s) (body'.outcome t)

/-- What happens in the watched state is the same with both around it. -/
theorem matches_within {s : Metered σ} {t : Counted σ View} (agree : Tallies s t)
    (body : Action σ WalkError κ) :
    Matches s.meter.liveElements ((within body).outcome s) ((Counted.within body).outcome t) := by
  -- Both hand the inner state to the body, and it is the same.
  unfold Action.outcome within Counted.within Action.focus
  rw [agree.inner]
  cases body t.inner <;> exact ⟨rfl, { agree with inner := rfl }, rfl⟩

/-- A call that is measured and counted. -/
theorem keeps_call {op : Op} (other : op ≠ .alloc ∧ op ≠ .free) (body : Action σ WalkError κ) :
    Keeps κ (measured op body) (Counted.counted op body) := by
  -- Both are raised before the body runs, and neither counts it as a loan.
  intro s t agree
  have bumped : Tallies ⟨s.inner, s.meter.kernel op⟩ { t with calls := t.calls.bump op } :=
    { inner := agree.inner
      calls := fun op' => by simp [Meter.kernel, Tally.count_bump, agree.calls]
      allocations := by simp [Meter.kernel, Tally.count_bump, other.1, agree.allocations]
      releases := by simp [Meter.kernel, Tally.count_bump, other.2, agree.releases] }
  exact matches_within bumped body

/-- Computations are followed by others. -/
theorem Keeps.bind {first : Action (Metered σ) WalkError κ}
    {first' : Action (Counted σ View) WalkError κ} {next : κ → Action (Metered σ) WalkError κ'}
    {next' : κ → Action (Counted σ View) WalkError κ'} (begins : Keeps κ first first')
    (goes : ∀ a, Keeps κ' (next a) (next' a)) : Keeps κ' (first >>= next) (first' >>= next') := by
  intro s t agree
  have known := begins s t agree
  rw [Action.outcome_bind, Action.outcome_bind]
  -- The two outcomes are named, so that what is known of them takes them apart together.
  generalize first.outcome s = left at known ⊢
  generalize first'.outcome t = right at known ⊢
  obtain ⟨ended, s'⟩ := left
  obtain ⟨ended', t'⟩ := right
  obtain ⟨rfl, agree', held⟩ := known
  cases ended with
  | ok a =>
    rw [← held]
    exact goes a s' t' agree'
  | error halt => exact ⟨rfl, agree', held⟩

variable {be : Backend σ WalkError α View}

/-- A block that is given back is measured and counted, whatever the backend says. -/
theorem matches_free {s : Metered σ} {t : Counted σ View} (agree : Tallies s t) (v : View) :
    Matches (s.meter.liveElements - v.length) (((backend be).free v).outcome s)
      (((Counted.backend be).free v).outcome t) := by
  have bumped (u : Counted σ View) (inner : u.inner = t.inner)
      (calls : u.calls = t.calls.bump .free) :
      Tallies ⟨s.inner, (s.meter.kernel .free).release v.length⟩ u :=
    { inner := agree.inner.trans inner.symm
      calls := fun op => by
        simp [Meter.kernel, Meter.release, Tally.count_bump, agree.calls, calls]
      allocations := by
        simp [Meter.kernel, Meter.release, Tally.count_bump, agree.allocations, calls]
      releases := by
        simp [Meter.kernel, Meter.release, Tally.count_bump, agree.releases, calls] }
  show Matches _ ((within (be.free v)).outcome ⟨s.inner, (s.meter.kernel .free).release v.length⟩)
    ((Counted.within (be.free v)).outcome _)
  -- The counts of a call do not depend on whether the block was lent.
  refine matches_within (bumped _ ?_ ?_) (be.free v)
  · dsimp only
    split <;> rfl
  · dsimp only
    split <;> rfl

/-- A request is answered alike, and a block that is lent is measured and counted. -/
theorem alloc_cases {s : Metered σ} {t : Counted σ View} (agree : Tallies s t)
    (lends : ∀ n h v h', be.alloc n h = .ok (.ok v) h' → (v.length : Int) = n.toInt) (n : Int64) :
    (∃ s' t', Tallies s' t' ∧ s'.meter.liveElements = s.meter.liveElements ∧
      ((∃ halt, (backend be).alloc n s = .error halt s' ∧
        (Counted.backend be).alloc n t = .error halt t') ∨
      ∃ cause, (backend be).alloc n s = .ok (.error cause) s' ∧
        (Counted.backend be).alloc n t = .ok (.error cause) t')) ∨
    ∃ v s' t', Tallies s' t' ∧ s'.meter.liveElements = s.meter.liveElements + v.length ∧
      (backend be).alloc n s = .ok (.ok v) s' ∧
      (Counted.backend be).alloc n t = .ok (.ok v) t' := by
  cases asked : be.alloc n t.inner with
  -- A backend that stops leaves both records as they were.
  | error halt h =>
    have asked' := asked
    rw [← agree.inner] at asked'
    exact .inl ⟨{ s with inner := h }, { t with inner := h }, { agree with inner := rfl }, rfl,
      .inl ⟨halt, Action.bind_error (Action.focus_error asked'),
        Action.bind_error (Action.focus_error asked)⟩⟩
  | ok answer h =>
    have asked' := asked
    rw [← agree.inner] at asked'
    cases answer with
    | error cause =>
      -- A request that is refused is counted as failed, which no measurement shows.
      exact .inl ⟨{ s with inner := h }, { t with inner := h, failed := t.failed + 1 },
        { agree with inner := rfl }, rfl,
        .inr ⟨cause, Action.bind_ok (Action.focus_ok asked'),
          Action.bind_ok (Action.focus_ok asked)⟩⟩
    | ok v =>
      -- The record is of the size that was asked for, which is the length of the block.
      refine .inr ⟨v, ⟨h, (s.meter.kernel .alloc).alloc n.toInt⟩, _, ?_, ?_,
        Action.bind_ok (Action.focus_ok asked'), Action.bind_ok (Action.focus_ok asked)⟩
      · exact {
          inner := rfl
          calls := fun op => by simp [Meter.kernel, Meter.alloc, Tally.count_bump, agree.calls]
          allocations := by
            simp [Meter.kernel, Meter.alloc, Tally.count_bump, agree.allocations]
          releases := by simp [Meter.kernel, Meter.alloc, Tally.count_bump, agree.releases] }
      · rw [lends n _ v h asked]
        rfl

/-- Work on a block is measured and counted with its loan and its return. -/
theorem keeps_withTemp
    (lends : ∀ n h v h', be.alloc n h = .ok (.ok v) h' → (v.length : Int) = n.toInt) (n : Int64)
    {body : Temp View → Action (Metered σ) WalkError Unit}
    {body' : Temp View → Action (Counted σ View) WalkError Unit}
    (works : ∀ temp, Keeps Unit (body temp) (body' temp)) :
    Keeps Unit ((backend be).withTemp n (.alloc n) body)
      ((Counted.backend be).withTemp n (.alloc n) body') := by
  intro s t agree
  rcases alloc_cases agree lends n with
    ⟨s', t', agree', held, ⟨halt, left, right⟩ | ⟨cause, left, right⟩⟩ |
    ⟨v, s', t', agree', held, left, right⟩
  · -- Without a block the work is not begun.
    unfold Action.outcome
    rw [Backend.withTemp_error left, Backend.withTemp_error right]
    exact ⟨rfl, agree', held⟩
  · unfold Action.outcome
    rw [Backend.withTemp_refused left, Backend.withTemp_refused right]
    exact ⟨rfl, agree', held⟩
  · -- The elements are taken off again when the block is given back, however the work ends.
    have begun : ((backend be).withTemp n (.alloc n) body).outcome s =
        ((body ⟨v, n, false⟩).closing ((backend be).free v)).outcome s' := by
      rw [Action.outcome, Backend.withTemp_lent left, Action.outcome]
    have begun' : ((Counted.backend be).withTemp n (.alloc n) body').outcome t =
        ((body' ⟨v, n, false⟩).closing ((Counted.backend be).free v)).outcome t' := by
      rw [Action.outcome, Backend.withTemp_lent right, Action.outcome]
    rw [begun, begun', Action.outcome_closing, Action.outcome_closing]
    obtain ⟨ended, agree'', still⟩ := works ⟨v, n, false⟩ s' t' agree'
    have freed : Matches _ (((backend be).free v).outcome _) _ := matches_free agree'' v
    rw [still, held, add_sub_cancel_right] at freed
    -- Both blocks are given back after the same ending of the work.
    rw [ended]
    generalize ((backend be).free v).outcome _ = left at freed ⊢
    generalize ((Counted.backend be).free v).outcome _ = right at freed ⊢
    obtain ⟨closed, u⟩ := left
    obtain ⟨closed', u'⟩ := right
    obtain ⟨rfl, agree, held⟩ := freed
    cases closed <;> exact ⟨rfl, agree, held⟩

/-- All that a walk is made of is measured as it is counted. -/
theorem related
    (lends : ∀ n h v h', be.alloc n h = .ok (.ok v) h' → (v.length : Int) = n.toInt) :
    Walk.Related (backend be) (Counted.backend be) Keeps where
  pure a s t agree := ⟨rfl, agree, rfl⟩
  throw halt s t agree := ⟨rfl, agree, rfl⟩
  bind first next := first.bind next
  offset x off s t agree := matches_within agree (be.offset x off)
  -- None of the operations lends a block or takes one back.
  one op x n := by
    cases op <;> exact keeps_call ⟨by decide, by decide⟩ _
  two op x y n := by
    cases op <;> exact keeps_call ⟨by decide, by decide⟩ _
  withTemp n _ _ works := keeps_withTemp lends n works

/-- What is measured of a walk in memory is what is counted of it, and nothing stays on loan. -/
theorem matches_generate [Elem α] (h : Host α) (c : Context α View) (root : Expr α) :
    Matches 0 ((Walk.generate (backend Host.backend) c root).outcome (.new h))
      ((Walk.generate (Counted.backend Host.backend) c root).outcome (.new h)) := by
  have lends : ∀ n (h : Host α) v h',
      (Host.backend.alloc n : Action (Host α) WalkError _) h = .ok (.ok v) h' →
      (v.length : Int) = n.toInt := by
    intro n h v h' lent
    have lent : Host.alloc n h = .ok (.ok v) h' := lent
    rcases Host.alloc_cases (ε := WalkError) n h with
      ⟨cause, refused⟩ | stopped | ⟨m, _, small, rfl, granted⟩
    · -- Only a request that is granted lends a block, and it has the length that was asked for.
      rw [refused] at lent
      cases lent
    · rw [stopped] at lent
      cases lent
    · rw [granted] at lent
      cases lent
      exact (Host.toInt_ofNat_of_le_room small).symm
  exact (related lends).generate c root (.new h) (.new h)
    { inner := rfl, calls := fun _ => rfl, allocations := rfl, releases := rfl }

end Metered

end Tangent
