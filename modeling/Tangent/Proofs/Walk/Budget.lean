import Tangent.Proofs.Vector.Host
import Tangent.Proofs.Walk.Defect

/-!
How much a walk borrows.

Blocks are nested as the sums and products of a tree are, so the most elements that are on loan at
once belong to the operations on one way down from the root. A walk gets through under a limit
exactly if it leaves room for them.
-/

namespace Tangent

namespace Expr

variable {α : Type}

mutual

/-- The stretches that a walk over a tree has on loan at once, at most. -/
def width : Expr α → Nat
  | .const _ => 0
  | .var _ => 0
  | .add operands => 2 + widthOf operands
  | .mul operands => operands.length + 1 + widthOf operands
  | .exp exponent => exponent.width
  | .hole => 0
  | .unset _ => 0

/-- The stretches that a walk over several trees, one after the other, has on loan at once. -/
def widthOf : List (Expr α) → Nat
  | [] => 0
  | e :: rest => max e.width (widthOf rest)

end

/-- No operand is wider than all of them. -/
theorem width_le_widthOf {e : Expr α} {operands : List (Expr α)} (found : e ∈ operands) :
    e.width ≤ widthOf operands := by
  -- The width of all is a maximum over the operands.
  induction operands with
  | nil => simp at found
  | cons first rest ih =>
    rcases List.mem_cons.mp found with rfl | found
    · exact Nat.le_max_left _ _
    · exact Nat.le_trans (ih found) (Nat.le_max_right _ _)

/-- A walk under a limit stops at nothing if it keeps below the limit, and else at a block. -/
def Budgeted (n limit : Nat) (inUse width : Nat) (found : Option WalkError) : Prop :=
  if inUse + n * width ≤ limit then found = none else ∃ size cause, found = some (.alloc size cause)

/-- Work on a block of some stretches is budgeted, if the work is once the block is lent. -/
theorem budgeted_borrow {t : Terms} {n limit inUse stretches width : Nat}
    {work : Int64 → Option WalkError}
    (limited : ∀ inUse size, t.refusal inUse size = Host.refusal (Int64.ofNat limit) inUse size)
    (some : 0 < limit) (bounded : limit < 2 ^ 63)
    (countable : inUse + n * (stretches + width) < 2 ^ 63)
    (works : inUse + n * stretches ≤ limit →
      Budgeted n limit (inUse + n * stretches) width (work (Int64.ofNat (inUse + n * stretches)))) :
    Budgeted n limit inUse (stretches + width)
      (t.borrow (Int64.ofNat inUse) (Int64.ofNat (n * stretches)) work) := by
  have parts : n * (stretches + width) = n * stretches + n * width := Nat.mul_add _ _ _
  -- All sums are exact, so machine integers are compared as the counts are.
  have positive : Int64.ofNat limit > 0 := by
    rw [gt_iff_lt, Int64.lt_iff_toInt_lt, Int64.toInt_zero, Int64.toInt_ofNat_of_lt bounded]
    omega
  have exceeds : Int64.ofNat inUse + Int64.ofNat (n * stretches) > Int64.ofNat limit ↔
      limit < inUse + n * stretches := by
    rw [← Int64.ofNat_add, gt_iff_lt, Int64.lt_iff_toInt_lt, Int64.toInt_ofNat_of_lt bounded,
      Int64.toInt_ofNat_of_lt (by omega)]
    omega
  unfold Terms.borrow
  rw [limited, Host.refusal, ← Int64.ofNat_add]
  rw [← Int64.ofNat_add] at exceeds
  by_cases beyond : limit < inUse + n * stretches
  · -- The block alone is too much, and what is borrowed later adds to it.
    simp only [positive, exceeds.mpr beyond, decide_true, Bool.and_self, if_true]
    rw [Budgeted, if_neg (by omega)]
    exact ⟨_, _, rfl⟩
  · simp only [positive, exceeds, beyond, decide_true, decide_false, Bool.and_false,
      Bool.false_eq_true, if_false]
    have rest := works (by omega)
    unfold Budgeted at rest ⊢
    rwa [parts, ← Nat.add_assoc]

/-- Operands that are budgeted one by one are budgeted one after the other. -/
theorem budgeted_defectIn? {t : Terms} {n limit inUse : Nat} {operands : List (Expr α)}
    (below : inUse ≤ limit)
    (each : ∀ e ∈ operands, Budgeted n limit inUse e.width (e.defect? t (Int64.ofNat inUse))) :
    Budgeted n limit inUse (widthOf operands) (defectIn? t (Int64.ofNat inUse) operands) := by
  induction operands with
  | nil =>
    rw [Budgeted, widthOf, if_pos (by omega)]
    rfl
  | cons e rest ih =>
    have first := each e (by simp)
    have others := ih (fun e found => each e (by simp [found]))
    rw [widthOf, defectIn?]
    unfold Budgeted at first others ⊢
    -- The blocks of one operand are given back before the next, so the wider of the two counts.
    rcases Nat.le_total e.width (widthOf rest) with narrow | wide
    · rw [Nat.max_eq_right narrow]
      have less := Nat.mul_le_mul_left n narrow
      split at first
      · rw [first]
        exact others
      · obtain ⟨size, cause, stopped⟩ := first
        rw [if_neg (by omega), stopped]
        exact ⟨size, cause, rfl⟩
    · rw [Nat.max_eq_left wide]
      have less := Nat.mul_le_mul_left n wide
      split at first
      · rename_i within
        rw [if_pos (by omega)] at others
        rw [if_pos within, first]
        exact others
      · rename_i beyond
        obtain ⟨size, cause, stopped⟩ := first
        rw [if_neg beyond, stopped]
        exact ⟨size, cause, rfl⟩

/-- An operation on a block of some stretches is budgeted, if all its operands are. -/
theorem budgeted_operation {t : Terms} {n limit inUse stretches : Nat} {operands : List (Expr α)}
    (limited : ∀ inUse size, t.refusal inUse size = Host.refusal (Int64.ofNat limit) inUse size)
    (some : 0 < limit) (bounded : limit < 2 ^ 63)
    (countable : inUse + n * (stretches + widthOf operands) < 2 ^ 63)
    (each : ∀ e ∈ operands, ∀ inUse ≤ limit, inUse + n * e.width < 2 ^ 63 →
      Budgeted n limit inUse e.width (e.defect? t (Int64.ofNat inUse))) :
    Budgeted n limit inUse (stretches + widthOf operands)
      (t.borrow (Int64.ofNat inUse) (Int64.ofNat (n * stretches))
        (fun inUse => defectIn? t inUse operands)) := by
  apply budgeted_borrow limited some bounded countable
  intro lent
  apply budgeted_defectIn? lent
  intro e found
  -- What an operand borrows comes on top of the block.
  have less := Nat.mul_le_mul_left n (width_le_widthOf found)
  rw [Nat.mul_add] at countable
  exact each e found _ lent (by omega)

/-- A walk over an accepted tree with all names bound keeps to its budget. -/
theorem budgeted_defect? {t : Terms} {n limit : Nat} (paths : t.paths = Int64.ofNat n)
    (limited : ∀ inUse size, t.refusal inUse size = Host.refusal (Int64.ofNat limit) inUse size)
    (some : 0 < limit) (bounded : limit < 2 ^ 63) (e : Expr α) :
    ∀ place inUse, e.check place = .ok () → (∀ name ∈ e.mentioned, t.bound name = true) →
      inUse ≤ limit → inUse + n * e.width < 2 ^ 63 →
      Budgeted n limit inUse e.width (e.defect? t (Int64.ofNat inUse)) := by
  -- More elements are in use further down the tree, so the induction is for all their numbers.
  induction e using induction with
  | const value =>
    intro place inUse _ _ below _
    rw [Budgeted, width, if_pos (by omega)]
    rfl
  | var name =>
    intro place inUse _ covered below _
    rw [Budgeted, width, if_pos (by omega), defect?, if_pos (covered name (by simp [mentioned]))]
  | add operands ih =>
    intro place inUse accepted covered _ countable
    obtain ⟨nonempty, each⟩ := operands_of_check (.inl accepted)
    have size : 2 * t.paths = Int64.ofNat (n * 2) := by
      rw [paths, Nat.mul_comm, Int64.ofNat_mul]
      rfl
    rw [width] at countable ⊢
    rw [defect?, nonempty, if_neg Bool.false_ne_true, size]
    apply budgeted_operation limited some bounded countable
    intro e found inUse
    obtain ⟨place, accepted⟩ := each e found
    exact ih e found place inUse accepted
      (fun name named => covered name (mem_mentionedIn.mpr ⟨e, found, named⟩))
  | mul operands ih =>
    intro place inUse accepted covered _ countable
    obtain ⟨nonempty, each⟩ := operands_of_check (.inr accepted)
    have size : (Int64.ofNat operands.length + 1) * t.paths =
        Int64.ofNat (n * (operands.length + 1)) := by
      rw [paths, Nat.mul_comm, Int64.ofNat_mul, Int64.ofNat_add]
      rfl
    rw [width] at countable ⊢
    rw [defect?, nonempty, if_neg Bool.false_ne_true, size]
    apply budgeted_operation limited some bounded countable
    intro e found inUse
    obtain ⟨place, accepted⟩ := each e found
    exact ih e found place inUse accepted
      (fun name named => covered name (mem_mentionedIn.mpr ⟨e, found, named⟩))
  | exp exponent ih =>
    intro place inUse accepted covered below countable
    exact ih (place ++ [0]) inUse accepted covered below countable
  -- A tree with an empty place is not accepted.
  | hole => intro place inUse accepted; simp [check] at accepted
  | unset kind => intro place inUse accepted; simp [check] at accepted

end Expr

end Tangent
