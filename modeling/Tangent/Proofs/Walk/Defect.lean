import Tangent.Proofs.Expr.Shape
import Tangent.Walk

/-!
What a walk stops at, told from the tree alone.

A walk meets empty places, operations without operands, unbound names and refused blocks. Which of
them it meets first does not depend on any number in memory.
-/

namespace Tangent

/-- What decides how far a walk gets: its paths, the bound names, and the blocks it is refused. -/
structure Terms where
  paths : Int64
  bound : String → Bool
  /-- Why a block is refused, by the elements in use and those requested. -/
  refusal : Int64 → Int64 → Option AllocError

/-- What work on a borrowed block stops at: at the refusal of the block, or where the work does. -/
def Terms.borrow (t : Terms) (inUse size : Int64) (work : Int64 → Option WalkError) :
    Option WalkError :=
  match t.refusal inUse size with
  | some cause => some (.alloc size cause)
  | none => work (inUse + size)

/-- Work on a borrowed block that stops at nothing gets its block. -/
theorem Terms.borrow_eq_none {t : Terms} {inUse size : Int64} {work : Int64 → Option WalkError}
    (none : t.borrow inUse size work = none) : work (inUse + size) = .none := by
  -- A refusal would have been the defect.
  unfold Terms.borrow at none
  split at none
  · exact absurd none (by simp)
  · exact none

namespace Expr

variable {α : Type}

mutual

/-- What a walk over a tree stops at, while so many elements are in use. -/
def defect? (t : Terms) (inUse : Int64) : Expr α → Option WalkError
  | .hole => some .emptyPlace
  | .unset _ => some .emptyPlace
  | .const _ => none
  | .var name => if t.bound name then none else some (.unbound name)
  | .add operands =>
    if operands.isEmpty then some (.noOperands .add)
    else t.borrow inUse (2 * t.paths) (fun inUse => defectIn? t inUse operands)
  | .mul operands =>
    if operands.isEmpty then some (.noOperands .mul)
    else
      t.borrow inUse ((Int64.ofNat operands.length + 1) * t.paths)
        (fun inUse => defectIn? t inUse operands)
  | .exp exponent => exponent.defect? t inUse

/-- What a walk over several trees stops at. -/
def defectIn? (t : Terms) (inUse : Int64) : List (Expr α) → Option WalkError
  | [] => none
  | e :: rest => (e.defect? t inUse).or (defectIn? t inUse rest)

end

/-- Operands without a defect have none together. -/
theorem defectIn?_eq_none {t : Terms} {inUse : Int64} {operands : List (Expr α)}
    (each : ∀ e ∈ operands, e.defect? t inUse = none) : defectIn? t inUse operands = none := by
  induction operands with
  | nil => rfl
  | cons e rest ih =>
    -- The first operand stops at nothing, so the others decide.
    rw [defectIn?, each e (by simp)]
    exact ih (fun e found => each e (by simp [found]))

/-- Accepted operands are accepted one by one. -/
theorem check_of_checkAll {place : Place} {position : Nat} {operands : List (Expr α)}
    (accepted : checkAll place position operands = .ok ()) :
    ∀ e ∈ operands, ∃ place, e.check place = .ok () := by
  -- Operands are checked in order, each at its own position.
  induction operands generalizing position with
  | nil => simp
  | cons e rest ih =>
    rw [checkAll] at accepted
    obtain ⟨_, first, accepted⟩ := ok_of_bind accepted
    intro e' found
    rcases List.mem_cons.mp found with rfl | found
    · exact ⟨_, first⟩
    · exact ih accepted e' found

/-- An accepted sum or product has operands, all of which are accepted. -/
theorem operands_of_check {place : Place} {operands : List (Expr α)}
    (accepted : (Expr.add operands).check place = .ok () ∨
      (Expr.mul operands).check place = .ok ()) :
    operands.isEmpty = false ∧ ∀ e ∈ operands, ∃ place, e.check place = .ok () := by
  -- Both are checked in the same way, and refused without operands.
  cases operands with
  | nil => rcases accepted with accepted | accepted <;> simp [check] at accepted
  | cons e rest =>
    refine ⟨rfl, ?_⟩
    rcases accepted with accepted | accepted
    · rw [check] at accepted
      exact check_of_checkAll accepted
    · rw [check] at accepted
      exact check_of_checkAll accepted

/-- Operands whose nodes can be listed can be listed one after the other. -/
theorem exists_labelsAll {operands : List (Expr α)}
    (each : ∀ e ∈ operands, ∃ found, e.labels = .ok found) :
    ∃ found, labelsAll operands = .ok found := by
  -- The operands are listed one after the other.
  induction operands with
  | nil => exact ⟨[], rfl⟩
  | cons e rest ih =>
    obtain ⟨first, listed⟩ := each e (by simp)
    obtain ⟨others, relisted⟩ := ih (fun e found => each e (by simp [found]))
    exact ⟨first ++ others, by rw [labelsAll, listed, relisted]; rfl⟩

/-- The nodes of an accepted tree can be listed. -/
theorem exists_labels (e : Expr α) :
    ∀ place, e.check place = .ok () → ∃ found, e.labels = .ok found := by
  have together {operands : List (Expr α)} {place : Place}
      (ih : ∀ e ∈ operands, ∀ place, e.check place = .ok () → ∃ found, e.labels = .ok found)
      (accepted : (Expr.add operands).check place = .ok () ∨
        (Expr.mul operands).check place = .ok ()) : ∃ found, labelsAll operands = .ok found := by
    apply exists_labelsAll
    intro e found
    obtain ⟨place, accepted⟩ := (operands_of_check accepted).2 e found
    exact ih e found place accepted
  -- Only an empty place cannot be listed, and it is not accepted.
  induction e using induction with
  | const value => exact fun _ _ => ⟨_, rfl⟩
  | var name => exact fun _ _ => ⟨_, rfl⟩
  | add operands ih =>
    intro place accepted
    obtain ⟨found, listed⟩ := together ih (.inl accepted)
    exact ⟨_, by rw [labels, listed]; rfl⟩
  | mul operands ih =>
    intro place accepted
    obtain ⟨found, listed⟩ := together ih (.inr accepted)
    exact ⟨_, by rw [labels, listed]; rfl⟩
  | exp exponent ih =>
    intro place accepted
    obtain ⟨found, listed⟩ := ih (place ++ [0]) accepted
    exact ⟨_, by rw [labels, listed]; rfl⟩
  | hole => intro place accepted; simp [check] at accepted
  | unset kind => intro place accepted; simp [check] at accepted

/-- The names of an accepted tree can be listed. -/
theorem exists_vars {e : Expr α} (accepted : e.validate = .ok ()) :
    ∃ names, e.vars = .ok names := by
  -- The names are taken from the labels of the nodes.
  obtain ⟨found, listed⟩ := exists_labels e [] accepted
  exact ⟨_, by rw [vars, listed]; rfl⟩

/-- A walk over an accepted tree stops at nothing, if no name is missing and no block refused. -/
theorem defect?_eq_none_of_check {t : Terms}
    (granted : ∀ inUse size, t.refusal inUse size = none) (e : Expr α) :
    ∀ place inUse, e.check place = .ok () → (∀ name ∈ e.mentioned, t.bound name = true) →
      e.defect? t inUse = none := by
  -- More elements are in use further down the tree, so the induction is for all their numbers.
  induction e using induction with
  | const value => intros; rfl
  | var name =>
    intro place inUse _ covered
    simp [defect?, covered name (by simp [mentioned])]
  | add operands ih =>
    intro place inUse accepted covered
    -- There are operands and a block for them, so only the operands could stop the walk.
    obtain ⟨nonempty, each⟩ := operands_of_check (.inl accepted)
    simp only [defect?, nonempty, Bool.false_eq_true, if_false, Terms.borrow, granted]
    refine defectIn?_eq_none (fun e found => ?_)
    obtain ⟨place, accepted⟩ := each e found
    exact ih e found place _ accepted
      (fun name named => covered name (mem_mentionedIn.mpr ⟨e, found, named⟩))
  | mul operands ih =>
    intro place inUse accepted covered
    obtain ⟨nonempty, each⟩ := operands_of_check (.inr accepted)
    simp only [defect?, nonempty, Bool.false_eq_true, if_false, Terms.borrow, granted]
    refine defectIn?_eq_none (fun e found => ?_)
    obtain ⟨place, accepted⟩ := each e found
    exact ih e found place _ accepted
      (fun name named => covered name (mem_mentionedIn.mpr ⟨e, found, named⟩))
  | exp exponent ih =>
    intro place inUse accepted covered
    exact ih (place ++ [0]) inUse accepted covered
  -- A tree with an empty place is not accepted.
  | hole => intro place inUse accepted; simp [check] at accepted
  | unset kind => intro place inUse accepted; simp [check] at accepted

/-- Operands without a defect together have none one by one. -/
theorem defect?_of_defectIn? {t : Terms} {inUse : Int64} {operands : List (Expr α)}
    (none : defectIn? t inUse operands = none) : ∀ e ∈ operands, e.defect? t inUse = .none := by
  induction operands with
  | nil => simp
  | cons e rest ih =>
    -- The first defect of all is none only if each of them is.
    rw [defectIn?, Option.or_eq_none_iff] at none
    intro e' found
    rcases List.mem_cons.mp found with rfl | found
    · exact none.1
    · exact ih none.2 e' found

/-- Operands that can be written can be written one after the other. -/
theorem exists_writeAll [Written α] {operands : List (Expr α)}
    (each : ∀ e ∈ operands, ∃ text, e.write = .ok text) :
    ∃ text, writeAll operands = .ok text := by
  -- Each one follows a blank.
  induction operands with
  | nil => exact ⟨"", rfl⟩
  | cons e rest ih =>
    obtain ⟨first, written⟩ := each e (by simp)
    obtain ⟨others, rewritten⟩ := ih (fun e found => each e (by simp [found]))
    exact ⟨" " ++ first ++ others, by rw [writeAll, written, rewritten]; rfl⟩

/-- A tree that a walk gets through can be written. -/
theorem exists_write [Written α] {t : Terms} (e : Expr α) :
    ∀ inUse, e.defect? t inUse = none → ∃ text, e.write = .ok text := by
  -- Only an empty place cannot be written, and a walk stops there.
  induction e using induction with
  | const value => exact fun _ _ => ⟨_, rfl⟩
  | var name => exact fun _ _ => ⟨_, rfl⟩
  | add operands ih =>
    intro inUse none
    rw [defect?] at none
    split at none
    · exact absurd none (by simp)
    · have each := defect?_of_defectIn? (Terms.borrow_eq_none none)
      obtain ⟨text, written⟩ := exists_writeAll (fun e found => ih e found _ (each e found))
      exact ⟨_, by rw [write, written]; rfl⟩
  | mul operands ih =>
    intro inUse none
    rw [defect?] at none
    split at none
    · exact absurd none (by simp)
    · have each := defect?_of_defectIn? (Terms.borrow_eq_none none)
      obtain ⟨text, written⟩ := exists_writeAll (fun e found => ih e found _ (each e found))
      exact ⟨_, by rw [write, written]; rfl⟩
  | exp exponent ih =>
    intro inUse none
    obtain ⟨text, written⟩ := ih inUse none
    exact ⟨_, by rw [write, written]; rfl⟩
  | hole => exact fun _ none => absurd none (by simp [defect?])
  | unset kind => exact fun _ none => absurd none (by simp [defect?])

end Expr

end Tangent
