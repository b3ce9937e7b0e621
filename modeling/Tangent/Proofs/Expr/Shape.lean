import Tangent.Expr.Check
import Tangent.Proofs.Action
import Tangent.Proofs.NameMap

/-! Induction over trees, the blocks a walk over a tree borrows, and the names it looks up. -/

namespace Tangent.Expr

variable {α : Type}

/-- Induction over trees, with the hypothesis for every operand of a sum or a product. -/
@[elab_as_elim]
theorem induction {motive : Expr α → Prop} (const : ∀ value, motive (.const value))
    (var : ∀ name, motive (.var name))
    (add : ∀ operands, (∀ e ∈ operands, motive e) → motive (.add operands))
    (mul : ∀ operands, (∀ e ∈ operands, motive e) → motive (.mul operands))
    (exp : ∀ exponent, motive exponent → motive (.exp exponent)) (hole : motive .hole)
    (unset : ∀ kind, motive (.unset kind)) (e : Expr α) : motive e :=
  -- The recursor asks for a statement about operand lists, too: it holds of each operand.
  @Expr.rec α motive (fun operands => ∀ e ∈ operands, motive e) const var add mul exp hole unset
    (fun _ found => absurd found List.not_mem_nil)
    (fun _ _ head tail _ found => (List.mem_cons.mp found).elim (fun same => same ▸ head) (tail _))
    e

/-- The stretches of the block that a sum or a product borrows, which is none without operands. -/
def stretches {ν : Type} (operands : List ν) (count : Nat) : Nat :=
  if operands.isEmpty then 0 else count

mutual

/-- The most stretches that one block of a walk over a tree has. -/
def broadest : Expr α → Nat
  | .const _ => 0
  | .var _ => 0
  | .add operands => max (stretches operands 2) (broadestOf operands)
  | .mul operands => max (stretches operands (operands.length + 1)) (broadestOf operands)
  | .exp exponent => exponent.broadest
  | .hole => 0
  | .unset _ => 0

/-- The most stretches that one block of a walk over several trees has. -/
def broadestOf : List (Expr α) → Nat
  | [] => 0
  | e :: rest => max e.broadest (broadestOf rest)

end

mutual

/-- The number of blocks that a walk over a tree borrows, one after the other. -/
def blocks : Expr α → Nat
  | .const _ => 0
  | .var _ => 0
  | .add operands => blocksOf operands + 1
  | .mul operands => blocksOf operands + 1
  | .exp exponent => exponent.blocks
  | .hole => 0
  | .unset _ => 0

/-- The number of blocks that a walk over several trees borrows. -/
def blocksOf : List (Expr α) → Nat
  | [] => 0
  | e :: rest => e.blocks + blocksOf rest

end

mutual

/-- The names that a walk over a tree looks up, in order and with repetitions. -/
def mentioned : Expr α → List String
  | .const _ => []
  | .var name => [name]
  | .add operands => mentionedIn operands
  | .mul operands => mentionedIn operands
  | .exp exponent => exponent.mentioned
  | .hole => []
  | .unset _ => []

/-- The names that a walk over several trees looks up. -/
def mentionedIn : List (Expr α) → List String
  | [] => []
  | e :: rest => e.mentioned ++ mentionedIn rest

end

/-- No operand has a broader block than all of them. -/
theorem broadest_le_broadestOf {e : Expr α} {operands : List (Expr α)} (found : e ∈ operands) :
    e.broadest ≤ broadestOf operands := by
  -- The broadest of all is a maximum over the operands.
  induction operands with
  | nil => simp at found
  | cons first rest ih =>
    rcases List.mem_cons.mp found with rfl | found
    · exact Nat.le_max_left _ _
    · exact Nat.le_trans (ih found) (Nat.le_max_right _ _)

/-- What bounds so many times the larger of two numbers bounds as many times each. -/
theorem le_of_mul_max_le {n a b top : Nat} (small : n * max a b ≤ top) :
    n * a ≤ top ∧ n * b ≤ top :=
  -- The larger number is no less than either.
  ⟨Nat.le_trans (Nat.mul_le_mul_left n (Nat.le_max_left _ _)) small,
    Nat.le_trans (Nat.mul_le_mul_left n (Nat.le_max_right _ _)) small⟩

/-- The blocks of the first operand and of the others are no larger than those of all. -/
theorem broadestOf_cons_le {e : Expr α} {rest : List (Expr α)} {n top : Nat}
    (small : n * broadestOf (e :: rest) ≤ top) :
    n * e.broadest ≤ top ∧ n * broadestOf rest ≤ top :=
  -- The broadest of all is the larger of the two.
  le_of_mul_max_le small

/-- The blocks of a sum are its own one of two stretches and those of its operands. -/
theorem broadest_add_le {operands : List (Expr α)} {n top : Nat}
    (some : operands.isEmpty = false) (small : n * (add operands).broadest ≤ top) :
    2 * n ≤ top ∧ n * broadestOf operands ≤ top := by
  -- Operands are there, so the block has two stretches.
  simp only [broadest, stretches, some, Bool.false_eq_true, if_false] at small
  rw [Nat.mul_comm 2]
  exact le_of_mul_max_le small

/-- The blocks of a product are its own one, with a stretch more than factors, and theirs. -/
theorem broadest_mul_le {operands : List (Expr α)} {n top : Nat}
    (some : operands.isEmpty = false) (small : n * (mul operands).broadest ≤ top) :
    (operands.length + 1) * n ≤ top ∧ n * broadestOf operands ≤ top := by
  -- Operands are there, so the block has a stretch for each and one more.
  simp only [broadest, stretches, some, Bool.false_eq_true, if_false] at small
  rw [Nat.mul_comm (operands.length + 1)]
  exact le_of_mul_max_le small

/-- What an operand mentions is mentioned by all operands together. -/
theorem mem_mentionedIn {operands : List (Expr α)} {name : String} :
    name ∈ mentionedIn operands ↔ ∃ e ∈ operands, name ∈ e.mentioned := by
  -- The names are listed operand by operand.
  induction operands with
  | nil => simp [mentionedIn]
  | cons head rest ih => simp [mentionedIn, ih]

/-- The names among the labels of operands are those the operands mention. -/
theorem filterMap_labelsAll {operands : List (Expr α)}
    (each : ∀ e ∈ operands, ∀ found, e.labels = .ok found →
      found.filterMap Label.name? = e.mentioned)
    {found : List (Label α)} (listed : labelsAll operands = .ok found) :
    found.filterMap Label.name? = mentionedIn operands := by
  induction operands generalizing found with
  | nil =>
    cases listed
    rfl
  | cons e rest ih =>
    -- A listing of all operands is one of the first, then one of the others.
    rw [labelsAll] at listed
    obtain ⟨own, first, listed⟩ := ok_of_bind listed
    obtain ⟨more, others, listed⟩ := ok_of_bind listed
    rw [← Except.ok.inj listed, List.filterMap_append, mentionedIn, each e (by simp) own first,
      ih (fun e found => each e (by simp [found])) others]

/-- The names among the labels of a tree are those it mentions. -/
theorem filterMap_labels (e : Expr α) :
    ∀ found, e.labels = .ok found → found.filterMap Label.name? = e.mentioned := by
  induction e using induction with
  | const value => intro found listed; cases listed; rfl
  | var name => intro found listed; cases listed; rfl
  | add operands ih =>
    intro found listed
    -- The node itself has no name, so only those of its operands are left.
    rw [labels] at listed
    obtain ⟨more, inner, listed⟩ := ok_of_bind listed
    have named := filterMap_labelsAll ih inner
    rw [← Except.ok.inj listed]
    simpa only [List.filterMap_cons, Label.name?, mentioned] using named
  | mul operands ih =>
    intro found listed
    rw [labels] at listed
    obtain ⟨more, inner, listed⟩ := ok_of_bind listed
    have named := filterMap_labelsAll ih inner
    rw [← Except.ok.inj listed]
    simpa only [List.filterMap_cons, Label.name?, mentioned] using named
  | exp exponent ih =>
    intro found listed
    rw [labels] at listed
    obtain ⟨more, inner, listed⟩ := ok_of_bind listed
    rw [← Except.ok.inj listed]
    exact ih more inner
  -- An empty place cannot be listed.
  | hole => intro found listed; cases listed
  | unset kind => intro found listed; cases listed

/-- The variables of a tree are the names it mentions. -/
theorem mem_vars {e : Expr α} {names : List String} (listed : e.vars = .ok names) (name : String) :
    name ∈ names ↔ name ∈ e.mentioned := by
  -- A map of the listed names orders them and drops repetitions.
  obtain ⟨labels, found, listed⟩ := ok_of_bind listed
  rw [← Except.ok.inj listed, NameMap.mem_names_ofList, ← filterMap_labels e labels found]
  simp

/-- No variable is listed twice. -/
theorem nodup_vars {e : Expr α} {names : List String} (listed : e.vars = .ok names) :
    names.Nodup := by
  -- The names are the keys of a map.
  obtain ⟨labels, _, listed⟩ := ok_of_bind listed
  rw [← Except.ok.inj listed]
  exact NameMap.nodup_names _

end Tangent.Expr
