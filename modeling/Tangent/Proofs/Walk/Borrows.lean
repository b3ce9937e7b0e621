import Tangent.Proofs.Walk.Budget

/-!
The sizes of the blocks that a walk borrows, as machine integers count them.

The sizes of large blocks wrap around. How a walk ends depends on what is left of the sizes of its
blocks, in the order in which it borrows them.
-/

namespace Tangent

variable {α : Type}

/-- The elements of a number of stretches, as machine integers count them. -/
def wrapped (count : Nat) (paths : Int64) : Int := (count * paths.toInt).bmod (2 ^ 64)

/-- Stretches are counted by a product of machine integers. -/
theorem toInt_stretches (count : Nat) (paths : Int64) :
    (Int64.ofNat count * paths).toInt = wrapped count paths := by
  -- Both factors may wrap around before the product does.
  rw [Int64.toInt_mul, Int64.toInt_ofNat', wrapped]
  exact Int.bmod_mul_bmod

/-- Few elements are counted as they are. -/
theorem wrapped_of_lt {count : Nat} {paths : Int64} (some : 0 < paths)
    (few : count * paths.toInt < 2 ^ 63) : wrapped count paths = count * paths.toInt := by
  -- A product that is not negative and fits is left as it is.
  rw [Int64.lt_iff_toInt_lt, Int64.toInt_zero] at some
  have nonneg : 0 ≤ count * paths.toInt := Int.mul_nonneg (by omega) (by omega)
  exact Int.bmod_eq_of_le (by omega) (by omega)

/-- A block that a walk borrows: its stretches, and all that are on loan together with them. -/
structure Borrow where
  stretches : Nat
  total : Nat

namespace Borrow

variable (paths limit : Int64) (b : Borrow)

/-- What is left of the size is not positive, or what is left of the sum is above the limit. -/
def Refused : Prop :=
  wrapped b.stretches paths ≤ 0 ∨ 0 < limit.toInt ∧ limit.toInt < wrapped b.total paths

/-- Some stretch seems to end behind what is left of the size. -/
def Misfit : Prop := ∃ i < b.stretches, wrapped b.stretches paths < wrapped (i + 1) paths

/-- A block that is lent and has room for its stretches, by what is left of its size. -/
def Admitted : Prop := ¬ b.Refused paths limit ∧ ¬ b.Misfit paths

/-- How a walk stops at a block: with an error if it is refused, and else at its first misfit. -/
inductive Stops : Halt WalkError → Prop where
  | refused (cause : AllocError) (refused : b.Refused paths limit) :
    Stops (.error (.alloc (Int64.ofNat b.stretches * paths) cause))
  | misfit (text : String) (lent : ¬ b.Refused paths limit) (misfit : b.Misfit paths) :
    Stops (.fault (.panic text))

/-- A block of some stretches with which no more than so many are on loan. -/
def Within (most : Nat) : Prop := 0 < b.stretches ∧ b.stretches ≤ b.total ∧ b.total ≤ most

variable {paths limit b}

/-- A block of two stretches is refused if they are too many to count. -/
theorem refused_of_two (two : b.stretches = 2) (uncountable : 2 ^ 63 ≤ 2 * paths.toInt) :
    b.Refused paths limit := by
  refine .inl ?_
  have most := paths.toInt_lt
  -- The product has at most 64 bits, and what is left of it is negative.
  rw [two, wrapped, Int.bmod_def]
  omega

/-- A block at which a walk stops is not admitted. -/
theorem Stops.not_admitted {halt : Halt WalkError} (here : b.Stops paths limit halt) :
    ¬ b.Admitted paths limit := by
  -- It would have been refused, or been a misfit, and neither is admitted.
  intro admitted
  cases here with
  | refused cause refused => exact admitted.1 refused
  | misfit text lent misfit => exact admitted.2 misfit

/-- A block that can be counted with all that are on loan is refused only above a limit. -/
theorem Within.admitted_iff {most : Nat} (within : b.Within most) (some : 0 < paths)
    (countable : most * paths.toInt < 2 ^ 63) :
    b.Admitted paths limit ↔ limit ≤ 0 ∨ b.total * paths.toInt ≤ limit.toInt := by
  obtain ⟨proper, part, total⟩ := within
  -- All that is on loan together bounds each of its parts.
  have positive : 0 < paths.toInt := by
    rwa [Int64.lt_iff_toInt_lt, Int64.toInt_zero] at some
  have smaller {i : Nat} (less : i ≤ b.total) : i * paths.toInt ≤ b.total * paths.toInt :=
    Int.mul_le_mul_of_nonneg_right (by omega) (by omega)
  have largest : b.total * paths.toInt ≤ most * paths.toInt :=
    Int.mul_le_mul_of_nonneg_right (by omega) (by omega)
  -- No product is too large, so all are counted as they are.
  have counted {i : Nat} (less : i ≤ b.total) : wrapped i paths = i * paths.toInt :=
    wrapped_of_lt some (by have := smaller less; omega)
  have size : 0 < wrapped b.stretches paths := by
    rw [counted part]
    exact Int.mul_pos (by omega) positive
  -- The stretches end in order, the last of them with the block.
  have fits : ¬ b.Misfit paths := by
    rintro ⟨i, inside, misfit⟩
    rw [counted part, counted (by omega)] at misfit
    exact absurd misfit
      (not_lt.mpr (Int.mul_le_mul_of_nonneg_right (by omega) (by omega)))
  rw [Admitted, Refused, counted le_rfl, Int64.le_iff_toInt_le, Int64.toInt_zero]
  constructor
  · rintro ⟨lent, _⟩
    omega
  · intro allowed
    exact ⟨by omega, fits⟩

end Borrow

/-- How a walk over blocks ends: at the first of them that is not admitted, if there is one. -/
inductive Decided (paths limit : Int64) : List Borrow → Except (Halt WalkError) Unit → Prop where
  | through : Decided paths limit [] (.ok ())
  | stops {b : Borrow} {rest : List Borrow} {halt : Halt WalkError}
    (here : b.Stops paths limit halt) : Decided paths limit (b :: rest) (.error halt)
  | admitted {b : Borrow} {rest : List Borrow} {ended : Except (Halt WalkError) Unit}
    (here : b.Admitted paths limit) (later : Decided paths limit rest ended) :
    Decided paths limit (b :: rest) ended

namespace Decided

variable {paths limit : Int64} {first second : List Borrow} {ended : Except (Halt WalkError) Unit}

/-- Blocks that are all admitted leave the decision to those behind them. -/
theorem append (passed : Decided paths limit first (.ok ()))
    (later : Decided paths limit second ended) : Decided paths limit (first ++ second) ended := by
  -- The blocks in front are passed one by one.
  induction first with
  | nil => exact later
  | cons b rest ih =>
    cases passed with
    | admitted here passed => exact .admitted here (ih passed)

/-- A walk that stops at a block does not come to those behind it. -/
theorem append_error {halt : Halt WalkError} (stopped : Decided paths limit first (.error halt)) :
    Decided paths limit (first ++ second) (.error halt) := by
  -- The stop is found among the first blocks, so the others do not matter.
  induction first with
  | nil => cases stopped
  | cons b rest ih =>
    cases stopped with
    | stops here => exact .stops here
    | admitted here later => exact .admitted here (ih later)

/-- A walk gets through if and only if all its blocks are admitted. -/
theorem ok_iff (decided : Decided paths limit first ended) :
    ended = .ok () ↔ ∀ b ∈ first, b.Admitted paths limit := by
  -- The blocks are gone through in order, and the first that is not admitted ends the walk.
  induction decided with
  | through => simp
  | @stops b rest halt here =>
    simp only [reduceCtorEq, List.mem_cons, forall_eq_or_imp, false_iff, not_and_or]
    exact .inl here.not_admitted
  | admitted here later ih => simp [here, ih]

/-- A walk that does not get through stops at one of its blocks. -/
theorem exists_stops {halt : Halt WalkError} (decided : Decided paths limit first (.error halt)) :
    ∃ b ∈ first, b.Stops paths limit halt := by
  -- The blocks before it are admitted, and then comes the one at which it stops.
  induction first with
  | nil => cases decided
  | cons b rest ih =>
    cases decided with
    | stops here => exact ⟨b, List.mem_cons_self, here⟩
    | admitted _ later =>
      obtain ⟨b, listed, here⟩ := ih later
      exact ⟨b, List.mem_cons_of_mem _ listed, here⟩

/-- The first block that is not admitted is the one at which a walk stops. -/
theorem stops_of_first {b : Borrow} (decided : Decided paths limit (first ++ b :: second) ended)
    (before : ∀ a ∈ first, a.Admitted paths limit) (kept : ¬ b.Admitted paths limit) :
    ∃ halt, ended = .error halt ∧ b.Stops paths limit halt := by
  -- The blocks in front are admitted, so none of them is the one at which it stops.
  induction first with
  | nil =>
    cases decided with
    | stops here => exact ⟨_, rfl, here⟩
    | admitted here later => exact absurd here kept
  | cons a rest ih =>
    cases decided with
    | stops here => exact absurd (before a List.mem_cons_self) here.not_admitted
    | admitted here later => exact ih later (fun a listed => before a (by simp [listed]))

end Decided

namespace Expr

mutual

/-- The blocks that a walk over a tree borrows, in order, with so many stretches on loan before. -/
def borrows (below : Nat) : Expr α → List Borrow
  | .const _ => []
  | .var _ => []
  | .add operands => ⟨2, below + 2⟩ :: borrowsOf (below + 2) operands
  | .mul operands =>
    ⟨operands.length + 1, below + (operands.length + 1)⟩ ::
      borrowsOf (below + (operands.length + 1)) operands
  | .exp exponent => exponent.borrows below
  | .hole => []
  | .unset _ => []

/-- The blocks that walks over several trees borrow, one after the other. -/
def borrowsOf (below : Nat) : List (Expr α) → List Borrow
  | [] => []
  | e :: rest => e.borrows below ++ borrowsOf below rest

end

/-- The blocks of several trees are those of each of them. -/
theorem mem_borrowsOf {below : Nat} {operands : List (Expr α)} {b : Borrow} :
    b ∈ borrowsOf below operands ↔ ∃ e ∈ operands, b ∈ e.borrows below := by
  -- They are listed one tree after the other.
  induction operands with
  | nil => simp [borrowsOf]
  | cons head rest ih => simp [borrowsOf, ih]

/-- Some operand is as wide as all of them. -/
theorem exists_width_eq {operands : List (Expr α)} (wide : 0 < widthOf operands) :
    ∃ e ∈ operands, e.width = widthOf operands := by
  -- The greatest width is that of the first operand, or it is found among the others.
  induction operands with
  | nil => simp [widthOf] at wide
  | cons first rest ih =>
    rw [widthOf] at wide ⊢
    rcases Nat.le_total (widthOf rest) first.width with wider | narrower
    · exact ⟨first, by simp, (Nat.max_eq_left wider).symm⟩
    · rw [Nat.max_eq_right narrower] at wide ⊢
      obtain ⟨e, listed, same⟩ := ih wide
      exact ⟨e, by simp [listed], same⟩

/-- With the blocks of operands within the width of all, so are those of the operation. -/
theorem borrows_within {below stretches : Nat} {operands : List (Expr α)} (some : 0 < stretches)
    (each : ∀ e ∈ operands, ∀ below, ∀ b ∈ e.borrows below, b.Within (below + e.width)) :
    ∀ b ∈ ⟨stretches, below + stretches⟩ :: borrowsOf (below + stretches) operands,
      b.Within (below + (stretches + widthOf operands)) := by
  -- The block of the operation comes first, and those of the operands lie on top of it.
  intro b listed
  rcases List.mem_cons.mp listed with rfl | listed
  · exact ⟨some, Nat.le_add_left _ _, by simp only; omega⟩
  · obtain ⟨e, found, listed⟩ := mem_borrowsOf.mp listed
    obtain ⟨some, part, within⟩ := each e found _ b listed
    have := width_le_widthOf found
    exact ⟨some, part, by omega⟩

/-- What is on loan with a block keeps within the width of the tree. -/
theorem within_of_mem_borrows (e : Expr α) :
    ∀ below, ∀ b ∈ e.borrows below, b.Within (below + e.width) := by
  -- Sums and products borrow, and other nodes only pass on what is below them.
  induction e using induction with
  | add operands ih => exact fun below => borrows_within (by omega) ih
  | mul operands ih => exact fun below => borrows_within (by omega) ih
  | exp exponent ih => exact ih
  | const value => exact fun below b listed => absurd listed List.not_mem_nil
  | var name => exact fun below b listed => absurd listed List.not_mem_nil
  | hole => exact fun below b listed => absurd listed List.not_mem_nil
  | unset kind => exact fun below b listed => absurd listed List.not_mem_nil

/-- With the widths of operands reached, so is that of the operation. -/
theorem borrows_widest {below stretches : Nat} {operands : List (Expr α)}
    (each : ∀ e ∈ operands, ∀ below, 0 < e.width →
      ∃ b ∈ e.borrows below, b.total = below + e.width) :
    ∃ b ∈ ⟨stretches, below + stretches⟩ :: borrowsOf (below + stretches) operands,
      b.total = below + (stretches + widthOf operands) := by
  -- Without blocks inside the operation its own block is the widest.
  rcases Nat.eq_zero_or_pos (widthOf operands) with narrow | wide
  · exact ⟨_, List.mem_cons_self, by simp only [narrow]; omega⟩
  · obtain ⟨e, found, same⟩ := exists_width_eq wide
    obtain ⟨b, listed, total⟩ := each e found (below + stretches) (by omega)
    exact ⟨b, List.mem_cons_of_mem _ (mem_borrowsOf.mpr ⟨e, found, listed⟩), by omega⟩

/-- All that a tree can have on loan at once is on loan with one of its blocks. -/
theorem exists_widest (e : Expr α) :
    ∀ below, 0 < e.width → ∃ b ∈ e.borrows below, b.total = below + e.width := by
  -- Sums and products borrow, and nothing but them is wide.
  induction e using induction with
  | add operands ih => exact fun below _ => borrows_widest ih
  | mul operands ih => exact fun below _ => borrows_widest ih
  | exp exponent ih => exact ih
  | const value => exact fun below wide => absurd wide (Nat.lt_irrefl 0)
  | var name => exact fun below wide => absurd wide (Nat.lt_irrefl 0)
  | hole => exact fun below wide => absurd wide (Nat.lt_irrefl 0)
  | unset kind => exact fun below wide => absurd wide (Nat.lt_irrefl 0)

/-- Blocks that can all be counted together are refused only above a limit. -/
theorem admitted_iff_of_countable {root : Expr α} {paths : Int64} (some : 0 < paths) (limit : Int64)
    (countable : root.width * paths.toInt < 2 ^ 63) :
    (∀ b ∈ root.borrows 0, b.Admitted paths limit) ↔
      limit ≤ 0 ∨ root.width * paths.toInt ≤ limit.toInt := by
  -- The bound on all that is on loan holds for each block.
  have each {b : Borrow} (listed : b ∈ root.borrows 0) : b.Within root.width := by
    simpa using root.within_of_mem_borrows 0 b listed
  constructor
  · intro admitted
    rcases Nat.eq_zero_or_pos root.width with narrow | wide
    · rw [narrow, Int64.le_iff_toInt_le, Int64.toInt_zero]
      omega
    · -- The widest block decides.
      obtain ⟨b, listed, total⟩ := root.exists_widest 0 wide
      have allowed := ((each listed).admitted_iff some countable).mp (admitted b listed)
      rwa [total, Nat.zero_add] at allowed
  · intro allowed b listed
    refine ((each listed).admitted_iff some countable).mpr (allowed.imp_right ?_)
    refine le_trans (Int.mul_le_mul_of_nonneg_right ?_ ?_)
    · exact Int.ofNat_le.mpr (each listed).2.2
    · rw [Int64.lt_iff_toInt_lt, Int64.toInt_zero] at some
      omega

end Expr

end Tangent
