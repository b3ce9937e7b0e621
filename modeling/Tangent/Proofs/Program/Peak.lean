import Tangent.Proofs.Program.Refusal
import Tangent.Proofs.Program.Sizes

/-!
The most elements that a recording needs.

A recorder looks at its limit block by block, but one number decides whether a recording gets
through: the most elements that temporaries have together without a limit. This peak is the number
of paths times the width of the tree.
-/

namespace Tangent

variable {α : Type}

namespace Expr

/-- No block of a tree is broader than the tree is wide. -/
theorem broadest_le_width (e : Expr α) : e.broadest ≤ e.width := by
  -- The broadest of several trees is compared with the widest, one tree after the other.
  have all {operands : List (Expr α)} (each : ∀ e ∈ operands, e.broadest ≤ e.width) :
      broadestOf operands ≤ widthOf operands := by
    induction operands with
    | nil => exact Nat.le_refl 0
    | cons e rest ih =>
      have first := each e (by simp)
      have others := ih (fun e found => each e (by simp [found]))
      simp only [broadestOf, widthOf]
      omega
  have own (operands : List (Expr α)) (count : Nat) : stretches operands count ≤ count := by
    unfold stretches
    split <;> omega
  induction e using induction with
  | add operands ih =>
    have := own operands 2
    have := all ih
    simp only [broadest, width]
    omega
  | mul operands ih =>
    have := own operands (operands.length + 1)
    have := all ih
    simp only [broadest, width]
    omega
  | exp exponent ih => exact ih
  | const value => exact Nat.le_refl 0
  | var name => exact Nat.le_refl 0
  | hole => exact Nat.le_refl 0
  | unset kind => exact Nat.le_refl 0

/-- An accepted tree has no blocks, or one of two stretches at least. -/
theorem width_ne_one (e : Expr α) : ∀ place, e.check place = .ok () → e.width ≠ 1 := by
  induction e using induction with
  | add operands ih =>
    intro place accepted
    simp only [width]
    omega
  | mul operands ih =>
    intro place accepted
    -- A product has factors, and a stretch for each of them.
    obtain ⟨some, _⟩ := operands_of_check (.inr accepted)
    have := List.length_pos_iff.mpr (List.isEmpty_eq_false_iff.mp some)
    simp only [width]
    omega
  | exp exponent ih =>
    intro place accepted
    rw [check] at accepted
    exact ih _ accepted
  | const value => exact fun _ _ => Nat.zero_ne_one
  | var name => exact fun _ _ => Nat.zero_ne_one
  | hole => exact fun _ _ => Nat.zero_ne_one
  | unset kind => exact fun _ _ => Nat.zero_ne_one

end Expr

namespace Recorder

variable [Elem α] {known : Recorder α → Prop}

section Records

variable (records : ∀ (r : Recorder α) (i : Instr α), i.op ≠ .alloc ∧ i.op ≠ .free → known r →
  known (r.record i))
include records

/-- An operation on one operand keeps what instructions keep. -/
theorem keeps_one (op : Unary α) (x : Ref) (n : Int64) :
    Action.Keeps known (backend.one op x n : Action (Recorder α) WalkError Unit) := by
  -- The recorder is left alone, or it has one more instruction that is no request for a block.
  intro r here
  rcases left_one (ε := WalkError) op x n r with same | more
  · rwa [same]
  · rw [more]
    exact records r _ op.op_ne here

/-- An operation on two operands keeps what instructions keep. -/
theorem keeps_two (op : Binary) (x y : Ref) (n : Int64) :
    Action.Keeps known (backend.two op x y n : Action (Recorder α) WalkError Unit) := by
  -- The recorder is left alone, or it has one more instruction that is no request for a block.
  intro r here
  rcases left_two (ε := WalkError) op x y n r with same | more
  · rwa [same]
  · rw [more]
    exact records r _ op.op_ne here

/-- A walk without blocks keeps what instructions keep. -/
theorem keeps_visit (c : Context α Ref) (e : Expr α) (flat : e.width = 0) :
    Action.Keeps known (Walk.visit backend c e : Action (Recorder α) WalkError Unit) := by
  -- Sums and products have blocks, so only leaves and exponentials are left.
  have set (x : Ref) (value : α) :
      Action.Keeps known (backend.set x value c.paths : Action (Recorder α) WalkError Unit) := by
    rw [Backend.set_eq_one]
    exact keeps_one records _ x c.paths
  induction e using Expr.induction with
  | const value => exact (set _ _).bind (fun _ => keeps_one records .zero _ _)
  | var name =>
    refine .bind (.still (fun r => ?_)) (fun b => ?_)
    · cases c.lookup name <;> rfl
    · exact (keeps_two records .copy _ _ _).bind (fun _ => set _ _)
  | exp exponent ih =>
    refine (ih flat).bind (fun _ => ?_)
    exact (keeps_one records .exp _ _).bind (fun _ => keeps_two records .mul _ _ _)
  | add operands =>
    simp only [Expr.width] at flat
    omega
  | mul operands =>
    simp only [Expr.width] at flat
    omega
  | hole => exact .still (fun _ => rfl)
  | unset kind => exact .still (fun _ => rfl)

end Records

/-- What every step of a recorder keeps. -/
structure Stable (known : Recorder α → Prop) : Prop where
  record : ∀ (r : Recorder α) (i : Instr α), i.op ≠ .alloc ∧ i.op ≠ .free → known r →
    known (r.record i)
  opened : ∀ (r : Recorder α) (n : Int64),
    ¬ (r.limit > 0 && r.liveElements + n > r.limit) = true → known r → known (r.opened n)
  closed : ∀ (r : Recorder α) (index size : Int64), r.live.find? index = some size → known r →
    known (r.closed index size)

/-- The end of a temporary keeps what every step keeps. -/
theorem Stable.free (stable : Stable known) (index : Int64) :
    Action.Keeps known (free ⟨.temp, index, 0⟩ : Action (Recorder α) WalkError Unit) := by
  intro r here
  -- A temporary that is not live cannot end, and the recorder stops as it is.
  cases live : r.live.find? index with
  | some size =>
    rw [Action.left_of_ok (free_live live)]
    exact stable.closed r index size live here
  | none =>
    obtain ⟨_, missing⟩ := Parts.outcome_free_missing (α := α) index
    rw [Action.left, missing r live]
    exact here

/-- Work on a block keeps what every step keeps. -/
theorem Stable.withTemp (stable : Stable known) (n : Int64)
    {body : Temp Ref → Action (Recorder α) WalkError Unit}
    (works : ∀ temp, Action.Keeps known (body temp)) :
    Action.Keeps known (backend.withTemp n (.alloc n) body) := by
  intro r here
  -- A block that is refused leaves the recorder as it is, for whichever of the two reasons.
  by_cases proper : n ≤ 0
  · rwa [Action.left_of_error (Backend.withTemp_refused (alloc_improper proper))]
  by_cases limited : (r.limit > 0 && r.liveElements + n > r.limit) = true
  · rwa [Action.left_of_error (Backend.withTemp_refused (alloc_limited proper limited))]
  · have lent : backend.withTemp n (.alloc n) body r =
        ((body ⟨⟨.temp, r.nextTemp, 0⟩, n, false⟩).closing (Recorder.free ⟨.temp, r.nextTemp, 0⟩))
          (r.opened n) := Backend.withTemp_lent (alloc_granted proper limited)
    have worked := (works ⟨⟨.temp, r.nextTemp, 0⟩, n, false⟩).closing (stable.free r.nextTemp)
    have after := worked (r.opened n) (stable.opened r n limited here)
    rw [Action.left, Action.outcome] at after ⊢
    rwa [lent]

/-- What every step of a recorder keeps is kept by walks. -/
theorem Stable.related (stable : Stable known) :
    Walk.Related (backend : Backend (Recorder α) WalkError α Ref) backend
      (fun _ body _ => Action.Keeps known body) where
  -- Steps that record nothing leave the recorder as it is.
  pure _ := .still (fun _ => rfl)
  throw _ := .still (fun _ => rfl)
  bind first next := first.bind next
  offset _ _ := .still (fun _ => rfl)
  one := keeps_one stable.record
  two := keeps_two stable.record
  withTemp n _ _ works := stable.withTemp n works

/-- A recorder whose peak is as large as all sums that were booked, and no larger than its limit. -/
structure Peaked (r : Recorder α) : Prop where
  kept : r.Kept
  reached : Instr.Summed ([], 0) r.peakElements r.recorded.reverse
  within : 0 < r.limit → r.peakElements ≤ r.limit

/-- Every step keeps the peak where it has to be. -/
theorem stable_peaked : Stable (Peaked (α := α)) where
  record r i other peaked := by
    refine ⟨peaked.kept.record other, ?_, peaked.within⟩
    rw [show (r.record i).recorded.reverse = r.recorded.reverse ++ [i] from List.reverse_cons]
    exact peaked.reached.concat (fun asks => absurd asks other.1)
  opened r n granted peaked := by
    have larger := le_toInt_max r.peakElements (r.liveElements + n)
    have kept := peaked.kept.opened n
    refine ⟨kept, ?_, fun limited => ?_⟩
    · -- The sum with the new temporary is what the peak is compared with.
      unfold Kept at kept
      rw [show (r.opened n).recorded.reverse = r.recorded.reverse ++ [_] from List.reverse_cons]
        at kept ⊢
      refine (peaked.reached.mono (Int64.le_iff_toInt_le.mpr larger.1)).concat (fun _ => ?_)
      rw [← Instr.booked, ← kept]
      exact Int64.le_iff_toInt_le.mpr larger.2
    · -- The block was not refused, so the sum keeps within the limit, as the peak did before.
      have before := Int64.le_iff_toInt_le.mp (peaked.within limited)
      have now : r.liveElements + n ≤ r.limit := by
        refine Int64.not_lt.mp (fun above => granted ?_)
        simp only [Bool.and_eq_true, decide_eq_true_eq]
        exact ⟨limited, above⟩
      apply Int64.le_iff_toInt_le.mpr
      show (max r.peakElements (r.liveElements + n)).toInt ≤ r.limit.toInt
      rw [toInt_max]
      exact Int.max_le.mpr ⟨before, Int64.le_iff_toInt_le.mp now⟩
  closed r index size live peaked := by
    refine ⟨peaked.kept.closed live, ?_, peaked.within⟩
    rw [show (r.closed index size).recorded.reverse = r.recorded.reverse ++ [_] from
      List.reverse_cons]
    exact peaked.reached.concat (fun asks => by cases asks)

end Recorder

namespace Program

variable [Elem α] [Written α] {root : Expr α} {paths limit : Int64} {seeds : NameMap α}
  {p q : Program α}

/-- The recorder of a program has its peak where it has to be. -/
theorem exists_peaked (compiled : compile root paths seeds limit = .ok p) :
    ∃ r : Recorder α, r.Peaked ∧ r.limit = limit ∧ p.instrs = r.recorded.reverse ∧
      p.peak = r.peakElements := by
  obtain ⟨c, r, text, _, walked, _, rfl⟩ := exists_of_compile compiled
  -- Before the walk nothing is recorded, and the peak is zero.
  have start : (declared paths limit seeds).Peaked := by
    refine ⟨rfl, fun before i listed => ?_, fun limited => Int64.le_of_lt limited⟩
    simp [declared, Recorder.new] at listed
  have peaked := Recorder.stable_peaked.related.generate c root _ start
  have same := (Recorder.related_parts.generate c root).limit (declared paths limit seeds)
  rw [Action.left_of_ok walked] at peaked
  rw [Action.outcome, walked] at same
  exact ⟨r, peaked, same, rfl, rfl⟩

/-- A program that was compiled under a limit keeps within it. -/
theorem peak_le_of_compile (compiled : compile root paths seeds limit = .ok p)
    (limited : 0 < limit) : p.peak ≤ limit := by
  -- The peak of the program is the one that the recorder noted.
  obtain ⟨r, peaked, rfl, _, peak⟩ := exists_peaked compiled
  exact peak ▸ peaked.within limited

/-- A program that would be refused a block has its peak above the limit. -/
theorem Cut.lt_peak {pc : Nat} {i : Instr α} {most : Int64} (cut : p.Cut most pc i)
    (compiled : compile root paths seeds limit = .ok p) : most < p.peak := by
  obtain ⟨r, peaked, _, instrs, peak⟩ := exists_peaked compiled
  obtain ⟨inside, found⟩ := List.getElem?_eq_some_iff.mp cut.next
  -- What was recorded up to the block is a beginning of all that was recorded.
  have first : p.instrs.take pc ++ [i] <+: r.recorded.reverse := by
    rw [← instrs, ← found, List.take_concat_get']
    exact List.take_prefix _ _
  have reached : (Instr.booked (p.instrs.take pc ++ [i])).2 ≤ r.peakElements :=
    peaked.reached _ i first cut.asks
  have above := cut.limited
  -- The sum that is too large is the one with the block.
  have booked : (Instr.booked (p.instrs.take pc ++ [i])).2 =
      (Instr.booked (p.instrs.take pc)).2 + i.len := by
    rw [Instr.booked_concat, Instr.book, cut.asks]
  simp only [Bool.and_eq_true, decide_eq_true_eq] at above
  rw [booked, ← peak] at reached
  exact Int64.lt_of_lt_of_le above.2 reached

/-- A limit that lets a tree through leaves no trace in its program. -/
theorem eq_of_compile (compiled : compile root paths seeds 0 = .ok p)
    (again : compile root paths seeds limit = .ok q) : q = p := by
  obtain ⟨c, r, text, declares, walked, written, rfl⟩ := exists_of_compile compiled
  obtain ⟨c', r', text', declares', walked', written', rfl⟩ := exists_of_compile again
  obtain rfl := declares.unique declares'
  obtain rfl := Except.ok.inj (written.symm.trans written')
  have through : (Walk.generate Recorder.backend c root).outcome
      (declared paths limit seeds).unlimited = (.ok (), r) := by
    show (Walk.generate Recorder.backend c root).outcome (declared paths 0 seeds) = _
    rw [Action.outcome, walked]
  have ran : (Walk.generate Recorder.backend c root).outcome (declared paths limit seeds) =
      (.ok (), r') := by rw [Action.outcome, walked']
  have parts := (Recorder.related_parts.generate c root).parts (declared paths limit seeds) rfl
  rcases parts with together | ⟨stop, size, frees, apart⟩
  · -- The two recorders differ in their limits only, which programs do not have.
    rw [through, ran] at together
    obtain rfl := (Prod.mk.inj together).2
    rfl
  · -- A recording that is refused a block does not get through.
    obtain ⟨halt, stopped, _⟩ := apart.stopped
    rw [ran] at stopped
    cases stopped

/-- A tree without blocks needs no elements. -/
theorem peak_of_flat (flat : root.width = 0) (compiled : compile root paths seeds limit = .ok p) :
    p.peak = 0 := by
  obtain ⟨c, r, text, _, walked, _, rfl⟩ := exists_of_compile compiled
  -- No instruction touches the peak but the start of a temporary, and there is none.
  have keeps : Action.Keeps (fun r : Recorder α => r.peakElements = 0)
      (Walk.generate Recorder.backend c root) := by
    refine .bind (.still (fun r => ?_)) (fun _ => ?_)
    · cases c.validate <;> rfl
    · exact Recorder.keeps_visit (fun _ _ _ none => none) c root flat
  have none := keeps (declared paths limit seeds) rfl
  rwa [Action.left_of_ok walked] at none

omit [Elem α] [Written α] in
/-- Where all stretches together can be counted, those of each block can. -/
theorem few_of_narrow (some : 0 < paths) (narrow : root.width * paths.toInt < 2 ^ 63) :
    root.broadest ≤ 2 ^ 63 := by
  have broad := root.broadest_le_width
  rw [Int64.lt_iff_toInt_lt, Int64.toInt_zero] at some
  -- Each stretch has an element for every path.
  have : root.width * 1 ≤ root.width * paths.toInt :=
    Int.mul_le_mul_of_nonneg_left (by omega) (by omega)
  omega

section Budget

variable (accepted : root.validate = .ok ())
  (seeded : ∀ name ∈ root.mentioned, ∃ seed, seeds.find? name = some seed) (some : 0 < paths)
  (countable : root.blocks < 2 ^ 64) (narrow : root.width * paths.toInt < 2 ^ 63)
include accepted seeded some countable narrow

/-- Whether a tree that can be counted is compiled is a matter of the limit. -/
theorem exists_compile_iff_le (limit : Int64) :
    (∃ p, compile root paths seeds limit = .ok p) ↔
      limit ≤ 0 ∨ root.width * paths.toInt ≤ limit.toInt := by
  -- Walks are admitted block by block, and the block with most on loan decides.
  rw [exists_compile_iff limit accepted seeded some (few_of_narrow some narrow) countable]
  exact Expr.admitted_iff_of_countable some limit narrow

/-- A tree that needs more than the limit is refused a block. -/
theorem compile_refused (limited : 0 < limit)
    (above : limit.toInt < root.width * paths.toInt) :
    ∃ size cause, compile root paths seeds limit = .error (.error (.walk (.alloc size cause))) := by
  obtain ⟨ended, decided, _, stops⟩ := compile_decided limit accepted seeded some
    (few_of_narrow some narrow) countable
  cases ended with
  | ok _ =>
    have enough := (Expr.admitted_iff_of_countable some limit narrow).mp (decided.ok_iff.mp rfl)
    rw [Int64.le_iff_toInt_le, Int64.toInt_zero] at enough
    rw [Int64.lt_iff_toInt_lt, Int64.toInt_zero] at limited
    omega
  | error halt =>
    -- The walk has stopped at a block, which was refused or did not fit.
    obtain ⟨b, listed, here⟩ := decided.exists_stops
    have stopped := stops halt rfl
    cases here with
    | refused cause _ => exact ⟨_, cause, stopped⟩
    | misfit text _ misfit =>
      -- All stretches of a block that can be counted fit into it.
      have within : b.Within root.width := by simpa using root.within_of_mem_borrows 0 b listed
      have admitted : b.Admitted paths 0 :=
        (within.admitted_iff some narrow).mpr (.inl (Int64.le_refl 0))
      exact absurd misfit admitted.2

/-- The peak of a program is what its tree needs. -/
theorem peak_eq (compiled : compile root paths seeds 0 = .ok p) :
    p.peak.toInt = root.width * paths.toInt := by
  have positive : 0 < paths.toInt := by rwa [Int64.lt_iff_toInt_lt, Int64.toInt_zero] at some
  -- Without blocks there is no limit to compare with, so this case is looked at apart.
  rcases Nat.eq_zero_or_pos root.width with flat | wide
  · rw [peak_of_flat flat compiled, flat, Int64.toInt_zero]
    omega
  -- Blocks have two stretches at least, so one element less is still a positive limit.
  have broad : 2 ≤ root.width := by
    have := root.width_ne_one [] accepted
    omega
  have large : (2 : Int) * 1 ≤ root.width * paths.toInt :=
    Int.mul_le_mul (by omega) (by omega) (by omega) (by omega)
  generalize needed : root.width * paths.toInt = need at narrow large ⊢
  -- Any limit is a machine integer, up to what the tree needs.
  have counted (most : Int) (some : 0 < most) (few : most ≤ need) :
      (Int64.ofInt most).toInt = most ∧ 0 < Int64.ofInt most := by
    have same : (Int64.ofInt most).toInt = most := Int64.toInt_ofInt_of_le (by omega) (by omega)
    exact ⟨same, Int64.lt_iff_toInt_lt.mpr (by rw [same, Int64.toInt_zero]; exact some)⟩
  apply Int.le_antisymm
  · -- With just as much, the tree is compiled to the same program.
    obtain ⟨same, limited⟩ := counted need (by omega) (by omega)
    obtain ⟨q, again⟩ := (exists_compile_iff_le accepted seeded some countable (needed ▸ narrow)
      (Int64.ofInt need)).mpr (.inr (by omega))
    rw [← same, ← eq_of_compile compiled again]
    exact Int64.le_iff_toInt_le.mp (peak_le_of_compile again limited)
  · -- With one element less, it is refused a block.
    obtain ⟨same, limited⟩ := counted (need - 1) (by omega) (by omega)
    obtain ⟨size, cause, failed⟩ := compile_refused accepted seeded some countable
      (needed ▸ narrow) limited (by omega)
    obtain ⟨c, r, declares, stopped⟩ := exists_of_compile_error failed
    obtain ⟨pc, i, cut, _⟩ := exists_cut compiled declares stopped
    have above := Int64.lt_iff_toInt_lt.mp (cut.lt_peak compiled)
    omega

end Budget

/--
A limit on temporaries lets a tree through exactly if it leaves room for the width of the tree.

Let everything that is on loan at once be countable. Then the peak of the program is the number of
paths times the width. A limit below it stops the compilation with an allocation error, and any
other one leaves no trace in the program.
-/
theorem compile_within_budget (accepted : root.validate = .ok ())
    (seeded : ∀ name ∈ root.mentioned, ∃ seed, seeds.find? name = some seed) (some : 0 < paths)
    (countable : root.blocks < 2 ^ 64) (narrow : root.width * paths.toInt < 2 ^ 63)
    (limited : 0 < limit) :
    ∃ p, compile root paths seeds 0 = .ok p ∧ p.peak.toInt = root.width * paths.toInt ∧
      ((∃ q, compile root paths seeds limit = .ok q) ↔
        root.width * paths.toInt ≤ limit.toInt) ∧
      (∀ q, compile root paths seeds limit = .ok q → q = p) ∧
      (limit.toInt < root.width * paths.toInt → ∃ size cause,
        compile root paths seeds limit = .error (.error (.walk (.alloc size cause)))) := by
  -- Without a limit there is a program, and a limit only decides whether it is handed out.
  have through := exists_compile_iff_le accepted seeded some countable narrow
  obtain ⟨p, compiled⟩ := (through 0).mpr (.inl (Int64.le_refl 0))
  refine ⟨p, compiled, peak_eq accepted seeded some countable narrow compiled, ?_,
    fun q again => eq_of_compile compiled again,
    fun above => compile_refused accepted seeded some countable narrow limited above⟩
  rw [through limit]
  exact or_iff_right (Int64.not_le.mpr limited)

/-- A product of three factors, one of them a sum. -/
def layered : Expr Float := .mul [.var "x", .add [.const 1, .exp (.var "x")], .const 2]

/-- Six stretches of three elements do not fit into seventeen. -/
theorem compile_within_budget_layered :
    layered.validate = .ok () ∧ layered.mentioned = ["x", "x"] ∧ layered.blocks < 2 ^ 64 ∧
    ∃ p, compile layered 3 (.insert .empty "x" 1) 0 = .ok p ∧ p.peak.toInt = 18 ∧
      ∃ size cause, compile layered 3 (.insert .empty "x" 1) 17 =
        .error (.error (.walk (.alloc size cause))) := by
  -- Three paths of a tree of width six ask for eighteen elements.
  have valid : layered.validate = .ok () := rfl
  have seeded : ∀ name ∈ layered.mentioned,
      ∃ seed, (NameMap.insert .empty "x" (1 : Float)).find? name = some seed := by
    intro name named
    obtain rfl : name = "x" := by simpa [layered, Expr.mentioned, Expr.mentionedIn] using named
    exact ⟨1, rfl⟩
  have countable : layered.blocks < 2 ^ 64 := by decide
  have some : (0 : Int64) < 3 := by decide
  have narrow : layered.width * (3 : Int64).toInt < 2 ^ 63 := by decide
  have limited : (0 : Int64) < 17 := by decide
  obtain ⟨p, compiled, peak, _, _, refused⟩ :=
    compile_within_budget valid seeded some countable narrow limited
  exact ⟨valid, rfl, countable, p, compiled, peak, refused (by decide)⟩

end Program

end Tangent
