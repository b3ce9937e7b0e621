import Tangent.Proofs.Program.Lifetimes

/-!
The limits of a file as exact sums.

The check adds the sizes of temporaries as machine integers, with a table of all that ever began.
For an accepted program whose blocks can be added to it, this is the sum of the sizes of the live
temporaries, which is never above the limit.
-/

namespace Tangent

variable {α : Type}

/-- The temporaries that are known to be live after an accepted instruction. -/
theorem Program.Accepted.live_eq [Written α] {p : Program α} {v w : Validation} {pc : Nat}
    {i : Instr α} (accepted : p.Accepted v pc i w) : w.live = v.live.after i := by
  -- The check and the definition treat beginnings, ends and other instructions alike.
  cases accepted.follows with
  | begins asks => simp [TempTable.after, asks]
  | ends asks => simp [TempTable.after, asks]
  | keeps other => exact (TempTable.after_other _ other).symm

namespace ProgramFile

/-- No more elements than a file allows are live at any time, from some temporaries on. -/
def Bounded (live : TempTable Int64) (is : List (Instr α)) : Prop :=
  ∀ before, before <+: is → elements (before.foldl TempTable.after live) ≤ 2 ^ 30

/-- The bound holds from the first instruction on. -/
theorem bounded_cons {live : TempTable Int64} {i : Instr α} {rest : List (Instr α)} :
    Bounded live (i :: rest) ↔ elements live ≤ 2 ^ 30 ∧ Bounded (live.after i) rest := by
  constructor
  · intro bounded
    refine ⟨bounded [] (List.nil_prefix), fun before listed => ?_⟩
    exact bounded (i :: before) ((List.prefix_cons_inj i).mpr listed)
  · rintro ⟨now, later⟩ before listed
    -- Either no instruction was performed yet, or the first one was.
    cases before with
    | nil => exact now
    | cons j before =>
      obtain ⟨rfl, others⟩ := List.cons_prefix_cons.mp listed
      exact later before others

/-- The check of live temporaries is about their exact sum. -/
theorem checkLive_iff [Written α] {p : Program α} {is : List (Instr α)}
    (addable : Addable is) :
    ∀ {v v' : Validation} {sizes : TempTable Int64} {live : Int64} {pc : Nat},
      Accounts v sizes live → p.checkInstrs v pc is = .ok v' →
      (checkLive sizes live pc is = .ok () ↔ Bounded v.live is) := by
  -- The sum is kept in step with what the check of the program knows.
  induction is with
  | nil =>
    intro v v' sizes live pc accounts _
    refine ⟨fun _ before listed => ?_, fun _ => rfl⟩
    -- Where nothing is left to do, the sum is the one that was accepted before.
    rw [List.prefix_nil.mp listed]
    show elements v.live ≤ 2 ^ 30
    rw [← accounts.total]
    exact accounts.limited
  | cons i rest ih =>
    intro v v' sizes live pc accounts checked
    obtain ⟨w, accepted, others⟩ := Program.checkInstrs_cons_ok checked
    have now : elements v.live ≤ 2 ^ 30 := accounts.total ▸ accounts.limited
    have later {sizes : TempTable Int64} {live : Int64} (accounts : Accounts w sizes live) :=
      ih addable.tail accounts others
    rw [bounded_cons, ← accepted.live_eq]
    simp only [now, true_and]
    cases accepted.follows with
    | begins asks positive fresh =>
      have own := addable i List.mem_cons_self asks
      rw [checkLive_alloc asks]
      split
      · -- The sum with the new temporary is exact, and above the limit.
        rename_i above
        refine ⟨nofun, fun bounded => ?_⟩
        have within := bounded [] List.nil_prefix
        have sum := accounts.toInt_add positive own
        have exceeds : (2 : Int) ^ 30 < (live + i.len).toInt := Int64.lt_iff_toInt_lt.mp above
        have total := accounts.total
        simp only [List.foldl_nil, accounts.insert_eq _ fresh, elements, List.map_cons,
          List.sum_cons] at within total
        omega
      · -- Within the limit, the sum goes on with the new temporary in it.
        rename_i under
        exact later (accounts.alloc positive own fresh under).1
    | ends asks known =>
      rw [checkLive_free asks]
      exact later (accounts.free known)
    | keeps other =>
      rw [checkLive_other other]
      exact later accounts

/-- An accepted program is within the limits of a file by its paths and its live temporaries. -/
theorem checkLimits_iff [Written α] {p : Program α} (safe : p.validate = .ok ())
    (addable : Addable p.instrs) :
    checkLimits p = .ok () ↔ p.paths.toInt ≤ 2 ^ 26 ∧
      ∀ before, before <+: p.instrs → elements (Program.liveAfter before) ≤ 2 ^ 30 := by
  -- The check has gone through all instructions, so the temporaries are known along the way.
  obtain ⟨_, v, checked⟩ := Program.checkInstrs_of_validate safe
  rw [checkLimits_eq_ok, checkLive_iff addable accounts_nil checked]
  rfl

end ProgramFile

end Tangent
