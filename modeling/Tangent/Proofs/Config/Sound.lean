import Tangent.Config.Basic
import Tangent.Proofs.Count
import Tangent.Proofs.Walk.Defect

/-! What is known of a description of a run that was accepted. -/

namespace Tangent

/-- What the check of a description vouches for. -/
structure Config.Sound (c : Config) : Prop where
  paths : c.paths = Int64.ofNat c.paths.toNatClampNeg
  positive : 0 < c.paths.toNatClampNeg
  few : c.paths.toNatClampNeg ≤ 2 ^ 26
  tree : c.expression.validate = .ok ()
  limit : 0 ≤ c.runtime.maxTempElements
  declared : ∀ name ∈ c.expression.mentioned, c.declared.contains name = true

/-- A description that was accepted is sound. -/
theorem Config.sound_of_validate {c : Config} (valid : c.validate = .ok ()) : c.Sound := by
  -- Each of the checks was passed, one after the other.
  obtain ⟨_, counted, valid⟩ := ok_of_bind valid
  obtain ⟨_, planted, valid⟩ := ok_of_bind valid
  obtain ⟨_, limited, valid⟩ := ok_of_bind valid
  obtain ⟨_, _, named⟩ := ok_of_bind valid
  -- The bounds on the paths are checked on machine integers, and are read as numbers below.
  have range : 0 < c.paths ∧ c.paths ≤ maxPaths := by
    unfold checkPaths at counted
    split at counted
    · simp at counted
    · rename_i inside
      simp only [Bool.or_eq_true, decide_eq_true_eq, not_or] at inside
      exact ⟨Int64.not_le.mp inside.1, Int64.not_lt.mp inside.2⟩
  obtain ⟨n, count, exact⟩ := exists_eq_ofNat (Int64.le_of_lt range.1)
  rw [Int64.lt_iff_toInt_lt, Int64.le_iff_toInt_le, Int64.toInt_zero, exact,
    show maxPaths.toInt = 2 ^ 26 from rfl] at range
  have clamped : c.paths.toNatClampNeg = n := by
    rw [Int64.toNatClampNeg, exact]
    rfl
  have tree : c.expression.validate = .ok () := by
    unfold checkTree at planted
    split at planted
    · simp at planted
    · exact ok_of_mapError planted
  refine ⟨clamped ▸ count, by omega, by omega, tree, ?_, ?_⟩
  · unfold checkLimits at limited
    split at limited
    · simp at limited
    · rename_i nonneg
      simp only [Bool.or_eq_true, decide_eq_true_eq, not_or] at nonneg
      exact Int64.not_lt.mp nonneg.1.2
  · intro name mentioned
    -- Every name that occurs is looked up among those that are declared.
    obtain ⟨listed, found⟩ := Expr.exists_vars tree
    have among : name ∈ c.names := by
      rw [names, found]
      exact (Expr.mem_vars found name).mpr mentioned
    have passed := ok_of_forM named name among
    unfold checkDeclared at passed
    split at passed
    · assumption
    · simp at passed

end Tangent
