import Mathlib

/-!
Machine integers that count something.

Counts stay far below the largest machine integer, so they are compared as the numbers they stand
for.
-/

namespace Tangent

/-- Machine integers tell numbers apart that they can hold. -/
theorem ofNat_ne {i j : Nat} (differ : i ≠ j) (first : i < 2 ^ 63) (second : j < 2 ^ 63) :
    Int64.ofNat i ≠ Int64.ofNat j := by
  intro same
  -- Both stand for the number they were made from.
  have := congrArg Int64.toInt same
  rw [Int64.toInt_ofNat_of_lt first, Int64.toInt_ofNat_of_lt second] at this
  omega

/-- A count is not negative. -/
theorem ofNat_not_neg {k : Nat} (bounded : k < 2 ^ 63) : ¬ Int64.ofNat k < 0 := by
  -- A count that fits is the number it stands for.
  rw [Int64.lt_iff_toInt_lt, Int64.toInt_ofNat_of_lt bounded, Int64.toInt_zero]
  omega

/-- The count of something is positive. -/
theorem ofNat_pos {k : Nat} (some : 0 < k) (bounded : k < 2 ^ 63) : ¬ Int64.ofNat k ≤ 0 := by
  -- A count that fits is the number it stands for, and this one is not zero.
  rw [Int64.le_iff_toInt_le, Int64.toInt_ofNat_of_lt bounded, Int64.toInt_zero]
  omega

/-- A machine integer that is not negative counts something. -/
theorem exists_eq_ofNat {x : Int64} (nonneg : 0 ≤ x) :
    ∃ k : Nat, x = Int64.ofNat k ∧ x.toInt = k := by
  -- It counts what it stands for, since nothing is cut off at zero.
  refine ⟨x.toNatClampNeg, (Int64.ofNat_toNatClampNeg x nonneg).symm, ?_⟩
  rw [Int64.le_iff_toInt_le, Int64.toInt_zero] at nonneg
  rw [Int64.toNatClampNeg]
  omega

/-- A count grows by another one, as long as machine integers can hold the sum. -/
theorem toInt_add_ofNat {x : Int64} {a b : Nat} (counts : x.toInt = a) (bounded : a + b < 2 ^ 63) :
    (x + Int64.ofNat b).toInt = (a + b : Nat) := by
  obtain ⟨k, rfl, exact⟩ := exists_eq_ofNat (x := x) (by
    rw [Int64.le_iff_toInt_le, Int64.toInt_zero]
    omega)
  -- Both are counts, and so is their sum.
  obtain rfl : k = a := by omega
  rw [← Int64.ofNat_add, Int64.toInt_ofNat_of_lt bounded]

/-- A count shrinks by one that is a part of it. -/
theorem toInt_sub_ofNat {x : Int64} {a b : Nat} (counts : x.toInt = (a + b : Nat)) :
    (x - Int64.ofNat b).toInt = a := by
  -- A count that is not negative is a natural number, here the sum of the two parts.
  obtain ⟨k, rfl, exact⟩ := exists_eq_ofNat (x := x) (by
    rw [Int64.le_iff_toInt_le, Int64.toInt_zero]
    omega)
  have bounded := Int64.toInt_lt (Int64.ofNat k)
  obtain rfl : k = a + b := by omega
  rw [Int64.ofNat_add, Int64.add_sub_cancel, Int64.toInt_ofNat_of_lt (by omega)]

/-- The smaller of two machine integers, as an integer. -/
theorem toInt_min (a b : Int64) : (min a b).toInt = min a.toInt b.toInt := by
  -- Machine integers are ordered as the integers they stand for.
  by_cases order : a ≤ b
  · rw [show min a b = a from if_pos order, Int.min_eq_left (Int64.le_iff_toInt_le.mp order)]
  · have larger : b.toInt ≤ a.toInt := by
      have := mt Int64.le_iff_toInt_le.mpr order
      omega
    rw [show min a b = b from if_neg order, Int.min_eq_right larger]

/-- The larger of two machine integers, as an integer. -/
theorem toInt_max (a b : Int64) : (max a b).toInt = max a.toInt b.toInt := by
  -- The order of machine integers is that of the numbers they stand for.
  by_cases order : a ≤ b
  · rw [show max a b = b from if_pos order, Int.max_eq_right (Int64.le_iff_toInt_le.mp order)]
  · have larger : b.toInt ≤ a.toInt := by
      have := mt Int64.le_iff_toInt_le.mpr order
      omega
    rw [show max a b = a from if_neg order, Int.max_eq_left larger]

/-- The larger of two machine integers is one that is at least as large as both. -/
theorem le_toInt_max (a b : Int64) :
    a.toInt ≤ (max a b).toInt ∧ b.toInt ≤ (max a b).toInt := by
  -- The order decides which of the two it is.
  by_cases order : a ≤ b
  · rw [show max a b = b from if_pos order]
    exact ⟨Int64.le_iff_toInt_le.mp order, Int.le_refl _⟩
  · rw [show max a b = a from if_neg order]
    have := mt Int64.le_iff_toInt_le.mpr order
    omega

end Tangent
