import Mathlib
import Tangent.Decimal.Binary64

/-!
The double nearest to a ratio.

Around every magnitude of the format lie the ratios that are nearer to it than to its neighbours.
Such a ratio is rounded to exactly the bits of that magnitude.
-/

namespace Tangent

/-- Numbers that can be told from their bits. -/
class LawfulStored (α : Type) [Stored α] : Prop where
  ofBits_toBits : ∀ x : α, Stored.ofBits (Stored.toBits x) = x

/-- Doubles can be told from their bits, since there is a single NaN among them. -/
instance : LawfulStored Float where
  ofBits_toBits x := by
    change Float.ofBits (if x.isNaN then 0x7ff8000000000001 else x.toBits) = x
    -- A NaN is stored in one form only, and every other double has bits of its own.
    split
    · rename_i nan
      rw [Float.isNaN_eq_decide_eq_nan, decide_eq_true_eq] at nan
      rw [nan]
      rfl
    · exact Float.ofBits_toBits x

namespace Binary64

/-- A ratio is divided by a power by moving the power to the side where it is a whole number. -/
theorem scaled_ratio {base : Nat} (positive : 0 < base) (num den : Nat) (shift : Int) :
    let r := if shift ≥ 0 then (num, den * Nat.pow base shift.toNat)
      else (num * Nat.pow base (-shift).toNat, den)
    (0 < den → 0 < r.2) ∧ (r.1 : ℚ) / r.2 = num / den / (base : ℚ) ^ shift := by
  intro r
  -- A power that is no fraction goes below, and the inverse of a fraction goes above.
  by_cases up : shift ≥ 0
  · obtain ⟨k, rfl⟩ := Int.eq_ofNat_of_zero_le up
    have same : r = (num, den * base ^ k) := if_pos up
    refine ⟨fun below => ?_, ?_⟩
    · rw [same]
      exact Nat.mul_pos below (Nat.pow_pos positive)
    · simp [same, div_div]
  · obtain ⟨k, rfl⟩ : ∃ k : Nat, shift = -k := ⟨(-shift).toNat, by omega⟩
    have same : r = (num * base ^ k, den) := by
      have back : (- -(k : Int)).toNat = k := by omega
      exact (if_neg up).trans (by rw [back]; rfl)
    exact ⟨fun below => by rwa [same], by simp [same, div_mul_eq_mul_div]⟩

/-- Dividing by a power of two keeps a denominator positive. -/
theorem scaleDown_pos {den : Nat} (positive : 0 < den) (num : Nat) (shift : Int) :
    0 < (scaleDown num den shift).2 :=
  -- Scaling multiplies either the denominator or the numerator by a power of the base.
  (scaled_ratio two_pos num den shift).1 positive

/-- A ratio is divided by a power of two. -/
theorem scaleDown_ratio (num den : Nat) (shift : Int) :
    ((scaleDown num den shift).1 : ℚ) / (scaleDown num den shift).2 = num / den / 2 ^ shift :=
  -- It is scaling with two for the base.
  (scaled_ratio two_pos num den shift).2

/-- A ratio is rounded to the integer it is no more than a half away from, a tie to the even one. -/
theorem roundRatio_eq_of_nat {num den m : Nat} (low : 2 * (m * den) ≤ 2 * num + den)
    (high : 2 * num ≤ 2 * (m * den) + den) (positive : 0 < den)
    (odd : m % 2 = 1 → 2 * (m * den) ≠ 2 * num + den ∧ 2 * num ≠ 2 * (m * den) + den) :
    roundRatio num den = m := by
  have parts := Nat.div_add_mod num den
  have small := Nat.mod_lt num positive
  rw [roundRatio]
  generalize num / den = q at parts
  generalize num % den = r at parts small
  -- With a larger or a smaller integer the ratio would be more than a half away.
  have upper : m < q + 2 := by
    by_contra far
    have := Nat.mul_le_mul_right den (not_lt.mp far)
    rw [Nat.mul_comm den q] at parts
    rw [Nat.add_mul] at this
    omega
  have lower : q < m + 1 := by
    by_contra far
    have := Nat.mul_le_mul_right den (not_lt.mp far)
    rw [Nat.mul_comm den q] at parts
    rw [Nat.add_mul] at this
    omega
  -- The integer is the quotient or the one after it, and the remainder tells which.
  obtain rfl | rfl : m = q ∨ m = q + 1 := by omega
  · -- With the quotient itself the remainder is at most half of the denominator.
    rw [Nat.mul_comm den m] at parts
    rw [if_neg]
    simp only [Bool.or_eq_true, Bool.and_eq_true, decide_eq_true_eq, beq_iff_eq]
    omega
  · -- With the one after it the remainder is at least half of the denominator.
    rw [Nat.mul_comm den q] at parts
    rw [Nat.add_mul] at low high odd
    rw [if_pos]
    simp only [Bool.or_eq_true, Bool.and_eq_true, decide_eq_true_eq, beq_iff_eq]
    omega

/-- A ratio is rounded to the integer it is no more than a half away from, a tie to the even one. -/
theorem roundRatio_eq {num den m : Nat} (positive : 0 < den) (low : (m : ℚ) - 1 / 2 ≤ num / den)
    (high : (num / den : ℚ) ≤ m + 1 / 2)
    (odd : m % 2 = 1 → (m : ℚ) - 1 / 2 ≠ num / den ∧ (num / den : ℚ) ≠ m + 1 / 2) :
    roundRatio num den = m := by
  have below : (0 : ℚ) < den := Nat.cast_pos.mpr positive
  -- The bounds are those of the lemma before, multiplied by the denominator.
  refine roundRatio_eq_of_nat ?_ ?_ positive fun parity => ?_
  · rw [le_div_iff₀ below] at low
    have : (2 * (m * den) : ℚ) ≤ 2 * num + den := by linarith
    exact_mod_cast this
  · rw [div_le_iff₀ below] at high
    have : (2 * num : ℚ) ≤ 2 * (m * den) + den := by linarith
    exact_mod_cast this
  · obtain ⟨no_low, no_high⟩ := odd parity
    rw [Ne, eq_div_iff below.ne'] at no_low
    rw [Ne, div_eq_iff below.ne'] at no_high
    refine ⟨fun tie => no_low ?_, fun tie => no_high ?_⟩
    · have : (2 * (m * den) : ℚ) = 2 * num + den := by exact_mod_cast tie
      linarith
    · have : (2 * num : ℚ) = 2 * (m * den) + den := by exact_mod_cast tie
      linarith

/-- The lengths in bits bound a ratio from both sides. -/
theorem ratio_bounds {num den : Nat} (up : num ≠ 0) (down : den ≠ 0) :
    (2 : ℚ) ^ ((num.log2 : Int) - den.log2 - 1) < num / den ∧
      (num / den : ℚ) < 2 ^ ((num.log2 : Int) - den.log2 + 1) := by
  -- A number lies between the power of two of its highest bit and the next one.
  have low (n : Nat) (nonzero : n ≠ 0) : (2 : ℚ) ^ (n.log2 : Int) ≤ n := by
    exact_mod_cast Nat.log2_self_le nonzero
  have high (n : Nat) : (n : ℚ) < 2 ^ ((n.log2 : Int) + 1) := by
    exact_mod_cast Nat.lt_log2_self
  have positive : (0 : ℚ) < den := Nat.cast_pos.mpr (Nat.pos_of_ne_zero down)
  have split (a b : Int) : (2 : ℚ) ^ (a + b) = 2 ^ a * 2 ^ b := zpow_add₀ two_ne_zero a b
  constructor
  · -- The numerator is not too small for its length, and the denominator not too large.
    rw [lt_div_iff₀ positive]
    calc (2 : ℚ) ^ ((num.log2 : Int) - den.log2 - 1) * den
        < 2 ^ ((num.log2 : Int) - den.log2 - 1) * 2 ^ ((den.log2 : Int) + 1) := by
          gcongr
          exact high den
      _ = 2 ^ (num.log2 : Int) := by rw [← split]; congr 1; ring
      _ ≤ num := low num up
  · -- The numerator is not too large for its length, and the denominator not too small.
    rw [div_lt_iff₀ positive]
    calc (num : ℚ) < 2 ^ ((num.log2 : Int) + 1) := high num
      _ = 2 ^ ((num.log2 : Int) - den.log2 + 1) * 2 ^ (den.log2 : Int) := by
          rw [← split]; congr 1; ring
      _ ≤ 2 ^ ((num.log2 : Int) - den.log2 + 1) * den := by
          gcongr
          exact low den down

/-- The exponent that a ratio is rounded at leaves fifty-three bits, or fewer at the least one. -/
theorem exists_nearestBits {num den : Nat} (up : num ≠ 0) (down : den ≠ 0) :
    ∃ e : Int, -1074 ≤ e ∧ (num / den : ℚ) < 2 ^ (e + 53) ∧
      (e = -1074 ∨ (2 : ℚ) ^ (e + 52) ≤ num / den) ∧
      nearestBits num den = min infinityBits ((e + 1074).toNat * hiddenBit +
        roundRatio (scaleDown num den e).1 (scaleDown num den e).2) := by
  obtain ⟨low, high⟩ := ratio_bounds up down
  have grows {a b : Int} (order : a ≤ b) : (2 : ℚ) ^ a ≤ 2 ^ b :=
    zpow_le_zpow_right₀ one_le_two order
  -- The quotient is too long exactly when the ratio is.
  have long (guess : Int) :
      (scaleDown num den guess).1 / (scaleDown num den guess).2 ≥ 2 * hiddenBit ↔
        (2 : ℚ) ^ (guess + 53) ≤ num / den := by
    have positive := scaleDown_pos (Nat.pos_of_ne_zero down) num guess
    have scale : (0 : ℚ) < 2 ^ guess := zpow_pos two_pos guess
    rw [ge_iff_le, Nat.le_div_iff_mul_le positive, ← Nat.cast_le (α := ℚ), Nat.cast_mul,
      ← le_div_iff₀ (Nat.cast_pos.mpr positive), scaleDown_ratio, le_div_iff₀ scale, add_comm,
      zpow_add₀ two_ne_zero]
    norm_num [hiddenBit]
  -- The lengths in bits give the exponent, or one that is too small by one.
  generalize guessed : max (-1074) ((num.log2 : Int) - (den.log2 : Int) - 53) = guess
  have computed : nearestBits num den =
      let e := if (scaleDown num den guess).1 / (scaleDown num den guess).2 ≥ 2 * hiddenBit
        then guess + 1 else guess
      min infinityBits ((e + 1074).toNat * hiddenBit +
        roundRatio (scaleDown num den e).1 (scaleDown num den e).2) := by
    rw [nearestBits, if_neg (by simpa using up), guessed]
  refine ⟨_, ?_, ?_, ?_, computed⟩
  · split <;> omega
  · -- One more than the first guess is always enough.
    split
    · exact high.trans_le (grows (by omega))
    · rename_i short
      rw [long] at short
      exact not_le.mp short
  · -- A guess is only raised if the quotient was too long, so it is never raised too far.
    split
    · rename_i longer
      rw [long] at longer
      rw [show guess + 1 + 52 = guess + 53 by ring]
      exact .inr longer
    · by_cases least : guess = -1074
      · exact .inl least
      · exact .inr ((grows (by omega)).trans low.le)

/-- A magnitude that the format has: fifty-three bits, or fewer at the least exponent. -/
structure Magnitude.Canonical (m : Magnitude) : Prop where
  short : m.significand < 2 ^ 53
  least : -1074 ≤ m.exponent
  greatest : m.exponent ≤ 971
  normal : 2 ^ 52 ≤ m.significand ∨ m.exponent = -1074

/-- The bits of a magnitude, in which a carry out of the significand moves the exponent. -/
def Magnitude.bits (m : Magnitude) : Nat := (m.exponent + 1074).toNat * hiddenBit + m.significand

/-- How far below itself a magnitude is the nearest, in its last place. -/
def Magnitude.margin (m : Magnitude) : ℚ :=
  if m.significand = hiddenBit ∧ -1074 < m.exponent then 1 / 4 else 1 / 2

/-- The ratios that are nearer to a magnitude than to others; ties are those of an even one. -/
structure Magnitude.Nears (m : Magnitude) (v : ℚ) : Prop where
  low : (m.significand - m.margin) * 2 ^ m.exponent ≤ v
  high : v ≤ (m.significand + 1 / 2) * 2 ^ m.exponent
  odd : m.significand % 2 = 1 → (m.significand - m.margin) * 2 ^ m.exponent ≠ v ∧
    v ≠ (m.significand + 1 / 2) * 2 ^ m.exponent

namespace Magnitude

variable {m : Magnitude}

/-- The margin is at most half a place. -/
theorem margin_le (m : Magnitude) : m.margin ≤ 1 / 2 := by
  -- It is a half or a quarter.
  unfold margin
  split <;> norm_num

/-- The margin is half a place but for the smallest significand of an exponent. -/
theorem margin_eq (other : m.significand ≠ 2 ^ 52) : m.margin = 1 / 2 :=
  -- The margin is a quarter only at the smallest significand.
  if_neg fun narrow => other narrow.1

/-- The bits of a magnitude are less than those of infinity. -/
theorem Canonical.bits_lt (canonical : m.Canonical) : m.bits < infinityBits := by
  -- The exponent is written above the 52 bits of the fraction, and is never all ones.
  obtain ⟨short, least, greatest, _⟩ := canonical
  rw [bits, infinityBits, show hiddenBit = 2 ^ 52 from rfl]
  omega

/-- A power of two next to that of the last place. -/
theorem two_zpow_add (e : Int) (k : Nat) : (2 : ℚ) ^ (e + k) = 2 ^ k * 2 ^ e := by
  -- Exponents add up, and a natural one is an ordinary power.
  rw [zpow_add₀ two_ne_zero, zpow_natCast, mul_comm]

variable {v : ℚ}

/-- A near ratio is at least half the least place. -/
theorem Nears.half_le (near : m.Nears v) (canonical : m.Canonical) (positive : 0 < m.significand) :
    2 ^ (-1075 : Int) ≤ v := by
  -- A significand of one with half a place taken off is half the least place.
  have significant : (1 : ℚ) ≤ m.significand := Nat.one_le_cast.mpr positive
  have place : (2 : ℚ) ^ (-1074 : Int) ≤ 2 ^ m.exponent :=
    zpow_le_zpow_right₀ one_le_two canonical.least
  calc (2 : ℚ) ^ (-1075 : Int) = 1 / 2 * 2 ^ (-1074 : Int) := by
        rw [show (-1075 : Int) = -1 + -1074 by norm_num, zpow_add₀ two_ne_zero, zpow_neg_one,
          one_div]
    _ ≤ (m.significand - m.margin) * 2 ^ m.exponent := by
        have halves := m.margin_le
        exact mul_le_mul (by linarith) place (by positivity) (by linarith)
    _ ≤ v := near.low

/-- Zero is near to no magnitude above it. -/
theorem Nears.pos (near : m.Nears v) (canonical : m.Canonical) (positive : 0 < m.significand) :
    0 < v :=
  -- It is at least half a place away from zero.
  (zpow_pos two_pos _).trans_le (near.half_le canonical positive)

/-- A near ratio does not reach the significands of the next exponent. -/
theorem Nears.lt_top (near : m.Nears v) (canonical : m.Canonical) :
    v < 2 ^ (m.exponent + (53 : Nat)) := by
  have short : (m.significand : ℚ) + 1 ≤ 2 ^ 53 := by exact_mod_cast canonical.short
  have place : (0 : ℚ) < 2 ^ m.exponent := zpow_pos two_pos _
  rw [two_zpow_add]
  -- The last significand is a place below the next power of two, which is more than half a place.
  calc v ≤ (m.significand + 1 / 2) * 2 ^ m.exponent := near.high
    _ < 2 ^ 53 * 2 ^ m.exponent := by gcongr; linarith

/-- A ratio near to more than the smallest significand of an exponent is above it. -/
theorem Nears.bottom_lt (near : m.Nears v) (normal : 2 ^ 52 < m.significand) :
    2 ^ (m.exponent + (52 : Nat)) < v := by
  have long : (2 : ℚ) ^ 52 + 1 ≤ m.significand := by exact_mod_cast normal
  have place : (0 : ℚ) < 2 ^ m.exponent := zpow_pos two_pos _
  rw [two_zpow_add]
  -- There is a whole place down to the smallest significand, and the margin is half of one.
  calc (2 : ℚ) ^ 52 * 2 ^ m.exponent < (m.significand - m.margin) * 2 ^ m.exponent := by
        gcongr
        linarith [m.margin_le]
    _ ≤ v := near.low

/-- A ratio near to the smallest significand of an exponent is at most a quarter place below. -/
theorem Nears.quarter_le (near : m.Nears v) (smallest : m.significand = 2 ^ 52)
    (above : -1074 < m.exponent) : (2 ^ 52 - 1 / 4) * 2 ^ m.exponent ≤ v := by
  -- Below such a significand the places are half as wide.
  have margin : m.margin = 1 / 4 := if_pos ⟨smallest, above⟩
  have low := near.low
  rw [margin, smallest] at low
  exact_mod_cast low

/-- A ratio that is near and rounded at the exponent of a magnitude has its significand. -/
theorem Nears.roundRatio_eq (near : m.Nears v) {num den : Nat} (down : 0 < den)
    (ratio : (num / den : ℚ) = v / 2 ^ m.exponent) : roundRatio num den = m.significand := by
  -- Divided by the last place, the bounds of a near ratio are those of rounding an integer.
  have place : (0 : ℚ) < 2 ^ m.exponent := zpow_pos two_pos _
  apply Binary64.roundRatio_eq down
  · rw [ratio, le_div_iff₀ place]
    refine le_trans ?_ near.low
    gcongr
    exact m.margin_le
  · rw [ratio, div_le_iff₀ place]
    exact near.high
  · -- An odd significand is not the smallest one, so its margin is half a place on both sides.
    intro parity
    obtain ⟨low, high⟩ := near.odd parity
    rw [m.margin_eq (by omega)] at low
    rw [ratio, Ne, Ne, eq_div_iff place.ne', div_eq_iff place.ne']
    exact ⟨low, high⟩

/-- A near ratio is rounded to the bits of the magnitude. -/
theorem Nears.nearestBits_eq (canonical : m.Canonical) (positive : 0 < m.significand)
    {num den : Nat} (down : 0 < den) (near : m.Nears (num / den)) :
    nearestBits num den = m.bits := by
  have place : (0 : ℚ) < 2 ^ m.exponent := zpow_pos two_pos _
  have up : num ≠ 0 := by
    rintro rfl
    have above := near.pos canonical positive
    rw [Nat.cast_zero, zero_div] at above
    exact lt_irrefl 0 above
  have order {a b : Int} (less : (2 : ℚ) ^ a < 2 ^ b) : a < b :=
    (zpow_lt_zpow_iff_right₀ one_lt_two).mp less
  obtain ⟨e, least, below, above, computed⟩ := exists_nearestBits up down.ne'
  -- The ratio is too small for any larger exponent.
  have notLarger : e ≤ m.exponent := by
    rcases above with rfl | above
    · exact canonical.least
    · have := order (above.trans_lt (near.lt_top canonical))
      omega
  have ratio := scaleDown_ratio num den e
  have denominator := scaleDown_pos down num e
  -- The bits are less than those of infinity, so they are not cut off.
  suffices same : (e + 1074).toNat * hiddenBit +
      roundRatio (scaleDown num den e).1 (scaleDown num den e).2 = m.bits by
    rw [computed, same, min_eq_right canonical.bits_lt.le]
  rcases notLarger.lt_or_eq with smaller | rfl
  · -- Only the smallest significand of an exponent is near to ratios of the exponent below.
    have normal : 2 ^ 52 ≤ m.significand := canonical.normal.resolve_right (by omega)
    have smallest : m.significand = 2 ^ 52 := by
      by_contra larger
      have := order ((near.bottom_lt (by omega)).trans below)
      omega
    have quarter := near.quarter_le smallest (by omega)
    have next : e + 1 = m.exponent := by
      have half : (2 : ℚ) ^ (m.exponent + (51 : Nat)) < num / den := by
        refine lt_of_lt_of_le ?_ quarter
        rw [two_zpow_add]
        gcongr
        norm_num
      have := order (half.trans below)
      omega
    -- There it is rounded up to the power of two, and the carry moves the exponent.
    have twice : (2 : ℚ) ^ m.exponent = 2 * 2 ^ e := by
      rw [← next, zpow_add_one₀ two_ne_zero, mul_comm]
    have place' : (0 : ℚ) < 2 ^ e := zpow_pos two_pos e
    rw [twice] at quarter
    rw [show e + 53 = e + (53 : Nat) from rfl, two_zpow_add] at below
    have carried : roundRatio (scaleDown num den e).1 (scaleDown num den e).2 = 2 ^ 53 := by
      apply Binary64.roundRatio_eq denominator
      · rw [ratio, le_div_iff₀ place']
        norm_num at quarter ⊢
        linarith
      · rw [ratio, div_le_iff₀ place']
        norm_num at below ⊢
        linarith
      · exact fun odd => absurd odd (by decide)
    rw [carried, bits, smallest, ← next, show hiddenBit = 2 ^ 52 from rfl]
    omega
  · -- At its own exponent the ratio is rounded to the significand.
    rw [bits, near.roundRatio_eq denominator ratio]

end Magnitude

section Stored

variable {α : Type} [Stored α]

/-- The exponent is read from the bits above the fraction. -/
theorem exponentField_eq (x : α) : exponentField x = (Stored.toBits x).toNat / 2 ^ 52 % 2048 := by
  -- Shifting down by 52 bits divides by their power of two, and the mask leaves 11 bits.
  rw [exponentField, UInt64.toNat_shiftRight, Nat.shiftRight_eq_div_pow]
  rfl

/-- The sign is the highest bit. -/
theorem signBit_iff (x : α) : signBit x ↔ 2 ^ 63 ≤ (Stored.toBits x).toNat := by
  -- What is left when all lower bits are shifted out is 0 or 1.
  have top := (Stored.toBits x).toNat_lt
  rw [signBit, beq_iff_eq, ← UInt64.toNat_inj, UInt64.toNat_shiftRight, Nat.shiftRight_eq_div_pow]
  change (Stored.toBits x).toNat / 2 ^ 63 = 1 ↔ _
  omega

/-- A finite double has a magnitude of the format. -/
theorem canonical_magnitude {x : α} (finite : finite x) : (magnitude x).Canonical := by
  have exponent := exponentField_eq x
  have fraction : fractionField x = (Stored.toBits x).toNat % 2 ^ 52 := rfl
  rw [Binary64.finite, bne_iff_ne] at finite
  have hidden : hiddenBit = 2 ^ 52 := rfl
  unfold magnitude
  -- Without a hidden bit the exponent is the least one, and otherwise the bit makes it normal.
  split
  · exact ⟨by dsimp only; omega, le_rfl, by dsimp only; omega, .inr rfl⟩
  · rename_i normal
    rw [beq_iff_eq] at normal
    exact ⟨by dsimp only; omega, by dsimp only; omega, by dsimp only; omega,
      .inl (by dsimp only; omega)⟩

/-- The bits of a double are those of its magnitude behind its sign. -/
theorem toNat_toBits (x : α) :
    (Stored.toBits x).toNat = (if signBit x then negativeBit else 0) + (magnitude x).bits := by
  have exponent := exponentField_eq x
  have fraction : fractionField x = (Stored.toBits x).toNat % 2 ^ 52 := rfl
  have top := (Stored.toBits x).toNat_lt
  have hidden : hiddenBit = 2 ^ 52 := rfl
  have sign : negativeBit = 2 ^ 63 := rfl
  -- The hidden bit is what the exponent has one more of.
  have bits : (magnitude x).bits = exponentField x * 2 ^ 52 + fractionField x := by
    unfold magnitude
    split
    · rename_i least
      rw [beq_iff_eq] at least
      rw [Magnitude.bits, least]
      rfl
    · rename_i normal
      rw [beq_iff_eq] at normal
      rw [Magnitude.bits, hidden]
      dsimp only
      omega
  rw [bits]
  simp only [signBit_iff]
  split <;> omega

/-- The double that has the bits of another one behind the same sign is that one. -/
theorem nearest_eq [LawfulStored α] {x : α} {num den : Nat}
    (bits : nearestBits num den = (magnitude x).bits) : nearest (signBit x) num den = x := by
  -- The bits of a double are those of its magnitude with the sign in front.
  have whole : (if signBit x then negativeBit + (magnitude x).bits else (magnitude x).bits) =
      (Stored.toBits x).toNat := by
    rw [toNat_toBits x]
    split <;> simp
  rw [nearest, bits, whole, UInt64.ofNat_toNat, LawfulStored.ofBits_toBits]

end Stored

end Binary64

end Tangent
