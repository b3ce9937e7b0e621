import Tangent.Decimal.Digits
import Tangent.Proofs.Decimal.Nearest

/-!
The shortest decimal of a double is near to it.

Grids of decimals are tried from the coarsest on. A number that is taken from a grid lies in the
interval of the double, and the grid with seventeen digits is fine enough to have one.
-/

namespace Tangent.Decimal

open Binary64

/-- Dividing by a power of ten keeps a denominator positive. -/
theorem overPowerOfTen_pos {den : Nat} (positive : 0 < den) (num : Nat) (place : Int) :
    0 < (overPowerOfTen num den place).2 :=
  -- It is scaling with ten for the base.
  (scaled_ratio (by decide) num den place).1 positive

/-- A ratio is divided by a power of ten. -/
theorem overPowerOfTen_ratio (num den : Nat) (place : Int) :
    ((overPowerOfTen num den place).1 : ℚ) / (overPowerOfTen num den place).2 =
      num / den / 10 ^ place :=
  -- It is scaling with ten for the base.
  (scaled_ratio (by decide) num den place).2

/-- A ratio reaches a power of ten that is not larger. -/
theorem reaches_iff {num den : Nat} (positive : 0 < den) (place : Int) :
    reaches num den place ↔ (10 : ℚ) ^ place ≤ num / den := by
  have ten : (0 : ℚ) < 10 ^ place := zpow_pos (by norm_num) place
  have below : (0 : ℚ) < ((overPowerOfTen num den place).2 : ℚ) :=
    Nat.cast_pos.mpr (overPowerOfTen_pos positive num place)
  -- Divided by the power of ten, the ratio has to be at least one.
  rw [← one_le_div₀ ten, ← overPowerOfTen_ratio, one_le_div₀ below, Nat.cast_le]
  simp [reaches]

/--
A power of ten that is estimated from a power of two is at most one place too high.

Two good fractions for the logarithm of two bound it from both sides.
-/
theorem ten_zpow_le_two_zpow {k p : Int} (low : -2000 ≤ k) (high : k ≤ 2000)
    (estimate : 100000 * p ≤ 30103 * k) : (10 : ℚ) ^ (p - 1) ≤ 2 ^ k := by
  -- Where `10 ^ a` and `2 ^ n` compare as needed, `a / n` can stand in for the logarithm.
  have fraction {a n : Nat} (positive : n ≠ 0) (order : n * (p - 1) ≤ a * k)
      (compare : ((10 : ℚ) ^ a) ^ k ≤ ((2 : ℚ) ^ n) ^ k) : (10 : ℚ) ^ (p - 1) ≤ 2 ^ k := by
    have left : (0 : ℚ) ≤ 10 ^ (p - 1) := zpow_nonneg (by norm_num) _
    have right : (0 : ℚ) ≤ 2 ^ k := zpow_nonneg (by norm_num) _
    refine (pow_le_pow_iff_left₀ left right positive).mp ?_
    calc ((10 : ℚ) ^ (p - 1)) ^ n = 10 ^ (n * (p - 1)) := by
          rw [← zpow_natCast, ← zpow_mul, mul_comm]
      _ ≤ 10 ^ (a * k) := zpow_le_zpow_right₀ (by norm_num) order
      _ = ((10 : ℚ) ^ a) ^ k := by rw [zpow_mul, zpow_natCast]
      _ ≤ ((2 : ℚ) ^ n) ^ k := compare
      _ = (2 ^ k) ^ n := by
          rw [← zpow_natCast, ← zpow_natCast, ← zpow_mul, ← zpow_mul, mul_comm]
  rcases le_total 0 k with up | down
  · obtain ⟨j, rfl⟩ := Int.eq_ofNat_of_zero_le up
    -- Here `10 ^ 59` is below `2 ^ 196`, so the fraction is a little too small for the logarithm.
    refine fraction (show 196 ≠ 0 by decide) (show 196 * (p - 1) ≤ (59 : Nat) * j by omega) ?_
    rw [zpow_natCast, zpow_natCast]
    gcongr
    norm_num
  · obtain ⟨j, rfl⟩ : ∃ j : Nat, k = -j := ⟨(-k).toNat, by omega⟩
    -- A negative power turns the comparison around, and `10 ^ 28` is above `2 ^ 93`.
    refine fraction (show 93 ≠ 0 by decide) (show 93 * (p - 1) ≤ (28 : Nat) * -j by omega) ?_
    rw [zpow_neg, zpow_neg, zpow_natCast, zpow_natCast]
    gcongr
    norm_num

/-- The position of a ratio is not too high. -/
theorem ten_zpow_position_le {num den : Nat} (up : num ≠ 0) (down : den ≠ 0)
    (small : num.log2 ≤ 1200) (fine : den.log2 ≤ 1200) :
    (10 : ℚ) ^ (position num den - 1) ≤ num / den := by
  have positive : 0 < den := Nat.pos_of_ne_zero down
  unfold position
  generalize estimate : ((num.log2 : Int) - den.log2 - 1) * 30103 / 100000 = lower
  dsimp only
  split_ifs with far middle near
  · -- A position that was raised above the estimate was tested.
    exact (reaches_iff positive _).mp (by rwa [show lower + 3 - 1 = lower + 2 by ring])
  · exact (reaches_iff positive _).mp (by rwa [show lower + 2 - 1 = lower + 1 by ring])
  · exact (reaches_iff positive _).mp (by rwa [add_sub_cancel_right])
  · -- The estimate itself is one place too high at most, which is what is claimed.
    have guess : (10 : ℚ) ^ (lower - 1) ≤ 2 ^ ((num.log2 : Int) - den.log2 - 1) :=
      ten_zpow_le_two_zpow (by omega) (by omega) (by omega)
    exact guess.trans (ratio_bounds up down).1.le

namespace Interval

/-- The ratios that lie in an interval. -/
structure Holds (i : Interval) (v : ℚ) : Prop where
  low : i.low * 2 ^ i.exponent ≤ v
  high : v ≤ i.high * 2 ^ i.exponent
  inner : i.closed = false → i.low * 2 ^ i.exponent ≠ v ∧ v ≠ i.high * 2 ^ i.exponent

/-- What lies in the interval of a magnitude is near to it. -/
theorem Holds.nears {m : Magnitude} (positive : 0 < m.significand) {v : ℚ}
    (holds : (ofMagnitude m).Holds v) : m.Nears v := by
  -- An interval counts in quarters of the last place, so that its ends are whole.
  have quarter : (2 : ℚ) ^ (m.exponent - 2) = 2 ^ m.exponent / 4 := by
    rw [zpow_sub₀ two_ne_zero]
    norm_num
  have low : (((ofMagnitude m).low : Nat) : ℚ) * 2 ^ (ofMagnitude m).exponent =
      (m.significand - m.margin) * 2 ^ m.exponent := by
    simp only [ofMagnitude, Magnitude.margin, Bool.and_eq_true, beq_iff_eq, decide_eq_true_eq,
      gt_iff_lt, quarter]
    split
    · rw [Nat.cast_sub (by omega)]
      push_cast
      ring
    · rw [Nat.cast_sub (by omega)]
      push_cast
      ring
  have high : (((ofMagnitude m).high : Nat) : ℚ) * 2 ^ (ofMagnitude m).exponent =
      (m.significand + 1 / 2) * 2 ^ m.exponent := by
    simp only [ofMagnitude, quarter]
    push_cast
    ring
  -- An odd significand has an open interval, in which neither end lies.
  refine ⟨low ▸ holds.low, high ▸ holds.high, fun odd => ?_⟩
  rw [← low, ← high]
  exact holds.inner (by simp [ofMagnitude, odd])

/-- One place of a grid in units of an interval, as a ratio. -/
def grid (i : Interval) (place : Int) : Nat × Nat :=
  scaleDown (overPowerOfTen 1 1 place).1 (overPowerOfTen 1 1 place).2 (-i.exponent)

variable {i : Interval} {place : Int}

/-- Places of a grid and units of an interval measure the same. -/
theorem grid_spec (i : Interval) (place : Int) : 0 < (i.grid place).1 ∧ 0 < (i.grid place).2 ∧
    ((i.grid place).1 : ℚ) * 10 ^ place = 2 ^ i.exponent * (i.grid place).2 := by
  have ten : (0 : ℚ) < 10 ^ place := zpow_pos (by norm_num) place
  have two : (0 : ℚ) < 2 ^ i.exponent := zpow_pos two_pos _
  have below : 0 < (i.grid place).2 := scaleDown_pos (overPowerOfTen_pos one_pos 1 place) _ _
  have denominator : (0 : ℚ) < (i.grid place).2 := Nat.cast_pos.mpr below
  have ratio : ((i.grid place).1 : ℚ) / (i.grid place).2 = 2 ^ i.exponent / 10 ^ place := by
    rw [grid, scaleDown_ratio, overPowerOfTen_ratio, zpow_neg]
    field_simp
  -- Both sides are the same ratio of a unit to a place, without a division.
  have same := (div_eq_div_iff denominator.ne' ten.ne').mp ratio
  refine ⟨?_, below, same⟩
  rw [← Nat.cast_pos (α := ℚ)]
  exact pos_of_mul_pos_left (same ▸ mul_pos two denominator) ten.le

/-- Multiples of a place and of a unit compare as whole numbers do. -/
theorem grid_compare (i : Interval) (place : Int) (a b : Nat) :
    (a * (i.grid place).1 ≤ b * (i.grid place).2 ↔ (a : ℚ) * 2 ^ i.exponent ≤ b * 10 ^ place) ∧
    (b * (i.grid place).2 ≤ a * (i.grid place).1 ↔ (b : ℚ) * 10 ^ place ≤ a * 2 ^ i.exponent) := by
  obtain ⟨_, below, same⟩ := grid_spec i place
  have ten : (0 : ℚ) < 10 ^ place := zpow_pos (by norm_num) place
  have denominator : (0 : ℚ) < (i.grid place).2 := Nat.cast_pos.mpr below
  -- Multiplied by the places of the other, both sides count the same unit.
  have units : (a : ℚ) * (i.grid place).1 * 10 ^ place = a * 2 ^ i.exponent * (i.grid place).2 := by
    rw [mul_assoc, same, mul_assoc]
  have places : (b : ℚ) * (i.grid place).2 * 10 ^ place = b * 10 ^ place * (i.grid place).2 :=
    mul_right_comm _ _ _
  constructor
  -- The two comparisons are the same with their sides exchanged.
  all_goals
    rw [← Nat.cast_le (α := ℚ), Nat.cast_mul, Nat.cast_mul, ← mul_le_mul_iff_left₀ ten, units,
      places, mul_le_mul_iff_left₀ denominator]

/-- A multiple of a place lies in an interval when it does so as a whole number. -/
theorem holds_of_grid {n : Nat}
    (low : i.low * (i.grid place).1 ≤ n * (i.grid place).2 ∧
      (i.closed = false → i.low * (i.grid place).1 ≠ n * (i.grid place).2))
    (high : n * (i.grid place).2 ≤ i.high * (i.grid place).1 ∧
      (i.closed = false → n * (i.grid place).2 ≠ i.high * (i.grid place).1)) :
    i.Holds (n * 10 ^ place) := by
  obtain ⟨low_le, le_low⟩ := grid_compare i place i.low n
  obtain ⟨high_le, le_high⟩ := grid_compare i place i.high n
  refine ⟨low_le.mp low.1, le_high.mp high.1, fun inner => ⟨?_, ?_⟩⟩
  · -- An end that is met would also be met as a whole number.
    exact fun same => low.2 inner (le_antisymm low.1 (le_low.mpr same.ge))
  · exact fun same => high.2 inner (le_antisymm high.1 (high_le.mpr same.ge))

/-- An interval around its value. -/
structure Proper (i : Interval) : Prop where
  low_lt : i.low < i.value
  lt_high : i.value < i.high

/-- The interval of a positive magnitude is around its value. -/
theorem proper_ofMagnitude {m : Magnitude} (positive : 0 < m.significand) :
    (ofMagnitude m).Proper := by
  constructor
  · -- The low end is one or two quarters off the value.
    simp only [ofMagnitude]
    split <;> omega
  · simp only [ofMagnitude]
    omega

/-- A ratio is rounded to the integer below or to the one above. -/
theorem roundRatio_cases (num den : Nat) :
    roundRatio num den = num / den ∨ roundRatio num den = num / den + 1 := by
  -- The remainder decides between the two.
  unfold roundRatio
  dsimp only
  split
  · exact .inr rfl
  · exact .inl rfl

/-- An end belongs to an interval when the interval is closed. -/
theorem ite_le_lt {closed : Bool} {a b : Nat} :
    (if closed then a ≤ b else a < b) ↔ a ≤ b ∧ (closed = false → a ≠ b) := by
  -- A closed interval has its end, and an open one does not.
  cases closed <;> simp [Nat.lt_iff_le_and_ne]

/-- What is found on a grid lies in the interval. -/
theorem holds_of_onGrid? (proper : i.Proper) {n : Nat} (found : i.onGrid? place = some n) :
    i.Holds (n * 10 ^ place) := by
  obtain ⟨unit_pos, den_pos, _⟩ := grid_spec i place
  have low := Nat.mul_lt_mul_of_pos_right proper.low_lt unit_pos
  have high := Nat.mul_lt_mul_of_pos_right proper.lt_high unit_pos
  have rounded := roundRatio_cases (i.value * (i.grid place).1) (i.grid place).2
  -- The value lies between its neighbours on the grid.
  have parts := Nat.div_add_mod' (i.value * (i.grid place).1) (i.grid place).2
  have small := Nat.mod_lt (i.value * (i.grid place).1) den_pos
  have next := Nat.add_mul (i.value * (i.grid place).1 / (i.grid place).2) 1 (i.grid place).2
  rw [onGrid?] at found
  dsimp only at found
  rw [← grid] at found
  generalize i.value * (i.grid place).1 / (i.grid place).2 = below at *
  simp only [ite_le_lt, Bool.and_eq_true, decide_eq_true_eq, beq_iff_eq] at found
  split_ifs at found with exactly both first second
  · -- A value that is on the grid itself lies inside.
    cases found
    exact holds_of_grid (by omega) (by omega)
  · -- With both neighbours inside, the nearer one is taken, whichever that is.
    cases found
    rcases rounded with down | up
    · rw [down]
      exact holds_of_grid both.1 (by omega)
    · rw [up]
      exact holds_of_grid (by omega) both.2
  · -- With one neighbour inside, that one is taken.
    cases found
    exact holds_of_grid first (by omega)
  · cases found
    exact holds_of_grid (by omega) second

/-- Something is found on a grid that is finer than the interval is wide. -/
theorem exists_onGrid? (proper : i.Proper)
    (fine : (10 : ℚ) ^ place < (i.high - i.low) * 2 ^ i.exponent) :
    ∃ n, i.onGrid? place = some n := by
  have order : i.low ≤ i.high := (proper.low_lt.trans proper.lt_high).le
  -- The width has more than one place in it, also in whole numbers.
  have narrow : (i.grid place).2 < (i.high - i.low) * (i.grid place).1 := by
    have compare := (grid_compare i place (i.high - i.low) 1).1
    rw [Nat.cast_one, one_mul, one_mul, Nat.cast_sub order] at compare
    exact not_le.mp (mt compare.mp (not_le.mpr fine))
  rw [Nat.sub_mul] at narrow
  have next := Nat.add_mul (i.value * (i.grid place).1 / (i.grid place).2) 1 (i.grid place).2
  rw [onGrid?]
  dsimp only
  rw [← grid]
  simp only [ite_le_lt, Bool.and_eq_true, decide_eq_true_eq, beq_iff_eq]
  split_ifs with exactly both first second
  · exact ⟨_, rfl⟩
  · exact ⟨_, rfl⟩
  · exact ⟨_, rfl⟩
  · exact ⟨_, rfl⟩
  · -- With both neighbours outside the interval the grid is no finer than it.
    omega

/-- The first grid that meets the interval gives the digits. -/
theorem exists_shortestFrom (proper : i.Proper) {top : Int} {last : Nat} {n : Nat}
    (found : i.onGrid? (top - last) = some n) (fuel count : Nat) (start : count ≤ last)
    (enough : last < count + fuel) :
    ∃ n place, i.shortestFrom top count fuel = ofGrid n place ∧ i.Holds (n * 10 ^ place) := by
  -- Each grid is ten times finer than the one before, and the last one is known to hit.
  induction fuel generalizing count with
  | zero => omega
  | succ fuel ih =>
    rw [shortestFrom]
    split
    · rename_i n hit
      exact ⟨n, _, rfl, holds_of_onGrid? proper hit⟩
    · rename_i miss
      -- The last grid does hit, so it was another one that missed.
      have later : count ≠ last := by
        rintro rfl
        rw [found] at miss
        cases miss
      exact ih (count + 1) (by omega) (by omega)

end Interval

/-- The seventeenth digit of a magnitude is less than its interval is wide. -/
theorem seventeen_digits {m : Magnitude} (canonical : m.Canonical) (positive : 0 < m.significand)
    {top : Int} (position : (10 : ℚ) ^ (top - 1) ≤ m.significand * 2 ^ m.exponent) :
    (10 : ℚ) ^ (top - (17 : Nat)) <
      (((Interval.ofMagnitude m).high : ℚ) - (Interval.ofMagnitude m).low) *
        2 ^ (Interval.ofMagnitude m).exponent := by
  have place : (0 : ℚ) < 2 ^ m.exponent := zpow_pos two_pos _
  have quarter : (2 : ℚ) ^ (m.exponent - 2) = 2 ^ m.exponent / 4 := by
    rw [zpow_sub₀ two_ne_zero]
    norm_num
  -- Sixteen places lie between the seventeenth digit and the first.
  have digits : (10 : ℚ) ^ (top - (17 : Nat)) * 10 ^ 16 = 10 ^ (top - 1) := by
    rw [← zpow_natCast, ← zpow_add₀ (by norm_num)]
    congr 1
    push_cast
    ring
  have short : (m.significand : ℚ) < 2 ^ 53 := by exact_mod_cast canonical.short
  generalize (10 : ℚ) ^ (top - (17 : Nat)) = last at *
  rw [← digits] at position
  simp only [Interval.ofMagnitude, Bool.and_eq_true, beq_iff_eq, decide_eq_true_eq, quarter]
  -- Below a power of two the interval is narrower, but there the significand is smaller too.
  split
  · rename_i narrow
    have smallest : (m.significand : ℚ) = 2 ^ 52 := by exact_mod_cast narrow.1
    rw [Nat.cast_sub (by omega)]
    push_cast
    rw [smallest] at position ⊢
    linarith
  · have bound := mul_lt_mul_of_pos_right short place
    rw [Nat.cast_sub (by omega)]
    push_cast
    linarith

variable {α : Type} [Stored α]

/-- A magnitude of the format is a ratio whose lengths in bits are small. -/
theorem ratio_spec {m : Magnitude} (canonical : m.Canonical) (positive : 0 < m.significand) :
    (ratio m).1 ≠ 0 ∧ (ratio m).2 ≠ 0 ∧ (ratio m).1.log2 ≤ 1200 ∧ (ratio m).2.log2 ≤ 1200 ∧
      ((ratio m).1 : ℚ) / (ratio m).2 = m.significand * 2 ^ m.exponent := by
  have value : ((ratio m).1 : ℚ) / (ratio m).2 = m.significand * 2 ^ m.exponent := by
    rw [ratio, scaleDown_ratio, zpow_neg, Nat.cast_one, div_one, div_inv_eq_mul]
  -- A denominator is a power of two, and the numerator has the bits of a significand.
  have two (k : Nat) : Nat.pow 2 k ≠ 0 := (Nat.pow_pos two_pos).ne'
  have bits {n : Nat} (k : Nat) (nonzero : n ≠ 0) (short : n < 2 ^ 53) :
      (n * Nat.pow 2 k).log2 < 53 + k := by
    rw [Nat.log2_lt (Nat.mul_ne_zero nonzero (two k)), pow_add]
    exact Nat.mul_lt_mul_of_pos_right short (Nat.pow_pos two_pos)
  obtain ⟨short, least, greatest, _⟩ := canonical
  refine ⟨?_, ?_, ?_, ?_, value⟩
  all_goals
    unfold ratio scaleDown
    split
  · -- The exponent is negative or not, and the power is on the one side or on the other.
    exact positive.ne'
  · exact Nat.mul_ne_zero positive.ne' (two _)
  · exact Nat.mul_ne_zero one_ne_zero (two _)
  · exact one_ne_zero
  · have := bits 0 positive.ne' short
    rw [show m.significand * Nat.pow 2 0 = m.significand from Nat.mul_one _] at this
    dsimp only
    omega
  · have := bits (- -m.exponent).toNat positive.ne' short
    dsimp only
    omega
  · have := bits (-m.exponent).toNat one_ne_zero (by decide)
    dsimp only
    omega
  · dsimp only
    decide

/-- The shortest decimal of a finite double is near to it. -/
theorem exists_shortest {x : α} (finite : finite x) (positive : 0 < (magnitude x).significand) :
    ∃ n place, shortest x = ofGrid n place ∧ (magnitude x).Nears (n * 10 ^ place) := by
  have canonical := canonical_magnitude finite
  obtain ⟨up, down, small, fine, value⟩ := ratio_spec canonical positive
  -- Seventeen digits are enough, so the search ends with a number of the interval.
  have proper := Interval.proper_ofMagnitude positive
  have top := ten_zpow_position_le up down small fine
  rw [value] at top
  obtain ⟨n, found⟩ := Interval.exists_onGrid? proper (seventeen_digits canonical positive top)
  obtain ⟨n, place, digits, holds⟩ :=
    Interval.exists_shortestFrom proper found 17 1 (by decide) (by decide)
  refine ⟨n, place, ?_, holds.nears positive⟩
  rw [shortest, if_neg (by simpa using positive.ne'), ← digits]

end Tangent.Decimal
