import Tangent.Decimal.Layout
import Tangent.Proofs.Decimal.Shortest
import Tangent.Proofs.Json.Numbers

/-!
A finite double is read back from the text that a header has for it.

The text is a number whose value is that of the shortest digits, which are near to the double.
-/

namespace Tangent.Decimal

open Binary64

/-- Digits that follow others move them up. -/
theorem natOfDigits_append (front back : List Char) :
    natOfDigits (front ++ back) = natOfDigits front * 10 ^ back.length + natOfDigits back := by
  -- Reading on from the front starts with its number, and every further digit moves that up once.
  have later : Nat.ofDigitChars 10 (front ++ back) 0 =
      Nat.ofDigitChars 10 back (Nat.ofDigitChars 10 front 0) := Nat.ofDigitChars_append 0
  rw [Nat.ofDigitChars_eq_ofDigitChars_zero (l := back), mul_comm] at later
  exact later

/-- Zeros stand for nothing. -/
theorem natOfDigits_zeros (count : Nat) : natOfDigits (List.replicate count '0') = 0 := by
  -- Each zero multiplies what was read by ten, which is zero.
  have none : Nat.ofDigitChars 10 (List.replicate count '0') 0 = 10 ^ count * 0 :=
    Nat.ofDigitChars_replicate_zero
  exact none.trans (Nat.mul_zero _)

/-- Zeros in front of digits change nothing. -/
theorem natOfDigits_zeros_append (count : Nat) (digits : List Char) :
    natOfDigits (List.replicate count '0' ++ digits) = natOfDigits digits := by
  -- What stands in front is multiplied by a power of ten, and it is zero.
  rw [natOfDigits_append, natOfDigits_zeros, Nat.zero_mul, Nat.zero_add]

/-- A number only grows with the digits that are added to it. -/
theorem le_foldl_digits (digits : List Char) (n : Nat) :
    n ≤ digits.foldl (fun n c => 10 * n + digitValue c) n := by
  -- Each digit makes it ten times as large or more.
  induction digits generalizing n with
  | nil => exact Nat.le_refl n
  | cons c rest ih => exact Nat.le_trans (by omega) (ih (10 * n + digitValue c))

/-- An exponent below ten thousand is read with all its digits. -/
theorem exponentSize_eq {digits : List Char} (small : natOfDigits digits < 10000) :
    exponentSize digits = natOfDigits digits := by
  -- No beginning of the digits is larger than the whole, so the bound is never met.
  have general : ∀ n : Nat, digits.foldl (fun n c => 10 * n + digitValue c) n < 10000 →
      digits.foldl (fun n c => if n < 10000 then 10 * n + digitValue c else n) n =
        digits.foldl (fun n c => 10 * n + digitValue c) n := by
    clear small
    induction digits with
    | nil => exact fun _ _ => rfl
    | cons c rest ih =>
      intro n below
      have grown := le_foldl_digits rest (10 * n + digitValue c)
      rw [List.foldl_cons] at below
      rw [List.foldl_cons, List.foldl_cons, if_pos (by omega)]
      exact ih _ below
  exact general 0 small

namespace Digits

/-- Digits as characters. -/
def chars (d : Digits) : List Char := d.digits.map Nat.digitChar

/-- The value of digits. -/
def value (d : Digits) : ℚ := natOfDigits d.chars * 10 ^ (d.point - d.chars.length)

/-- Digits of a positive number: there are some, and the first of them is not zero. -/
structure Leading (d : Digits) : Prop where
  isDigit : ∀ c ∈ d.chars, c.isDigit
  front : ∃ c rest, d.chars = c :: rest ∧ c ≠ '0'

end Digits

/-- Digits are some digits and then zeros. -/
theorem exists_trimZeros (digits : List Nat) :
    ∃ k, digits = trimZeros digits ++ List.replicate k 0 := by
  -- The zeros at the end are the first ones when the digits are turned around.
  have whole : digits.reverse = digits.reverse.takeWhile (· == 0) ++
      digits.reverse.dropWhile (· == 0) := List.takeWhile_append_dropWhile.symm
  generalize tail : digits.reverse.takeWhile (· == 0) = zeros at whole
  have each : ∀ d ∈ zeros, d = 0 := by
    intro d member
    rw [← tail] at member
    simpa using List.mem_takeWhile_imp member
  refine ⟨zeros.length, ?_⟩
  rw [List.eq_replicate_of_mem each] at whole
  rw [trimZeros, ← List.reverse_replicate, ← List.reverse_append, ← whole, List.reverse_reverse]

/-- The digits of a number are written as that number is. -/
theorem map_digitChar_digitsOf (n : Nat) : (digitsOf n).map Nat.digitChar = Nat.toDigits 10 n := by
  rw [digitsOf, List.map_map]
  refine (List.map_congr_left fun c member => ?_).trans (List.map_id _)
  -- A digit character has the code of its digit after that of zero.
  have digit := Json.isDigit_toDigits n c member
  rw [Char.isDigit, Bool.and_eq_true, decide_eq_true_eq, decide_eq_true_eq] at digit
  have low : 48 ≤ c.toNat := UInt32.le_iff_toNat_le.mp digit.1
  have high : c.toNat ≤ 57 := UInt32.le_iff_toNat_le.mp digit.2
  apply Char.toNat_inj.mp
  rw [Function.comp_apply, Nat.toNat_digitChar_of_lt_ten (by omega), id]
  omega

/-- A positive number on a grid has a leading digit, and its digits have its value. -/
theorem leading_ofGrid {n : Nat} (positive : 0 < n) (place : Int) :
    (ofGrid n place).Leading ∧ (ofGrid n place).value = n * 10 ^ place := by
  obtain ⟨k, split⟩ := exists_trimZeros (digitsOf n)
  -- The digits of the grid are those of the number without its last zeros.
  have written : Nat.toDigits 10 n = (ofGrid n place).chars ++ List.replicate k '0' := by
    rw [← map_digitChar_digitsOf, split, List.map_append, List.map_replicate]
    rfl
  have point : (ofGrid n place).point = place + ((ofGrid n place).chars.length + k : Nat) := by
    have lengths := congrArg List.length split
    rw [List.length_append, List.length_replicate] at lengths
    rw [Digits.chars, List.length_map]
    exact congrArg (fun length : Nat => place + (length : Int)) lengths
  have number : n = natOfDigits (ofGrid n place).chars * 10 ^ k := by
    have whole := Json.natOfDigits_toDigits n
    rw [written, natOfDigits_append, natOfDigits_zeros, List.length_replicate,
      Nat.add_zero] at whole
    exact whole.symm
  refine ⟨⟨fun c member => ?_, ?_⟩, ?_⟩
  · exact Json.isDigit_toDigits n c (written ▸ List.mem_append_left _ member)
  · -- Without any other digits the number would be zero.
    obtain ⟨c, rest, front, other⟩ := Json.toDigits_front positive
    rw [written] at front
    cases chars : (ofGrid n place).chars with
    | nil =>
      rw [chars] at number
      exact absurd number (by simp [natOfDigits]; omega)
    | cons d digits =>
      rw [chars, List.cons_append] at front
      exact ⟨d, digits, rfl, (List.cons.inj front).1 ▸ other⟩
  · -- The zeros that were left out are made up for by the point.
    rw [Digits.value, point]
    have exponent : place + ((ofGrid n place).chars.length + k : Nat) -
        ((ofGrid n place).chars.length : Int) = place + k := by
      push_cast
      ring
    rw [exponent, zpow_add₀ (by norm_num), zpow_natCast]
    conv_rhs => rw [number]
    push_cast
    ring

/-- The value of a literal without its sign. -/
def Literal.value (l : Literal) : ℚ :=
  natOfDigits (l.whole ++ l.fraction) * 10 ^ (l.exponent - l.fraction.length)

/-- A text that is a number of a given value, also behind a sign. -/
def Spells (text : List Char) (v : ℚ) : Prop :=
  ∀ negative, ∃ n : Json.Numeral, n.negative = negative ∧
    n.text = (if negative then ['-'] else []) ++ text ∧ n.literal.value = v

/-- A number without its sign is spelled by its text. -/
theorem spells_of (n : Json.Numeral) {text : List Char} {coefficient : Nat} {power : Int}
    (written : n.whole ++ (n.fractionText ++ n.exponentText) = text)
    (digits : natOfDigits (n.whole ++ n.fraction) = coefficient)
    (places : n.power - n.fraction.length = power) : Spells text (coefficient * 10 ^ power) := by
  -- The sign changes neither the digits nor the power.
  intro negative
  refine ⟨{ n with negative }, rfl, ?_, ?_⟩
  · rw [Json.Numeral.text, ← written]
    rfl
  · rw [← digits, ← places]
    rfl

/-- Zeros are digits. -/
theorem isDigit_replicate_zero (count : Nat) : ∀ c ∈ List.replicate count '0', c.isDigit := by
  -- Every character is the zero.
  intro c member
  rw [List.eq_of_mem_replicate member]
  rfl

namespace Digits

variable {d : Digits}

/-- There are digits. -/
theorem Leading.digits_ne_nil (leading : d.Leading) : d.digits ≠ [] := by
  -- The first digit is known.
  rintro none
  obtain ⟨c, rest, front, _⟩ := leading.front
  rw [chars, none] at front
  cases front

/-- Digits that all stand behind the point, after some zeros. -/
theorem Leading.spells_fraction (leading : d.Leading) (low : d.point ≤ 0) :
    Spells (positional d).toList d.value := by
  have some_digit := leading.digits_ne_nil
  refine spells_of ⟨false, ['0'], List.replicate (-d.point).toNat '0' ++ d.chars, none,
    fun c member => List.mem_singleton.mp member ▸ rfl,
    List.forall_mem_append.mpr ⟨isDigit_replicate_zero _, leading.isDigit⟩, by simp, .inl rfl⟩
    ?_ ?_ ?_
  · -- A zero stands in front of the point, and zeros fill up to the first digit.
    rw [positional, if_pos low, if_neg (by simpa using some_digit)]
    simp [Json.Numeral.fractionText, Json.Numeral.exponentText, some_digit, zeros, digitText, chars]
  · exact (natOfDigits_zeros_append 1 _).trans (natOfDigits_zeros_append _ _)
  · simp only [Json.Numeral.power, List.length_append, List.length_replicate]
    omega

/-- Digits that all stand in front of the point, before some zeros. -/
theorem Leading.spells_whole (leading : d.Leading) (high : d.digits.length ≤ d.point) :
    Spells (positional d).toList d.value := by
  obtain ⟨c, rest, front, other⟩ := leading.front
  have some_digit := List.length_pos_iff.mpr leading.digits_ne_nil
  have length : d.chars.length = d.digits.length := List.length_map _
  -- With the zeros up to the point the digits are those of a whole number.
  have moved : d.value =
      (natOfDigits d.chars * 10 ^ (d.point.toNat - d.chars.length) : Nat) * 10 ^ (0 : Int) := by
    have places : d.point - d.chars.length = ((d.point.toNat - d.chars.length : Nat) : Int) := by
      omega
    rw [value, places, zpow_natCast, zpow_zero, mul_one]
    push_cast
    rfl
  rw [moved]
  refine spells_of ⟨false, d.chars ++ List.replicate (d.point.toNat - d.chars.length) '0', [], none,
    List.forall_mem_append.mpr ⟨leading.isDigit, isDigit_replicate_zero _⟩,
    List.forall_mem_nil _, by simp,
    .inr ⟨c, _, by rw [front]; rfl, other⟩⟩ ?_ ?_ rfl
  · rw [positional, if_neg (by omega)]
    have none : d.digits.drop d.point.toNat = [] := List.drop_eq_nil_of_le (by omega)
    have all : d.digits.take d.point.toNat = d.digits := List.take_of_length_le (by omega)
    simp [Json.Numeral.fractionText, Json.Numeral.exponentText, none, all, padRight, digitText,
      chars]
  · rw [List.append_nil, natOfDigits_append, natOfDigits_zeros, List.length_replicate, Nat.add_zero]

/-- Digits with the point among them. -/
theorem Leading.spells_both (leading : d.Leading) (low : 0 < d.point)
    (high : d.point < d.digits.length) : Spells (positional d).toList d.value := by
  obtain ⟨c, rest, front, other⟩ := leading.front
  have length : d.chars.length = d.digits.length := List.length_map _
  have inside : d.point.toNat < d.digits.length := by omega
  refine spells_of ⟨false, d.chars.take d.point.toNat, d.chars.drop d.point.toNat, none,
    fun c member => leading.isDigit c (List.mem_of_mem_take member),
    fun c member => leading.isDigit c (List.mem_of_mem_drop member), by simp,
    .inr ⟨c, rest.take (d.point.toNat - 1), ?_, other⟩⟩ ?_ ?_ ?_
  · -- At least one digit is in front of the point, and so the first one is.
    rw [front, show d.point.toNat = d.point.toNat - 1 + 1 by omega, List.take_succ_cons]
    rfl
  · have filled : padRight (d.digits.take d.point.toNat) d.point.toNat =
        d.digits.take d.point.toNat := by
      rw [padRight, List.length_take, Nat.sub_eq_zero_of_le (by omega), List.replicate_zero,
        List.append_nil]
    -- There are as many digits as the point asks for, so no zero is filled in.
    rw [positional, if_neg (by omega)]
    simp [Json.Numeral.fractionText, Json.Numeral.exponentText, not_le.mpr inside, filled,
      digitText, chars, List.map_take, List.map_drop]
  · rw [List.take_append_drop]
  · simp only [Json.Numeral.power, List.length_drop]
    omega

/-- Digits around a point spell their value. -/
theorem Leading.spells_positional (leading : d.Leading) :
    Spells (positional d).toList d.value := by
  -- The point stands before all digits, behind them or among them.
  by_cases low : d.point ≤ 0
  · exact leading.spells_fraction low
  · by_cases high : d.digits.length ≤ d.point
    · exact leading.spells_whole high
    · exact leading.spells_both (not_le.mp low) (not_le.mp high)

/-- A number has the exponent whose sign and digits it has. -/
theorem power_of_exponent? {n : Json.Numeral} {e : Int} {digits : List Char}
    (found : n.exponent? = some (decide (e < 0), digits)) (size : natOfDigits digits = e.natAbs)
    (small : e.natAbs < 10000) : n.power = e := by
  have read := exponentSize_eq (size.trans_lt small)
  rw [Json.Numeral.power, found]
  -- The sign was taken off the exponent before its digits were written.
  by_cases negative : e < 0
  · simp only [negative, decide_true, read, size]
    omega
  · simp only [negative, decide_false, read, size]
    omega

/-- An exponent is spelled out with its sign, perhaps after some zeros. -/
theorem toList_exponentText (width : Nat) (e : Int) : ∃ k, (exponentText width e).toList =
    'e' :: (if e < 0 then '-' else '+') :: (List.replicate k '0' ++ Nat.toDigits 10 e.natAbs) := by
  -- The zeros fill up the width, if the digits are fewer.
  refine ⟨width - (Nat.toDigits 10 e.natAbs).length, ?_⟩
  unfold exponentText
  split <;> simp [zeros]

/-- Digits with their exponent spelled out. -/
theorem Leading.spells_scientific (leading : d.Leading) (small : (d.point - 1).natAbs < 10000)
    (width : Int → Nat) : Spells (scientific 0 width d).toList d.value := by
  obtain ⟨c, rest, front, other⟩ := leading.front
  obtain ⟨first, others, digits, rfl, rfl⟩ := List.map_eq_cons_iff.mp front
  have exponent : exponentOf d = d.point - 1 := if_neg (by simp [digits])
  -- The exponent counts from behind the first digit, and the point from before it.
  obtain ⟨k, written⟩ := toList_exponentText (width (d.point - 1)) (d.point - 1)
  have each := leading.isDigit
  rw [front, List.forall_mem_cons] at each
  refine spells_of ⟨false, [first.digitChar], others.map Nat.digitChar,
    some (decide (d.point - 1 < 0), List.replicate k '0' ++ Nat.toDigits 10 (d.point - 1).natAbs),
    List.forall_mem_singleton.mpr each.1, each.2, ?_, .inr ⟨_, [], rfl, other⟩⟩ ?_ ?_ ?_
  · rintro _ _ ⟨⟩
    refine ⟨by simp, List.forall_mem_append.mpr ⟨isDigit_replicate_zero k, Json.isDigit_toDigits _⟩⟩
  · rw [scientific, exponent]
    simp only [String.toList_append, written, padRight, digits]
    -- A point is only written if there are digits behind it.
    cases others <;> simp [Json.Numeral.fractionText, Json.Numeral.exponentText, digitText]
  · rw [front]
    rfl
  · have scale : natOfDigits (List.replicate k '0' ++ Nat.toDigits 10 (d.point - 1).natAbs) =
        (d.point - 1).natAbs := by
      rw [natOfDigits_zeros_append, Json.natOfDigits_toDigits]
    rw [power_of_exponent? rfl scale small, front, List.length_cons]
    dsimp only
    omega

end Digits

section Stored

variable {α : Type} [Stored α]

/-- A ratio that is read as a given double: zero as zero, and what is near to it as any other. -/
def ReadsAs (x : α) (v : ℚ) : Prop :=
  (magnitude x).significand = 0 ∧ v = 0 ∨
    0 < (magnitude x).significand ∧ (magnitude x).Nears v

/-- A decimal that is positive has a digit other than zero. -/
theorem pos_of_mul_zpow_pos {n : Nat} {power : Int} (positive : (0 : ℚ) < n * 10 ^ power) :
    0 < n :=
  -- A power of ten is not negative, so the sign is that of the number.
  Nat.cast_pos.mp (pos_of_mul_pos_left positive (zpow_nonneg (by norm_num) power))

/-- A number of so many digits lies between two powers of ten. -/
theorem length_toDigits_bounds {n : Nat} (positive : 0 < n) :
    10 ^ ((Nat.toDigits 10 n).length - 1) ≤ n ∧ n < 10 ^ (Nat.toDigits 10 n).length := by
  have some_digit : 0 < (Nat.toDigits 10 n).length := Nat.length_toDigits_pos
  have fits {k : Nat} (nonzero : 0 < k) : (Nat.toDigits 10 n).length ≤ k ↔ n < 10 ^ k :=
    Nat.length_toDigits_le_iff (by decide) nonzero
  -- A number with one digit less would be below that power of ten.
  refine ⟨?_, (fits some_digit).mp le_rfl⟩
  rcases Nat.eq_zero_or_pos ((Nat.toDigits 10 n).length - 1) with one | more
  · rw [one]
    exact positive
  · exact not_lt.mp (mt (fits more).mpr (by omega))

/-- What is not too small and not too large for a double is within the cutoffs of a literal. -/
theorem within_cutoffs {n : Nat} {power : Int} (positive : 0 < n)
    (low : (2 : ℚ) ^ (-1075 : Int) ≤ n * 10 ^ power) (high : (n * 10 ^ power : ℚ) < 2 ^ 1024) :
    -400 ≤ (Nat.toDigits 10 n).length + power ∧ (Nat.toDigits 10 n).length + power ≤ 400 := by
  obtain ⟨least, greatest⟩ := length_toDigits_bounds positive
  have some_digit : 0 < (Nat.toDigits 10 n).length := Nat.length_toDigits_pos
  generalize (Nat.toDigits 10 n).length = length at *
  have ten : (0 : ℚ) < 10 ^ power := zpow_pos (by norm_num) power
  have split (a b : Int) : (10 : ℚ) ^ (a + b) = 10 ^ a * 10 ^ b := zpow_add₀ (by norm_num) a b
  have order {a b : Int} (less : (10 : ℚ) ^ a < 10 ^ b) : a < b :=
    -- The least double has fewer than four hundred zeros behind its point.
    (zpow_lt_zpow_iff_right₀ (by norm_num)).mp less
  constructor
  · have floor : (10 : ℚ) ^ (-324 - 1 : Int) ≤ 2 ^ (-1075 : Int) :=
      ten_zpow_le_two_zpow (by norm_num) (by norm_num) (by norm_num)
    have top : (n * 10 ^ power : ℚ) < 10 ^ (length + power) := by
      rw [split]
      gcongr
      exact_mod_cast greatest
    have := order ((floor.trans low).trans_lt top)
    -- The greatest double has fewer than four hundred digits.
    omega
  · have ceiling : (2 : ℚ) ^ 1024 ≤ 10 ^ (312 : Int) := by
      calc (2 : ℚ) ^ 1024 = (2 ^ 128) ^ 8 := by rw [← pow_mul]
        _ ≤ (10 ^ 39) ^ 8 := by gcongr; norm_num
        _ = 10 ^ (312 : Int) := by rw [← pow_mul]; rfl
    have bottom : (10 : ℚ) ^ ((length - 1 : Nat) + power) ≤ n * 10 ^ power := by
      rw [split]
      gcongr
      exact_mod_cast least
    have := order (bottom.trans_lt (high.trans_le ceiling))
    omega

/-- A decimal near to a double is not zero and within the cutoffs of a literal. -/
theorem cutoffs_of_nears {m : Magnitude} {n : Nat} {power : Int}
    (near : m.Nears (n * 10 ^ power)) (canonical : m.Canonical) (positive : 0 < m.significand) :
    0 < n ∧ -400 ≤ (Nat.toDigits 10 n).length + power ∧
      (Nat.toDigits 10 n).length + power ≤ 400 := by
  have number : 0 < n := pos_of_mul_zpow_pos (near.pos canonical positive)
  -- The decimal lies between half the least double and the first power that no double reaches.
  have low := near.half_le canonical positive
  have high : (n * 10 ^ power : ℚ) < 2 ^ 1024 := by
    refine (near.lt_top canonical).trans_le ?_
    rw [← zpow_natCast]
    exact zpow_le_zpow_right₀ one_le_two (by have := canonical.greatest; push_cast; omega)
  exact ⟨number, within_cutoffs number low high⟩

/-- The shortest digits of a finite double spell what is read as it, in either layout. -/
theorem exists_spells {x : α} (finite : finite x) (width : Int → Nat) :
    ∃ v, ReadsAs x v ∧ Spells (positional (shortest x)).toList v ∧
      (exponentOf (shortest x) ≠ 0 → Spells (scientific 0 width (shortest x)).toList v) := by
  by_cases zero : (magnitude x).significand = 0
  · -- Zero has no digits, and its exponent counts as zero.
    have none : shortest x = ⟨[], 0⟩ := if_pos (by simpa using zero)
    refine ⟨0, .inl ⟨zero, rfl⟩, ?_, fun power => absurd (none ▸ rfl) power⟩
    rw [none, show (0 : ℚ) = (0 : Nat) * 10 ^ (0 : Int) by norm_num]
    refine spells_of ⟨false, ['0'], [], Option.none,
      fun c member => List.mem_singleton.mp member ▸ rfl, List.forall_mem_nil _, by simp,
      .inl rfl⟩ ?_ rfl rfl
    simp [Json.Numeral.fractionText, Json.Numeral.exponentText, positional]
  · -- Any other double has digits that are near to it, and both layouts spell them.
    have positive := Nat.pos_of_ne_zero zero
    obtain ⟨n, place, same, near⟩ := exists_shortest finite positive
    obtain ⟨number, low, high⟩ := cutoffs_of_nears near (canonical_magnitude finite) positive
    obtain ⟨leading, value⟩ := leading_ofGrid number place
    rw [← value] at near
    rw [same]
    -- The point stands behind the digits of the number and its place.
    have point : (ofGrid n place).point = place + (Nat.toDigits 10 n).length := by
      rw [← map_digitChar_digitsOf, List.length_map]
      rfl
    exact ⟨_, .inr ⟨positive, near⟩, leading.spells_positional,
      fun _ => leading.spells_scientific (by omega) width⟩

/-- What is read as a double is converted to it. -/
theorem toFloat_eq [LawfulStored α] {x : α} (finite : finite x) {l : Literal}
    (sign : l.negative = signBit x) (reads : ReadsAs x l.value) : l.toFloat = x := by
  have canonical := canonical_magnitude finite
  unfold Literal.toFloat
  rw [Literal.value] at reads
  generalize natOfDigits (l.whole ++ l.fraction) = coefficient at *
  generalize l.exponent - l.fraction.length = power at *
  dsimp only
  rw [sign]
  rcases reads with ⟨zero, none⟩ | ⟨positive, near⟩
  · -- Zero has the least exponent and no significand.
    have nothing : coefficient = 0 := by
      have ten : (10 : ℚ) ^ power ≠ 0 := zpow_ne_zero power (by norm_num)
      exact_mod_cast (mul_eq_zero.mp none).resolve_right ten
    have least : (magnitude x).exponent = -1074 := canonical.normal.resolve_left (by omega)
    rw [if_pos (by simp [nothing])]
    refine nearest_eq ?_
    rw [Magnitude.bits, zero, least]
    rfl
  · -- Any other double is not cut off, so the nearest one to the decimal is looked for.
    obtain ⟨number, large, small⟩ := cutoffs_of_nears near canonical positive
    rw [if_neg (by simp only [Bool.or_eq_true, beq_iff_eq, decide_eq_true_eq]; omega),
      if_neg (by omega)]
    -- The power of ten stands above or below the line.
    split
    · rename_i up
      obtain ⟨k, rfl⟩ := Int.eq_ofNat_of_zero_le up
      refine nearest_eq (Magnitude.Nears.nearestBits_eq canonical positive one_pos ?_)
      convert near using 1
      simp
    · rename_i down
      obtain ⟨k, rfl⟩ : ∃ k : Nat, power = -k := ⟨(-power).toNat, by omega⟩
      refine nearest_eq
        (Magnitude.Nears.nearestBits_eq canonical positive (Nat.pow_pos (by decide)) ?_)
      convert near using 1
      simp [div_eq_mul_inv]

/-- A finite double is read back from what a header has for it. -/
theorem exists_headerNumber [LawfulStored α] {x : α} (finite : finite x) :
    ∃ n : Json.Numeral, (headerNumber x).toList = n.text ∧ n.literal.toFloat = x := by
  generalize layout : (fun e : Int => if e < 0 then 1 else 2) = width
  obtain ⟨v, reads, inPlace, withExponent⟩ := exists_spells finite width
  -- Either layout spells the same value, behind the same sign.
  obtain ⟨body, written, spells⟩ : ∃ body : String,
      headerNumber x = (if signBit x then "-" else "") ++ body ∧ Spells body.toList v := by
    rw [headerNumber, signed, if_pos finite, layout]
    refine ⟨_, rfl, ?_⟩
    dsimp only
    split
    · -- The exponent is written out for very large and very small doubles only.
      rename_i outside
      simp only [Bool.or_eq_true, decide_eq_true_eq] at outside
      exact withExponent (by omega)
    · exact inPlace
  obtain ⟨n, sign, text, rfl⟩ := spells (signBit x)
  refine ⟨n, ?_, toFloat_eq finite sign reads⟩
  rw [text, written, String.toList_append]
  split <;> rfl

end Stored

end Tangent.Decimal
