import Mathlib
import Tangent.Sample.Summary

/-!
The summary of a sample in exact arithmetic.

One pass over a sample keeps the mean of the values seen so far and the sum of their squared
distances from it. Without rounding both are what a second pass would find, so a summary says
nothing about the order in which the values came.
-/

namespace Tangent.Sample

/-- Arithmetic without rounding: that of an ordered field, next to some square root. -/
class Measure.Exact (K : Type) [Field K] [LinearOrder K] [Measure K] : Prop where
  zero_eq : (Measure.zero : K) = 0
  add_eq (x y : K) : Measure.add x y = x + y
  sub_eq (x y : K) : Measure.sub x y = x - y
  mul_eq (x y : K) : Measure.mul x y = x * y
  div_eq (x y : K) : Measure.div x y = x / y
  ofNat_eq (n : Nat) : (Measure.ofNat n : K) = n
  least_eq (x y : K) : Measure.least x y = min x y
  greatest_eq (x y : K) : Measure.greatest x y = max x y

attribute [simp] Measure.Exact.zero_eq Measure.Exact.add_eq Measure.Exact.sub_eq
  Measure.Exact.mul_eq Measure.Exact.div_eq Measure.Exact.ofNat_eq Measure.Exact.least_eq
  Measure.Exact.greatest_eq

section Passes

variable {K : Type} [Field K]

/-- The mean of a sample, found in a first pass. -/
def average (xs : List K) : K := xs.sum / xs.length

/-- The sum of squared distances from the mean, found in a second pass. -/
def deviation (xs : List K) : K := (xs.map fun x => (x - average xs) ^ 2).sum

/-- The variance of the mean of a sample, as the sample itself tells it. -/
def meanVariance (xs : List K) : K := deviation xs / ((xs.length - 1) * xs.length)

omit [Field K] in
/-- The values of a sample and one more. -/
theorem setOf_mem_concat (first x : K) (seen : List K) :
    {y | y ∈ first :: (seen ++ [x])} = insert x {y | y ∈ first :: seen} := by
  -- It makes no difference where in the sample the value stands.
  ext y
  simp
  tauto

/-- The mean, taken once for every value, adds up to the sum. -/
theorem length_mul_average [CharZero K] (xs : List K) : xs.length * average xs = xs.sum := by
  -- Without values both sides are zero, and otherwise the division is undone.
  cases xs with
  | nil => simp [average]
  | cons x rest =>
    have positive : ((x :: rest).length : K) ≠ 0 := Nat.cast_ne_zero.mpr (by simp)
    rw [average, mul_div_cancel₀ _ positive]

/-- Squared distances from any point, by the sums of the values and of their squares. -/
theorem sum_sq_sub (xs : List K) (c : K) :
    (xs.map fun x => (x - c) ^ 2).sum =
      (xs.map fun x => x ^ 2).sum - 2 * c * xs.sum + xs.length * c ^ 2 := by
  -- The square of each distance is multiplied out.
  induction xs with
  | nil => simp
  | cons x rest ih =>
    simp only [List.map_cons, List.sum_cons, ih, List.length_cons, Nat.cast_add, Nat.cast_one]
    ring

/-- The mean moves towards a new value by its share of the distance. -/
theorem average_concat [CharZero K] (xs : List K) (x : K) :
    average (xs ++ [x]) = average xs + (x - average xs) / (xs.length + 1 : Nat) := by
  have positive : ((xs.length + 1 : Nat) : K) ≠ 0 := Nat.cast_ne_zero.mpr (by omega)
  have total := length_mul_average xs
  -- Multiplied by the new length, both sides are the new sum.
  apply mul_left_cancel₀ positive
  have after := length_mul_average (xs ++ [x])
  simp only [List.length_append, List.length_singleton, List.sum_append,
    List.sum_singleton] at after
  rw [after, mul_add, mul_div_cancel₀ _ positive, ← total]
  push_cast
  ring

/-- A new value adds the product of its distances from the old and from the new mean. -/
theorem deviation_concat [CharZero K] (xs : List K) (x : K) :
    deviation (xs ++ [x]) =
      deviation xs + (x - average xs) * (x - average (xs ++ [x])) := by
  have before := length_mul_average xs
  have after := length_mul_average (xs ++ [x])
  simp only [List.length_append, List.length_singleton, List.sum_append, List.sum_singleton,
    Nat.cast_add, Nat.cast_one] at after
  -- The sums of squares cancel, and what is left follows from the two sums of values.
  simp only [deviation, sum_sq_sub, List.map_append, List.map_cons, List.map_nil, List.sum_append,
    List.sum_singleton]
  linear_combination (average (xs ++ [x]) - average xs) * (before + after)

variable [LinearOrder K] [IsStrictOrderedRing K]

/-- The sum of squared distances is no less than zero. -/
theorem deviation_nonneg (xs : List K) : 0 ≤ deviation xs := by
  -- It is a sum of squares.
  apply List.sum_nonneg
  intro d listed
  obtain ⟨x, _, rfl⟩ := List.mem_map.mp listed
  exact sq_nonneg _

/-- The variance of the mean is no less than zero. -/
theorem meanVariance_nonneg (xs : List K) : 0 ≤ meanVariance xs := by
  cases xs with
  | nil => simp [meanVariance]
  | cons x rest =>
    -- The length less one is the number of the other values.
    apply div_nonneg (deviation_nonneg _)
    simp only [List.length_cons, Nat.cast_add, Nat.cast_one, add_sub_cancel_right]
    positivity

end Passes

variable {K : Type} [Field K] [LinearOrder K] [Measure K]

/-- What is kept of a sample is what two passes find in the values seen so far. -/
structure Moments.Tracks (m : Moments K) (first : K) (seen : List K) : Prop where
  count : m.seen = seen.length
  mean : m.mean = average seen
  spread : m.spread = deviation seen
  /-- The first value counts from the start, before it is seen. -/
  least : IsLeast {x | x ∈ first :: seen} m.least
  greatest : IsGreatest {x | x ∈ first :: seen} m.greatest

/-- A summary that says of a sample what two passes find in it. -/
structure Summary.Describes (s : Summary K) (xs : List K) : Prop where
  mean : s.mean = average xs
  error_many : 1 < xs.length → s.error = Measure.sqrt (meanVariance xs)
  error_one : xs.length = 1 → s.error = 0
  least : IsLeast {x | x ∈ xs} s.least
  greatest : IsGreatest {x | x ∈ xs} s.greatest
  size : s.size = xs.length

/-- What two passes find does not depend on the order of a sample. -/
theorem Summary.Describes.perm {s : Summary K} {xs ys : List K} (describes : s.Describes xs)
    (rearranged : xs.Perm ys) : s.Describes ys := by
  -- The sums and the values are those of the rearranged sample.
  have sameAverage : average ys = average xs := by
    rw [average, average, rearranged.sum_eq, rearranged.length_eq]
  have sameVariance : meanVariance ys = meanVariance xs := by
    rw [meanVariance, meanVariance, deviation, deviation, sameAverage, rearranged.length_eq,
      (rearranged.map _).sum_eq]
  have sameValues : {x | x ∈ ys} = {x | x ∈ xs} := by
    ext x
    exact rearranged.mem_iff.symm
  constructor
  case mean => rw [describes.mean, sameAverage]
  case error_many => rw [sameVariance, ← rearranged.length_eq]; exact describes.error_many
  case error_one => rw [← rearranged.length_eq]; exact describes.error_one
  case least => rw [sameValues]; exact describes.least
  case greatest => rw [sameValues]; exact describes.greatest
  case size => rw [describes.size, rearranged.length_eq]

/-- There is one summary of what two passes find. -/
theorem Summary.Describes.unique {s t : Summary K} {xs : List K} (some : xs ≠ [])
    (describes : s.Describes xs) (other : t.Describes xs) : s = t := by
  have error : s.error = t.error := by
    -- The error is told by the number of values, which is at least one.
    rcases Nat.lt_or_ge 1 xs.length with many | few
    · rw [describes.error_many many, other.error_many many]
    · have single : xs.length = 1 := by
        have positive := List.length_pos_iff.mpr some
        omega
      rw [describes.error_one single, other.error_one single]
  have mean := describes.mean.trans other.mean.symm
  have least := describes.least.unique other.least
  have greatest := describes.greatest.unique other.greatest
  have size := describes.size.trans other.size.symm
  cases s
  cases t
  simp only at mean error least greatest size
  simp only [mean, error, least, greatest, size]

variable [Measure.Exact K]

/-- Before any value was seen there is only the first one, at both ends of the range. -/
theorem Moments.tracks_before (first : K) : (Moments.before first).Tracks first [] where
  -- The sums over no values are zero.
  count := rfl
  mean := by simp [before, average]
  spread := by simp [before, deviation]
  least := by simp [before]
  greatest := by simp [before]

/-- The standard error is the square root of the variance of the mean. -/
theorem Moments.Tracks.error {m : Moments K} {first : K} {seen : List K}
    (tracks : m.Tracks first seen) (many : 1 < seen.length) :
    m.error = Measure.sqrt (meanVariance seen) := by
  -- With two values or more the subtraction of one is exact.
  have previous : ((seen.length - 1 : Nat) : K) = seen.length - 1 := by
    rw [Nat.cast_sub (by omega), Nat.cast_one]
  rw [Moments.error, tracks.count, if_pos many]
  simp [tracks.spread, meanVariance, previous, div_div]

variable [IsStrictOrderedRing K]

/-- Taking one value more into account keeps track of the sample with that value. -/
theorem Moments.Tracks.push {m : Moments K} {first : K} {seen : List K}
    (tracks : m.Tracks first seen) (x : K) : (m.push x).Tracks first (seen ++ [x]) := by
  -- The mean is moved first, as the spread needs its new place.
  have mean : (m.push x).mean = average (seen ++ [x]) := by
    simp [Moments.push, tracks.mean, tracks.count, average_concat]
  constructor
  case count => simp [Moments.push, tracks.count]
  case mean => exact mean
  case spread =>
    -- The distance from the old mean was taken before the mean moved.
    rw [deviation_concat, ← mean, ← tracks.mean, ← tracks.spread]
    simp [Moments.push]
  case least =>
    rw [setOf_mem_concat, Moments.push, Measure.Exact.least_eq, min_comm]
    exact tracks.least.insert x
  case greatest =>
    rw [setOf_mem_concat, Moments.push, Measure.Exact.greatest_eq, max_comm]
    exact tracks.greatest.insert x

/-- A whole pass keeps track of all values it went over. -/
theorem Moments.Tracks.foldl {m : Moments K} {first : K} {seen : List K}
    (tracks : m.Tracks first seen) (xs : List K) :
    (xs.foldl Moments.push m).Tracks first (seen ++ xs) := by
  -- The pass takes one value after the other.
  induction xs generalizing m seen with
  | nil => simpa using tracks
  | cons x rest ih => simpa using ih (tracks.push x)

/-- A sample that is not empty is summed up to what two passes find in it. -/
theorem describes_summarize (first : K) (rest : List K) :
    (summarize (first :: rest)).Describes (first :: rest) := by
  have tracks := (Moments.tracks_before first).foldl (first :: rest)
  rw [List.nil_append] at tracks
  -- The first value was counted in from the start, which adds nothing to the sample.
  have values : {x | x ∈ first :: first :: rest} = {x | x ∈ first :: rest} := by simp
  constructor
  case mean => exact tracks.mean
  case error_many => exact tracks.error
  case error_one =>
    intro single
    simp only [summarize, Moments.error, tracks.count, single, Measure.Exact.zero_eq]
    simp
  case least => exact values ▸ tracks.least
  case greatest => exact values ▸ tracks.greatest
  case size => exact tracks.count

/--
One pass finds the statistics of a sample.

In exact arithmetic the pass over a sample that is not empty ends with its mean and with the sum of
squared distances from it. The summary says so: the standard error is the square root of the
variance of the mean, which is no less than zero, or nothing for a single value; the ends of the
range are the least and the greatest value. In whatever order the values come, it is the same.
-/
theorem summarize_exact (first : K) (rest : List K) :
    (((first :: rest).foldl Moments.push (.before first)).mean = average (first :: rest) ∧
      ((first :: rest).foldl Moments.push (.before first)).spread = deviation (first :: rest)) ∧
    (summarize (first :: rest)).Describes (first :: rest) ∧
    0 ≤ meanVariance (first :: rest) ∧
    ∀ ys, (first :: rest).Perm ys → summarize ys = summarize (first :: rest) := by
  have tracks := (Moments.tracks_before first).foldl (first :: rest)
  have describes := describes_summarize first rest
  refine ⟨⟨tracks.mean, tracks.spread⟩, describes, meanVariance_nonneg _, ?_⟩
  intro ys rearranged
  -- Both summaries describe the rearranged sample, of which there is one.
  cases ys with
  | nil => simp at rearranged
  | cons y others =>
    exact (describes_summarize y others).unique (by simp) (describes.perm rearranged)

/-- The arithmetic of real numbers. -/
noncomputable instance : Measure ℝ where
  zero := 0
  add := (· + ·)
  sub := (· - ·)
  mul := (· * ·)
  div := (· / ·)
  ofNat := Nat.cast
  sqrt := Real.sqrt
  least := min
  greatest := max
  undefined := 0

instance : Measure.Exact ℝ where
  zero_eq := rfl
  add_eq _ _ := rfl
  sub_eq _ _ := rfl
  mul_eq _ _ := rfl
  div_eq _ _ := rfl
  ofNat_eq _ := rfl
  least_eq _ _ := rfl
  greatest_eq _ _ := rfl

/-- Four numbers have a mean of five halves, with an error of the root of five twelfths. -/
theorem summarize_exact_four :
    (summarize ([1, 2, 3, 4] : List ℝ)).mean = 5 / 2 ∧
    (summarize ([1, 2, 3, 4] : List ℝ)).error = Real.sqrt (5 / 12) ∧
    summarize ([4, 3, 2, 1] : List ℝ) = summarize [1, 2, 3, 4] := by
  -- The sample has more than one value, and its reverse is another order of it.
  obtain ⟨_, describes, _, same⟩ := summarize_exact (1 : ℝ) [2, 3, 4]
  have average : average ([1, 2, 3, 4] : List ℝ) = 5 / 2 := by norm_num [average]
  refine ⟨describes.mean.trans average, ?_, same _ ?_⟩
  · rw [describes.error_many (by simp), meanVariance, deviation, average]
    norm_num [Measure.sqrt]
  · exact (List.reverse_perm [1, 2, 3, 4]).symm

end Tangent.Sample
