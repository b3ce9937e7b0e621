import Tangent.Proofs.Count
import Tangent.Vector.Ranges

/-! The chunks of a range follow each other without a gap, from its first index to its last. -/

namespace Tangent

/-- Chunks that follow each other from an index up to `last`, none of them empty. -/
inductive Tiles (last : Nat) : Nat → List (Int64 × Int64) → Prop
  | done : Tiles last last []
  | chunk {first : Nat} (next : Nat) {a b : Int64} {rest : List (Int64 × Int64)}
      (starts : a.toInt = first) (ends : b.toInt = next) (nonempty : first < next)
      (after : Tiles last next rest) : Tiles last first ((a, b) :: rest)

/-- Chunks end no earlier than they start. -/
theorem Tiles.le {last first : Nat} {chunks : List (Int64 × Int64)}
    (tiles : Tiles last first chunks) : first ≤ last := by
  -- Every chunk ends behind its start, where the next one begins.
  induction tiles with
  | done => exact Nat.le_refl last
  | chunk _ _ _ nonempty _ ih => omega

/--
A step that can be taken on a range in one go or in two is taken on chunks that follow each
other as on the whole range.
-/
theorem Tiles.foldl_eq {σ : Type} {last first : Nat} {chunks : List (Int64 × Int64)}
    (tiles : Tiles last first chunks) (step : Nat → Nat → σ → σ)
    (still : ∀ start s, step start 0 s = s)
    (split : ∀ start a b s, start + a + b ≤ last →
      step start (a + b) s = step (start + a) b (step start a s)) (s : σ) :
    chunks.foldl (fun s chunk =>
      step chunk.1.toNatClampNeg (chunk.2.toNatClampNeg - chunk.1.toNatClampNeg) s) s =
      step first (last - first) s := by
  -- The first chunk is cut off the range, and the others cover what is left of it.
  induction tiles generalizing s with
  | done => simp [still]
  | @chunk first next a b rest starts ends nonempty after ih =>
    have fits : next ≤ last := after.le
    have low : a.toNatClampNeg = first := by simp [Int64.toNatClampNeg, starts]
    have high : b.toNatClampNeg = next := by simp [Int64.toNatClampNeg, ends]
    have whole : last - first = (next - first) + (last - next) := by omega
    rw [List.foldl_cons, ih, low, high, whole,
      split first (next - first) (last - next) s (by omega)]
    -- The second part starts where the first chunk ends.
    congr 1
    omega

/-- Chunks of a positive size that cannot run past the largest machine integer tile a range. -/
theorem chunksFrom_tiles {n step : Int64} {last size : Nat} (whole : n.toInt = last)
    (sized : step.toInt = size) (positive : 0 < size) (small : last ≤ 2 ^ 62) (fuel : Nat) :
    ∀ (start : Int64) (first : Nat), start.toInt = first → first < last →
      (first = 0 ∨ size ≤ first) → last - first ≤ fuel →
      Tiles last first (chunksFrom n step start fuel) := by
  -- After the first chunk a start is at least one chunk in, so the next end stays below 2 ^ 63.
  induction fuel with
  | zero => intro start first _ below _ enough; omega
  | succ fuel ih =>
    intro start first starts below settled enough
    have limit := step.toInt_lt
    have next : (start + step).toInt = first + size := by
      rw [Int64.toInt_add, starts, sized]
      apply Int.bmod_eq_of_le <;> omega
    have inside : start < n := Int64.lt_iff_toInt_lt.mpr (by omega)
    rw [chunksFrom, if_pos inside]
    by_cases more : first + size < last
    · -- The chunk ends inside the range, and the others start at least one chunk in.
      refine .chunk (first + size) starts ?_ (by omega) ?_
      · rw [toInt_min, next, whole]
        omega
      · exact ih _ _ (by rw [next]; rfl) more (by omega) (by omega)
    · -- The last chunk is cut at the end of the range, and none follows it.
      refine .chunk last starts ?_ below ?_
      · rw [toInt_min, next, whole]
        omega
      · have outside : ¬ start + step < n := by
          rw [Int64.lt_iff_toInt_lt, next, whole]
          omega
        cases fuel with
        | zero => exact .done
        | succ fuel =>
          rw [chunksFrom, if_neg outside]
          exact .done

/--
A chunking that cuts a range of `n` indices into chunks of a positive size.

Without a least size the share of a worker has to be computed without wrapping around.
-/
def Chunking.Proper (c : Chunking) (n : Nat) : Prop :=
  n ≤ 2 ^ 62 ∧ (1 ≤ c.smallest.toInt ∨ (n : Int) + c.workers.toInt - 1 < 2 ^ 63)

instance (c : Chunking) (n : Nat) : Decidable (c.Proper n) := inferInstanceAs (Decidable (_ ∧ _))

/-- What cuts a range properly cuts a shorter one properly. -/
theorem Chunking.Proper.mono {c : Chunking} {n m : Nat} (proper : c.Proper n) (fewer : m ≤ n) :
    c.Proper m := by
  -- A shorter range takes smaller shares, which do not wrap around either.
  obtain ⟨small, least | share⟩ := proper
  · exact ⟨by omega, .inl least⟩
  · exact ⟨by omega, .inr (by omega)⟩

/-- A worker's share of a range is positive, if it is computed without wrapping around. -/
theorem share_pos {n workers : Int64} (nonempty : 1 ≤ n.toInt) (several : 2 ≤ workers.toInt)
    (nowrap : n.toInt + workers.toInt - 1 < 2 ^ 63) :
    1 ≤ ((n + workers - 1) / workers).toInt := by
  -- The sum is at least the number of workers, so dividing by it leaves at least one.
  have sum : (n + workers - 1).toInt = n.toInt + workers.toInt - 1 := by
    rw [Int64.toInt_sub, Int64.toInt_add, Int64.toInt_one]
    have := n.toInt_lt
    have := workers.toInt_lt
    rw [show (n.toInt + workers.toInt).bmod (2 ^ 64) - 1 =
      (n.toInt + workers.toInt).bmod (2 ^ 64) + -1 from rfl, Int.bmod_add_bmod]
    apply Int.bmod_eq_of_le <;> omega
  -- Division of machine integers is off for one divisor only, which is no number of workers.
  have other : workers ≠ -1 := by
    rintro rfl
    simp at several
  rw [Int64.toInt_div_of_ne_right _ _ other, sum, Int.tdiv_eq_ediv_of_nonneg (by omega)]
  exact Int.le_ediv_of_mul_le (by omega) (by omega)

/-- A proper chunking tiles its range. -/
theorem Chunking.Proper.tiles {c : Chunking} {n : Nat} (proper : c.Proper n) :
    Tiles n 0 (c.chunks (Int64.ofNat n)) := by
  obtain ⟨small, regular⟩ := proper
  have whole : (Int64.ofNat n).toInt = n := Int64.toInt_ofNat_of_lt (by omega)
  unfold chunks
  -- No indices make no chunks.
  by_cases empty : n = 0
  · subst empty
    exact .done
  rw [if_neg (ofNat_pos (Nat.pos_of_ne_zero empty) (by omega))]
  split
  · -- Everything goes into one chunk.
    exact .chunk n Int64.toInt_zero whole (by omega) .done
  · -- Otherwise there are several workers, and chunks are as large as a share or larger.
    rename_i cut
    have several : 2 ≤ c.workers.toInt := by
      by_contra few
      have : c.workers < 2 := Int64.lt_iff_toInt_lt.mpr (by
        rw [show (2 : Int64).toInt = 2 from rfl]
        omega)
      simp [this] at cut
    obtain ⟨share, least⟩ := le_toInt_max ((Int64.ofNat n + c.workers - 1) / c.workers) c.smallest
    dsimp only
    generalize grown : max ((Int64.ofNat n + c.workers - 1) / c.workers) c.smallest = step at *
    -- Either bound makes the size positive, which is all that the chunks need.
    have positive : 1 ≤ step.toInt := by
      rcases regular with atLeast | nowrap
      · omega
      · have := share_pos (n := Int64.ofNat n) (by omega) several (by omega)
        omega
    have sized : step.toInt = (step.toInt.toNat : Nat) := by omega
    exact chunksFrom_tiles whole sized (by omega) small _ 0 0 Int64.toInt_zero (by omega)
      (.inl rfl) (by omega)

/-- A step taken on proper chunks is taken on the whole range. -/
theorem Chunking.Proper.foldl_eq {σ : Type} {c : Chunking} {n : Nat} (proper : c.Proper n)
    (step : Nat → Nat → σ → σ) (still : ∀ start s, step start 0 s = s)
    (split : ∀ start a b s, start + a + b ≤ n →
      step start (a + b) s = step (start + a) b (step start a s)) (s : σ) :
    (c.chunks (Int64.ofNat n)).foldl (fun s chunk =>
      step chunk.1.toNatClampNeg (chunk.2.toNatClampNeg - chunk.1.toNatClampNeg) s) s =
      step 0 n s := by
  -- The chunks tile the range from its first index on, so the steps on them add up.
  rw [proper.tiles.foldl_eq step still split, Nat.sub_zero]

end Tangent
