import Tangent.Proofs.Exec.Abort
import Tangent.Proofs.File.Limits
import Tangent.Proofs.File.ReadBack

/-!
Programs that pass the limits of a file because a sum wraps around.

The elements of live temporaries are added up as machine integers, and the sum is compared with the
limit whenever a temporary begins. A block close to the largest machine integer makes the sum
negative, so it passes. These blocks are all that gets past the limit.
-/

namespace Tangent

open Program (liveAfter)

variable {α : Type}

namespace ProgramFile

/--
Live temporaries are checked by the sum that is kept along instructions.

The check looks sizes up in a table of all temporaries that ever began, which says the same about
those that are live.
-/
theorem checkLive_iff_summed [Written α] {p : Program α} {is : List (Instr α)} :
    ∀ {v v' : Validation} {sizes : TempTable Int64} {live : Int64} {pc : Nat},
      (∀ index size, v.live.find? index = some size → sizes.find? index = some size) →
      p.checkInstrs v pc is = .ok v' →
      (checkLive sizes live pc is = .ok () ↔ Instr.Summed (v.live, live) maxTempElements is) := by
  -- Whatever the sum is by now, both sides go on with the same one.
  induction is with
  | nil =>
    intro v v' sizes live pc _ _
    refine ⟨fun _ before i listed => ?_, fun _ => rfl⟩
    simp at listed
  | cons i rest ih =>
    intro v v' sizes live pc known checked
    obtain ⟨w, accepted, others⟩ := Program.checkInstrs_cons_ok checked
    cases accepted.follows with
    | begins asks =>
      have booked : Instr.book (v.live, live) i =
          (v.live.insert i.dst.index i.len, live + i.len) := by
        rw [Instr.book, TempTable.after, asks]
      rw [checkLive_alloc asks, Instr.Summed.cons_iff, booked]
      split
      · rename_i above
        refine ⟨fun passed => ?_, fun summed => ?_⟩
        · cases passed
        · exact absurd (summed.1 asks) (Int64.not_le.mpr above)
      · rename_i under
        -- Both tables know the new temporary.
        refine (ih (fun index size found => ?_) others).trans
          ⟨fun summed => ⟨fun _ => Int64.not_lt.mp under, summed⟩, fun summed => summed.2⟩
        rw [TempTable.find?_insert] at found ⊢
        split at found
        · rw [if_pos ‹_›]
          exact found
        · rw [if_neg ‹_›]
          exact known index size found
    | ends asks begun =>
      obtain ⟨size, found⟩ := Option.isSome_iff_exists.mp begun
      have booked : Instr.book (v.live, live) i =
          (v.live.erase i.dst.index, live - (sizes.find? i.dst.index).getD 0) := by
        rw [Instr.book, TempTable.after, asks, known _ _ found]
        simp only [found]
      rw [checkLive_free asks, Instr.Summed.cons_iff, booked]
      simp only [asks, reduceCtorEq, false_implies, true_and]
      refine ih (v := ⟨v.live.erase i.dst.index, v.seen⟩) (fun index size remains => ?_) others
      rw [TempTable.find?_erase] at remains
      split at remains
      · cases remains
      · exact known index size remains
    | keeps other =>
      rw [checkLive_other other, Instr.Summed.cons_iff, Instr.book_other _ other]
      simp only [other.1, false_implies, true_and]
      exact ih known others

/-- A first part of accepted instructions is accepted. -/
theorem exists_checkInstrs_of_prefix [Written α] {p : Program α} {v v' : Validation}
    {before is : List (Instr α)} {pc : Nat} (checked : p.checkInstrs v pc is = .ok v')
    (first : before <+: is) : ∃ w, p.checkInstrs v pc before = .ok w := by
  -- The check goes through the instructions in their order.
  obtain ⟨later, rfl⟩ := first
  rw [Program.checkInstrs_append] at checked
  obtain ⟨w, passed, _⟩ := ok_of_bind checked
  exact ⟨w, passed⟩

/-- The sum that is kept along accepted instructions is that of live elements, wrapped around. -/
theorem toInt_booked [Written α] {p : Program α} {v : Validation} {done : List (Instr α)}
    (checked : p.checkInstrs ⟨[], []⟩ 0 done = .ok v) :
    (Instr.booked done).2.toInt = (elements (liveAfter done)).bmod (2 ^ 64) := by
  -- The books add and subtract machine integers, which agree with numbers but for wrapping around.
  have booked := (Validation.books checked).booked
  rw [← Instr.booked_live, booked]
  exact Int64.toInt_ofInt

/-- An accepted program is within the limits of a file by sums that wrap around. -/
theorem checkLimits_iff_wrapped [Written α] {p : Program α} (safe : p.validate = .ok ()) :
    checkLimits p = .ok () ↔ p.paths.toInt ≤ 2 ^ 26 ∧
      ∀ before i, before ++ [i] <+: p.instrs → i.op = .alloc →
        (elements (liveAfter (before ++ [i]))).bmod (2 ^ 64) ≤ 2 ^ 30 := by
  obtain ⟨_, v, checked⟩ := Program.checkInstrs_of_validate safe
  have live : checkLive [] 0 0 p.instrs = .ok () ↔ Instr.Summed ([], 0) maxTempElements p.instrs :=
    checkLive_iff_summed (v := ⟨[], []⟩) (fun _ _ found => by simp [TempTable.find?] at found)
      checked
  rw [checkLimits_eq_ok, live]
  refine and_congr_right (fun _ => forall₄_congr (fun before i first asks => ?_))
  -- At every beginning the sum is the exact one, wrapped around.
  obtain ⟨w, passed⟩ := exists_checkInstrs_of_prefix checked first
  rw [Int64.le_iff_toInt_le, ← toInt_booked passed, show maxTempElements.toInt = 2 ^ 30 from rfl]
  rfl

/-- Live temporaries of accepted instructions have elements. -/
theorem positive_of_checked [Written α] {p : Program α} {v : Validation} {done : List (Instr α)}
    (checked : p.checkInstrs ⟨[], []⟩ 0 done = .ok v) :
    ∀ entry ∈ v.live, 0 < entry.2.toInt := by
  induction done using List.reverseRecOn generalizing v with
  | nil =>
    obtain rfl := Except.ok.inj checked
    simp
  | append_singleton done i ih =>
    -- Those that were live before the last instruction have elements.
    rw [Program.checkInstrs_append] at checked
    obtain ⟨w, before, last⟩ := ok_of_bind checked
    obtain ⟨w', accepted, rest⟩ := Program.checkInstrs_cons_ok last
    obtain rfl := Except.ok.inj rest
    have earlier := ih before
    cases accepted.follows with
    | begins asks positive =>
      intro entry listed
      -- The new temporary has a size above zero, and the others are older.
      rcases List.mem_cons.mp listed with rfl | older
      · exact Int64.lt_iff_toInt_lt.mp positive
      · exact earlier entry (List.mem_of_mem_filter older)
    | ends => exact fun entry listed => earlier entry (List.mem_of_mem_filter listed)
    | keeps => exact earlier

/-- A live temporary has no more elements than all of them have. -/
theorem le_elements {live : TempTable Int64} (positive : ∀ entry ∈ live, 0 < entry.2.toInt)
    {entry : Int64 × Int64} (listed : entry ∈ live) : entry.2.toInt ≤ elements live := by
  -- The others have a size that is not negative.
  refine List.single_le_sum (fun size summed => ?_) _ (List.mem_map_of_mem listed)
  obtain ⟨other, among, rfl⟩ := List.mem_map.mp summed
  exact Int.le_of_lt (positive other among)

/-- Where the live elements of an accepted program stay within the limit, so does every block. -/
theorem addable_of_bounded [Written α] {p : Program α} (safe : p.validate = .ok ())
    (bounded : ∀ before, before <+: p.instrs → elements (liveAfter before) ≤ 2 ^ 30) :
    Addable p.instrs := by
  obtain ⟨_, v, checked⟩ := Program.checkInstrs_of_validate safe
  intro i listed asks
  -- The block is live right after the instruction that begins it.
  obtain ⟨before, later, parts⟩ := List.append_of_mem listed
  have first : before ++ [i] <+: p.instrs := ⟨later, by rw [parts]; simp⟩
  obtain ⟨w, passed⟩ := exists_checkInstrs_of_prefix checked first
  have live : liveAfter (before ++ [i]) = w.live := by
    rw [← Instr.booked_live, (Validation.books passed).booked]
  have among : (i.dst.index, i.len) ∈ w.live := by
    rw [← live, Program.liveAfter_concat, TempTable.after, asks]
    exact List.mem_cons_self
  have most := bounded _ first
  have own := le_elements (positive_of_checked passed) among
  rw [live] at most
  dsimp only at own
  omega

/--
The limits that a saved program is sure to keep.

A program is saved if and only if it is accepted, has few enough paths and instructions, can be
written down, and has no more live elements than the limit whenever a temporary begins, by a sum
that wraps around. Of a saved program the exact sum is within the limit all the time if and only if
no block is so large that adding it to a sum within the limit can wrap around.
-/
theorem saved_bounded_iff_addable [Written α] [Stored α] (stamp : Option String) (p : Program α) :
    ((∃ bytes, encode stamp p = .ok bytes) ↔
      p.validate = .ok () ∧ p.paths.toInt ≤ 2 ^ 26 ∧
      (∀ before i, before ++ [i] <+: p.instrs → i.op = .alloc →
        (elements (liveAfter (before ++ [i]))).bmod (2 ^ 64) ≤ 2 ^ 30) ∧
      p.instrs.length ≤ 2 ^ 24 ∧ (∃ text, (headerOf p).write? stamp = some text) ∧
      ∃ rs, records 0 p.instrs = .ok rs) ∧
    ((∃ bytes, encode stamp p = .ok bytes) →
      ((∀ before, before <+: p.instrs → elements (liveAfter before) ≤ 2 ^ 30) ↔
        ∀ i ∈ p.instrs, i.op = .alloc → i.len.toInt < 2 ^ 63 - 2 ^ 30)) := by
  -- Being saved is decided by the checks in their order, and being within the limit by the sizes.
  refine ⟨⟨?_, ?_⟩, ?_⟩
  · rintro ⟨bytes, saved⟩
    obtain ⟨safe, limited, few, text, rs, written, made, _⟩ := exists_of_encode saved
    obtain ⟨paths, sums⟩ := (checkLimits_iff_wrapped safe).mp limited
    exact ⟨safe, paths, sums, few, ⟨text, written⟩, rs, made⟩
  · rintro ⟨safe, paths, sums, few, ⟨text, written⟩, rs, made⟩
    have limited := (checkLimits_iff_wrapped safe).mpr ⟨paths, sums⟩
    exact ⟨_, encode_of_checked safe limited few written made⟩
  · rintro ⟨bytes, saved⟩
    obtain ⟨safe, limited, _⟩ := exists_of_encode saved
    exact ⟨addable_of_bounded safe, fun addable => ((checkLimits_iff safe addable).mp limited).2⟩

/-- A program with a temporary of as many elements as a file allows. -/
def brimful : Program Float where
  paths := 1
  vars? := none
  seeds? := none
  source := ""
  instrs :=
    [⟨.alloc, ⟨.temp, 0, 0⟩, .value, 0, 0x40000000⟩, ⟨.free, ⟨.temp, 0, 0⟩, .value, 0, 0⟩]
  peak := 0x40000000

/-- The program with the largest temporary is saved, and is within the limit. -/
theorem saved_bounded_iff_addable_brimful :
    (∃ bytes, encode none brimful = .ok bytes) ∧
    (∀ i ∈ brimful.instrs, i.op = .alloc → i.len.toInt < 2 ^ 63 - 2 ^ 30) ∧
    ∀ before, before <+: brimful.instrs → elements (liveAfter before) ≤ 2 ^ 30 := by
  -- Only the header needs some calculation, and the other checks are short.
  have written : ((headerOf brimful).write? none).isSome := by decide +kernel
  obtain ⟨text, written⟩ := Option.isSome_iff_exists.mp written
  have saved : ∃ bytes, encode none brimful = .ok bytes :=
    ⟨_, encode_of_checked rfl rfl (by decide) written rfl⟩
  have addable : ∀ i ∈ brimful.instrs, i.op = .alloc → i.len.toInt < 2 ^ 63 - 2 ^ 30 := by decide
  exact ⟨saved, addable, ((saved_bounded_iff_addable none brimful).2 saved).mpr addable⟩

/-- A program with a temporary so large that the sum with one more element wraps around. -/
def overfull : Program Float where
  paths := 1
  vars? := some []
  seeds? := some []
  source := ""
  instrs :=
    [⟨.alloc, ⟨.temp, 0, 0⟩, .value, 0, 1⟩,
      ⟨.alloc, ⟨.temp, 1, 0⟩, .value, 0, 0x7fffffffffffffff⟩,
      ⟨.free, ⟨.temp, 1, 0⟩, .value, 0, 0⟩, ⟨.free, ⟨.temp, 0, 0⟩, .value, 0, 0⟩]
  peak := 0

/-- A program is saved although far more elements are live than a file allows. -/
theorem overfull_saved : (∃ bytes, encode none overfull = .ok bytes) ∧
    elements (liveAfter (overfull.instrs.take 2)) = 2 ^ 63 := by
  -- One element and 2 ^ 63 - 1 more add up to the smallest machine integer.
  have written : ((headerOf overfull).write? none).isSome := by decide +kernel
  obtain ⟨text, written⟩ := Option.isSome_iff_exists.mp written
  exact ⟨⟨_, encode_of_checked rfl rfl (by decide) written rfl⟩, by decide⟩

end ProgramFile

end Tangent
