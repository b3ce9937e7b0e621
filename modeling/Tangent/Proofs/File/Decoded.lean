import Tangent.File.Codec
import Tangent.Proofs.Exec.Safety

/-!
What is known of a program that was read from a file.

It was checked, its operands are within the range of records, and its live temporaries never have
more elements than a file allows, so each of its blocks can be lent.
-/

namespace Tangent

variable {α : Type}

namespace Record

/-- A field within the range of records counts as much as a machine integer. -/
theorem toInt_toInt64_le {x : UInt64} (inside : ¬ x > limit) : x.toInt64.toInt ≤ 2 ^ 48 := by
  -- Below the sign bit both kinds of integers count alike.
  have small : x.toNat ≤ 2 ^ 48 := by
    have := UInt64.not_lt.mp inside
    rw [UInt64.le_iff_toNat_le] at this
    exact this
  rw [← Int64.toInt_toBitVec]
  have : x.toInt64.toBitVec = x.toBitVec := rfl
  rw [this, BitVec.toInt_eq_toNat_of_lt (by show 2 * x.toNat < 2 ^ 64; omega)]
  show (x.toNat : Int) ≤ 2 ^ 48
  omega

/-- The numbers of an instruction that was read are within the range of records. -/
theorem toInstr_bounded [Stored α] {r : Record} {i : Instr α} (read : r.toInstr = .ok i) :
    i.dst.offset.toInt ≤ 2 ^ 48 ∧ i.src.offset.toInt ≤ 2 ^ 48 ∧ i.len.toInt ≤ 2 ^ 48 := by
  -- An instruction comes out only past the checks of its code and its numbers.
  unfold toInstr at read
  split at read
  · simp at read
  · split at read
    · simp at read
    · split at read
      · simp at read
      · rename_i range
        simp only [Bool.or_eq_true, decide_eq_true_eq, not_or] at range
        rw [← Except.ok.inj read]
        exact ⟨toInt_toInt64_le range.1.1, toInt_toInt64_le range.1.2, toInt_toInt64_le range.2⟩

end Record

/-- A digest has thirty-two bytes. -/
theorem Sha256.length_hash (message : Bytes) : (hash message).length = ProgramFile.digestSize := by
  -- It is made of eight words of four bytes.
  simp [hash, digest, ProgramFile.digestSize]

namespace ProgramFile

/-- A file with its digest is read by what it says. -/
theorem decode_sealed [Written α] [Stored α] {body : Bytes}
    (long : minSize ≤ body.length + digestSize)
    (marked : body.take magic.length = magic) :
    (decode (sealed body) : Except FileError (Program α)) =
      decodeBody (body.drop magic.length) := by
  -- The digest has a fixed length, so body and digest are told apart again.
  have length : (sealed body).length = body.length + digestSize := by
    rw [sealed, List.length_append, Sha256.length_hash]
  have front : (sealed body).take ((sealed body).length - digestSize) = body := by
    rw [length, Nat.add_sub_cancel]
    exact List.take_left
  have back : (sealed body).drop ((sealed body).length - digestSize) = Sha256.hash body := by
    rw [length, Nat.add_sub_cancel]
    exact List.drop_left
  -- The mark lies before the digest.
  have start : (sealed body).take magic.length = magic := by
    rw [sealed, List.take_append_of_le_length ?_, marked]
    have := congrArg List.length marked
    rw [List.length_take] at this
    omega
  unfold decode
  dsimp only
  rw [front, back, start, length, if_neg (Nat.not_lt.mpr long)]
  simp [checkDigest, Bind.bind, Except.bind]

/-- All instructions that were read are those of records. -/
theorem exists_record_of_instrs [Stored α] {count index : Nat} {bytes : Bytes}
    {is : List (Instr α)} (read : instrs index count bytes = .ok is) :
    ∀ i ∈ is, ∃ r : Record, r.toInstr = .ok i := by
  induction count generalizing index bytes is with
  | zero =>
    rw [← Except.ok.inj read]
    simp
  | succ count ih =>
    unfold instrs at read
    split at read
    · simp at read
    · -- The first record was read, and the others after it.
      rename_i first parsed
      obtain ⟨rest, others, rfl⟩ := ok_of_map read
      intro i listed
      rcases List.mem_cons.mp listed with rfl | listed
      · exact ⟨_, parsed⟩
      · exact ih others i listed

/-- A program that was put together was checked. -/
theorem checked_of_assemble [Written α] {flags : Nat} {h : Header α} {is : List (Instr α)}
    {p : Program α} (assembled : assemble flags h is = .ok p) :
    p.instrs = is ∧ p.seeds.length = p.vars.length ∧ p.validate = .ok () ∧
      checkLimits p = .ok () := by
  -- All checks are made on the program that comes out.
  unfold assemble at assembled
  dsimp only at assembled
  obtain ⟨seeded, assembled⟩ := ok_of_guard assembled
  obtain ⟨_, safe, assembled⟩ := ok_of_bind assembled
  obtain ⟨_, limited, assembled⟩ := ok_of_bind assembled
  rw [← Except.ok.inj assembled]
  exact ⟨rfl, not_not.mp seeded, ok_of_mapError safe, ok_of_mapError limited⟩

/-- What follows the header of a file was read from records. -/
theorem exists_record_of_decodeRecords [Stored α] {bytes : Bytes} {is : List (Instr α)}
    (read : decodeRecords bytes = .ok is) : ∀ i ∈ is, ∃ r : Record, r.toInstr = .ok i := by
  -- Their number and their size are checked first.
  unfold decodeRecords at read
  split at read
  · simp at read
  · dsimp only at read
    split at read
    · simp at read
    · exact exists_record_of_instrs read

/-- A program that was read was checked, and its instructions come from records. -/
theorem checked_of_decode [Written α] [Stored α] {bytes : Bytes} {p : Program α}
    (decoded : decode bytes = .ok p) :
    p.seeds.length = p.vars.length ∧ p.validate = .ok () ∧ checkLimits p = .ok () ∧
      ∀ i ∈ p.instrs, ∃ r : Record, r.toInstr = .ok i := by
  -- Each step of the reader lets only an answer pass, so the last one was reached.
  unfold decode at decoded
  dsimp only at decoded
  obtain ⟨_, decoded⟩ := ok_of_guard decoded
  obtain ⟨_, decoded⟩ := ok_of_guard decoded
  obtain ⟨_, _, decoded⟩ := ok_of_bind decoded
  unfold decodeBody at decoded
  dsimp only at decoded
  obtain ⟨_, decoded⟩ := ok_of_guard decoded
  obtain ⟨_, decoded⟩ := ok_of_guard decoded
  split at decoded
  · simp [throw, throwThe, MonadExceptOf.throw] at decoded
  · obtain ⟨is, read, assembled⟩ := ok_of_bind decoded
    obtain ⟨rfl, seeded, safe, limited⟩ := checked_of_assemble assembled
    exact ⟨seeded, safe, limited, exists_record_of_decodeRecords read⟩

/-- Of the limits of a file, paths are looked at first, and then the sum of live elements. -/
theorem checkLimits_eq_ok {p : Program α} :
    checkLimits p = .ok () ↔ p.paths.toInt ≤ 2 ^ 26 ∧ checkLive [] 0 0 p.instrs = .ok () := by
  -- The comparison of machine integers says the same about numbers.
  have paths : p.paths > maxPaths ↔ ¬ p.paths.toInt ≤ 2 ^ 26 := by
    rw [gt_iff_lt, Int64.lt_iff_toInt_lt, show maxPaths.toInt = 2 ^ 26 from rfl, Int.not_le]
  unfold checkLimits
  split
  · rename_i many
    exact ⟨nofun, fun within => absurd within.1 (paths.mp many)⟩
  · rename_i few
    rw [paths, not_not] at few
    exact ⟨fun summed => ⟨few, summed⟩, fun within => within.2⟩

/-- The number of elements of temporaries. -/
def elements (live : TempTable Int64) : Int := (live.map (fun entry => entry.2.toInt)).sum

/-- A temporary that ends takes its elements with it. -/
theorem elements_erase {live : TempTable Int64} (distinct : live.Pairwise (fun a b => a.1 ≠ b.1))
    {index size : Int64} (known : live.find? index = some size) :
    elements (live.erase index) = elements live - size.toInt := by
  induction live with
  | nil => simp [TempTable.find?] at known
  | cons entry rest ih =>
    obtain ⟨apart, others⟩ := List.pairwise_cons.mp distinct
    by_cases same : entry.1 = index
    · -- No later entry has the number, so nothing else is taken off.
      have kept : List.filter (fun other => other.1 != index) rest = rest :=
        List.filter_eq_self.mpr (fun other listed => by
          simpa using fun again => apart other listed (same.trans again.symm))
      simp only [TempTable.find?, List.find?_cons, same, beq_self_eq_true, Option.map_some,
        Option.some.injEq] at known
      simp [elements, TempTable.erase, same, kept, known]
    · -- Another temporary keeps its elements in the sum.
      have later : TempTable.find? rest index = some size := by
        simpa [TempTable.find?, List.find?_cons, same] using known
      have rest := ih others later
      simp only [elements, TempTable.erase] at rest ⊢
      simp [same, rest]
      omega

/-- Temporaries have no negative number of elements. -/
theorem elements_nonneg {live : TempTable Int64} (positive : ∀ entry ∈ live, 0 < entry.2.toInt) :
    0 ≤ elements live := by
  -- A sum of positive sizes.
  refine List.sum_nonneg (fun x listed => ?_)
  obtain ⟨entry, among, rfl⟩ := List.mem_map.mp listed
  exact Int.le_of_lt (positive entry among)

/-- The sum of live elements that a file is checked with is the one of the temporaries. -/
structure Accounts (v : Validation) (sizes : TempTable Int64) (live : Int64) : Prop where
  known : ∀ index size, v.live.find? index = some size → sizes.find? index = some size
  seen : ∀ index, v.seen.find? index = none → ∀ entry ∈ v.live, entry.1 ≠ index
  distinct : v.live.Pairwise (fun a b => a.1 ≠ b.1)
  positive : ∀ entry ∈ v.live, 0 < entry.2.toInt
  total : live.toInt = elements v.live
  limited : live.toInt ≤ 2 ^ 30

/-- Before the first instruction there is nothing to account for. -/
theorem accounts_nil : Accounts ⟨[], []⟩ [] 0 :=
  -- No temporary lives, no number was used and the sum is zero.
  ⟨by simp [TempTable.find?], by simp, .nil, by simp, rfl, by decide⟩

namespace Accounts

variable {v v' : Validation} {sizes : TempTable Int64} {live : Int64}

/-- A temporary under a number that was never used is added in front of the others. -/
theorem insert_eq (accounts : Accounts v sizes live) {index : Int64} (len : Int64)
    (fresh : v.seen.find? index = none) : v.live.insert index len = (index, len) :: v.live := by
  -- Inserting drops earlier entries of the number, and there are none.
  have others := accounts.seen index fresh
  rw [TempTable.insert,
    List.filter_eq_self.mpr (fun entry listed => by simpa using others entry listed)]

/-- The sum is small, so it does not wrap around with a length far enough from the largest. -/
theorem toInt_add (accounts : Accounts v sizes live) {len : Int64} (positive : 0 < len)
    (small : len.toInt < 2 ^ 63 - 2 ^ 30) : (live + len).toInt = live.toInt + len.toInt := by
  -- Both are natural numbers, and their sum is below the largest machine integer.
  have nonneg : 0 ≤ live.toInt := accounts.total ▸ elements_nonneg accounts.positive
  have limited := accounts.limited
  obtain ⟨a, rfl, some⟩ := exists_eq_ofNat (Int64.le_iff_toInt_le.mpr nonneg)
  obtain ⟨b, rfl, count⟩ := exists_eq_ofNat (Int64.le_of_lt positive)
  rw [some, count, ← Int64.ofNat_add, Int64.toInt_ofNat_of_lt (by omega)]
  omega

/-- A new temporary within the limit is added to the sum. -/
theorem alloc (accounts : Accounts v sizes live) {index len : Int64} (positive : 0 < len)
    (small : len.toInt < 2 ^ 63 - 2 ^ 30) (fresh : v.seen.find? index = none)
    (under : ¬ live + len > maxTempElements) :
    Accounts ⟨v.live.insert index len, v.seen.insert index ()⟩ (sizes.insert index len)
        (live + len) ∧
      len.toInt ≤ 2 ^ 30 := by
  have nonneg : 0 ≤ live.toInt := accounts.total ▸ elements_nonneg accounts.positive
  have sum := accounts.toInt_add positive small
  have bound : live.toInt + len.toInt ≤ 2 ^ 30 := by
    rw [← sum]
    exact Int64.le_iff_toInt_le.mp (Int64.not_lt.mp under)
  -- The number was never used, so no live temporary has it.
  have others := accounts.seen index fresh
  have inserted := accounts.insert_eq len fresh
  rw [Int64.lt_iff_toInt_lt, Int64.toInt_zero] at positive
  refine ⟨?_, by omega⟩
  rw [inserted]
  exact {
    known := fun other size found => by
      rw [← inserted, TempTable.find?_insert] at found
      rw [TempTable.find?_insert]
      by_cases same : index = other
      · rwa [if_pos same] at found ⊢
      · rw [if_neg same] at found ⊢
        exact accounts.known other size found
    seen := fun other unused entry listed => by
      rw [TempTable.find?_insert] at unused
      split at unused
      · simp at unused
      · rcases List.mem_cons.mp listed with rfl | listed
        · assumption
        · exact accounts.seen other unused entry listed
    distinct := List.pairwise_cons.mpr
      ⟨fun entry listed => (others entry listed).symm, accounts.distinct⟩
    positive := fun entry listed => by
      rcases List.mem_cons.mp listed with rfl | listed
      · exact positive
      · exact accounts.positive entry listed
    total := by
      have before := accounts.total
      simp only [elements, List.map_cons, List.sum_cons] at before ⊢
      omega
    limited := by omega }

/-- The size of a temporary that ends is taken off the sum. -/
theorem free (accounts : Accounts v sizes live) {index : Int64}
    (known : (v.live.find? index).isSome) :
    Accounts ⟨v.live.erase index, v.seen⟩ sizes (live - (sizes.find? index).getD 0) := by
  obtain ⟨size, found⟩ := Option.isSome_iff_exists.mp known
  have kept : ∀ entry ∈ v.live.erase index, entry ∈ v.live :=
    fun entry listed => List.mem_of_mem_filter listed
  have positive : ∀ entry ∈ v.live.erase index, 0 < entry.2.toInt :=
    fun entry listed => accounts.positive entry (kept entry listed)
  have less := elements_erase accounts.distinct found
  have nonneg := elements_nonneg positive
  have limited := accounts.limited
  have total := accounts.total
  -- A temporary that is live has elements.
  have own : 0 < size.toInt := by
    obtain ⟨entry, listed, rfl⟩ := Option.map_eq_some_iff.mp found
    exact accounts.positive entry (List.mem_of_find?_eq_some listed)
  rw [accounts.known index size found, Option.getD_some]
  -- The sum has the elements of this temporary in it, so taking them off does not wrap around.
  obtain ⟨a, rfl, some⟩ := exists_eq_ofNat (x := live) (Int64.le_iff_toInt_le.mpr (by
    rw [Int64.toInt_zero]
    omega))
  obtain ⟨b, rfl, count⟩ := exists_eq_ofNat (x := size) (Int64.le_iff_toInt_le.mpr (by
    rw [Int64.toInt_zero]
    omega))
  obtain ⟨c, rfl⟩ : ∃ c, a = c + b := ⟨a - b, by omega⟩
  rw [Int64.ofNat_add, Int64.add_sub_cancel]
  have rest : (Int64.ofNat c).toInt = c := Int64.toInt_ofNat_of_lt (by omega)
  exact {
    known := fun other size remains => by
      rw [TempTable.find?_erase] at remains
      split at remains
      · simp at remains
      · exact accounts.known other size remains
    seen := fun other unused entry listed => accounts.seen other unused entry (kept entry listed)
    distinct := accounts.distinct.sublist List.filter_sublist
    positive
    total := by
      show _ = elements (v.live.erase index)
      omega
    limited := by omega }

end Accounts

/-- Every block can be added to a sum within the limit, and the sum does not wrap around. -/
def Addable (is : List (Instr α)) : Prop :=
  ∀ i ∈ is, i.op = .alloc → i.len.toInt < 2 ^ 63 - 2 ^ 30

/-- Lengths within the range of records are far from the largest machine integer. -/
theorem addable_of_le {is : List (Instr α)} (small : ∀ i ∈ is, i.len.toInt ≤ 2 ^ 48) :
    Addable is := by
  -- 2 ^ 48 and 2 ^ 30 together are far below 2 ^ 63.
  intro i listed _
  have := small i listed
  omega

/-- The blocks of the instructions behind the first one can be added as well. -/
theorem Addable.tail {i : Instr α} {rest : List (Instr α)} (addable : Addable (i :: rest)) :
    Addable rest :=
  -- They are among all the instructions.
  fun j listed => addable j (List.mem_cons_of_mem i listed)

section Sum

variable {sizes : TempTable Int64} {live : Int64} {pc : Nat} {i : Instr α} {rest : List (Instr α)}

/-- The size of a temporary that begins is added to the sum, which has to keep within the limit. -/
theorem checkLive_alloc (asks : i.op = .alloc) :
    checkLive sizes live pc (i :: rest) =
      if live + i.len > maxTempElements then .error (.liveLimit pc (live + i.len) maxTempElements)
      else checkLive (sizes.insert i.dst.index i.len) (live + i.len) (pc + 1) rest := by
  -- The branch is chosen by the operation.
  simp only [checkLive, asks]

/-- The size of a temporary that ends is taken off the sum. -/
theorem checkLive_free (asks : i.op = .free) :
    checkLive sizes live pc (i :: rest) =
      checkLive sizes (live - (sizes.find? i.dst.index).getD 0) (pc + 1) rest := by
  -- The branch is chosen by the operation.
  simp only [checkLive, asks]

/-- Operations other than the two for temporaries leave the sum alone. -/
theorem checkLive_other (other : i.op ≠ .alloc ∧ i.op ≠ .free) :
    checkLive sizes live pc (i :: rest) = checkLive sizes live (pc + 1) rest := by
  -- Only the two operations have branches of their own.
  rw [checkLive]
  split
  · exact absurd ‹_› other.1
  · exact absurd ‹_› other.2
  · rfl

end Sum

/-- Every block of a program within the limits of a file can be lent. -/
theorem block_le_of_checkLive [Written α] {p : Program α} {is : List (Instr α)}
    (addable : Addable is) :
    ∀ {v v' : Validation} {sizes : TempTable Int64} {live : Int64} {pc : Nat},
      Accounts v sizes live → p.checkInstrs v pc is = .ok v' →
      checkLive sizes live pc is = .ok () →
      ∀ i ∈ is, i.op = .alloc → i.len.toInt ≤ 2 ^ 30 := by
  -- The sum is kept in step with what the check of the program knows.
  induction is with
  | nil => simp
  | cons i rest ih =>
    intro v v' sizes live pc accounts checked limited
    obtain ⟨w, accepted, others⟩ := Program.checkInstrs_cons_ok checked
    have goes := @ih addable.tail
    intro j listed asks
    -- An instruction that asks for no block is none of those in question.
    have later (other : i.op ≠ .alloc) : j ∈ rest := by
      rcases List.mem_cons.mp listed with rfl | listed
      · exact absurd asks other
      · exact listed
    cases accepted.follows with
    | begins begins positive fresh =>
      rw [checkLive_alloc begins] at limited
      split at limited
      · simp at limited
      · rename_i under
        have own := addable i List.mem_cons_self begins
        obtain ⟨after, block⟩ := accounts.alloc positive own fresh under
        rcases List.mem_cons.mp listed with rfl | listed
        · exact block
        · exact goes after others limited j listed asks
    | ends ends known =>
      rw [checkLive_free ends] at limited
      exact goes (accounts.free known) others limited j (later (by simp [ends])) asks
    | keeps other =>
      rw [checkLive_other other] at limited
      exact goes accounts others limited j (later other.1) asks

/-- A program that was read is safe, and small enough for memory. -/
theorem small_of_decode [Written α] [Stored α] {bytes : Bytes} {p : Program α}
    (decoded : decode bytes = .ok p) :
    p.validate = .ok () ∧ ∀ i ∈ p.instrs, i.Small := by
  -- Fields are bounded by the format, and blocks by the limit on live elements.
  obtain ⟨_, safe, limited, recorded⟩ := checked_of_decode decoded
  obtain ⟨_, v, checked⟩ := Program.checkInstrs_of_validate safe
  obtain ⟨_, live⟩ := checkLimits_eq_ok.mp limited
  have bounded : ∀ i ∈ p.instrs, i.dst.offset.toInt ≤ 2 ^ 48 ∧ i.src.offset.toInt ≤ 2 ^ 48 ∧
      i.len.toInt ≤ 2 ^ 48 := fun i listed => by
    obtain ⟨r, read⟩ := recorded i listed
    exact Record.toInstr_bounded read
  have addable := addable_of_le (fun i listed => (bounded i listed).2.2)
  have block := block_le_of_checkLive addable accounts_nil checked live
  refine ⟨safe, fun i listed => ?_⟩
  obtain ⟨dst, src, len⟩ := bounded i listed
  refine ⟨dst, src, len, fun asks => ?_⟩
  have := block i listed asks
  rw [Host.room_eq]
  omega

end ProgramFile

end Tangent
