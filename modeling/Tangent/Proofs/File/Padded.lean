import Tangent.Proofs.File.Decoded
import Tangent.Proofs.File.Records

/-!
Records as they stand in a file.

Every string of forty-eight bytes is a record with some bytes between its fields, and in one way
only. The bytes between the fields are not looked at.
-/

namespace Tangent

variable {α : Type}

/-- Integers in as many bytes as were read from are written with the same bytes. -/
theorem littleEndian_ofLittleEndian (bytes : Bytes) :
    littleEndian bytes.length (ofLittleEndian bytes) = bytes := by
  -- The first byte is the low digit, and the others are what is left without it.
  induction bytes with
  | nil => rfl
  | cons byte rest ih =>
    have low := byte.toNat_lt
    have remainder : (byte.toNat + 256 * ofLittleEndian rest) % 256 = byte.toNat := by omega
    have quotient : (byte.toNat + 256 * ofLittleEndian rest) / 256 = ofLittleEndian rest := by omega
    rw [List.length_cons, ofLittleEndian, littleEndian, remainder, quotient, ih,
      UInt8.ofNat_toNat]

/-- Integers in some bytes are below the power that so many bytes can hold. -/
theorem ofLittleEndian_lt (bytes : Bytes) : ofLittleEndian bytes < Nat.pow 256 bytes.length := by
  -- The low digit is below the base, and the others below what is left of the power.
  induction bytes with
  | nil => decide
  | cons byte rest ih =>
    have low := byte.toNat_lt
    have more : Nat.pow 256 (rest.length + 1) = Nat.pow 256 rest.length * 256 := rfl
    rw [ofLittleEndian, List.length_cons, more]
    omega

/-- Integers that fit are told apart by their bytes. -/
theorem littleEndian_inj {width n m : Nat} (fits : n < Nat.pow 256 width)
    (fits' : m < Nat.pow 256 width) (same : littleEndian width n = littleEndian width m) :
    n = m := by
  -- The bytes stand for one integer only.
  rw [← ofLittleEndian_littleEndian width n fits, same, ofLittleEndian_littleEndian width m fits']

/-- Enough bytes start with an integer of any width. -/
theorem exists_littleEndian {width : Nat} {bytes : Bytes} (long : width ≤ bytes.length) :
    ∃ n rest, n < Nat.pow 256 width ∧ bytes = littleEndian width n ++ rest := by
  -- The integer is the one that the first bytes stand for.
  have length : (bytes.take width).length = width := by
    rw [List.length_take, Nat.min_eq_left long]
  refine ⟨ofLittleEndian (bytes.take width), bytes.drop width, ?_, ?_⟩
  · have below := ofLittleEndian_lt (bytes.take width)
    rwa [length] at below
  · have written := littleEndian_ofLittleEndian (bytes.take width)
    rw [length] at written
    rw [written, List.take_append_drop]

/-- Enough bytes start with a word of four of them. -/
theorem exists_uint32 {bytes : Bytes} (long : 4 ≤ bytes.length) :
    ∃ (word : UInt32) (rest : Bytes), bytes = littleEndian 4 word.toNat ++ rest := by
  -- Four bytes stand for no more than a word holds.
  obtain ⟨n, rest, fits, rfl⟩ := exists_littleEndian long
  exact ⟨UInt32.ofNat n, rest, by rw [UInt32.toNat_ofNat', Nat.mod_eq_of_lt fits]⟩

/-- Enough bytes start with a word of eight of them. -/
theorem exists_uint64 {bytes : Bytes} (long : 8 ≤ bytes.length) :
    ∃ (word : UInt64) (rest : Bytes), bytes = littleEndian 8 word.toNat ++ rest := by
  -- Eight bytes stand for no more than a word holds.
  obtain ⟨n, rest, fits, rfl⟩ := exists_littleEndian long
  exact ⟨UInt64.ofNat n, rest, by rw [UInt64.toNat_ofNat', Nat.mod_eq_of_lt fits]⟩

namespace PaddedRecord

/-- Records are told apart by their bytes. -/
theorem bytes_inj {r s : PaddedRecord} (same : r.bytes = s.bytes) : r = s := by
  -- A record is what its bytes are read as.
  rw [← ofBytes_bytes r, same, ofBytes_bytes]

/-- Every string of forty-eight bytes is that of a record. -/
theorem exists_bytes_eq {bytes : Bytes} (length : bytes.length = Record.size) :
    ∃ r : PaddedRecord, r.bytes = bytes := by
  change bytes.length = 48 at length
  -- The first four bytes stand alone.
  obtain ⟨a, b, c, d, rest, rfl⟩ : ∃ a b c d rest, bytes = a :: b :: c :: d :: rest := by
    match bytes, length with
    | a :: b :: c :: d :: rest, _ => exact ⟨a, b, c, d, rest, rfl⟩
  -- All others are words, one after the other, and nothing is left behind the last one.
  simp only [List.length_cons] at length
  obtain ⟨dstIndex, rest, rfl⟩ := exists_uint32 (show 4 ≤ rest.length by omega)
  simp only [List.length_append, length_littleEndian] at length
  obtain ⟨dstOffset, rest, rfl⟩ := exists_uint64 (show 8 ≤ rest.length by omega)
  simp only [List.length_append, length_littleEndian] at length
  obtain ⟨srcIndex, rest, rfl⟩ := exists_uint32 (show 4 ≤ rest.length by omega)
  simp only [List.length_append, length_littleEndian] at length
  obtain ⟨second, rest, rfl⟩ := exists_uint32 (show 4 ≤ rest.length by omega)
  simp only [List.length_append, length_littleEndian] at length
  obtain ⟨srcOffset, rest, rfl⟩ := exists_uint64 (show 8 ≤ rest.length by omega)
  simp only [List.length_append, length_littleEndian] at length
  obtain ⟨scalar, rest, rfl⟩ := exists_uint64 (show 8 ≤ rest.length by omega)
  simp only [List.length_append, length_littleEndian] at length
  obtain ⟨len, rest, rfl⟩ := exists_uint64 (show 8 ≤ rest.length by omega)
  simp only [List.length_append, length_littleEndian] at length
  obtain rfl : rest = [] := List.eq_nil_of_length_eq_zero (by omega)
  exact ⟨⟨⟨a, b, c, dstIndex, dstOffset, srcIndex, srcOffset, scalar, len⟩, d, second⟩, by
    simp [bytes]⟩

/-- Bytes for a whole number of records are those of records. -/
theorem exists_flatMap_eq {count : Nat} {all : Bytes} (length : all.length = count * Record.size) :
    ∃ rs : List PaddedRecord, rs.length = count ∧ rs.flatMap bytes = all := by
  induction count generalizing all with
  | zero =>
    rw [Nat.zero_mul] at length
    exact ⟨[], rfl, (List.eq_nil_of_length_eq_zero length).symm⟩
  | succ count ih =>
    -- The first record is cut off, and the others are left.
    have whole : (count + 1) * Record.size = count * Record.size + Record.size :=
      Nat.succ_mul count _
    have first : (all.take Record.size).length = Record.size := by
      rw [List.length_take]
      omega
    have others : (all.drop Record.size).length = count * Record.size := by
      rw [List.length_drop]
      omega
    obtain ⟨r, front⟩ := exists_bytes_eq first
    obtain ⟨rs, counted, back⟩ := ih others
    refine ⟨r :: rs, by rw [List.length_cons, counted], ?_⟩
    rw [List.flatMap_cons, front, back, List.take_append_drop]

/-- Records in a row are told apart by their bytes. -/
theorem flatMap_bytes_inj {rs ss : List PaddedRecord} (length : rs.length = ss.length)
    (same : rs.flatMap bytes = ss.flatMap bytes) : rs = ss := by
  induction rs generalizing ss with
  | nil => exact (List.eq_nil_of_length_eq_zero length.symm).symm
  | cons r rs ih =>
    cases ss with
    | nil => cases length
    | cons s ss =>
      -- All records have as many bytes, so the first ones end at the same place.
      rw [List.flatMap_cons, List.flatMap_cons] at same
      obtain ⟨own, others⟩ := List.append_inj same (r.length_bytes.trans s.length_bytes.symm)
      rw [bytes_inj own, ih (Nat.succ.inj length) others]

/-- Records in a row have as many bytes each. -/
theorem length_flatMap (rs : List PaddedRecord) :
    (rs.flatMap bytes).length = rs.length * Record.size := by
  -- Each record has the same number of bytes.
  simp [List.length_flatMap, length_bytes]

end PaddedRecord

namespace Record

/-- A record whose codes are known, and whose numbers are in range. -/
@[mk_iff]
structure Proper (r : Record) : Prop where
  op : r.op.toNat < 8
  dstSpace : r.dstSpace.toNat ≤ 3
  srcSpace : r.srcSpace.toNat ≤ 3
  dstOffset : r.dstOffset.toNat ≤ 2 ^ 48
  srcOffset : r.srcOffset.toNat ≤ 2 ^ 48
  len : r.len.toNat ≤ 2 ^ 48

/-- The instruction that a record stands for, field by field. -/
@[mk_iff]
structure Means [Stored α] (r : Record) (i : Instr α) : Prop where
  op : Op.known[r.op.toNat]? = some i.op
  dstSpace : i.dst.space.code = r.dstSpace
  dstIndex : i.dst.index.toInt = r.dstIndex.toNat
  dstOffset : i.dst.offset.toInt = r.dstOffset.toNat
  srcSpace : i.src.space.code = r.srcSpace
  srcIndex : i.src.index.toInt = r.srcIndex.toNat
  srcOffset : i.src.offset.toInt = r.srcOffset.toNat
  scalar : i.scalar = Stored.ofBits r.scalar
  len : i.len.toInt = r.len.toNat

/-- A word in range counts as much as a machine integer. -/
theorem toInt_toInt64 {x : UInt64} (small : x.toNat < 2 ^ 63) : x.toInt64.toInt = x.toNat := by
  -- The highest bit is not set, so both ways of reading the bits agree.
  rw [← Int64.toInt_toBitVec, show x.toInt64.toBitVec = x.toBitVec from rfl,
    BitVec.toInt_eq_toNat_of_lt (by show 2 * x.toNat < 2 ^ 64; omega)]
  rfl

/-- The space of a code has that code. -/
theorem code_ofCode (code : UInt8) : (Space.ofCode code).code = code := by
  unfold Space.ofCode
  split
  · rfl
  · -- Below the codes of unknown spaces there are four of them.
    rename_i known
    have few : code.toNat ≤ 3 := UInt8.le_iff_toNat_le.mp (UInt8.not_lt.mp known)
    have exact (k : UInt8) (same : code.toNat = k.toNat) : code = k := UInt8.toNat_inj.mp same
    have cases : code = 0 ∨ code = 1 ∨ code = 2 ∨ code = 3 := by
      rcases (by omega : code.toNat = 0 ∨ code.toNat = 1 ∨ code.toNat = 2 ∨ code.toNat = 3) with
        zero | one | two | three
      · exact .inl (exact 0 zero)
      · exact .inr (.inl (exact 1 one))
      · exact .inr (.inr (.inl (exact 2 two)))
      · exact .inr (.inr (.inr (exact 3 three)))
    rcases cases with rfl | rfl | rfl | rfl <;> rfl

/-- A record stands for one instruction only. -/
theorem Means.unique [Stored α] {r : Record} {i j : Instr α} (means : r.Means i)
    (means' : r.Means j) : i = j := by
  obtain ⟨op, ⟨dstSpace, dstIndex, dstOffset⟩, ⟨srcSpace, srcIndex, srcOffset⟩, scalar, len⟩ := i
  obtain ⟨op', ⟨dstSpace', dstIndex', dstOffset'⟩, ⟨srcSpace', srcIndex', srcOffset'⟩, scalar',
    len'⟩ := j
  -- Spaces are told apart by their codes, and machine integers by what they count.
  have space {a b : Space} (same : a.code = b.code) : a = b := by
    rw [← Space.ofCode_code a, same, Space.ofCode_code]
  have integer {a b : Int64} (same : a.toInt = b.toInt) : a = b := Int64.toInt_inj.mp same
  obtain rfl : op = op' := Option.some.inj (means.op.symm.trans means'.op)
  obtain rfl := space (means.dstSpace.trans means'.dstSpace.symm)
  obtain rfl := integer (means.dstIndex.trans means'.dstIndex.symm)
  obtain rfl := integer (means.dstOffset.trans means'.dstOffset.symm)
  obtain rfl := space (means.srcSpace.trans means'.srcSpace.symm)
  obtain rfl := integer (means.srcIndex.trans means'.srcIndex.symm)
  obtain rfl := integer (means.srcOffset.trans means'.srcOffset.symm)
  obtain rfl : scalar = scalar' := means.scalar.trans means'.scalar.symm
  obtain rfl := integer (means.len.trans means'.len.symm)
  rfl

/-- The checks of a record are those for a proper one. -/
theorem proper_iff_checked {r : Record} :
    r.Proper ↔ (∃ op, Op.known[r.op.toNat]? = some op) ∧
      ¬ (r.dstSpace > Space.temp.code || r.srcSpace > Space.temp.code) = true ∧
      ¬ (r.dstOffset > limit || r.srcOffset > limit || r.len > limit) = true := by
  have space (x : UInt8) : ¬ x > Space.temp.code ↔ x.toNat ≤ 3 := by
    rw [gt_iff_lt, UInt8.not_lt, UInt8.le_iff_toNat_le]
    rfl
  have number (x : UInt64) : ¬ x > limit ↔ x.toNat ≤ 2 ^ 48 := by
    rw [gt_iff_lt, UInt64.not_lt, UInt64.le_iff_toNat_le]
    rfl
  -- A table of eight operations has an entry for each code below eight.
  have code : (∃ op, Op.known[r.op.toNat]? = some op) ↔ r.op.toNat < 8 := by
    constructor
    · rintro ⟨op, known⟩
      exact (List.getElem?_eq_some_iff.mp known).1
    · intro few
      exact ⟨_, List.getElem?_eq_getElem (show r.op.toNat < Op.known.length from few)⟩
  rw [Bool.or_eq_true, Bool.or_eq_true, Bool.or_eq_true, decide_eq_true_iff, decide_eq_true_iff,
    decide_eq_true_iff, decide_eq_true_iff, decide_eq_true_iff, not_or, not_or, not_or, space,
    space, number, number, number, code, proper_iff]
  constructor
  · rintro ⟨op, dst, src, dstOffset, srcOffset, len⟩
    exact ⟨op, ⟨dst, src⟩, ⟨dstOffset, srcOffset⟩, len⟩
  · rintro ⟨op, ⟨dst, src⟩, ⟨dstOffset, srcOffset⟩, len⟩
    exact ⟨op, dst, src, dstOffset, srcOffset, len⟩

/-- A record is read as the instruction it stands for, if it is proper. -/
theorem toInstr_iff [Stored α] {r : Record} {i : Instr α} :
    r.toInstr = .ok i ↔ r.Proper ∧ r.Means i := by
  -- Past the checks, what is read is what the record means.
  have read (proper : r.Proper) : ∃ j : Instr α, r.toInstr = .ok j ∧ r.Means j := by
    obtain ⟨⟨op, known⟩, spaces, range⟩ := proper_iff_checked.mp proper
    refine ⟨_, by rw [toInstr, known]; exact (if_neg spaces).trans (if_neg range), ?_⟩
    -- Indices are too short to reach the sign, and numbers in range too small.
    have index (x : UInt32) : x.toUInt64.toInt64.toInt = x.toNat := by
      rw [toInt_toInt64 (by rw [UInt32.toNat_toUInt64]; have := x.toNat_lt; omega),
        UInt32.toNat_toUInt64]
    have number {x : UInt64} (small : x.toNat ≤ 2 ^ 48) : x.toInt64.toInt = x.toNat :=
      toInt_toInt64 (by omega)
    exact ⟨known, code_ofCode _, index _, number proper.dstOffset, code_ofCode _, index _,
      number proper.srcOffset, rfl, number proper.len⟩
  constructor
  · intro made
    have proper : r.Proper := by
      rw [proper_iff_checked]
      unfold toInstr at made
      split at made
      · cases made
      · rename_i op known
        split at made
        · cases made
        · rename_i spaces
          split at made
          · cases made
          · rename_i range
            exact ⟨⟨op, known⟩, spaces, range⟩
    -- There is one answer, so it is the one that the record stands for.
    obtain ⟨j, same, means⟩ := read proper
    obtain rfl : i = j := by simpa using made.symm.trans same
    exact ⟨proper, means⟩
  · rintro ⟨proper, means⟩
    obtain ⟨j, made, means'⟩ := read proper
    rw [made, means.unique means']

end Record

namespace ProgramFile

/-- Instructions are read from the bytes of records, one by one. -/
theorem instrs_flatMap_eq_ok [Stored α] {rs : List PaddedRecord} {is : List (Instr α)}
    {index : Nat} :
    instrs index rs.length (rs.flatMap PaddedRecord.bytes) = .ok is ↔
      List.Forall₂ (fun r i => r.fields.Proper ∧ r.fields.Means i) rs is := by
  induction rs generalizing index is with
  | nil => simp [instrs, eq_comm]
  | cons r rs ih =>
    -- The bytes of the first record are told from the others by their number.
    have own : (r.bytes ++ rs.flatMap PaddedRecord.bytes).take Record.size = r.bytes :=
      List.take_left' r.length_bytes
    have rest : (r.bytes ++ rs.flatMap PaddedRecord.bytes).drop Record.size =
        rs.flatMap PaddedRecord.bytes := List.drop_left' r.length_bytes
    have fields : Record.ofBytes r.bytes = r.fields :=
      congrArg PaddedRecord.fields r.ofBytes_bytes
    rw [List.flatMap_cons, List.length_cons, instrs, own, rest, fields]
    cases read : (r.fields.toInstr : Except RecordFault (Instr α)) with
    | error fault =>
      -- Nothing is read from a record that is not proper.
      constructor
      · intro found
        cases found
      · intro each
        cases each with
        | cons first _ => cases read.symm.trans (Record.toInstr_iff.mpr first)
    | ok i =>
      -- The first instruction is fixed by its record, and the others by theirs.
      have first := Record.toInstr_iff.mp read
      constructor
      · intro found
        obtain ⟨others, later, rfl⟩ := ok_of_map found
        exact .cons first (ih.mp later)
      · intro each
        cases each with
        | @cons _ j _ js first' others =>
          obtain rfl := first.2.unique first'.2
          dsimp only
          rw [ih.mpr others]
          rfl

end ProgramFile

end Tangent
