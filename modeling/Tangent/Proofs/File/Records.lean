import Tangent.File.Codec
import Tangent.Proofs.Action
import Tangent.Proofs.Count
import Tangent.Proofs.Decimal.Nearest

/-!
Instructions as records.

A record is read back from its bytes. The instruction that is read from the record of another one is
that instruction with the high bits of its indices gone, or there is none because a field is out of
the range of records. So an instruction is kept, or refused, if its indices have no high bits.
-/

namespace Tangent

variable {α : Type}

namespace Record

/-- What is read behind some bytes is read from what follows them. -/
theorem uintAt_append {front back : Bytes} {position : Nat} (behind : front.length ≤ position)
    (width : Nat) :
    uintAt (front ++ back) position width = uintAt back (position - front.length) width := by
  -- The bytes in front are dropped before any are read.
  rw [uintAt, uintAt, List.drop_append, List.drop_eq_nil_of_le behind, List.nil_append]

/-- An integer in front is read back. -/
theorem uintAt_littleEndian {width n : Nat} (fits : n < Nat.pow 256 width) (back : Bytes) :
    uintAt (littleEndian width n ++ back) 0 width = n := by
  -- The integer takes all of its bytes and none of the others.
  rw [uintAt, List.drop_zero, List.take_left' (length_littleEndian width n),
    ofLittleEndian_littleEndian width n fits]

end Record

/-- A record with the bytes between its fields. -/
structure PaddedRecord where
  fields : Record
  first : UInt8
  second : UInt32
deriving DecidableEq

namespace PaddedRecord

/-- The bytes of a record and between its fields. -/
def bytes (r : PaddedRecord) : Bytes :=
  [r.fields.op, r.fields.dstSpace, r.fields.srcSpace, r.first] ++
    littleEndian 4 r.fields.dstIndex.toNat ++ littleEndian 8 r.fields.dstOffset.toNat ++
    littleEndian 4 r.fields.srcIndex.toNat ++ littleEndian 4 r.second.toNat ++
    littleEndian 8 r.fields.srcOffset.toNat ++ littleEndian 8 r.fields.scalar.toNat ++
    littleEndian 8 r.fields.len.toNat

/-- The record in forty-eight bytes, with what stands between its fields. -/
def ofBytes (bytes : Bytes) : PaddedRecord :=
  ⟨Record.ofBytes bytes, UInt8.ofNat (Record.uintAt bytes 3 1),
    UInt32.ofNat (Record.uintAt bytes 20 4)⟩

/-- A record has a fixed number of bytes. -/
theorem length_bytes (r : PaddedRecord) : r.bytes.length = Record.size := by
  -- Each field has a fixed number of bytes, and so have the gaps between them.
  simp [bytes, Record.size]

/-- A record is read back from its bytes, and so is what stands between its fields. -/
theorem ofBytes_bytes (r : PaddedRecord) : ofBytes r.bytes = r := by
  have narrow (x : UInt32) : x.toNat < Nat.pow 256 4 := x.toNat_lt
  have wide (x : UInt64) : x.toNat < Nat.pow 256 8 := x.toNat_lt
  -- The last integer has nothing behind it.
  have last : littleEndian 8 r.fields.len.toNat = littleEndian 8 r.fields.len.toNat ++ [] :=
    (List.append_nil _).symm
  rw [ofBytes, Record.ofBytes, bytes, last]
  simp only [List.append_assoc]
  -- Every field is reached by passing over those before it.
  simp only [Record.uintAt_append, Record.uintAt_littleEndian, narrow, wide, length_littleEndian,
    List.length_cons, List.length_nil, Nat.reduceAdd, Nat.reduceLeDiff, Nat.reduceSub, Nat.le_refl,
    Nat.sub_self]
  simp [Record.uintAt, ofLittleEndian]

end PaddedRecord

namespace Record

/-- A record is written with zeros between its fields. -/
theorem bytes_eq (r : Record) : r.bytes = (PaddedRecord.mk r 0 0).bytes := by
  -- A gap has as many zeros as the integer zero has bytes.
  have zeros : littleEndian 4 (0 : UInt32).toNat = [0, 0, 0, 0] := by decide
  simp only [bytes, PaddedRecord.bytes, zeros]

/-- A record has a fixed number of bytes. -/
theorem length_bytes (r : Record) : r.bytes.length = size := by
  -- The gaps count as well.
  rw [bytes_eq, PaddedRecord.length_bytes]

/-- A record is read back from its bytes. -/
theorem ofBytes_bytes (r : Record) : ofBytes r.bytes = r := by
  -- With zeros between its fields a record is a padded one.
  rw [bytes_eq]
  exact congrArg PaddedRecord.fields (PaddedRecord.ofBytes_bytes ⟨r, 0, 0⟩)

end Record

/-- An operand with the low thirty-two bits of its index. -/
def Ref.narrowed (r : Ref) : Ref := { r with index := r.index.toUInt64.toUInt32.toUInt64.toInt64 }

/-- An operand whose space is known and whose offset is not too large for a record. -/
def Ref.Storable (r : Ref) : Prop := r.space.code ≤ 3 ∧ r.offset.toInt ≤ 2 ^ 48

instance (r : Ref) : Decidable r.Storable := inferInstanceAs (Decidable (_ ∧ _))

/-- An instruction with the low thirty-two bits of its indices. -/
def Instr.narrowed (i : Instr α) : Instr α :=
  { i with dst := i.dst.narrowed, src := i.src.narrowed }

/-- An instruction with all its fields in the range of records, also those it makes no use of. -/
def Instr.Storable (i : Instr α) : Prop :=
  i.dst.Storable ∧ i.src.Storable ∧ i.len.toInt ≤ 2 ^ 48

instance (i : Instr α) : Decidable i.Storable := inferInstanceAs (Decidable (_ ∧ _))

namespace Ref

/-- An operand comes back with the remainder of its index modulo `2 ^ 32`. -/
theorem narrowed_eq_ofInt {r : Ref} (nonneg : ¬ r.index < 0) :
    r.narrowed = { r with index := Int64.ofInt (r.index.toInt % 2 ^ 32) } := by
  obtain ⟨k, index, exact⟩ := exists_eq_ofNat (Int64.not_lt.mp nonneg)
  -- A word with its high half gone is the remainder of its number.
  have word : (Int64.ofNat k).toUInt64.toUInt32.toUInt64 = UInt64.ofNat (k % 2 ^ 32) := by
    rw [← UInt64.toNat_inj, show (Int64.ofNat k).toUInt64 = UInt64.ofNat k from rfl]
    simp only [UInt32.toNat_toUInt64, UInt64.toNat_toUInt32, UInt64.toNat_ofNat']
    omega
  rw [narrowed, exact, index, word]
  rfl

/-- An operand comes back as it was if its index has no bits above the low ones. -/
theorem narrowed_eq_iff {r : Ref} (nonneg : ¬ r.index < 0) :
    r.narrowed = r ↔ r.index.toInt < 2 ^ 32 := by
  have exact := narrowed_eq_ofInt nonneg
  rw [Int64.lt_iff_toInt_lt, Int64.toInt_zero] at nonneg
  constructor
  · intro same
    rw [same] at exact
    -- The remainder of an index is below the modulus.
    have index := congrArg (fun r => r.index.toInt) exact
    dsimp only at index
    rw [Int64.toInt_ofInt_of_le (by omega) (by omega)] at index
    omega
  · intro low
    rw [exact, Int.emod_eq_of_lt (by omega) low, Int64.ofInt_toInt]

end Ref

/-- An instruction comes back as it was if neither index has bits above the low ones. -/
theorem Instr.narrowed_eq_iff {i : Instr α} (dst : ¬ i.dst.index < 0) (src : ¬ i.src.index < 0) :
    i.narrowed = i ↔ i.dst.index.toInt < 2 ^ 32 ∧ i.src.index.toInt < 2 ^ 32 := by
  -- The indices are the only fields that are cut.
  rw [← Ref.narrowed_eq_iff dst, ← Ref.narrowed_eq_iff src]
  constructor
  · intro same
    exact ⟨congrArg Instr.dst same, congrArg Instr.src same⟩
  · rintro ⟨first, second⟩
    rw [narrowed, first, second]

namespace Record

/-- A number that is not negative is out of range as a word when it is out of range itself. -/
theorem toUInt64_gt_limit {x : Int64} (nonneg : ¬ x < 0) :
    x.toUInt64 > limit ↔ ¬ x.toInt ≤ 2 ^ 48 := by
  -- It is a natural number, and so is the word.
  obtain ⟨k, rfl, exact⟩ := exists_eq_ofNat (Int64.not_lt.mp nonneg)
  have below := Int64.toInt_lt (Int64.ofNat k)
  have word : (Int64.ofNat k).toUInt64.toNat = k := by
    rw [show (Int64.ofNat k).toUInt64 = UInt64.ofNat k from rfl, UInt64.toNat_ofNat']
    exact Nat.mod_eq_of_lt (by omega)
  rw [gt_iff_lt, UInt64.lt_iff_toNat_lt, word, exact, show limit.toNat = 2 ^ 48 from rfl]
  omega

/-- An instruction has a record when its operation is known and none of its numbers is negative. -/
theorem ofInstr?_eq_some [Stored α] {i : Instr α} {r : Record} (made : ofInstr? i = some r) :
    ∃ code, Op.known.idxOf? i.op = some code ∧
      (¬ i.dst.index < 0 ∧ ¬ i.src.index < 0) ∧ ¬ i.dst.offset < 0 ∧ ¬ i.src.offset < 0 ∧
      ¬ i.len < 0 ∧
      r = { op := UInt8.ofNat code
            dstSpace := i.dst.space.code
            srcSpace := i.src.space.code
            dstIndex := i.dst.index.toUInt64.toUInt32
            dstOffset := i.dst.offset.toUInt64
            srcIndex := i.src.index.toUInt64.toUInt32
            srcOffset := i.src.offset.toUInt64
            scalar := Stored.toBits i.scalar
            len := i.len.toUInt64 } := by
  -- Both checks were passed, and the fields are what is left.
  unfold ofInstr? at made
  split at made
  · cases made
  · rename_i code known
    split at made
    · cases made
    · rename_i nonneg
      simp only [Bool.or_eq_true, decide_eq_true_eq, not_or] at nonneg
      obtain ⟨⟨⟨⟨dstIndex, srcIndex⟩, dstOffset⟩, srcOffset⟩, len⟩ := nonneg
      exact ⟨code, known, ⟨dstIndex, srcIndex⟩, dstOffset, srcOffset, len,
        (Option.some.inj made).symm⟩

/-- A known operation is found under its number. -/
theorem known_getElem? {op : Op} {code : Nat} (known : Op.known.idxOf? op = some code) :
    Op.known[(UInt8.ofNat code).toNat]? = some op := by
  -- There are eight operations, so their numbers are not wrapped around by a byte.
  obtain ⟨inside, found, _⟩ := List.idxOf?_eq_some_iff.mp known
  have few : code < 8 := inside
  rw [UInt8.toNat_ofNat', Nat.mod_eq_of_lt (by omega), List.getElem?_eq_getElem inside, found]

/--
What is read from the record of an instruction.

The spaces are looked at first, then the numbers, and past both checks the fields come back.
-/
theorem toInstr_eq [Stored α] [LawfulStored α] {i : Instr α} {r : Record}
    (made : ofInstr? i = some r) :
    r.toInstr =
      if i.dst.space.code ≤ 3 ∧ i.src.space.code ≤ 3 then
        if i.dst.offset.toInt ≤ 2 ^ 48 ∧ i.src.offset.toInt ≤ 2 ^ 48 ∧ i.len.toInt ≤ 2 ^ 48 then
          .ok i.narrowed
        else .error .range
      else .error .space := by
  obtain ⟨code, known, _, dst, src, len, rfl⟩ := ofInstr?_eq_some made
  -- Each check is about words or codes, and says the same about the numbers.
  have spaces : (i.dst.space.code > Space.temp.code || i.src.space.code > Space.temp.code) = true ↔
      ¬ (i.dst.space.code ≤ 3 ∧ i.src.space.code ≤ 3) := by
    rw [Bool.or_eq_true, decide_eq_true_iff, decide_eq_true_iff, not_and_or, UInt8.not_le,
      UInt8.not_le]
    rfl
  have range : (i.dst.offset.toUInt64 > limit || i.src.offset.toUInt64 > limit ||
      i.len.toUInt64 > limit) = true ↔
      ¬ (i.dst.offset.toInt ≤ 2 ^ 48 ∧ i.src.offset.toInt ≤ 2 ^ 48 ∧ i.len.toInt ≤ 2 ^ 48) := by
    rw [Bool.or_eq_true, Bool.or_eq_true, decide_eq_true_iff, decide_eq_true_iff,
      decide_eq_true_iff, toUInt64_gt_limit dst, toUInt64_gt_limit src, toUInt64_gt_limit len]
    tauto
  -- The operation is found again, and the checks decide about the rest.
  rw [toInstr, known_getElem? known]
  dsimp only
  rw [Space.ofCode_code, Space.ofCode_code, LawfulStored.ofBits_toBits, if_congr spaces rfl rfl,
    if_congr range rfl rfl, ite_not, ite_not]
  rfl

/-- An instruction is read from the record of another one if that one is in the range of records. -/
theorem toInstr_eq_ok [Stored α] [LawfulStored α] {i j : Instr α} {r : Record}
    (made : ofInstr? i = some r) : r.toInstr = .ok j ↔ i.Storable ∧ j = i.narrowed := by
  rw [toInstr_eq made]
  simp only [Instr.Storable, Ref.Storable]
  split_ifs with known inside
  · -- Past both checks all fields are in range, and a check that fails names one that is not.
    rw [Except.ok.injEq]
    exact ⟨fun same => ⟨⟨⟨known.1, inside.1⟩, ⟨known.2, inside.2.1⟩, inside.2.2⟩, same.symm⟩,
      fun found => found.2.symm⟩
  · exact iff_of_false (by simp) (fun found => inside ⟨found.1.1.2, found.1.2.1.2, found.1.2.2⟩)
  · exact iff_of_false (by simp) (fun found => known ⟨found.1.1.1, found.1.2.1.1⟩)

/-- An instruction whose record is refused has a field out of range. -/
theorem not_storable_of_error [Stored α] [LawfulStored α] {i : Instr α} {r : Record}
    {fault : RecordFault} (made : ofInstr? i = some r)
    (read : (r.toInstr : Except RecordFault (Instr α)) = .error fault) : ¬ i.Storable := by
  -- With all fields in range the record would have been read.
  intro storable
  rw [(toInstr_eq_ok made).mpr ⟨storable, rfl⟩] at read
  cases read

end Record

namespace ProgramFile

/-- Records that come out are those of the instructions, one by one. -/
theorem forall₂_of_records [Written α] [Stored α] {is : List (Instr α)} {rs : List Record}
    {index : Nat} (made : records index is = .ok rs) :
    List.Forall₂ (fun i r => Record.ofInstr? i = some r) is rs := by
  induction is generalizing index rs with
  | nil =>
    cases made
    exact .nil
  | cons i rest ih =>
    unfold records at made
    split at made
    · cases made
    · -- The record of the first instruction is followed by those of the others.
      rename_i r first
      obtain ⟨others, later, rfl⟩ := ok_of_map made
      exact .cons first (ih later)

/-- Instructions are read from the bytes of the records of others, one by one. -/
theorem instrs_eq_ok [Stored α] [LawfulStored α] {is js : List (Instr α)} {rs : List Record}
    {index : Nat} (made : List.Forall₂ (fun i r => Record.ofInstr? i = some r) is rs) :
    instrs index rs.length (rs.flatMap Record.bytes) = .ok js ↔
      (∀ i ∈ is, i.Storable) ∧ js = is.map Instr.narrowed := by
  induction made generalizing index js with
  | nil => simp [instrs, eq_comm]
  | @cons i r is rs first others ih =>
    -- The bytes of the first record are told from the others by their number.
    have own : (r.bytes ++ rs.flatMap Record.bytes).take Record.size = r.bytes :=
      List.take_left' r.length_bytes
    have rest : (r.bytes ++ rs.flatMap Record.bytes).drop Record.size = rs.flatMap Record.bytes :=
      List.drop_left' r.length_bytes
    rw [List.flatMap_cons, List.length_cons, instrs, own, rest, Record.ofBytes_bytes]
    cases read : (r.toInstr : Except RecordFault (Instr α)) with
    | error fault => simp [Record.not_storable_of_error first read]
    | ok j =>
      obtain ⟨storable, rfl⟩ := (Record.toInstr_eq_ok first).mp read
      simp only [List.forall_mem_cons, storable, true_and, List.map_cons]
      constructor
      · intro found
        obtain ⟨js, later, rfl⟩ := ok_of_map found
        obtain ⟨each, rfl⟩ := ih.mp later
        exact ⟨each, rfl⟩
      · rintro ⟨each, rfl⟩
        rw [ih.mpr ⟨each, rfl⟩]
        rfl

/-- A single record is read for itself, and a fault is reported with its position. -/
theorem instrs_one [Stored α] (position : Nat) (r : Record) :
    (instrs position 1 r.bytes : Except FileError (List (Instr α))) =
      (r.toInstr.mapError (.record position)).map (fun i => [i]) := by
  -- The bytes of one record are all that is taken.
  have own : r.bytes.take Record.size = r.bytes :=
    List.take_of_length_le (Nat.le_of_eq r.length_bytes)
  rw [instrs, own, Record.ofBytes_bytes]
  cases (r.toInstr : Except RecordFault (Instr α)) <;> rfl

/--
What is read at a position of a file from the record of an instruction.

A space or a number out of the range of records is refused. Any other instruction comes back with
the remainders of its indices, without a sign that one of them was larger. So what is read is an
error or the instruction itself if and only if it is refused or both indices are below `2 ^ 32`.
-/
theorem record_keeps_iff_narrow [Stored α] [LawfulStored α] {i : Instr α} {r : Record}
    (made : Record.ofInstr? i = some r) (position : Nat) :
    (instrs position 1 r.bytes : Except FileError (List (Instr α))) =
      (if i.dst.space.code ≤ 3 ∧ i.src.space.code ≤ 3 then
        if i.dst.offset.toInt ≤ 2 ^ 48 ∧ i.src.offset.toInt ≤ 2 ^ 48 ∧ i.len.toInt ≤ 2 ^ 48 then
          .ok [{ i with
            dst := { i.dst with index := Int64.ofInt (i.dst.index.toInt % 2 ^ 32) }
            src := { i.src with index := Int64.ofInt (i.src.index.toInt % 2 ^ 32) } }]
        else .error (.record position .range)
      else .error (.record position .space)) ∧
    ((∃ cause, (instrs position 1 r.bytes : Except FileError (List (Instr α))) = .error cause) ∨
        instrs position 1 r.bytes = .ok [i] ↔
      ¬ i.Storable ∨ i.dst.index.toInt < 2 ^ 32 ∧ i.src.index.toInt < 2 ^ 32) := by
  obtain ⟨_, _, ⟨dst, src⟩, _⟩ := Record.ofInstr?_eq_some made
  constructor
  · -- The remainders are those of the words that the record has.
    rw [instrs_one, Record.toInstr_eq made, Instr.narrowed, Ref.narrowed_eq_ofInt dst,
      Ref.narrowed_eq_ofInt src]
    split_ifs <;> rfl
  · rw [← Instr.narrowed_eq_iff dst src, instrs_one]
    cases read : (r.toInstr : Except RecordFault (Instr α)) with
    -- A record that is refused has a field out of range, and any other one may lose bits.
    | error fault =>
      exact iff_of_true (.inl ⟨_, rfl⟩) (.inl (Record.not_storable_of_error made read))
    | ok j =>
      obtain ⟨storable, rfl⟩ := (Record.toInstr_eq_ok made).mp read
      simp [Except.mapError, Except.map, storable]

/-- A request for the most elements a record has room for, with the highest index. -/
def widestAlloc : Instr Float := ⟨.alloc, ⟨.temp, 0xffffffff, 0⟩, .value, 0.5, 0x1000000000000⟩

/-- The highest index of a record is kept, at whatever position. -/
theorem record_keeps_iff_narrow_widest :
    ∃ r, Record.ofInstr? widestAlloc = some r ∧ instrs 7 1 r.bytes = .ok [widestAlloc] := by
  -- The record is made by calculation, and its index is just below the bound.
  obtain ⟨r, made⟩ : ∃ r, Record.ofInstr? widestAlloc = some r := ⟨_, rfl⟩
  have read := (record_keeps_iff_narrow made 7).1
  rw [if_pos (by decide), if_pos (by decide)] at read
  exact ⟨r, made, read⟩

/-- A request with the next index. -/
def highAlloc : Instr Float := ⟨.alloc, ⟨.temp, 0x100000000, 0⟩, .value, 0.5, 1⟩

/-- The next index is read as zero. -/
theorem high_index_lost : highAlloc.dst.index ≠ 0 ∧ ∃ r, Record.ofInstr? highAlloc = some r ∧
    instrs 0 1 r.bytes = .ok [{ highAlloc with dst := ⟨.temp, 0, 0⟩ }] := by
  -- The record is made by calculation, and drops the one bit that the index has.
  obtain ⟨r, made⟩ : ∃ r, Record.ofInstr? highAlloc = some r := ⟨_, rfl⟩
  refine ⟨by decide, r, made, ?_⟩
  rw [instrs_one, (Record.toInstr_eq_ok made).mpr ⟨by decide, rfl⟩]
  rfl

end ProgramFile

end Tangent
