import Tangent.Proofs.File.Padded

/-!
Reading a file with every access checked.

A strict reader asks before it cuts bytes, looks into a table or sets memory aside, and stops at a
fault where that is not possible. It multiplies as machine words do. No bytes bring it to a fault:
it answers as the reader does.
-/

namespace Tangent

variable {ε α κ : Type}

namespace Strict

/-- The bytes between two positions, which must be in order and inside. -/
def slice (bytes : Bytes) (first last : Int) : Except (Halt ε) Bytes :=
  if 0 ≤ first ∧ first ≤ last ∧ last ≤ bytes.length then
    .ok ((bytes.take last.toNat).drop first.toNat)
  else .error (.fault .access)

/-- The entry of a table at a position, which must be inside. -/
def entry (table : List κ) (position : Nat) : Except (Halt ε) κ :=
  match table[position]? with
  | some found => .ok found
  | none => .error (.fault .access)

/-- Sets memory aside for elements of some bytes each, which must all have addresses. -/
def reserve (count width : Nat) : Except (Halt ε) Unit :=
  if count * width ≤ 2 ^ 48 then .ok () else .error (.fault .access)

/-- The number of bytes that an instruction takes in memory. -/
def instrSize : Nat := 80

/-- The instruction of a record at a position. -/
def toInstr [Stored α] (index : Nat) (r : Record) : Except (Halt FileError) (Instr α) := do
  if r.op.toNat ≥ Op.known.length then throw (.error (.record index .opCode))
  if r.dstSpace > Space.temp.code || r.srcSpace > Space.temp.code then
    throw (.error (.record index .space))
  if r.dstOffset > Record.limit || r.srcOffset > Record.limit || r.len > Record.limit then
    throw (.error (.record index .range))
  let op ← entry Op.known r.op.toNat
  return {
    op
    dst := ⟨Space.ofCode r.dstSpace, r.dstIndex.toUInt64.toInt64, r.dstOffset.toInt64⟩
    src := ⟨Space.ofCode r.srcSpace, r.srcIndex.toUInt64.toInt64, r.srcOffset.toInt64⟩
    scalar := Stored.ofBits r.scalar
    len := r.len.toInt64 }

/-- The instructions of records from a position on. -/
def instrs [Stored α] (index : Nat) : Nat → Bytes → Except (Halt FileError) (List (Instr α))
  | 0, _ => .ok []
  | count + 1, bytes => do
    let i ← toInstr index (Record.ofBytes (← slice bytes 0 Record.size))
    let others ← instrs (index + 1) count (← slice bytes Record.size bytes.length)
    return i :: others

/-- Reads as many records as were counted. -/
def counted [Stored α] (count : UInt64) (bytes : Bytes) :
    Except (Halt FileError) (List (Instr α)) := do
  -- The product is a machine word, and wraps around where it is too large.
  if count.toNat > ProgramFile.maxInstrs ||
      (count * UInt64.ofNat Record.size).toNat ≠ bytes.length then
    throw (.error (.count count.toNat bytes.length))
  reserve count.toNat instrSize
  instrs 0 count.toNat bytes

/-- Reads what follows the header: the number of records, and the records. -/
def decodeRecords [Stored α] (bytes : Bytes) : Except (Halt FileError) (List (Instr α)) := do
  if bytes.length < 8 then throw (.error (.noCount bytes.isEmpty))
  let front ← slice bytes 0 8
  let rest ← slice bytes 8 bytes.length
  counted (UInt64.ofNat (ofLittleEndian front)) rest

/-- Reads what follows the size of the header: the header and the records. -/
def headed [Written α] [Stored α] (flags size : Nat) (bytes : Bytes) :
    Except (Halt FileError) (Program α) := do
  if size > ProgramFile.maxHeader || size > bytes.length then throw (.error .headerSize)
  reserve size 1
  let text ← slice bytes 0 size
  let behind ← slice bytes size bytes.length
  match Header.read? text with
  | none => throw (.error .headerText)
  | some header =>
    let is ← decodeRecords behind
    (ProgramFile.assemble flags header is).mapError .error

/-- Reads what follows the digest check: version, flags, header and records. -/
def decodeBody [Written α] [Stored α] (bytes : Bytes) : Except (Halt FileError) (Program α) := do
  let version ← slice bytes 0 4
  if ofLittleEndian version ≠ ProgramFile.version then
    throw (.error (.version (ofLittleEndian version)))
  let flags ← slice bytes 4 8
  let size ← slice bytes 8 16
  let rest ← slice bytes 16 bytes.length
  headed (ofLittleEndian flags) (ofLittleEndian size) rest

/-- The program of a file. -/
def decode [Written α] [Stored α] (bytes : Bytes) : Except (Halt FileError) (Program α) := do
  if bytes.length < ProgramFile.minSize then throw (.error .tooShort)
  let front ← slice bytes 0 ProgramFile.magic.length
  if front != ProgramFile.magic then throw (.error .magic)
  let body ← slice bytes 0 (bytes.length - ProgramFile.digestSize)
  let stored ← slice bytes (bytes.length - ProgramFile.digestSize) bytes.length
  (ProgramFile.checkDigest (Sha256.hash body) stored).mapError .error
  let fields ← slice body ProgramFile.magic.length body.length
  decodeBody fields

/-- Bytes from the front are cut off if there are as many. -/
theorem slice_front {bytes : Bytes} {count : Nat} (long : count ≤ bytes.length) :
    (slice bytes 0 count : Except (Halt ε) Bytes) = .ok (bytes.take count) := by
  -- Zero is no position behind the end.
  rw [slice, if_pos (by omega)]
  rfl

/-- Bytes in the middle are cut out if there are as many. -/
theorem slice_middle {bytes : Bytes} {first last : Nat} (ordered : first ≤ last)
    (long : last ≤ bytes.length) :
    (slice bytes first last : Except (Halt ε) Bytes) =
      .ok ((bytes.drop first).take (last - first)) := by
  -- The positions are in order and none is behind the end.
  rw [slice, if_pos (by omega), Int.toNat_natCast, Int.toNat_natCast, List.drop_take]

/-- The bytes from a position on are what is left without those before it. -/
theorem slice_back {bytes : Bytes} {first : Nat} (long : first ≤ bytes.length) :
    (slice bytes first bytes.length : Except (Halt ε) Bytes) = .ok (bytes.drop first) := by
  -- As many bytes are taken as are left.
  rw [slice_middle long (Nat.le_refl _), List.take_of_length_le (by rw [List.length_drop])]

/-- A record is read by the strict reader as by the other one. -/
theorem toInstr_eq [Stored α] (index : Nat) (r : Record) :
    (toInstr index r : Except (Halt FileError) (Instr α)) =
      r.toInstr.mapError (fun fault => .error (.record index fault)) := by
  unfold toInstr Record.toInstr entry
  dsimp only
  rw [guard_eq, guard_eq, guard_eq]
  cases known : Op.known[r.op.toNat]? with
  | none =>
    -- A code behind the table is refused before the table is asked.
    rw [if_pos (List.getElem?_eq_none_iff.mp known)]
    rfl
  | some op =>
    have inside : ¬ r.op.toNat ≥ Op.known.length :=
      Nat.not_le.mpr (List.getElem?_eq_some_iff.mp known).1
    -- Any other code is in the table, and the two checks after it are the same.
    rw [if_neg inside]
    dsimp only
    split
    · rfl
    · split <;> rfl

/-- Records are read by the strict reader as by the other one, where there are enough bytes. -/
theorem instrs_eq [Stored α] (count : Nat) : ∀ (index : Nat) (bytes : Bytes),
    bytes.length = count * Record.size →
    (instrs index count bytes : Except (Halt FileError) (List (Instr α))) =
      (ProgramFile.instrs index count bytes).mapError .error := by
  induction count with
  | zero => exact fun _ _ _ => rfl
  | succ count ih =>
    intro index bytes length
    -- There is a record in front, and behind it there are as many bytes as the others take.
    rw [Nat.succ_mul] at length
    have others := ih (index + 1) (bytes.drop Record.size) (by rw [List.length_drop]; omega)
    have first : (slice bytes 0 Record.size : Except (Halt FileError) Bytes) = _ :=
      slice_front (by omega)
    have behind : (slice bytes Record.size bytes.length : Except (Halt FileError) Bytes) = _ :=
      slice_back (by omega)
    rw [instrs, ProgramFile.instrs, first, behind]
    -- What is left are the two readers of one record, and those of the others.
    show (toInstr index _ >>= fun i => instrs (index + 1) count (bytes.drop Record.size) >>=
      fun rest => pure (i :: rest)) = _
    rw [toInstr_eq, others]
    cases ((Record.ofBytes (bytes.take Record.size)).toInstr : Except RecordFault (Instr α)) with
    | error fault => rfl
    | ok i =>
      cases (ProgramFile.instrs (index + 1) count (bytes.drop Record.size) :
        Except FileError (List (Instr α))) <;> rfl

/-- Memory for a number of small elements can be set aside. -/
theorem reserve_eq {count width : Nat} (small : count * width ≤ 2 ^ 48) :
    (reserve count width : Except (Halt ε) Unit) = .ok () := if_pos small

/-- As many records are read as by the other reader, since their number is checked first. -/
theorem counted_eq [Stored α] (count : UInt64) (bytes : Bytes) :
    (counted count bytes : Except (Halt FileError) (List (Instr α))) =
      Except.mapError Halt.error
        (if count.toNat > ProgramFile.maxInstrs || count.toNat * Record.size ≠ bytes.length then
          .error (.count count.toNat bytes.length)
        else ProgramFile.instrs 0 count.toNat bytes) := by
  unfold counted
  dsimp only
  rw [guard_eq]
  by_cases many : count.toNat > ProgramFile.maxInstrs
  · rw [if_pos (by simp [many]), if_pos (by simp [many])]
    rfl
  · -- A small count has a product that does not wrap around, and room in memory.
    have few : count.toNat ≤ 2 ^ 24 := Nat.not_lt.mp many
    have product : (count * UInt64.ofNat Record.size).toNat = count.toNat * Record.size := by
      rw [UInt64.toNat_mul, show (UInt64.ofNat Record.size).toNat = Record.size from rfl]
      exact Nat.mod_eq_of_lt (by rw [Record.size]; omega)
    rw [product]
    by_cases fits : count.toNat * Record.size = bytes.length
    · have passed : ¬ (decide (count.toNat > ProgramFile.maxInstrs) ||
          decide (count.toNat * Record.size ≠ bytes.length)) = true := by simp [many, fits]
      rw [if_neg passed, if_neg passed, reserve_eq (by rw [instrSize]; omega)]
      exact instrs_eq _ 0 bytes fits.symm
    · rw [if_pos (by simp [fits]), if_pos (by simp [fits])]
      rfl

/-- What follows the header is read by the strict reader as by the other one. -/
theorem decodeRecords_eq [Stored α] (bytes : Bytes) :
    (decodeRecords bytes : Except (Halt FileError) (List (Instr α))) =
      (ProgramFile.decodeRecords bytes).mapError .error := by
  unfold decodeRecords ProgramFile.decodeRecords splitBytes?
  dsimp only
  rw [guard_eq]
  by_cases short : bytes.length < 8
  · -- Fewer bytes than a number takes are an error of both.
    rw [if_pos short, if_neg (by omega)]
    rfl
  · have long : 8 ≤ bytes.length := by omega
    have front : (slice bytes 0 8 : Except (Halt FileError) Bytes) = .ok (bytes.take 8) :=
      slice_front long
    have back : (slice bytes 8 bytes.length : Except (Halt FileError) Bytes) = .ok (bytes.drop 8) :=
      slice_back long
    -- Eight bytes hold a machine word.
    have word : (UInt64.ofNat (ofLittleEndian (bytes.take 8))).toNat =
        ofLittleEndian (bytes.take 8) := by
      have below := ofLittleEndian_lt (bytes.take 8)
      rw [List.length_take, Nat.min_eq_left long] at below
      rw [UInt64.toNat_ofNat', Nat.mod_eq_of_lt below]
    rw [if_neg short, if_pos long, front, back]
    show counted _ _ = _
    rw [counted_eq, word]

/-- What follows the size of the header is read as the other reader does. -/
theorem headed_eq [Written α] [Stored α] (flags size : Nat) (bytes : Bytes) :
    (headed flags size bytes : Except (Halt FileError) (Program α)) =
      Except.mapError Halt.error
        (if size > ProgramFile.maxHeader || size > bytes.length then .error .headerSize
        else match (Header.read? (bytes.take size) : Option (Header α)) with
          | none => .error .headerText
          | some header => do
            let is ← ProgramFile.decodeRecords (bytes.drop size)
            ProgramFile.assemble flags header is) := by
  unfold headed
  dsimp only
  rw [guard_eq]
  by_cases large : (decide (size > ProgramFile.maxHeader) || decide (size > bytes.length)) = true
  · rw [if_pos large, if_pos large]
    rfl
  · -- A header of an accepted size has room in memory and lies inside the bytes.
    rw [if_neg large, if_neg large]
    simp only [Bool.or_eq_true, decide_eq_true_eq, not_or, Nat.not_lt] at large
    have few : size ≤ 2 ^ 24 := large.1
    rw [reserve_eq (by omega), slice_front large.2, slice_back large.2]
    show (match (Header.read? (bytes.take size) : Option (Header α)) with
      | none => _
      | some header => _) = _
    cases (Header.read? (bytes.take size) : Option (Header α)) with
    | none => rfl
    | some header =>
      -- The records are read alike, and the program is put together by the same function.
      dsimp only
      rw [decodeRecords_eq, mapError_bind]

/-- What follows the digest check is read as the other reader does, where there are enough bytes. -/
theorem decodeBody_eq [Written α] [Stored α] {bytes : Bytes} (long : 16 ≤ bytes.length) :
    (decodeBody bytes : Except (Halt FileError) (Program α)) =
      (ProgramFile.decodeBody bytes).mapError .error := by
  -- All fields of fixed size lie inside.
  have version : (slice bytes 0 4 : Except (Halt FileError) Bytes) = .ok (bytes.take 4) :=
    slice_front (show 4 ≤ bytes.length by omega)
  have flags : (slice bytes 4 8 : Except (Halt FileError) Bytes) = .ok ((bytes.drop 4).take 4) :=
    slice_middle (show 4 ≤ 8 by omega) (show 8 ≤ bytes.length by omega)
  have size : (slice bytes 8 16 : Except (Halt FileError) Bytes) = .ok ((bytes.drop 8).take 8) :=
    slice_middle (show 8 ≤ 16 by omega) long
  have rest : (slice bytes 16 bytes.length : Except (Halt FileError) Bytes) =
      .ok (bytes.drop 16) := slice_back long
  unfold decodeBody ProgramFile.decodeBody
  rw [version, ok_bind]
  dsimp only
  rw [guard_eq, flags, ok_bind, size, ok_bind, rest, ok_bind, headed_eq, guard_eq, guard_eq]
  split
  · rfl
  · -- Past the version both readers do the same with the same parts.
    congr 1

/-- No bytes bring the strict reader to a fault: it answers as the other one does. -/
theorem decode_eq [Written α] [Stored α] (bytes : Bytes) :
    (decode bytes : Except (Halt FileError) (Program α)) =
      (ProgramFile.decode bytes).mapError .error := by
  unfold decode ProgramFile.decode
  dsimp only
  rw [guard_eq, guard_eq]
  by_cases short : bytes.length < ProgramFile.minSize
  · rw [if_pos short, if_pos short]
    rfl
  · -- The shortest file has room for the mark, the digest and all fields of fixed size.
    have long : 60 ≤ bytes.length := Nat.not_lt.mp short
    have mark : ProgramFile.magic.length = 4 := rfl
    have digest : ProgramFile.digestSize = 32 := rfl
    have cut : (bytes.length : Int) - ProgramFile.digestSize =
        (bytes.length - ProgramFile.digestSize : Nat) := by omega
    have front : (slice bytes 0 ProgramFile.magic.length : Except (Halt FileError) Bytes) =
        .ok (bytes.take ProgramFile.magic.length) := slice_front (by omega)
    have body : (slice bytes 0 (bytes.length - ProgramFile.digestSize : Nat) :
        Except (Halt FileError) Bytes) =
        .ok (bytes.take (bytes.length - ProgramFile.digestSize)) := slice_front (by omega)
    have stored : (slice bytes (bytes.length - ProgramFile.digestSize : Nat) bytes.length :
        Except (Halt FileError) Bytes) =
        .ok (bytes.drop (bytes.length - ProgramFile.digestSize)) := slice_back (by omega)
    rw [if_neg short, if_neg short, cut, front, ok_bind, guard_eq, body, ok_bind, stored, ok_bind]
    generalize held : bytes.take (bytes.length - ProgramFile.digestSize) = fields
    -- The mark is in front of the digest, so it can be cut off.
    have length : fields.length = bytes.length - ProgramFile.digestSize := by
      rw [← held, List.length_take]
      omega
    have rest : (slice fields ProgramFile.magic.length fields.length :
        Except (Halt FileError) Bytes) = .ok (fields.drop ProgramFile.magic.length) :=
      slice_back (by omega)
    split
    · rfl
    · -- The digest is compared by the same function, and what is left is long enough.
      rw [rest, mapError_bind]
      congr 1
      funext _
      rw [ok_bind]
      exact decodeBody_eq (by rw [List.length_drop]; omega)

end Strict

end Tangent
