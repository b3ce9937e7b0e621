import Tangent.Proofs.File.Decoded
import Tangent.Proofs.File.Headers
import Tangent.Proofs.File.Records

/-!
What is read from a file that was written.

A saved program is laid out in parts of known length, so reading finds each of them again. What
comes out is the program with the high bits of its indices gone, unless one of the checks that only
the reader makes refuses it.
-/

namespace Tangent

variable {α : Type}

/-- A program with the low thirty-two bits of its indices. -/
def Program.narrowed (p : Program α) : Program α := { p with instrs := p.instrs.map Instr.narrowed }

namespace ProgramFile

/-- A program that was saved was checked, and laid out with its header and its records. -/
theorem exists_of_encode [Written α] [Stored α] {stamp : Option String} {p : Program α}
    {bytes : Bytes} (saved : encode stamp p = .ok bytes) :
    p.validate = .ok () ∧ checkLimits p = .ok () ∧ p.instrs.length ≤ maxInstrs ∧
      ∃ text rs, (headerOf p).write? stamp = some text ∧ records 0 p.instrs = .ok rs ∧
        bytes = sealed (layout (flags p) (bytesOf text) rs) := by
  -- The checks are made in turn, and only then are the header and the records written.
  unfold encode at saved
  obtain ⟨_, safe, saved⟩ := ok_of_bind saved
  obtain ⟨_, limited, saved⟩ := ok_of_bind saved
  obtain ⟨few, saved⟩ := ok_of_guard saved
  split at saved
  · simp [throw, throwThe, MonadExceptOf.throw] at saved
  · rename_i text written
    obtain ⟨rs, made, saved⟩ := ok_of_bind saved
    exact ⟨ok_of_mapError safe, ok_of_mapError limited, Nat.not_lt.mp few, text, rs, written, made,
      (Except.ok.inj saved).symm⟩

/-- A program that was checked is saved once its header and its records can be written. -/
theorem encode_of_checked [Written α] [Stored α] {stamp : Option String} {p : Program α}
    {text : String} {rs : List Record} (safe : p.validate = .ok ())
    (limited : checkLimits p = .ok ())
    (few : p.instrs.length ≤ maxInstrs) (written : (headerOf p).write? stamp = some text)
    (made : records 0 p.instrs = .ok rs) :
    encode stamp p = .ok (sealed (layout (flags p) (bytesOf text) rs)) := by
  -- Each of the checks was made, and each part was written.
  rw [encode, safe, limited, written, made]
  exact if_neg (Nat.not_lt.mpr few)

/-- An integer in front of other bytes is read back. -/
theorem ofLittleEndian_take {width n : Nat} (fits : n < Nat.pow 256 width) (rest : Bytes) :
    ofLittleEndian ((littleEndian width n ++ rest).take width) = n := by
  -- The bytes of the integer are those that are taken.
  rw [List.take_left' (length_littleEndian width n), ofLittleEndian_littleEndian width n fits]

/-- Where there is room for a number of records, it is read first. -/
theorem decodeRecords_counted [Stored α] {count : Nat} (fits : count < Nat.pow 256 8)
    (rest : Bytes) :
    (decodeRecords (littleEndian 8 count ++ rest) : Except FileError (List (Instr α))) =
      if count > maxInstrs || count * Record.size ≠ rest.length then
        .error (.count count rest.length)
      else instrs 0 count rest := by
  -- The number takes up the first eight bytes.
  have split : splitBytes? 8 (littleEndian 8 count ++ rest) =
      some (littleEndian 8 count, rest) := by
    rw [splitBytes?, if_pos (by simp), List.take_left' (length_littleEndian _ _),
      List.drop_left' (length_littleEndian _ _)]
  rw [decodeRecords, split]
  dsimp only
  rw [ofLittleEndian_littleEndian 8 _ fits]

/-- The records of a file are read as the instructions they hold. -/
theorem decodeRecords_layout [Stored α] {rs : List Record} (few : rs.length ≤ maxInstrs) :
    (decodeRecords (littleEndian 8 rs.length ++ rs.flatMap Record.bytes) :
      Except FileError (List (Instr α))) = instrs 0 rs.length (rs.flatMap Record.bytes) := by
  have size : (rs.flatMap Record.bytes).length = rs.length * Record.size := by
    simp [List.length_flatMap, Record.length_bytes]
  -- The number of records fits the bytes behind it.
  rw [decodeRecords_counted (few.trans_lt (by decide)), if_neg]
  simp [size, few]

variable [Written α] [Stored α]

/-- Where there is room for them, version, flags and the size of the header are read first. -/
theorem decodeBody_headed {found flags size : Nat} (fits : found < Nat.pow 256 4)
    (known : flags < Nat.pow 256 4) (addressable : size < Nat.pow 256 8) (rest : Bytes) :
    (decodeBody (littleEndian 4 found ++ (littleEndian 4 flags ++ (littleEndian 8 size ++ rest))) :
        Except FileError (Program α)) =
      if found ≠ version then .error (.version found)
      else if size > maxHeader || size > rest.length then .error .headerSize
      else match (Header.read? (rest.take size) : Option (Header α)) with
        | none => .error .headerText
        | some header => decodeRecords (rest.drop size) >>= assemble flags header := by
  generalize parts : littleEndian 4 found ++ (littleEndian 4 flags ++
    (littleEndian 8 size ++ rest)) = body
  -- Each integer is read where those before it end.
  have first : ofLittleEndian (body.take 4) = found := by rw [← parts, ofLittleEndian_take fits]
  have afterVersion := congrArg (List.drop 4) parts
  rw [List.drop_left' (length_littleEndian 4 _)] at afterVersion
  have second : ofLittleEndian ((body.drop 4).take 4) = flags := by
    rw [← afterVersion, ofLittleEndian_take known]
  have afterFlags := congrArg (List.drop 4) afterVersion
  rw [List.drop_left' (length_littleEndian 4 _), List.drop_drop] at afterFlags
  have third : ofLittleEndian ((body.drop 8).take 8) = size := by
    rw [← afterFlags, ofLittleEndian_take addressable]
  have afterSize := congrArg (List.drop 8) afterFlags
  rw [List.drop_left' (length_littleEndian 8 _), List.drop_drop] at afterSize
  unfold decodeBody
  dsimp only
  rw [first, second, third, ← afterSize, guard_eq, guard_eq]
  rfl

/-- What follows the mark of a file is read part by part, once its header is not too long. -/
theorem decodeBody_layout {flags : Nat} {header : Bytes} {rs : List Record}
    (known : flags < 2 ^ 32) (addressable : header.length < 2 ^ 64) (few : rs.length ≤ maxInstrs) :
    (decodeBody ((layout flags header rs).drop magic.length) : Except FileError (Program α)) =
      if header.length > maxHeader then .error .headerSize
      else match Header.read? header with
        | none => .error .headerText
        | some h => (instrs 0 rs.length (rs.flatMap Record.bytes)) >>= assemble flags h := by
  have parts : (layout flags header rs).drop magic.length =
      littleEndian 4 version ++ (littleEndian 4 flags ++ (littleEndian 8 header.length ++
        (header ++ (littleEndian 8 rs.length ++ rs.flatMap Record.bytes)))) := by
    rw [layout]
    simp only [List.append_assoc]
    exact List.drop_left
  -- The header lies inside what is left, so only its own size can be too large.
  have inside : (decide (header.length > maxHeader) || decide (header.length >
      (header ++ (littleEndian 8 rs.length ++ rs.flatMap Record.bytes)).length)) =
      decide (header.length > maxHeader) := by simp
  rw [parts, decodeBody_headed (by decide) known addressable, List.take_left, List.drop_left,
    decodeRecords_layout few, inside, if_neg (not_not.mpr rfl)]
  simp only [decide_eq_true_eq]

/-- A file that was laid out is read part by part, once its header is not too long. -/
theorem decode_layout {flags : Nat} {header : Bytes} {rs : List Record}
    (known : flags < 2 ^ 32) (addressable : header.length < 2 ^ 64) (few : rs.length ≤ maxInstrs) :
    (decode (sealed (layout flags header rs)) : Except FileError (Program α)) =
      if header.length > maxHeader then .error .headerSize
      else match Header.read? header with
        | none => .error .headerText
        | some h => (instrs 0 rs.length (rs.flatMap Record.bytes)) >>= assemble flags h := by
  rw [decode_sealed, decodeBody_layout known addressable few]
  · -- The parts of fixed length alone make up the least size of a file.
    rw [layout]
    simp only [List.length_append, length_littleEndian, minSize]
    omega
  · rw [layout]
    simp only [List.append_assoc]
    exact List.take_left

omit [Stored α] in
/-- A program is put together from parts that fit and that pass the checks. -/
theorem assemble_eq_ok {p q : Program α} {is : List (Instr α)} :
    assemble (flags p) (headerOf p) is = .ok q ↔
      q = { p with instrs := is } ∧ p.seeds.length = p.vars.length ∧ q.validate = .ok () ∧
        checkLimits q = .ok () := by
  -- The flag says exactly whether there is a source.
  have source : (if flags p % 2 == 1 then p.source else "") = p.source := by
    unfold flags
    split
    · rename_i none
      exact (beq_iff_eq.mp none).symm
    · rfl
  constructor
  · -- The checks of the reader are passed in turn.
    intro assembled
    unfold assemble headerOf at assembled
    dsimp only at assembled
    rw [source] at assembled
    obtain ⟨same, assembled⟩ := ok_of_guard assembled
    obtain ⟨_, safe, assembled⟩ := ok_of_bind assembled
    obtain ⟨_, limited, assembled⟩ := ok_of_bind assembled
    cases assembled
    exact ⟨rfl, not_not.mp same, ok_of_mapError safe, ok_of_mapError limited⟩
  · rintro ⟨rfl, same, safe, limited⟩
    unfold assemble headerOf
    dsimp only
    rw [source, safe, limited]
    exact if_neg (not_not.mpr same)

/-- What a program has to be, next to what it takes to save it, to be read back. -/
structure Readable (p : Program α) (text : String) : Prop where
  short : (bytesOf text).length ≤ maxHeader
  seeded : p.seeds.length = p.vars.length
  storable : ∀ i ∈ p.instrs, i.Storable
  sound : p.narrowed.validate = .ok ()
  limited : checkLimits p.narrowed = .ok ()

/-- What comes out of a file that was written is the program with the high bits of indices gone. -/
theorem decode_eq_ok [LawfulStored α] {stamp : Option String} {p q : Program α} {bytes : Bytes}
    {text : String} (valid : Header.ValidStamp stamp) (saved : encode stamp p = .ok bytes)
    (written : (headerOf p).write? stamp = some text)
    (addressable : (bytesOf text).length < 2 ^ 64) :
    decode bytes = .ok q ↔ Readable p text ∧ q = p.narrowed := by
  obtain ⟨_, _, few, text', rs, written', made, rfl⟩ := exists_of_encode saved
  cases written.symm.trans written'
  -- Each record is that of an instruction, so they are as many.
  have forms := forall₂_of_records made
  have known : flags p < 2 ^ 32 := by
    unfold flags
    split <;> decide
  rw [decode_layout known addressable (forms.length_eq ▸ few), Header.read?_write? valid written]
  dsimp only
  by_cases long : (bytesOf text).length > maxHeader
  · rw [if_pos long]
    exact ⟨nofun, fun readable => absurd readable.1.short (Nat.not_le.mpr long)⟩
  rw [if_neg long]
  constructor
  · -- The program has come through the reader, which has asked for all of this.
    intro decoded
    obtain ⟨is, read, assembled⟩ := ok_of_bind decoded
    obtain ⟨storable, rfl⟩ := (instrs_eq_ok forms).mp read
    obtain ⟨rfl, seeded, sound, limited⟩ := assemble_eq_ok.mp assembled
    exact ⟨⟨Nat.not_lt.mp long, seeded, storable, sound, limited⟩, rfl⟩
  · rintro ⟨⟨_, seeded, storable, sound, limited⟩, rfl⟩
    rw [(instrs_eq_ok forms).mpr ⟨storable, rfl⟩]
    exact assemble_eq_ok.mpr ⟨rfl, seeded, sound, limited⟩

/-- A file that was written is read exactly when the program also meets what the reader asks. -/
theorem exists_decode_iff [LawfulStored α] {stamp : Option String} {p : Program α} {bytes : Bytes}
    {text : String} (valid : Header.ValidStamp stamp) (saved : encode stamp p = .ok bytes)
    (written : (headerOf p).write? stamp = some text)
    (addressable : (bytesOf text).length < 2 ^ 64) :
    (∃ q : Program α, decode bytes = .ok q) ↔ Readable p text := by
  -- Once the reader's conditions hold, what is read is known.
  constructor
  · rintro ⟨q, decoded⟩
    exact ((decode_eq_ok valid saved written addressable).mp decoded).1
  · intro readable
    exact ⟨p.narrowed, (decode_eq_ok valid saved written addressable).mpr ⟨readable, rfl⟩⟩

/-- A program with a temporary whose number takes more than thirty-two bits. -/
def wide : Program Float where
  paths := 2
  vars? := some ["x"]
  seeds? := some [0.5]
  source := "x"
  instrs :=
    [⟨.alloc, ⟨.temp, 0x100000000, 0⟩, .value, 0, 2⟩,
      ⟨.free, ⟨.temp, 0x100000000, 0⟩, .value, 0, 0⟩]
  peak := 2

/-- When that program was saved. -/
def wideStamp : Option String := some "2025-01-02T03:04:05Z"

/-- That is a date and a time. -/
theorem validStamp_wide : Header.ValidStamp wideStamp := by
  -- The stamp is given, and checked by calculation.
  rintro s ⟨⟩
  decide

/-- The header of that program. -/
def wideText : String :=
  "\x7b\"format_version\":1,\"autoexpr_version\":\"0.1.0\"," ++
    "\"created_at\":\"2025-01-02T03:04:05Z\"," ++
    "\"paths\":2,\"vars\":[\"x\"],\"seeds\":[0.5],\"source\":\"x\",\"peak_temp_elements\":2\x7d"

/-- The program with the wide number is read, for its records keep the low bits of the number. -/
theorem exists_decode_iff_wide : ∃ bytes, Header.ValidStamp wideStamp ∧
    encode wideStamp wide = .ok bytes ∧ (headerOf wide).write? wideStamp = some wideText ∧
    (bytesOf wideText).length < 2 ^ 64 ∧ Readable wide wideText ∧
    ∃ q : Program Float, decode bytes = .ok q := by
  -- Its header is short, and its number is cut when the record is made.
  have written : (headerOf wide).write? wideStamp = some wideText := by decide +kernel
  have short : (bytesOf wideText).length < 2 ^ 64 := by decide +kernel
  obtain ⟨rs, made⟩ : ∃ rs, records 0 wide.instrs = .ok rs := ⟨_, rfl⟩
  have saved := encode_of_checked rfl rfl (by decide) written made
  have readable : Readable wide wideText := ⟨by decide +kernel, rfl, by decide, rfl, rfl⟩
  exact ⟨_, validStamp_wide, saved, written, short, readable,
    (exists_decode_iff validStamp_wide saved written short).mpr readable⟩

/-- A program that lacks the seed of its variable. -/
def unseeded : Program Float where
  paths := 1
  vars? := some ["x"]
  seeds? := some []
  source := ""
  instrs := []
  peak := 0

/-- The header of that program. -/
def unseededText : String :=
  "\x7b\"format_version\":1,\"autoexpr_version\":\"0.1.0\",\"paths\":1,\"vars\":[\"x\"]," ++
    "\"seeds\":[],\"peak_temp_elements\":0\x7d"

/-- A program without its seeds is written, and then the reader refuses the file. -/
theorem unseeded_rejected : ∃ bytes, encode none unseeded = .ok bytes ∧
    (decode bytes : Except FileError (Program Float)) = .error (.program (.seedCount 0 1)) := by
  -- The header names a variable and no seed, which is found out only after it was parsed.
  have written : (headerOf unseeded).write? none = some unseededText := by decide +kernel
  have short : (bytesOf unseededText).length < 2 ^ 64 := by decide +kernel
  refine ⟨_, encode_of_checked rfl rfl (by decide) written rfl, ?_⟩
  rw [decode_layout (by decide) short (by decide),
    Header.read?_write? Header.validStamp_none written, if_neg (by decide +kernel)]
  rfl

end ProgramFile

end Tangent
