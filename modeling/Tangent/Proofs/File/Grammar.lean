import Tangent.Proofs.File.Limits
import Tangent.Proofs.File.ReadBack
import Tangent.Proofs.File.Strict

/-!
Which bytes are the file of a program.

A file is a mark, a version, flags, a header with its size, records with their number, and a digest
of all that. The reader accepts exactly the files whose parts pass the checks, and gives back the
program that they form. No file has its parts in two ways.
-/

namespace Tangent

variable {α : Type}

namespace ProgramFile

/-- The parts of a file that are not given by the others. -/
structure Parts where
  flags : UInt32
  header : Bytes
  records : List PaddedRecord

namespace Parts

/-- What stands between the mark and the digest. -/
def fields (f : Parts) : Bytes :=
  littleEndian 4 1 ++ (littleEndian 4 f.flags.toNat ++ (littleEndian 8 f.header.length ++
    (f.header ++ (littleEndian 8 f.records.length ++ f.records.flatMap PaddedRecord.bytes))))

/-- The mark and what follows it, and then the digest of both. -/
def file (f : Parts) : Bytes :=
  (bytesOf "AXPR" ++ f.fields) ++ Sha256.hash (bytesOf "AXPR" ++ f.fields)

/-- A header that is not too long, and not too many records. -/
structure Sized (f : Parts) : Prop where
  header : f.header.length ≤ 2 ^ 24
  records : f.records.length ≤ 2 ^ 24

/-- A header or a number of records of an accepted size can be counted in eight bytes. -/
theorem fits_of_le {n : Nat} (small : n ≤ 2 ^ 24) : n < Nat.pow 256 8 :=
  -- Eight bytes count up to 2 ^ 64.
  Nat.lt_of_le_of_lt small (by decide)

/-- Parts of accepted sizes are told apart by the file. -/
theorem eq_of_file {f g : Parts} (sized : f.Sized) (sized' : g.Sized) (same : f.file = g.file) :
    f = g := by
  -- All integers have fixed widths, and tell where the parts of other lengths end.
  obtain ⟨bodies, _⟩ := List.append_inj' same
    (by rw [Sha256.length_hash, Sha256.length_hash])
  have fields := List.append_cancel_left bodies
  have words {width n m : Nat} {a b : Bytes}
      (same : littleEndian width n ++ a = littleEndian width m ++ b) :
      littleEndian width n = littleEndian width m ∧ a = b :=
    List.append_inj same (by rw [length_littleEndian, length_littleEndian])
  obtain ⟨_, afterVersion⟩ := words fields
  obtain ⟨flags, afterFlags⟩ := words afterVersion
  obtain ⟨sizes, afterSize⟩ := words afterFlags
  have size := littleEndian_inj (fits_of_le sized.header) (fits_of_le sized'.header) sizes
  obtain ⟨header, afterHeader⟩ := List.append_inj afterSize size
  obtain ⟨counts, records⟩ := words afterHeader
  have count := littleEndian_inj (fits_of_le sized.records) (fits_of_le sized'.records) counts
  have flag := littleEndian_inj f.flags.toNat_lt g.flags.toNat_lt flags
  obtain ⟨_, _, _⟩ := f
  obtain ⟨_, _, _⟩ := g
  dsimp only at *
  rw [UInt32.toNat_inj.mp flag, header, PaddedRecord.flatMap_bytes_inj count records]

end Parts

/-- What follows the header is read as the records it holds. -/
theorem decodeRecords_iff [Stored α] {bytes : Bytes} {is : List (Instr α)} :
    decodeRecords bytes = .ok is ↔
      ∃ rs : List PaddedRecord, rs.length ≤ 2 ^ 24 ∧
        bytes = littleEndian 8 rs.length ++ rs.flatMap PaddedRecord.bytes ∧
        List.Forall₂ (fun r i => r.fields.Proper ∧ r.fields.Means i) rs is := by
  constructor
  · intro read
    -- A file that ends before the number is refused.
    have long : 8 ≤ bytes.length := by
      by_contra short
      rw [decodeRecords, splitBytes?, if_neg short] at read
      cases read
    obtain ⟨count, rest, fits, rfl⟩ := exists_littleEndian long
    rw [decodeRecords_counted fits] at read
    split at read
    · cases read
    · -- Past the check, the bytes are those of as many records as were counted.
      rename_i counted
      simp only [ne_eq, Bool.or_eq_true, decide_eq_true_eq, not_or, Nat.not_lt, not_not] at counted
      obtain ⟨rs, number, rfl⟩ := PaddedRecord.exists_flatMap_eq counted.2.symm
      rw [← number] at read counted ⊢
      exact ⟨rs, counted.1, rfl, instrs_flatMap_eq_ok.mp read⟩
  · rintro ⟨rs, few, rfl, each⟩
    have passed : ¬ (decide (rs.length > maxInstrs) || decide (rs.length * Record.size ≠
        (rs.flatMap PaddedRecord.bytes).length)) = true := by
      have within : ¬ rs.length > maxInstrs := Nat.not_lt.mpr few
      rw [PaddedRecord.length_flatMap]
      simp [within]
    rw [decodeRecords_counted (Parts.fits_of_le few), if_neg passed]
    exact instrs_flatMap_eq_ok.mpr each

section Bodies

variable [Written α] [Stored α]

/-- What follows the mark is read as the parts of a file. -/
theorem decodeBody_iff {bytes : Bytes} (long : 16 ≤ bytes.length) {p : Program α} :
    decodeBody bytes = .ok p ↔
      ∃ (f : Parts) (h : Header α) (is : List (Instr α)), bytes = f.fields ∧ f.Sized ∧
        Header.read? f.header = some h ∧
        List.Forall₂ (fun r i => r.fields.Proper ∧ r.fields.Means i) f.records is ∧
        assemble f.flags.toNat h is = .ok p := by
  constructor
  · intro read
    -- Whatever the bytes are, they start with three integers.
    obtain ⟨found, rest, fits, rfl⟩ := exists_littleEndian (show 4 ≤ bytes.length by omega)
    rw [List.length_append, length_littleEndian] at long
    obtain ⟨flags, rest, rfl⟩ := exists_uint32 (show 4 ≤ rest.length by omega)
    rw [List.length_append, length_littleEndian] at long
    obtain ⟨size, rest, addressable, rfl⟩ := exists_littleEndian (show 8 ≤ rest.length by omega)
    rw [decodeBody_headed fits flags.toNat_lt addressable] at read
    -- Past all checks the version is the known one, and the header lies inside and was parsed.
    split at read
    · cases read
    · rename_i current
      split at read
      · cases read
      · rename_i short
        split at read
        · cases read
        · rename_i h parsed
          simp only [Bool.or_eq_true, decide_eq_true_eq, not_or, Nat.not_lt] at short
          obtain ⟨is, recorded, assembled⟩ := ok_of_bind read
          obtain ⟨rs, few, behind, each⟩ := decodeRecords_iff.mp recorded
          have length : (rest.take size).length = size := by
            rw [List.length_take, Nat.min_eq_left short.2]
          refine ⟨⟨flags, rest.take size, rs⟩, h, is, ?_, ⟨?_, few⟩, parsed, each, assembled⟩
          · -- The header and what follows it are cut where the size tells.
            rw [Parts.fields, length, ← behind, List.take_append_drop, not_not.mp current]
            rfl
          · rw [length]
            exact short.1
  · rintro ⟨f, h, is, rfl, sized, parsed, each, assembled⟩
    -- Each part passes its check, since it stands where the reader looks for it.
    have records := decodeRecords_iff.mpr ⟨f.records, sized.records, rfl, each⟩
    have passed : ¬ (decide (f.header.length > maxHeader) || decide (f.header.length >
        (f.header ++ (littleEndian 8 f.records.length ++
          f.records.flatMap PaddedRecord.bytes)).length)) = true := by
      have within : ¬ f.header.length > maxHeader := Nat.not_lt.mpr sized.header
      simp [within]
    rw [Parts.fields, decodeBody_headed (by decide) f.flags.toNat_lt
      (Parts.fits_of_le sized.header), if_neg (by decide), if_neg passed, List.take_left,
      List.drop_left, parsed]
    dsimp only
    rw [records]
    exact assembled

/-- A file is a mark, its fields and their digest. -/
theorem decode_iff_fields {bytes : Bytes} {p : Program α} :
    decode bytes = .ok p ↔
      ∃ fields, 24 ≤ fields.length ∧ bytes = sealed (magic ++ fields) ∧
        decodeBody fields = .ok p := by
  constructor
  · intro read
    unfold decode at read
    dsimp only at read
    obtain ⟨long, read⟩ := ok_of_guard read
    obtain ⟨marked, read⟩ := ok_of_guard read
    obtain ⟨_, agreed, read⟩ := ok_of_bind read
    have enough : 60 ≤ bytes.length := Nat.not_lt.mp long
    have digest : digestSize = 32 := rfl
    have mark : magic.length = 4 := rfl
    generalize held : bytes.take (bytes.length - digestSize) = body at agreed read
    have length : body.length = bytes.length - 32 := by
      rw [← held, List.length_take]
      omega
    -- The mark is in front of the body, and the digest behind it.
    have front : body.take magic.length = magic := by
      rw [← held, List.take_take, Nat.min_eq_left (by omega)]
      simpa using marked
    have back : bytes.drop (bytes.length - digestSize) = Sha256.hash body := by
      unfold checkDigest at agreed
      split at agreed
      · rename_i same
        exact (beq_iff_eq.mp same).symm
      · cases agreed
    have whole : magic ++ body.drop magic.length = body := by
      rw [← front, List.length_take, Nat.min_eq_left (by omega), List.take_append_drop]
    refine ⟨body.drop magic.length, by rw [List.length_drop]; omega, ?_, read⟩
    rw [whole, sealed, ← back, ← held, List.take_append_drop]
  · rintro ⟨fields, long, rfl, read⟩
    -- The digest is that of the bytes before it, so only the fields decide.
    rw [decode_sealed ?_ List.take_left, List.drop_left]
    · exact read
    · rw [List.length_append]
      show 60 ≤ 4 + fields.length + 32
      omega

/-- Fields have room for all integers that are always there. -/
theorem Parts.length_fields (f : Parts) : 24 ≤ f.fields.length := by
  -- Each of the integers has a fixed width.
  simp only [fields, List.length_append, length_littleEndian]
  omega

/-- A file is read as its parts. -/
theorem decode_iff_parts {bytes : Bytes} {p : Program α} :
    decode bytes = .ok p ↔
      ∃ (f : Parts) (h : Header α) (is : List (Instr α)), bytes = f.file ∧ f.Sized ∧
        Header.read? f.header = some h ∧
        List.Forall₂ (fun r i => r.fields.Proper ∧ r.fields.Means i) f.records is ∧
        assemble f.flags.toNat h is = .ok p := by
  -- The digest seals the fields, and the fields are read on their own.
  rw [decode_iff_fields]
  constructor
  · rintro ⟨fields, long, rfl, read⟩
    obtain ⟨f, h, is, rfl, accepted⟩ := (decodeBody_iff (by omega)).mp read
    exact ⟨f, h, is, rfl, accepted⟩
  · rintro ⟨f, h, is, rfl, accepted⟩
    have long := f.length_fields
    exact ⟨f.fields, long, rfl, (decodeBody_iff (by omega)).mpr ⟨f, h, is, rfl, accepted⟩⟩

end Bodies

/-- The program that flags, a header and instructions form. -/
@[mk_iff]
structure Forms (flags : Nat) (h : Header α) (is : List (Instr α)) (p : Program α) : Prop where
  paths : p.paths = h.paths
  vars : p.vars? = h.vars?
  seeds : p.seeds? = h.seeds?
  /-- Only with the lowest flag is the source of the header kept. -/
  source : p.source = if flags % 2 = 1 then h.source else ""
  instrs : p.instrs = is
  peak : p.peak = h.peak

/-- A program is put together from what it is formed of, if it passes the checks. -/
theorem assemble_iff [Written α] {flags : Nat} {h : Header α} {is : List (Instr α)}
    {p : Program α} :
    assemble flags h is = .ok p ↔
      Forms flags h is p ∧ p.seeds.length = p.vars.length ∧ p.validate = .ok () ∧
        checkLimits p = .ok () := by
  constructor
  · -- The checks were passed, and the program that came out is the one they were made on.
    intro assembled
    obtain ⟨_, seeded, sound, limited⟩ := checked_of_assemble assembled
    unfold assemble at assembled
    dsimp only at assembled
    obtain ⟨_, assembled⟩ := ok_of_guard assembled
    obtain ⟨_, _, assembled⟩ := ok_of_bind assembled
    obtain ⟨_, _, assembled⟩ := ok_of_bind assembled
    cases assembled
    exact ⟨⟨rfl, rfl, rfl, by simp, rfl, rfl⟩, seeded, sound, limited⟩
  · rintro ⟨forms, seeded, sound, limited⟩
    -- A program is given by its fields.
    have whole : (⟨h.paths, h.vars?, h.seeds?, if flags % 2 == 1 then h.source else "", is,
        h.peak⟩ : Program α) = p := by
      cases p
      simp only [Program.mk.injEq, beq_iff_eq]
      exact ⟨forms.paths.symm, forms.vars.symm, forms.seeds.symm, forms.source.symm,
        forms.instrs.symm, forms.peak.symm⟩
    unfold assemble
    dsimp only
    rw [whole, sound, limited]
    exact if_neg (not_not.mpr seeded)

/-- Instructions of proper records have lengths in range. -/
theorem len_le_of_forall₂ [Stored α] {rs : List PaddedRecord} {is : List (Instr α)}
    (each : List.Forall₂ (fun r i => r.fields.Proper ∧ r.fields.Means i) rs is) :
    ∀ i ∈ is, i.len.toInt ≤ 2 ^ 48 := by
  -- Each instruction has the length of its own record.
  induction each with
  | nil => simp
  | cons first _ ih =>
    intro i listed
    rcases List.mem_cons.mp listed with rfl | listed
    · rw [first.2.len]
      exact_mod_cast first.1.len
    · exact ih i listed

/--
The parts of a file spell a program.

The header can be parsed, each record stands for an instruction, and the program that all of them
form is sound and within the limits of a file.
-/
structure Parts.Spells [Written α] [Stored α] (f : Parts) (p : Program α) : Prop where
  sized : f.Sized
  proper : ∀ r ∈ f.records, r.fields.Proper
  formed : ∃ (h : Header α) (is : List (Instr α)), Header.read? f.header = some h ∧
    List.Forall₂ (fun r i => r.fields.Means i) f.records is ∧ Forms f.flags.toNat h is p
  seeded : p.seeds.length = p.vars.length
  sound : p.validate = .ok ()
  paths : p.paths.toInt ≤ 2 ^ 26
  live : ∀ before, before <+: p.instrs → elements (Program.liveAfter before) ≤ 2 ^ 30

/-- A file is read exactly as the program that its parts spell. -/
theorem decode_iff_spells [Written α] [Stored α] {bytes : Bytes} {p : Program α} :
    decode bytes = .ok p ↔ ∃ f : Parts, bytes = f.file ∧ f.Spells p := by
  rw [decode_iff_parts]
  constructor
  · rintro ⟨f, h, is, rfl, sized, parsed, each, assembled⟩
    obtain ⟨forms, seeded, sound, limited⟩ := assemble_iff.mp assembled
    -- Lengths are in range, so the limits are about exact sums.
    obtain ⟨proper, means⟩ := (List.forall₂_and_left _ _).mp each
    have addable : Addable p.instrs := forms.instrs ▸ addable_of_le (len_le_of_forall₂ each)
    obtain ⟨paths, live⟩ := (checkLimits_iff sound addable).mp limited
    exact ⟨f, rfl, sized, proper, ⟨h, is, parsed, means, forms⟩, seeded, sound, paths, live⟩
  · rintro ⟨f, rfl, spells⟩
    obtain ⟨h, is, parsed, means, forms⟩ := spells.formed
    have each := (List.forall₂_and_left _ _).mpr ⟨spells.proper, means⟩
    have addable : Addable p.instrs := forms.instrs ▸ addable_of_le (len_le_of_forall₂ each)
    have limited := (checkLimits_iff spells.sound addable).mpr ⟨spells.paths, spells.live⟩
    exact ⟨f, h, is, rfl, spells.sized, parsed, each,
      assemble_iff.mpr ⟨forms, spells.seeded, spells.sound, limited⟩⟩

/--
Reading accepts exactly the files of the format, and comes to no fault.

Whatever the bytes, the strict reader ends with the answer of the other one. A program is that
answer when the bytes are, in one way only, those of parts that spell it.
-/
theorem decode_accepts_grammar [Written α] [Stored α] (bytes : Bytes) :
    (Strict.decode bytes : Except (Halt FileError) (Program α)) =
        (decode bytes).mapError .error ∧
      ∀ p : Program α, decode bytes = .ok p ↔ ∃! f : Parts, bytes = f.file ∧ f.Spells p := by
  refine ⟨Strict.decode_eq bytes, fun p => decode_iff_spells.trans ⟨?_, ExistsUnique.exists⟩⟩
  rintro ⟨f, rfl, spells⟩
  -- The sizes of the parts are bounded, so the file tells them apart.
  refine ⟨f, ⟨rfl, spells⟩, ?_⟩
  rintro g ⟨same, spells'⟩
  exact Parts.eq_of_file spells'.sized spells.sized same.symm

end ProgramFile

end Tangent
