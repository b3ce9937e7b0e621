import Tangent.Proofs.File.ReadBack
import Tangent.Proofs.Program.Discipline
import Tangent.Proofs.Program.Length

/-!
Saved programs are read back unchanged.

A record has less room than an instruction. Programs that were compiled or read never make use of
more: what was read came from records, and what was compiled is too short for large numbers.
-/

namespace Tangent

variable {α : Type}

/-- An operand keeps an index that thirty-two bits can hold. -/
theorem Ref.narrowed_eq {r : Ref} {j : Nat} (index : r.index = Int64.ofNat j) (low : j < 2 ^ 32) :
    r.narrowed = r := by
  -- Its low bits are all the bits it has.
  have nonneg : ¬ r.index < 0 := index ▸ ofNat_not_neg (by omega)
  rw [narrowed_eq_iff nonneg, index, Int64.toInt_ofNat_of_lt (by omega)]
  omega

/-- An instruction that a record has room for. -/
structure Instr.Kept (i : Instr α) : Prop where
  storable : i.Storable
  same : i.narrowed = i

/-- Instructions are kept if there are few buffers and none of them is large. -/
theorem Instr.Tidy.kept {i : Instr α} {vars temps top : Nat} (tidy : i.Tidy vars temps top)
    (few : vars < 2 ^ 32 ∧ temps < 2 ^ 32) (small : top ≤ 2 ^ 48) : i.Kept := by
  -- The index of an operand is a number below those of its space, which are few.
  have near {r : Ref} (within : r.Within vars temps top) : r.Storable ∧ r.narrowed = r := by
    obtain ⟨j, index, range⟩ := within.numbered
    have offset := within.near
    exact ⟨⟨within.known, by omega⟩, Ref.narrowed_eq index (by omega)⟩
  obtain ⟨dst, dst'⟩ := near tidy.dst
  obtain ⟨src, src'⟩ := near tidy.src
  have len := tidy.short
  exact ⟨⟨dst, src, by omega⟩, by rw [narrowed, dst', src']⟩

/-- An instruction that was read from a record is kept. -/
theorem Record.kept_of_toInstr [Stored α] {r : Record} {i : Instr α} (read : r.toInstr = .ok i) :
    i.Kept := by
  obtain ⟨dst, src, len⟩ := toInstr_bounded read
  -- A record names one of four spaces, and an index of thirty-two bits.
  have space {code : UInt8} (known : ¬ code > Space.temp.code) : (Space.ofCode code).code ≤ 3 := by
    rw [Space.ofCode, dif_neg (show ¬ 3 < code from known)]
    split_ifs <;> decide
  have index (x : UInt32) : x.toUInt64.toInt64 = Int64.ofNat x.toNat := by
    have word : x.toUInt64 = UInt64.ofNat x.toNat := by
      rw [← UInt64.toNat_inj, UInt32.toNat_toUInt64, UInt64.toNat_ofNat']
      exact (Nat.mod_eq_of_lt (x.toNat_lt.trans (by decide))).symm
    rw [word]
    rfl
  -- The checks were passed, so the instruction is the one with these fields.
  unfold toInstr at read
  split at read
  · cases read
  · split at read
    · cases read
    · rename_i known
      simp only [Bool.or_eq_true, decide_eq_true_eq, not_or] at known
      split at read
      · cases read
      · cases read
        refine ⟨⟨⟨space known.1, dst⟩, ⟨space known.2, src⟩, len⟩, ?_⟩
        rw [Instr.narrowed, Ref.narrowed_eq (index _) r.dstIndex.toNat_lt,
          Ref.narrowed_eq (index _) r.srcIndex.toNat_lt]

namespace ProgramFile

/-- A file has the program that was saved in it, if every instruction is kept and has its seeds. -/
theorem decode_of_kept [Written α] [Stored α] [LawfulStored α] {stamp : Option String}
    {p : Program α} {bytes : Bytes} {text : String} (valid : Header.ValidStamp stamp)
    (saved : encode stamp p = .ok bytes) (written : (headerOf p).write? stamp = some text)
    (short : (bytesOf text).length ≤ maxHeader) (seeded : p.seeds.length = p.vars.length)
    (kept : ∀ i ∈ p.instrs, i.Kept) : decode bytes = .ok p := by
  -- No bits are lost, and what the reader checks was checked when the program was saved.
  have same : p.narrowed = p := by
    rw [Program.narrowed, List.map_congr_left (fun i listed => (kept i listed).same), List.map_id']
  obtain ⟨safe, limited, _⟩ := exists_of_encode saved
  refine (decode_eq_ok valid saved written (short.trans_lt (by decide))).mpr ⟨?_, same.symm⟩
  exact ⟨short, seeded, fun i listed => (kept i listed).storable, same.symm ▸ safe,
    same.symm ▸ limited⟩

/-- A compiled program that fits in a file has no numbers that are too large for records. -/
theorem kept_of_compile [Elem α] [Written α] {root : Expr α} {paths limit : Int64}
    {seeds : NameMap α} {p : Program α} (compiled : Program.compile root paths seeds limit = .ok p)
    (limited : checkLimits p = .ok ()) (few : p.instrs.length ≤ maxInstrs)
    (named : p.vars.length ≤ maxHeader) : ∀ i ∈ p.instrs, i.Kept := by
  obtain ⟨ofPaths, ofVars, _, length⟩ := Program.length_of_compile compiled
  have entries : seeds.entries.length = p.vars.length := by
    rw [ofVars, NameMap.names, List.length_map]
  -- A file has no room for more paths, so a block is not larger than a narrow one of those.
  have most : paths.toInt ≤ 2 ^ 26 := by
    rw [← ofPaths]
    exact (checkLimits_eq_ok.mp limited).1
  -- So few instructions are written for narrow blocks only.
  have narrow : root.broadest ≤ 2 ^ 12 + 1 :=
    Expr.broadest_le_of_steps (by decide) root (length ▸ few)
  have blocks := root.blocks_le_steps
  have fits : paths.toInt * root.broadest ≤ ((2 ^ 48 : Nat) : Int) :=
    calc paths.toInt * root.broadest ≤ 2 ^ 26 * root.broadest :=
          Int.mul_le_mul_of_nonneg_right most (Int.natCast_nonneg _)
      _ ≤ 2 ^ 26 * ((2 ^ 12 + 1 : Nat) : Int) :=
          Int.mul_le_mul_of_nonneg_left (Int.ofNat_le.mpr narrow) (by decide)
      _ ≤ ((2 ^ 48 : Nat) : Int) := by decide
  rw [maxInstrs] at few
  rw [maxHeader] at named
  obtain ⟨n, next, r, _, _, steady, _, _, _, _, instrs, _⟩ := Program.steady_of_compile compiled
    (by decide : 2 ^ 48 < 2 ^ 63) ⟨by omega, fits⟩ ⟨by omega, by omega⟩
  -- Every temporary has an instruction that begins it.
  have temps : next ≤ p.instrs.length := by
    have begun := congrArg List.length steady.begun
    rw [List.length_map, List.length_range] at begun
    rw [instrs, ← begun]
    exact List.length_filterMap_le _ _
  intro i listed
  rw [instrs] at listed
  refine (steady.tidy i (List.mem_reverse.mp listed)).kept ⟨?_, by omega⟩ (Nat.le_refl _)
  rw [List.length_reverse]
  omega

/--
A program that was compiled or read is read back as it was saved.

Its header must not be too long for a file.
-/
theorem decode_encode [Elem α] [Written α] [Stored α] [LawfulStored α] {stamp : Option String}
    {p : Program α} {bytes : Bytes} {text : String}
    (origin : (∃ root paths seeds limit, Program.compile root paths seeds limit = .ok p) ∨
      ∃ file, decode file = .ok p)
    (valid : Header.ValidStamp stamp) (saved : encode stamp p = .ok bytes)
    (written : (headerOf p).write? stamp = some text)
    (short : (bytesOf text).length ≤ maxHeader) : decode bytes = .ok p := by
  obtain ⟨_, limited, few, _⟩ := exists_of_encode saved
  rcases origin with ⟨root, paths, seeds, limit, compiled⟩ | ⟨file, decoded⟩
  · -- Every name takes up a part of the header, so there are not too many of them.
    have named : p.vars.length ≤ maxHeader := (Header.vars_le_of_write? written).trans short
    obtain ⟨_, ofVars, ofSeeds, _⟩ := Program.length_of_compile compiled
    refine decode_of_kept valid saved written short ?_ (kept_of_compile compiled limited few named)
    rw [ofVars, ofSeeds, NameMap.names, List.length_map, List.length_map]
  · -- What was read had its seeds, and came from records.
    obtain ⟨seeded, _, _, recorded⟩ := checked_of_decode decoded
    refine decode_of_kept valid saved written short seeded (fun i listed => ?_)
    obtain ⟨r, read⟩ := recorded i listed
    exact Record.kept_of_toInstr read

/-- A product of a variable and its exponential. -/
def growth : Expr Float := .mul [.var "x", .exp (.var "x")]

/-- The direction in which the product is differentiated. -/
def growthSeeds : NameMap Float := .insert .empty "x" 0.5

/-- The header of the program of the product, with the member that says when it was saved. -/
def growthText (stamp : String) : String :=
  "\x7b\"format_version\":1,\"autoexpr_version\":\"0.1.0\"," ++ stamp ++ "\"paths\":2," ++
    "\"vars\":[\"x\"],\"seeds\":[0.5],\"source\":\"(mul x (exp x))\",\"peak_temp_elements\":6\x7d"

/-- The program of the product is read back from its file, and again when it is saved once more. -/
theorem decode_encode_growth : ∃ (p : Program Float) (bytes again : Bytes),
    Program.compile growth 2 growthSeeds 0 = .ok p ∧
    encode wideStamp p = .ok bytes ∧ decode bytes = .ok p ∧
    encode none p = .ok again ∧ decode again = .ok p := by
  -- The program is found by running the compiler, and both headers by writing them.
  obtain ⟨p, compiled, safe, limited, few, written, unstamped, rs, made⟩ :
      ∃ p : Program Float, Program.compile growth 2 growthSeeds 0 = .ok p ∧ p.validate = .ok () ∧
        checkLimits p = .ok () ∧ p.instrs.length ≤ maxInstrs ∧
        (headerOf p).write? wideStamp =
          some (growthText "\"created_at\":\"2025-01-02T03:04:05Z\",") ∧
        (headerOf p).write? none = some (growthText "") ∧ ∃ rs, records 0 p.instrs = .ok rs :=
    ⟨_, rfl, rfl, rfl, by decide, by decide +kernel, by decide +kernel, _, rfl⟩
  have saved := encode_of_checked safe limited few written made
  have first := decode_encode (.inl ⟨_, _, _, _, compiled⟩) validStamp_wide saved written
    (by decide +kernel)
  have saved' := encode_of_checked safe limited few unstamped made
  exact ⟨p, _, _, compiled, saved, first, saved',
    decode_encode (.inr ⟨_, first⟩) Header.validStamp_none saved' unstamped (by decide +kernel)⟩

end ProgramFile

end Tangent
