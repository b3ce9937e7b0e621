import Tangent.Proofs.Session.Saved

/-!
What a save leaves at its destination.

The file is emptied before the program is looked at. A program that does not fit into a file
therefore costs whatever was there, and only a file that was empty before is as it was.
-/

namespace Tangent.Session

variable {stamp : Option String} {path : String} {p : Program Float} {w : World} {d : Disk}

/-- A disk on which one file was emptied, and the others were left alone. -/
structure Emptied (before after : Disk) (name : String) : Prop where
  empty : after.find? name = some []
  others : ∀ other, other ≠ name → after.find? other = before.find? other

/-- A file that is opened for a save is emptied, and no other one is touched. -/
theorem exists_emptied {before after : Disk} (emptied : before.write path [] = .ok after) :
    ∃ name, Emptied before after name := by
  -- The file has the name of the place that its path leads to.
  obtain ⟨place, _, rfl⟩ := Disk.write_eq_ok.mp emptied
  refine ⟨Disk.nameOf place, ?_, ?_⟩
  · rw [NameMap.find?_insert, if_pos rfl]
  · intro other different
    rw [NameMap.find?_insert, if_neg (Ne.symm different)]

/-- Emptying a file changes nothing if and only if it was empty before. -/
theorem Emptied.eq_iff {before after : Disk} {name : String}
    (emptied : Emptied before after name) :
    after = before ↔ before.find? name = some [] := by
  constructor
  · rintro rfl
    exact emptied.empty
  · intro empty
    -- Two disks with the same files are the same disk.
    apply NameMap.eq_of_find?
    intro other
    by_cases same : other = name
    · rw [same, emptied.empty, empty]
    · exact emptied.others other same

/-- A file that was opened for a save is written once the bytes are there. -/
theorem exists_write_of_emptied (emptied : w.disk.write path [] = .ok d) (bytes : Bytes) :
    ∃ d', d.write path bytes = .ok d' := by
  -- Its path leads to the same place as before.
  obtain ⟨place, targeted, rfl⟩ := Disk.write_eq_ok.mp emptied
  exact ⟨_, Disk.write_eq_ok.mpr ⟨place, Disk.target_insert targeted [], rfl⟩⟩

/--
A save that is refused leaves an empty file.

Where the destination can be opened, a program that fits into a file is saved there. For any other
one the save fails with the reason, the destination is empty from then on, and every other file is
as it was. So nothing has changed if and only if the destination was an empty file before.
-/
theorem save_empties_first (emptied : w.disk.write path [] = .ok d) :
    (∀ bytes, ProgramFile.encode stamp p = .ok bytes → ∃ d',
      save stamp path p w = .ok () { w with disk := d' } ∧ d'.read path = .ok bytes) ∧
    ∀ cause, ProgramFile.encode stamp p = .error cause →
      save stamp path p w = .error (.error (.file cause)) { w with disk := d } ∧
      d.read path = .ok [] ∧
      ∃ name, Emptied w.disk d name ∧ (d = w.disk ↔ w.disk.find? name = some []) := by
  -- The file is opened, and so emptied, before the program is encoded.
  constructor
  · intro bytes fits
    obtain ⟨d', written⟩ := exists_write_of_emptied emptied bytes
    exact ⟨d', save_ok fits emptied written, Disk.read_write written⟩
  · intro cause refused
    refine ⟨?_, Disk.read_write emptied, ?_⟩
    · rw [save_of_emptied emptied, refused]
    · obtain ⟨name, one⟩ := exists_emptied emptied
      exact ⟨name, one, one.eq_iff⟩

/-- A program with one path more than a file allows. -/
def oversized : Program Float where
  paths := 0x4000001
  vars? := none
  seeds? := none
  source := ""
  instrs := []
  peak := 0

/-- A program with too many paths does not fit into a file. -/
theorem encode_oversized (stamp : Option String) : ProgramFile.encode stamp oversized =
    .error (.program (.pathLimit 0x4000001 0x4000000)) := rfl

/-- A program with too many paths is refused, and a file next to its destination stays. -/
theorem save_empties_first_neighbour :
    Disk.write (.insert (.insert .empty "p" [7]) "q" [8]) "p" [] =
      .ok (.insert (.insert .empty "p" []) "q" [8]) ∧
    save none "p" oversized (.start (.insert (.insert .empty "p" [7]) "q" [8])) =
      .error (.error (.file (.program (.pathLimit 0x4000001 0x4000000))))
        (.start (.insert (.insert .empty "p" []) "q" [8])) := by
  -- Only the file at the destination is written.
  have emptied : Disk.write (.insert (.insert .empty "p" [7]) "q" [8]) "p" [] =
      .ok (.insert (.insert .empty "p" []) "q" [8]) := by cbv
  have refused := (save_empties_first (p := oversized)
    (w := .start (.insert (.insert .empty "p" [7]) "q" [8])) emptied).2 _ (encode_oversized none)
  exact ⟨emptied, refused.1⟩

/-- A save that is refused costs the file that was there. -/
theorem refused_save_loses_file : ∃ w',
    save none "p" oversized (.start (.insert .empty "p" [7])) =
      .error (.error (.file (.program (.pathLimit 0x4000001 0x4000000)))) w' ∧
    Disk.read (.insert .empty "p" [7]) "p" = .ok [7] ∧ w'.disk.read "p" = .ok [] := by
  -- The empty file is left behind when encoding fails.
  have emptied : Disk.write (.insert .empty "p" [7]) "p" [] = .ok (.insert .empty "p" []) := by cbv
  refine ⟨.start (.insert .empty "p" []), ?_, read_single [7], read_single []⟩
  rw [save_of_emptied (w := .start (.insert .empty "p" [7])) emptied, encode_oversized]
  rfl

end Tangent.Session
