import Tangent.Disk
import Tangent.Proofs.Action
import Tangent.Proofs.NameMap

/-! A file that was written is read back, and can be written again. -/

namespace Tangent.Disk

variable {d : Disk} {place next : Place}

/-- What is entered is a directory, and stays what it is. -/
theorem enter_eq_ok : d.enter place = .ok next ↔ d.isDirectory place = true ∧ place = next := by
  -- Entering asks whether the place is a directory, and otherwise tells why it is not.
  unfold enter
  split
  · rename_i directory
    simp [directory]
  · rename_i other
    split <;> simp [other]

/-- The names of a disk, and the name of a file that is added to it. -/
theorem any_names_insert (d : Disk) (name : String) (bytes : Bytes) (test : String → Bool) :
    (d.insert name bytes).names.any test = (test name || d.names.any test) := by
  -- A name is found on the new disk if it is the new one or was there before.
  rw [Bool.eq_iff_iff, Bool.or_eq_true, List.any_eq_true, List.any_eq_true]
  simp only [NameMap.mem_names_iff, NameMap.find?_insert]
  constructor
  · rintro ⟨other, ⟨found, known⟩, passed⟩
    split at known
    · rename_i same
      exact .inl (same ▸ passed)
    · exact .inr ⟨other, ⟨found, known⟩, passed⟩
  · rintro (passed | ⟨other, ⟨found, known⟩, passed⟩)
    · exact ⟨name, ⟨bytes, if_pos rfl⟩, passed⟩
    · refine ⟨other, ?_, passed⟩
      by_cases same : name = other
      · exact ⟨bytes, if_pos same⟩
      · exact ⟨found, (if_neg same).trans known⟩

/-- A directory stays one when a file is added. -/
theorem isDirectory_insert (directory : d.isDirectory place = true) (name : String)
    (bytes : Bytes) : Disk.isDirectory (d.insert name bytes) place = true := by
  -- A directory is known by the names below it, and these only become more.
  simp only [isDirectory, any_names_insert, Bool.or_eq_true] at directory ⊢
  tauto

/-- The place of a file does not become a directory. -/
theorem not_isDirectory_insert (other : d.isDirectory place = false) (bytes : Bytes) :
    Disk.isDirectory (d.insert (nameOf place) bytes) place = false := by
  -- A file in it would have a longer name.
  have longer : (nameOf place).startsWith (nameOf place ++ "/") = false := by
    rw [Bool.eq_false_iff, ne_eq, String.startsWith_string_iff]
    intro within
    have length := within.length_le
    simp at length
  simp only [isDirectory, any_names_insert, longer, Bool.false_or] at other ⊢
  exact other

/-- A step that can be taken can be taken when a file is added. -/
theorem step_insert {part : String} (stepped : d.step place part = .ok next) (name : String)
    (bytes : Bytes) : Disk.step (d.insert name bytes) place part = .ok next := by
  -- A step enters a directory first, which is still there.
  obtain ⟨entered, inside, stepped⟩ := ok_of_bind stepped
  obtain ⟨directory, rfl⟩ := enter_eq_ok.mp inside
  have again := enter_eq_ok.mpr ⟨isDirectory_insert directory name bytes, rfl⟩
  rw [step, again]
  exact stepped

/-- A way that can be gone can be gone when a file is added. -/
theorem foldlM_step_insert {parts : List String} (gone : parts.foldlM d.step place = .ok next)
    (name : String) (bytes : Bytes) :
    parts.foldlM (Disk.step (d.insert name bytes)) place = .ok next := by
  -- The way is gone step by step, and each step can still be taken.
  induction parts generalizing place with
  | nil => exact gone
  | cons part rest ih =>
    rw [List.foldlM_cons] at gone ⊢
    obtain ⟨between, first, others⟩ := ok_of_bind gone
    rw [step_insert first name bytes]
    exact ih others

/-- A way starts in a directory if its end is one. -/
theorem isDirectory_of_foldlM {parts : List String}
    (gone : parts.foldlM d.step place >>= d.enter = .ok next) : d.isDirectory place = true := by
  cases parts with
  | nil => exact (enter_eq_ok.mp gone).1
  | cons part rest =>
    -- The first name is looked up in the place where the way starts.
    obtain ⟨_, gone, _⟩ := ok_of_bind gone
    obtain ⟨_, first, _⟩ := ok_of_bind gone
    obtain ⟨_, inside, _⟩ := ok_of_bind first
    exact (enter_eq_ok.mp inside).1

/-- Slashes that meet do not matter on the way to a directory. -/
theorem foldlM_step_of_filter {parts : List String}
    (gone : (parts.filter (· != "")).foldlM d.step place >>= d.enter = .ok next) :
    parts.foldlM d.step place = .ok next := by
  induction parts generalizing place with
  | nil =>
    obtain ⟨_, rfl⟩ := enter_eq_ok.mp gone
    rfl
  | cons part rest ih =>
    rw [List.foldlM_cons]
    by_cases empty : part = ""
    · -- The way stays in the directory from which it goes on.
      subst empty
      rw [List.filter_cons_of_neg (by simp)] at gone
      have inside := enter_eq_ok.mpr ⟨isDirectory_of_foldlM gone, rfl⟩
      have stays : d.step place "" = .ok place := by
        rw [step, inside]
        rfl
      rw [stays]
      exact ih gone
    · rw [List.filter_cons_of_pos (by simpa using empty), List.foldlM_cons] at gone
      obtain ⟨last, gone, entered⟩ := ok_of_bind gone
      obtain ⟨between, first, others⟩ := ok_of_bind gone
      rw [first]
      apply ih
      rw [others]
      exact entered

/-- The way to a file that can be made: through directories, and then to a name that is not one. -/
theorem target_eq_file {path : String} (targeted : d.target path = .ok (place, false)) :
    checkPath path = .ok () ∧ d.isDirectory place = false ∧
    ∃ front last parent, path.splitOn "/" = front ++ [last] ∧
      front.foldlM d.step (origin path) = .ok parent ∧ d.step parent last = .ok place := by
  obtain ⟨_, checked, targeted⟩ := ok_of_bind targeted
  obtain ⟨between, gone, targeted⟩ := ok_of_bind targeted
  obtain ⟨parent, entered, targeted⟩ := ok_of_bind targeted
  dsimp only at gone targeted
  split at targeted
  · cases targeted
  · rename_i named
    simp only [Bool.or_eq_true, beq_iff_eq, not_or] at named
    obtain ⟨found, stepped, targeted⟩ := ok_of_bind targeted
    obtain ⟨rfl, other⟩ := Prod.mk.inj (Except.ok.inj targeted)
    refine ⟨checked, other, ?_⟩
    -- The last part of the path is a name, so it is the last of the names.
    rcases List.eq_nil_or_concat' (path.splitOn "/") with none | ⟨front, last, split⟩
    · simp [none] at named
    · have last_ne : last ≠ "" := by
        intro empty
        simp [split, empty] at named
      have names : (path.splitOn "/").filter (· != "") = front.filter (· != "") ++ [last] := by
        simp [split, last_ne]
      rw [names, List.dropLast_concat] at gone
      rw [names, List.getLast?_concat, Option.getD_some] at stepped
      refine ⟨front, last, parent, split, foldlM_step_of_filter ?_, stepped⟩
      rw [gone]
      exact entered

/-- The place of a file stays where it is when the file is made. -/
theorem target_insert {path : String} (targeted : d.target path = .ok (place, false))
    (bytes : Bytes) :
    Disk.target (d.insert (nameOf place) bytes) path = .ok (place, false) := by
  obtain ⟨_, checked, targeted⟩ := ok_of_bind targeted
  obtain ⟨between, gone, targeted⟩ := ok_of_bind targeted
  obtain ⟨parent, entered, targeted⟩ := ok_of_bind targeted
  obtain ⟨directory, rfl⟩ := enter_eq_ok.mp entered
  dsimp only at gone targeted
  rw [target, checked]
  simp only [Bind.bind, Except.bind]
  -- The directories on the way are still there.
  rw [foldlM_step_insert gone (nameOf place) bytes]
  simp only [enter_eq_ok.mpr ⟨isDirectory_insert directory (nameOf place) bytes, rfl⟩]
  split at targeted
  · cases targeted
  · rename_i named
    obtain ⟨found, stepped, targeted⟩ := ok_of_bind targeted
    obtain ⟨rfl, other⟩ := Prod.mk.inj (Except.ok.inj targeted)
    -- The file is not a directory either.
    rw [if_neg named]
    simp only [step_insert stepped (nameOf found) bytes, not_isDirectory_insert other bytes]
    rfl

/-- A file is written if its path leads to a place that is no directory. -/
theorem write_eq_ok {d' : Disk} {path : String} {bytes : Bytes} :
    d.write path bytes = .ok d' ↔
      ∃ place, d.target path = .ok (place, false) ∧ d' = d.insert (nameOf place) bytes := by
  -- Writing follows the path to its place, refuses a directory and then stores the bytes.
  constructor
  · intro written
    obtain ⟨⟨place, directory⟩, targeted, written⟩ := ok_of_bind written
    obtain ⟨file, written⟩ := ok_of_guard written
    rw [Bool.not_eq_true] at file
    subst file
    exact ⟨place, ok_of_mapError targeted, (Except.ok.inj written).symm⟩
  · rintro ⟨place, targeted, rfl⟩
    rw [write, targeted]
    rfl

/-- Nothing is written without a path. -/
theorem not_isEmpty_of_write {d' : Disk} {path : String} {bytes : Bytes}
    (written : d.write path bytes = .ok d') : path.isEmpty = false := by
  -- The path is checked before it is followed, and an empty one is refused there.
  obtain ⟨_, targeted, _⟩ := write_eq_ok.mp written
  obtain ⟨_, checked, _⟩ := ok_of_bind targeted
  cases empty : path.isEmpty with
  | false => rfl
  | true =>
    unfold checkPath at checked
    obtain ⟨_, checked⟩ := ok_of_guard checked
    obtain ⟨other, _⟩ := ok_of_guard checked
    exact absurd empty other

/-- What was written is read. -/
theorem read_write {d' : Disk} {path : String} {bytes : Bytes}
    (written : d.write path bytes = .ok d') : d'.read path = .ok bytes := by
  obtain ⟨place, targeted, rfl⟩ := write_eq_ok.mp written
  obtain ⟨checked, other, front, last, parent, split, gone, stepped⟩ := target_eq_file targeted
  -- The way that was gone when the file was made is still there.
  have resolved : Disk.resolve (d.insert (nameOf place) bytes) path = .ok place := by
    have again := foldlM_step_insert gone (nameOf place) bytes
    have last' := step_insert stepped (nameOf place) bytes
    rw [resolve, checked, split]
    simp only [Bind.bind, Except.bind, List.foldlM_append, again, List.foldlM_cons, last',
      List.foldlM_nil]
    rfl
  have inserted : (d.insert (nameOf place) bytes).find? (nameOf place) = some bytes := by
    rw [NameMap.find?_insert, if_pos rfl]
  rw [read, resolved]
  show (if _ then _ else _) = _
  simp only [not_isDirectory_insert other, inserted]
  rfl

end Tangent.Disk
