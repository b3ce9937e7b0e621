/-! Maps from names to values, kept in the order of their names. -/

namespace Tangent

/--
A map from names to values.

The entries ascend strictly by name, so each name has one value and listing the map is listing
it in order.
-/
structure NameMap (ν : Type) where
  entries : List (String × ν)
  sorted : entries.Pairwise (fun a b => a.1 < b.1)

namespace NameMap

variable {ν μ : Type}

/-- The map that knows no name. -/
def empty : NameMap ν := ⟨[], .nil⟩

instance : EmptyCollection (NameMap ν) := ⟨empty⟩

instance : Inhabited (NameMap ν) := ⟨empty⟩

/-- Puts an entry at its place among ordered entries, over one of the same name. -/
def insertEntry (name : String) (value : ν) : List (String × ν) → List (String × ν)
  | [] => [(name, value)]
  | (other, kept) :: rest =>
    if name < other then (name, value) :: (other, kept) :: rest
    else if other < name then (other, kept) :: insertEntry name value rest
    else (name, value) :: rest

/-- Inserting adds no name but the one inserted. -/
theorem mem_insertEntry {name : String} {value : ν} {entries : List (String × ν)}
    {entry : String × ν} (found : entry ∈ insertEntry name value entries) :
    entry = (name, value) ∨ entry ∈ entries := by
  -- Each branch keeps entries that were there and adds the new one once.
  induction entries with
  | nil => simpa [insertEntry] using found
  | cons head rest ih =>
    simp only [insertEntry] at found
    grind

/-- Inserting keeps ordered entries in order. -/
theorem sorted_insertEntry (name : String) (value : ν) {entries : List (String × ν)}
    (ordered : entries.Pairwise (fun a b => a.1 < b.1)) :
    (insertEntry name value entries).Pairwise (fun a b => a.1 < b.1) := by
  induction entries with
  | nil => simp [insertEntry]
  | cons head rest ih =>
    obtain ⟨other, kept⟩ := head
    obtain ⟨above, tail⟩ := List.pairwise_cons.mp ordered
    simp only [insertEntry]
    split
    · -- The new name comes first, and what follows lies above the old first name.
      rename_i before
      refine List.pairwise_cons.mpr ⟨fun entry found => ?_, List.pairwise_cons.mpr ⟨above, tail⟩⟩
      rcases List.mem_cons.mp found with rfl | found
      · exact before
      · exact String.lt_trans before (above entry found)
    · split
      · -- The old first name stays first, also below the new name.
        rename_i after
        refine List.pairwise_cons.mpr ⟨fun entry found => ?_, ih tail⟩
        rcases mem_insertEntry found with rfl | found
        · exact after
        · exact above entry found
      · -- Two names of which neither is smaller are the same name.
        rename_i notBefore notAfter
        have same : name = other :=
          String.le_antisymm (String.not_lt.mp notAfter) (String.not_lt.mp notBefore)
        subst same
        exact List.pairwise_cons.mpr ⟨above, tail⟩

/-- The map with a name bound to a value, whatever it was bound to before. -/
def insert (m : NameMap ν) (name : String) (value : ν) : NameMap ν :=
  ⟨insertEntry name value m.entries, sorted_insertEntry name value m.sorted⟩

/-- The value bound to a name. -/
def find? (m : NameMap ν) (name : String) : Option ν :=
  (m.entries.find? (fun entry => entry.1 == name)).map (·.2)

/-- Whether a name is bound. -/
def contains (m : NameMap ν) (name : String) : Bool :=
  (m.find? name).isSome

/-- The map without a name. -/
def erase (m : NameMap ν) (name : String) : NameMap ν :=
  ⟨m.entries.filter (fun entry => entry.1 != name), m.sorted.filter _⟩

/-- The names in order. -/
def names (m : NameMap ν) : List String :=
  m.entries.map (·.1)

/-- The map with every value replaced by what a function makes of its name and value. -/
def mapValues (f : String → ν → μ) (m : NameMap ν) : NameMap μ :=
  ⟨m.entries.map (fun entry => (entry.1, f entry.1 entry.2)), by
    rw [List.pairwise_map]
    exact m.sorted⟩

/-- The map of a list of entries, of which the last of a name counts. -/
def ofList (entries : List (String × ν)) : NameMap ν :=
  entries.foldl (fun m entry => m.insert entry.1 entry.2) empty

end NameMap

end Tangent
