import Mathlib
import Tangent.NameMap

/-! Looking names up in maps: after an insertion, after a change of all values, and in a listing. -/

namespace Tangent.NameMap

variable {ν μ : Type}

/-- An insertion is found under its name, and every other name as before. -/
theorem find?_insertEntry (name other : String) (value : ν) (entries : List (String × ν)) :
    ((insertEntry name value entries).find? (fun entry => entry.1 == other)).map (·.2) =
      if name = other then some value
      else (entries.find? (fun entry => entry.1 == other)).map (·.2) := by
  -- An entry that is replaced has the name of the insertion, so no other name loses its value.
  induction entries with
  | nil => by_cases same : name = other <;> simp [insertEntry, same]
  | cons head rest ih =>
    obtain ⟨kept, old⟩ := head
    simp only [insertEntry]
    -- The new name stands before the first entry, behind it, or in its place.
    split
    · by_cases same : name = other <;> simp [same]
    · split
      · -- Behind the first entry it cannot be the name of that entry.
        rename_i notBefore after
        by_cases first : kept = other
        · have different : ¬ name = other := by
            rintro rfl
            exact absurd (first ▸ after) (String.lt_irrefl _)
          simp [first, different]
        · simp [first, ih]
      · -- Names are ordered totally, so what is neither before nor behind is the same.
        rename_i notBefore notAfter
        have same : name = kept :=
          String.le_antisymm (String.not_lt.mp notAfter) (String.not_lt.mp notBefore)
        subst same
        by_cases asked : name = other <;> simp [asked]

/-- An insertion is found under its name, and every other name as before. -/
theorem find?_insert (m : NameMap ν) (name other : String) (value : ν) :
    (m.insert name value).find? other = if name = other then some value else m.find? other :=
  -- The entries are sorted by name, and the insertion keeps them so.
  find?_insertEntry name other value m.entries

/-- The empty map knows no name. -/
@[simp] theorem find?_empty (name : String) : (empty : NameMap ν).find? name = none := rfl

/-- An entry is what its name is bound to. -/
theorem mem_entries_iff (m : NameMap ν) (name : String) (value : ν) :
    (name, value) ∈ m.entries ↔ m.find? name = some value := by
  -- Names ascend strictly, so the first entry of a name is its only one.
  obtain ⟨entries, sorted⟩ := m
  simp only [find?]
  induction entries with
  | nil => simp
  | cons head rest ih =>
    obtain ⟨first, kept⟩ := head
    obtain ⟨above, tail⟩ := List.pairwise_cons.mp sorted
    by_cases same : first = name
    · -- The name is not bound again further down.
      subst same
      have later : (first, value) ∉ rest := fun found =>
        String.lt_irrefl _ (above (first, value) found)
      simp [later, eq_comm]
    · simp [same, Ne.symm same, ih tail]

/-- A listed name is a bound one. -/
theorem mem_names_iff (m : NameMap ν) (name : String) :
    name ∈ m.names ↔ ∃ value, m.find? name = some value := by
  -- A name is listed with its entry, and entries are what is found.
  simp only [names, List.mem_map, Prod.exists, exists_and_right, exists_eq_right, mem_entries_iff]

/-- Replacing all values replaces the one that is found. -/
theorem find?_mapValues (f : String → ν → μ) (m : NameMap ν) (name : String) :
    (m.mapValues f).find? name = (m.find? name).map (f name) := by
  -- Names stay where they are, so the search stops at the same entry.
  obtain ⟨entries, sorted⟩ := m
  simp only [mapValues, find?]
  clear sorted
  induction entries with
  | nil => rfl
  | cons head rest ih =>
    obtain ⟨first, kept⟩ := head
    by_cases same : first = name
    · subst same
      simp
    · simpa [same] using ih

/-- The names that entries bring into a map are theirs and those it had. -/
theorem exists_find?_foldl_insert (entries : List (String × ν)) (m : NameMap ν) (name : String) :
    (∃ value, (entries.foldl (fun m entry => m.insert entry.1 entry.2) m).find? name = some value) ↔
      name ∈ entries.map (·.1) ∨ ∃ value, m.find? name = some value := by
  -- The map grows with every entry, so the induction is for all maps at once.
  induction entries generalizing m with
  | nil => simp
  | cons head rest ih =>
    rw [List.foldl_cons, ih]
    simp only [find?_insert, List.map_cons, List.mem_cons]
    by_cases same : head.1 = name
    · simp [same]
    · simp [same, Ne.symm same]

/-- A map made of entries lists their names. -/
theorem mem_names_ofList (entries : List (String × ν)) (name : String) :
    name ∈ (ofList entries).names ↔ name ∈ entries.map (·.1) := by
  -- The empty map, which the entries are brought into, has no names of its own.
  rw [mem_names_iff, ofList, exists_find?_foldl_insert]
  simp

/-- A name above all others is inserted at the end. -/
theorem insertEntry_above {name : String} (value : ν) {entries : List (String × ν)}
    (above : ∀ entry ∈ entries, entry.1 < name) :
    insertEntry name value entries = entries ++ [(name, value)] := by
  -- The insertion passes every entry it meets.
  induction entries with
  | nil => rfl
  | cons head rest ih =>
    have below := above head (by simp)
    rw [insertEntry, if_neg (String.lt_asymm below), if_pos below,
      ih (fun entry found => above entry (by simp [found]))]
    rfl

/-- Ordered entries above all names of a map are inserted behind its own. -/
theorem entries_foldl_insert {entries : List (String × ν)} {m : NameMap ν}
    (sorted : (m.entries ++ entries).Pairwise (fun a b => a.1 < b.1)) :
    (entries.foldl (fun m entry => m.insert entry.1 entry.2) m).entries = m.entries ++ entries := by
  induction entries generalizing m with
  | nil => simp
  | cons head rest ih =>
    -- The first of the entries is above the whole map, and the others are above it.
    have above : ∀ entry ∈ m.entries, entry.1 < head.1 := fun entry found =>
      (List.pairwise_append.mp sorted).2.2 entry found head (by simp)
    have inserted : (m.insert head.1 head.2).entries = m.entries ++ [head] :=
      insertEntry_above head.2 above
    rw [List.foldl_cons, ih (by simpa [inserted] using sorted), inserted]
    simp

/-- Maps with the same entries are the same. -/
theorem eq_of_entries {m m' : NameMap ν} (same : m.entries = m'.entries) : m = m' := by
  -- The only other field is a proof.
  cases m
  cases m'
  cases same
  rfl

/-- The map of a map's entries is the map. -/
theorem ofList_entries (m : NameMap ν) : ofList m.entries = m :=
  -- The entries are put in one after the other, each behind the last one.
  eq_of_entries (entries_foldl_insert (m := empty) m.sorted)

/-- No name is listed twice. -/
theorem nodup_names (m : NameMap ν) : m.names.Nodup := by
  -- The names are strictly ascending, so no two of them are the same.
  refine List.Pairwise.map _ (fun a b below => ?_) m.sorted
  exact fun same => String.lt_irrefl _ (same ▸ below)

/-- Maps that bind every name alike are equal. -/
theorem eq_of_find? {m m' : NameMap ν} (same : ∀ name, m.find? name = m'.find? name) : m = m' := by
  -- Both list the same entries, each of them once and in the order of the names.
  have listed : ∀ entry, entry ∈ m.entries ↔ entry ∈ m'.entries := by
    intro entry
    rw [mem_entries_iff m entry.1 entry.2, mem_entries_iff m' entry.1 entry.2, same]
  have rearranged :=
    (List.perm_ext_iff_of_nodup m.nodup_names.of_map m'.nodup_names.of_map).mpr listed
  apply eq_of_entries
  refine rearranged.eq_of_pairwise (fun a b _ _ below above => ?_) m.sorted m'.sorted
  exact absurd (String.lt_trans below above) (String.lt_irrefl _)

/-- The entries before a place are those of smaller names. -/
theorem take_eq_filter (m : NameMap ν) {position : Nat} {entry : String × ν}
    (there : m.entries[position]? = some entry) :
    m.entries.take position = m.entries.filter (fun other => other.1 < entry.1) := by
  obtain ⟨inside, own⟩ := List.getElem?_eq_some_iff.mp there
  have split := List.take_append_drop position m.entries
  rw [List.drop_eq_getElem_cons inside, own] at split
  have sorted := m.sorted
  rw [← split] at sorted
  obtain ⟨_, behind, across⟩ := List.pairwise_append.mp sorted
  -- The names before the place are smaller, its own one is not, and neither are those behind it.
  have before : (m.entries.take position).filter (fun other => other.1 < entry.1) =
      m.entries.take position := by
    apply List.filter_eq_self.mpr
    intro other listed
    simpa using across other listed entry List.mem_cons_self
  have after : (m.entries.drop (position + 1)).filter (fun other => other.1 < entry.1) = [] := by
    apply List.filter_eq_nil_iff.mpr
    intro other listed
    simpa using String.lt_asymm (List.rel_of_pairwise_cons behind listed)
  calc m.entries.take position
      = (m.entries.take position ++ entry :: m.entries.drop (position + 1)).filter
          (fun other => other.1 < entry.1) := by
        rw [List.filter_append, before, List.filter_cons_of_neg (by simp), after, List.append_nil]
    _ = m.entries.filter (fun other => other.1 < entry.1) := by rw [split]

/-- A map whose names are among those of another has no more of them. -/
theorem length_le_of_contains {m : NameMap ν} {m' : NameMap μ}
    (among : ∀ name, m.contains name = true → m'.contains name = true) :
    m.entries.length ≤ m'.entries.length := by
  -- The names of the one map are listed among those of the other, and none of them twice.
  have subset : m.names ⊆ m'.names := by
    intro name listed
    have known := among name (Option.isSome_iff_exists.mpr ((m.mem_names_iff name).mp listed))
    exact (m'.mem_names_iff name).mpr (Option.isSome_iff_exists.mp known)
  have fewer := (List.subperm_of_subset m.nodup_names subset).length_le
  simpa [names] using fewer

end Tangent.NameMap
