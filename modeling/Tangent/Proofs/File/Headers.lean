import Tangent.Proofs.Decimal.Written
import Tangent.Proofs.File.Utf8
import Tangent.Proofs.Json.Values

/-!
The header of a saved program is read back.

A header is written as an object, member by member. Every member reads as a JSON value, and going
through these values puts the header together again.
-/

namespace Tangent.Header

open Json

variable {α : Type}

/-- A member of a header with its text and the value that this is read as. -/
structure Entry where
  name : String
  text : List Char
  json : Json

/-- A list that may be absent, as a value. -/
def listJson {ν : Type} (json : ν → Json) : Option (List ν) → Json
  | none => .null
  | some items => .array (items.map json)

/-- A string as a value. -/
def stringJson (s : String) : Json := .string (escaped s.toList)

/-- A double as a value. -/
def numberJson [Stored α] (x : α) : Json := .number (Decimal.headerNumber x).toList

/-- The member for a string. -/
def Entry.ofString (name s : String) : Entry := ⟨name, (writeString s).toList, stringJson s⟩

/-- The member for a signed word. -/
def Entry.ofInt (name : String) (i : Int64) : Entry :=
  ⟨name, (integer i).text, .number (integer i).text⟩

/-- The member for a list. -/
def Entry.ofList {ν : Type} (name : String) (write : ν → String) (json : ν → Json)
    (items? : Option (List ν)) : Entry :=
  ⟨name, (writeArray? (items?.map (·.map write))).toList, listJson json items?⟩

/-- The member for the source, left out when there is none. -/
def sourceEntries (source : String) : List Entry :=
  if source == "" then [] else [.ofString "source" source]

/-- All members of a header but the last. -/
def frontEntries [Stored α] (stamp : Option String) (h : Header α) : List Entry :=
  [.ofInt "format_version" 1, .ofString "autoexpr_version" toolVersion] ++
    stamp.toList.map (.ofString "created_at") ++
    [.ofInt "paths" h.paths, .ofList "vars" writeString stringJson h.vars?,
      .ofList "seeds" Decimal.headerNumber numberJson h.seeds?] ++
    sourceEntries h.source

/-- All members of a header. -/
def entries [Stored α] (stamp : Option String) (h : Header α) : List Entry :=
  frontEntries stamp h ++ [.ofInt "peak_temp_elements" h.peak]

/-- The text of a member with a comma behind it. -/
def Entry.line (e : Entry) : List Char := memberText (e.name, e.text) ++ [',']

/-- Texts with commas between them have one behind each but the last. -/
theorem joined_concat (texts : List (List Char)) (last : List Char) :
    joined (texts ++ [last]) = texts.flatMap (· ++ [',']) ++ last := by
  -- A comma follows every text that another one comes after.
  induction texts with
  | nil => exact joined_singleton last
  | cons text texts ih =>
    have more : joined (text :: (texts ++ [last])) = text ++ ',' :: joined (texts ++ [last]) := by
      cases texts with
      | nil => exact joined_cons_cons _ _ _
      | cons second others => exact joined_cons_cons _ _ _
    rw [List.cons_append, more, ih, List.flatMap_cons]
    simp

/-- The names of members are written as they are. -/
theorem escaped_name {name : String} (known : name ∈ ["format_version", "autoexpr_version",
    "created_at", "paths", "vars", "seeds", "source", "peak_temp_elements"]) :
    (writeString name).toList = '"' :: (name.toList ++ ['"']) := by
  -- Each name is short and has no character that must be escaped, so it can be looked at in full.
  rw [toList_writeString]
  simp only [List.mem_cons, List.not_mem_nil, or_false] at known
  rcases known with rfl | rfl | rfl | rfl | rfl | rfl | rfl | rfl
  all_goals decide

/-- A header is written as the object of its members. -/
theorem toList_write? [Stored α] {stamp : Option String} {h : Header α} {text : String}
    (written : h.write? stamp = some text) :
    text.toList = objectText ((entries stamp h).map fun e => (e.name, e.text)) := by
  -- A member that may be missing stands for a list of at most one member.
  have stamps : (stampMember stamp).toList =
      (stamp.toList.map (Entry.ofString "created_at")).flatMap Entry.line := by
    cases stamp with
    | none => rfl
    | some s => simp [stampMember, Entry.line, Entry.ofString, memberText, escaped_name]
  have source : (sourceMember h.source).toList = (sourceEntries h.source).flatMap Entry.line := by
    unfold sourceMember sourceEntries
    split
    · rfl
    · simp [Entry.line, Entry.ofString, memberText, escaped_name]
  have one : (integer 1).text = ['1'] := by decide
  have itself (s : String) : toString s = s := rfl
  -- A header with a seed that is not finite is not written at all.
  unfold write? at written
  split at written
  · cases written
    rw [objectText, entries, List.map_append, List.map_append, List.map_singleton,
      List.map_singleton, joined_concat, List.map_map, List.flatMap_map]
    -- Every member but the last has a comma behind it, as its line says.
    change _ = '\x7b' :: (((frontEntries stamp h).flatMap Entry.line ++ _) ++ _)
    simp only [frontEntries, List.flatMap_append, ← stamps, ← source]
    simp [Entry.line, Entry.ofString, Entry.ofInt, Entry.ofList, memberText, escaped_name,
      toList_toString, one, itself]
  · cases written

/-- A header has room for its variables. -/
theorem vars_le_of_write? [Stored α] {stamp : Option String} {h : Header α} {text : String}
    (written : h.write? stamp = some text) :
    (h.vars?.getD []).length ≤ (bytesOf text).length := by
  -- A character takes at least a byte, so it is enough to count characters.
  refine Nat.le_trans ?_ (length_le_bytesOf text)
  -- Every item of the list has its quotes, so it takes a character at least.
  have listed : (h.vars?.getD []).length ≤
      (writeArray? (h.vars?.map (·.map writeString))).toList.length := by
    cases h.vars? with
    | none => exact Nat.zero_le _
    | some vars =>
      have := length_le_joined ((vars.map writeString).map String.toList)
      simp only [List.length_map] at this
      simp only [Option.map_some, toList_writeArray, List.length_cons, List.length_append,
        Option.getD_some]
      omega
  -- The list is one of the parts that the text is put together from.
  unfold write? at written
  split at written
  · cases written
    simp only [String.toList_append, List.length_append]
    omega
  · cases written

/-- A list of texts that are read is read. -/
theorem reads_list {ν : Type} {write : ν → String} {json : ν → Json} {items? : Option (List ν)}
    (each : ∀ item ∈ items?.getD [], Reads 0 (write item).toList (json item)) :
    Reads 1 (writeArray? (items?.map (·.map write))).toList (listJson json items?) := by
  cases items? with
  | none => exact reads_null
  | some items =>
    -- Every item is read on its own, and brackets and commas add one level.
    refine reads_array ?_
    rw [List.forall₂_map_left_iff, List.forall₂_map_right_iff, List.forall₂_same]
    exact each

/-- Every member of a header is read as its value. -/
theorem reads_entries [Stored α] [LawfulStored α] (stamp : Option String) {h : Header α}
    (finite : ∀ x ∈ h.seeds?.getD [], Binary64.finite x) :
    ∀ e ∈ entries stamp h, Reads 1 e.text e.json := by
  -- Each kind of member is read by the law for its kind.
  have string (name s : String) :
      Reads 1 (Entry.ofString name s).text (Entry.ofString name s).json :=
    reads_string s
  have int (name : String) (i : Int64) :
      Reads 1 (Entry.ofInt name i).text (Entry.ofInt name i).json :=
    reads_number (integer i)
  have vars : Reads 1 _ (listJson stringJson h.vars?) := reads_list fun s _ => reads_string s
  have seeds : Reads 1 _ (listJson numberJson h.seeds?) := reads_list fun x member => by
    obtain ⟨n, written, _⟩ := Decimal.exists_headerNumber (finite x member)
    rw [numberJson, written]
    exact reads_number n
  have source : ∀ e ∈ sourceEntries h.source, Reads 1 e.text e.json := by
    unfold sourceEntries
    split
    · exact nofun
    · exact List.forall_mem_singleton.mpr (string _ _)
  -- The other members are listed one by one.
  simp only [entries, frontEntries, List.forall_mem_append, List.forall_mem_cons,
    List.forall_mem_map, List.not_mem_nil, false_imp_iff, implies_true, and_true]
  exact ⟨⟨⟨⟨⟨int _ _, string _ _⟩, fun s _ => string _ s⟩, int _ _, vars, seeds⟩, source⟩, int _ _⟩

/-- Items are read from their values, whatever stood in their places. -/
theorem items?_map {ν : Type} {item? : ν → Json → Option ν} {json : ν → Json} {items : List ν}
    (each : ∀ item ∈ items, ∀ current, item? current (json item) = some item) (blank : ν)
    (current : List ν) : Header.items? item? blank current (items.map json) = some items := by
  -- What stood in a place before is given up for the item that is read there.
  induction items generalizing current with
  | nil => rfl
  | cons item items ih =>
    rw [List.forall_mem_cons] at each
    rw [List.map_cons, Header.items?, each.1, ih each.2]
    rfl

/-- A list is read from its value, absent or not. -/
theorem read?_listJson {ν : Type} {item? : ν → Json → Option ν} {json : ν → Json}
    {items? : Option (List ν)}
    (each : ∀ item ∈ items?.getD [], ∀ current, item? current (json item) = some item) (blank : ν) :
    Places.read? item? blank ⟨none, []⟩ (listJson json items?) = some ⟨items?, []⟩ := by
  cases items? with
  | none => rfl
  | some items =>
    -- An empty list is told from one that is absent by its brackets.
    cases items with
    | nil => rfl
    | cons first others =>
      have found : Header.items? item? blank [] ((first :: others).map json) = _ :=
        items?_map each blank []
      rw [listJson, List.map_cons, Places.read?, ← List.map_cons]
      · simp only [Option.getD_none, List.append_nil, found]
        rfl
      · exact fun none => absurd none (List.cons_ne_nil _ _)

/-- A double is read from its value. -/
theorem float?_numberJson [Stored α] [LawfulStored α] {x : α} (finite : Binary64.finite x)
    (current : α) : float? current (numberJson x) = some x := by
  -- The number is written with enough digits to tell it from all others.
  obtain ⟨n, written, value⟩ := Decimal.exists_headerNumber finite
  rw [numberJson, written, float?, n.literal_text, value, if_pos finite]

/-- A string is read from its value. -/
theorem string?_stringJson (current s : String) : string? current (stringJson s) = some s :=
  -- Writing escaped the text, and reading undoes that.
  congrArg some (text_escaped s)

/-- Members as the names and values that are gone through. -/
def found (es : List Entry) : List (String × Json) := es.map fun e => (e.name, e.json)

section Fold

variable [Stored α]

/-- The versions and the date only have to be well formed. -/
theorem foldlM_front {stamp : Option String} (valid : ValidStamp stamp) (r : Reading α) :
    (found ([.ofInt "format_version" 1, .ofString "autoexpr_version" toolVersion] ++
      stamp.toList.map (.ofString "created_at"))).foldlM Reading.member? r = some r := by
  -- A version is checked to be a number or a string, and not kept.
  have version : r.member? ("format_version", .number (integer 1).text) = some r :=
    congrArg (Option.map fun _ => r) (int?_integer 0 1)
  have tool : r.member? ("autoexpr_version", stringJson toolVersion) = some r := rfl
  cases stamp with
  | none => simp [found, Entry.ofInt, Entry.ofString, version, tool]
  | some s =>
    -- The date is the one that was written, without its escapes.
    have accepted : stamp? (stringJson s) = some () := by
      rw [stringJson, stamp?, text_escaped]
      exact valid s rfl
    have created : r.member? ("created_at", stringJson s) = some r :=
      congrArg (Option.map fun _ => r) accepted
    simp [found, Entry.ofInt, Entry.ofString, version, tool, created]

/-- The paths and the lists are read where nothing was read before. -/
theorem foldlM_lists [LawfulStored α] {h : Header α}
    (finite : ∀ x ∈ h.seeds?.getD [], Binary64.finite x) :
    (found [.ofInt "paths" h.paths, .ofList "vars" writeString stringJson h.vars?,
      .ofList "seeds" Decimal.headerNumber numberJson h.seeds?]).foldlM Reading.member?
        ⟨(blank : Header α), ⟨none, []⟩, ⟨none, []⟩⟩ =
      some ⟨{ blank with paths := h.paths }, ⟨h.vars?, []⟩, ⟨h.seeds?, []⟩⟩ := by
  have vars : Places.read? string? "" ⟨none, []⟩ (listJson stringJson h.vars?) = _ :=
    read?_listJson (fun s _ current => string?_stringJson current s) ""
  have seeds : Places.read? float? (Stored.ofBits 0 : α) ⟨none, []⟩ (listJson numberJson h.seeds?) =
      _ := read?_listJson (fun x member => float?_numberJson (finite x member)) (Stored.ofBits 0)
  -- Each of the three members sets its own part of what is read, and leaves the others.
  have first (r : Reading α) : r.member? ("paths", .number (integer h.paths).text) =
      some { r with header := { r.header with paths := h.paths } } := by
    change Option.map _ (int? r.header.paths _) = _
    rw [int?_integer]
    rfl
  have second {r : Reading α} (unread : r.vars = ⟨none, []⟩) :
      r.member? ("vars", listJson stringJson h.vars?) = some { r with vars := ⟨h.vars?, []⟩ } := by
    change Option.map _ (r.vars.read? string? "" _) = _
    rw [unread, vars]
    rfl
  have third {r : Reading α} (unread : r.seeds = ⟨none, []⟩) :
      r.member? ("seeds", listJson numberJson h.seeds?) =
        some { r with seeds := ⟨h.seeds?, []⟩ } := by
    change Option.map _ (r.seeds.read? float? (Stored.ofBits 0) _) = _
    rw [unread, seeds]
    rfl
  simp [found, Entry.ofInt, Entry.ofList, first, second, third]

/-- A source that was left out is none. -/
theorem foldlM_source (source : String) {r : Reading α} (unread : r.header.source = "") :
    (found (sourceEntries source)).foldlM Reading.member? r =
      some { r with header := { r.header with source } } := by
  unfold sourceEntries
  split
  · -- Nothing is written for an empty source, and the blank header has an empty one.
    rename_i same
    rw [beq_iff_eq.mp same, ← unread]
    rfl
  · have member : r.member? ("source", stringJson source) =
        some { r with header := { r.header with source } } := by
      change (string? r.header.source (stringJson source)).map
        (fun source => { r with header := { r.header with source } }) = _
      rw [string?_stringJson]
      rfl
    simp [found, Entry.ofString, member]

/-- Going through the members of a header puts it together. -/
theorem foldlM_entries [LawfulStored α] {stamp : Option String} {h : Header α}
    (valid : ValidStamp stamp) (finite : ∀ x ∈ h.seeds?.getD [], Binary64.finite x) :
    (found (entries stamp h)).foldlM Reading.member? ⟨blank, ⟨none, []⟩, ⟨none, []⟩⟩ =
      some ⟨{ h with vars? := none, seeds? := none }, ⟨h.vars?, []⟩, ⟨h.seeds?, []⟩⟩ := by
  -- The peak comes last, and is set like the paths.
  have peak (r : Reading α) : r.member? ("peak_temp_elements", .number (integer h.peak).text) =
      some { r with header := { r.header with peak := h.peak } } := by
    change Option.map _ (int? r.header.peak _) = _
    rw [int?_integer]
    rfl
  have append (front back : List Entry) : found (front ++ back) = found front ++ found back :=
    List.map_append
  -- The fold goes over the groups of members in turn, with a law for each.
  simp only [entries, frontEntries, append, List.foldlM_append]
  rw [← List.foldlM_append, ← append, foldlM_front valid]
  simp only [Option.bind_eq_bind, Option.bind_some, foldlM_lists finite]
  rw [foldlM_source h.source rfl]
  simp [found, Entry.ofInt, peak, blank]

/-- A header is read back from its text. -/
theorem read?_write? [LawfulStored α] {stamp : Option String} {h : Header α} {text : String}
    (valid : ValidStamp stamp) (written : h.write? stamp = some text) :
    read? (bytesOf text) = some h := by
  -- Only finite seeds have been written.
  have finite : ∀ x ∈ h.seeds?.getD [], Binary64.finite x := by
    unfold write? at written
    split at written
    · rename_i all
      exact List.all_eq_true.mp all
    · cases written
  -- The text is that of the object with these members, so the parser finds them.
  have members : List.Forall₂ (ReadsMember 1) ((entries stamp h).map fun e => (e.name, e.text))
      (found (entries stamp h)) := by
    rw [found, List.forall₂_map_left_iff, List.forall₂_map_right_iff, List.forall₂_same]
    exact fun e member => ⟨rfl, reads_entries stamp finite e member⟩
  have parsed := (reads_object members).parse? (by decide)
  rw [read?, charsOf_bytesOf, toList_write? written, parsed]
  simp only [Option.bind_eq_bind, Option.bind_some, foldlM_entries valid finite]
  rfl

end Fold

end Tangent.Header
