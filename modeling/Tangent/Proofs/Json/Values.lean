import Tangent.Proofs.Json.Numbers
import Tangent.Proofs.Json.Strings

/-!
Texts that read as a given JSON value, whatever follows them.

Arrays and objects of such texts are such texts again, one level higher.
-/

namespace Tangent.Json

/-- A text that starts with a character that is neither a blank nor the end of a list. -/
def Solid (text : List Char) : Prop :=
  ∃ c more, text = c :: more ∧ c ∉ [' ', '\t', '\n', '\r', ']', '\x7d']

/-- No blanks are skipped in front of a solid text. -/
theorem Solid.skipBlanks_append {text : List Char} (solid : Solid text) (rest : List Char) :
    skipBlanks (text ++ rest) = text ++ rest := by
  -- Its first character is no blank, so skipping ends there.
  obtain ⟨c, more, rfl, visible⟩ := solid
  simp only [List.mem_cons, List.not_mem_nil, or_false, not_or] at visible
  simp [skipBlanks, visible]

/-- A character that is no blank is not skipped. -/
theorem skipBlanks_cons {c : Char} (visible : c ∉ [' ', '\t', '\n', '\r']) (rest : List Char) :
    skipBlanks (c :: rest) = c :: rest := by
  -- Skipping looks at the first character only.
  simp only [List.mem_cons, List.not_mem_nil, or_false, not_or] at visible
  simp [skipBlanks, visible]

/-- A text that is read as a value with at most so many levels, in front of whatever may follow. -/
structure Reads (height : Nat) (text : List Char) (json : Json) : Prop where
  solid : Solid text
  value : ∀ depth fuel rest, depth + height ≤ deepest → text.length < fuel → Ends rest →
    value? depth fuel (text ++ rest) = some (json, rest)

variable {height : Nat}

/-- The word for nothing. -/
theorem reads_null : Reads height "null".toList .null where
  -- It is known by its first letter, whatever follows the word.
  solid := ⟨'n', ['u', 'l', 'l'], rfl, by decide⟩
  value := by
    rintro depth (_ | fuel) rest _ enough _
    · exact absurd enough (Nat.not_lt_zero _)
    · rfl

/-- A written string. -/
theorem reads_string (s : String) :
    Reads height (writeString s).toList (.string (escaped s.toList)) where
  -- It is known by its quote, and read up to the closing one.
  solid := ⟨'"', _, toList_writeString s, by decide⟩
  value := by
    rintro depth (_ | fuel) rest _ enough _
    · exact absurd enough (Nat.not_lt_zero _)
    · rw [toList_writeString, List.cons_append, value?, skipBlanks_cons (by decide)]
      simp [string?_escaped]

/-- A number. -/
theorem reads_number (n : Numeral) : Reads height n.text (.number n.text) := by
  obtain ⟨d, digits, front, digit⟩ := n.exists_whole
  -- A number starts with its sign or with a digit, unlike all other values.
  obtain ⟨c, more, text, first⟩ : ∃ c more, n.text = c :: more ∧ (c = '-' ∨ c.isDigit) := by
    rw [Numeral.text]
    cases n.negative with
    | true => exact ⟨'-', _, rfl, .inl rfl⟩
    | false => exact ⟨d, _, by rw [front]; rfl, .inr digit⟩
  have other {e : Char} (unlike : ¬ (e = '-' ∨ e.isDigit)) : c ≠ e := by
    rintro rfl
    exact unlike first
  have solid : Solid n.text := by
    refine ⟨c, more, text, ?_⟩
    simp only [List.mem_cons, List.not_mem_nil, or_false, not_or]
    refine ⟨?_, ?_, ?_, ?_, ?_, ?_⟩
    all_goals exact other (by decide)
  refine ⟨solid, ?_⟩
  rintro depth (_ | fuel) rest _ enough ends
  · exact absurd enough (Nat.not_lt_zero _)
  · have found := n.number?_append ends
    have skipped := solid.skipBlanks_append rest
    rw [text, List.cons_append] at found skipped ⊢
    rw [value?, skipped]
    split
    -- No other value starts with a sign or a digit.
    iterate 6
      · rename_i same
        exact absurd (List.cons.inj same).1 (other (by decide))
    · rw [found]
      rfl

/-- Texts with commas between them. -/
def joined (texts : List (List Char)) : List Char := [','].intercalate texts

/-- Several texts are the first of them, a comma and the others. -/
theorem joined_cons_cons (first second : List Char) (others : List (List Char)) :
    joined (first :: second :: others) = first ++ ',' :: joined (second :: others) := by
  -- The comma stands behind the first text.
  rw [joined, List.intercalate_cons_cons, List.append_assoc]
  rfl

/-- A single text needs no comma. -/
theorem joined_singleton (text : List Char) : joined [text] = text := by
  -- There is nothing to put a comma between.
  simp [joined]

/-- Every item of a list takes a character or more. -/
theorem length_le_joined (texts : List (List Char)) :
    texts.length ≤ (joined texts).length + 1 := by
  -- Between two items there is a comma at least.
  induction texts with
  | nil => exact Nat.zero_le _
  | cons text texts ih =>
    cases texts with
    | nil => exact Nat.le_add_left 1 _
    | cons second others =>
      rw [joined_cons_cons, List.length_append, List.length_cons, List.length_cons (a := ',')]
      omega

/-- Texts with commas between them start as the first of them does. -/
theorem solid_joined {text : List Char} (solid : Solid text) (texts : List (List Char)) :
    Solid (joined (text :: texts)) := by
  -- The first character is that of the first text, with or without a comma behind it.
  obtain ⟨c, more, rfl, visible⟩ := solid
  cases texts with
  | nil => exact ⟨c, more, joined_singleton _, visible⟩
  | cons second others => exact ⟨c, _, joined_cons_cons _ second others, visible⟩

/-- A comma or an end may follow a value. -/
theorem ends_cons {c : Char} (mark : c = ',' ∨ c = ']' ∨ c = '\x7d') (rest : List Char) :
    Ends (c :: rest) := by
  -- The character in front is the mark.
  intro d front
  cases front
  exact mark

/-- Items are read up to the end of their list. -/
theorem items?_joined {text : List Char} {json : Json} (first : Reads height text json)
    {texts : List (List Char)} {jsons : List Json}
    (others : List.Forall₂ (Reads height) texts jsons)
    {depth : Nat} (low : depth + height ≤ deepest) {fuel : Nat}
    (enough : (joined (text :: texts)).length + 1 < fuel) (rest : List Char) :
    items? depth fuel (joined (text :: texts) ++ ']' :: rest) = some (json :: jsons, rest) := by
  induction others generalizing text json fuel with
  | nil =>
    -- Each round of the loop takes one step of the fuel for itself.
    obtain ⟨fuel, rfl⟩ := Nat.exists_eq_add_one_of_ne_zero (Nat.ne_zero_of_lt enough)
    rw [joined_singleton] at enough ⊢
    rw [items?, first.value depth fuel _ low (by omega) (ends_cons (.inr (.inl rfl)) rest)]
    simp [skipBlanks_cons]
  | @cons second json' texts jsons second_reads _ ih =>
    obtain ⟨fuel, rfl⟩ := Nat.exists_eq_add_one_of_ne_zero (Nat.ne_zero_of_lt enough)
    rw [joined_cons_cons] at enough ⊢
    rw [List.length_append, List.length_cons] at enough
    rw [List.append_assoc, List.cons_append, items?,
      first.value depth fuel _ low (by omega) (ends_cons (.inl rfl) _)]
    -- The comma is passed over, and the other items follow.
    have later : items? depth fuel _ = _ := ih second_reads (by omega)
    simp [skipBlanks_cons, later]

/-- An array is written with brackets around its items. -/
theorem toList_writeArray (texts : List String) : (writeArray? (some texts)).toList =
    '[' :: (joined (texts.map String.toList) ++ [']']) := by
  -- Joining strings is joining their characters.
  simp [writeArray?, joined, String.toList_intercalate]

/-- A written array of texts that are read. -/
theorem reads_array {texts : List String} {items : List Json}
    (each : List.Forall₂ (fun text => Reads height text.toList) texts items) :
    Reads (height + 1) (writeArray? (some texts)).toList (.array items) := by
  rw [toList_writeArray]
  refine ⟨⟨'[', _, rfl, by decide⟩, ?_⟩
  rintro depth (_ | fuel) rest low enough _
  · exact absurd enough (Nat.not_lt_zero _)
  -- The bracket is taken, and the items are read one level deeper.
  rw [List.cons_append, value?, skipBlanks_cons (by decide)]
  simp only [if_neg (show ¬ depth ≥ deepest by omega)]
  cases each with
  | nil => rfl
  | @cons text item texts items first others =>
    rw [List.map_cons, List.length_cons, List.length_append, List.length_singleton] at enough
    have found : items? (depth + 1) fuel _ = _ :=
      items?_joined first (List.forall₂_map_left_iff.mpr others) (by omega) (by omega) rest
    have solid := solid_joined first.solid (texts.map String.toList)
    rw [List.map_cons, List.append_assoc, List.singleton_append, solid.skipBlanks_append]
    split
    · -- The first item does not start with the closing bracket.
      rename_i same
      obtain ⟨c, more, front, visible⟩ := solid
      rw [front] at same
      exact absurd (List.cons.inj same).1 (by rintro rfl; exact visible (by decide))
    · rw [found]
      rfl

/-- The text of a member: its name and, after a colon, its value. -/
def memberText (member : String × List Char) : List Char :=
  (writeString member.1).toList ++ ':' :: member.2

/-- A member whose text is read as a name and a value. -/
def ReadsMember (height : Nat) (member : String × List Char) (found : String × Json) : Prop :=
  found.1 = member.1 ∧ Reads height member.2 found.2

/-- A member is read up to its value. -/
theorem members?_member {member : String × List Char} {found : String × Json}
    (reads : ReadsMember height member found) {depth fuel : Nat} (low : depth + height ≤ deepest)
    (enough : (memberText member).length < fuel) {c : Char}
    (mark : c = ',' ∨ c = '\x7d') (rest : List Char) :
    members? depth (fuel + 1) (memberText member ++ c :: rest) =
      if c = ',' then (members? depth fuel rest).map fun others => (found :: others.1, others.2)
      else some ([found], rest) := by
  obtain ⟨name, json⟩ := found
  obtain ⟨rfl, value⟩ := reads
  rw [memberText, List.length_append, List.length_cons] at enough
  have after := value.value depth fuel (c :: rest) low (by omega)
    (ends_cons (mark.imp_right .inr) rest)
  -- A name, a colon and a value are read in turn, none with a blank before it.
  rw [memberText, toList_writeString, members?]
  simp only [List.cons_append, List.append_assoc, List.nil_append]
  rw [skipBlanks_cons (by decide)]
  simp only [string?_escaped, Option.bind_eq_bind, Option.bind_some]
  rw [skipBlanks_cons (by decide)]
  simp only [after, text_escaped, Option.bind_some]
  -- The mark behind the value says whether another member follows.
  rcases mark with rfl | rfl
  · rw [if_pos rfl, skipBlanks_cons (by decide), Option.map_eq_bind]
    rfl
  · rw [if_neg (by decide), skipBlanks_cons (by decide)]
    rfl

/-- Members are read up to the end of their object. -/
theorem members?_joined {member : String × List Char} {found : String × Json}
    (first : ReadsMember height member found) {members : List (String × List Char)}
    {others : List (String × Json)} (each : List.Forall₂ (ReadsMember height) members others)
    {depth : Nat} (low : depth + height ≤ deepest) {fuel : Nat}
    (enough : (joined ((member :: members).map memberText)).length + 1 < fuel)
    (rest : List Char) :
    members? depth fuel (joined ((member :: members).map memberText) ++ '\x7d' :: rest) =
      some (found :: others, rest) := by
  -- A comma leads to the next member, and a brace to the end.
  induction each generalizing member found fuel with
  | nil =>
    obtain ⟨fuel, rfl⟩ := Nat.exists_eq_add_one_of_ne_zero (Nat.ne_zero_of_lt enough)
    rw [List.map_cons, List.map_nil, joined_singleton] at enough ⊢
    rw [members?_member first low (by omega) (.inr rfl), if_neg (by decide)]
  | @cons second next members others second_reads _ ih =>
    obtain ⟨fuel, rfl⟩ := Nat.exists_eq_add_one_of_ne_zero (Nat.ne_zero_of_lt enough)
    rw [List.map_cons, List.map_cons, joined_cons_cons, ← List.map_cons] at enough ⊢
    rw [List.length_append, List.length_cons] at enough
    rw [List.append_assoc, List.cons_append,
      members?_member first low (by omega) (.inl rfl), if_pos rfl, ih second_reads (by omega)]
    rfl

/-- The text of an object. -/
def objectText (members : List (String × List Char)) : List Char :=
  '\x7b' :: (joined (members.map memberText) ++ ['\x7d'])

/-- An object of members that are read. -/
theorem reads_object {members : List (String × List Char)} {found : List (String × Json)}
    (each : List.Forall₂ (ReadsMember height) members found) :
    Reads (height + 1) (objectText members) (.object found) := by
  refine ⟨⟨'\x7b', _, rfl, by decide⟩, ?_⟩
  rintro depth (_ | fuel) rest low enough _
  · exact absurd enough (Nat.not_lt_zero _)
  rw [objectText] at enough ⊢
  -- The brace is taken, and the members are read one level deeper.
  rw [List.cons_append, value?, skipBlanks_cons (by decide)]
  simp only [if_neg (show ¬ depth ≥ deepest by omega)]
  cases each with
  | nil => rfl
  | @cons member pair members others first later =>
    rw [List.length_cons, List.length_append, List.length_singleton] at enough
    have all : members? (depth + 1) fuel _ = _ :=
      members?_joined first later (by omega) (by omega) rest
    -- The name of a member starts with a quote.
    have solid : Solid (memberText member) :=
      ⟨'"', _, by rw [memberText, toList_writeString]; rfl, by decide⟩
    have front := solid_joined solid (members.map memberText)
    rw [← List.map_cons] at front
    rw [List.append_assoc, List.singleton_append, front.skipBlanks_append]
    split
    · rename_i same
      obtain ⟨c, more, first, visible⟩ := front
      rw [first] at same
      exact absurd (List.cons.inj same).1 (by rintro rfl; exact visible (by decide))
    · rw [all]
      rfl

/-- A text that is read with nothing behind it holds its value. -/
theorem Reads.parse? {text : List Char} {json : Json} (reads : Reads height text json)
    (low : height ≤ deepest) : parse? text = some json := by
  -- The fuel is more than enough for a text of this length.
  have whole := reads.value 0 (2 * text.length + 2) [] (by omega) (by omega) nofun
  rw [List.append_nil] at whole
  rw [Json.parse?, whole]
  rfl

end Tangent.Json
