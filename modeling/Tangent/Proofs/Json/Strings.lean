import Mathlib
import Tangent.Json.Value
import Tangent.Json.Write

/-!
Strings that are written as JSON read back as themselves.

A character is written alone, as a backslash with a letter, or by its number in hexadecimal, and
each of these forms is passed over as a whole and stands for that character.
-/

namespace Tangent.Json

/-- What is written for some characters between quotes. -/
def escaped (cs : List Char) : List Char := cs.flatMap fun c => (writeChar c).toList

/-- A written string is its characters, one by one, between quotes. -/
theorem toList_writeString (s : String) :
    (writeString s).toList = '"' :: (escaped s.toList ++ ['"']) := by
  -- The parts are joined, and each part is a character as it is written.
  simp [writeString, escaped, String.toList_join, List.flatMap_map]

/-- A character that stands for itself between quotes. -/
def Plain (c : Char) : Prop := c ≠ '"' ∧ c ≠ '\\' ∧ 0x20 ≤ c.toNat

instance (c : Char) : Decidable (Plain c) := inferInstanceAs (Decidable (_ ∧ _))

/-- The forms in which a character is written, each with the code that it reads as. -/
inductive Form (code : Nat) : List Char → Prop
  | alone {c : Char} (plain : Plain c) (same : c.toNat = code) : Form code [c]
  | letter {c : Char} (short : c ≠ 'u') (means : escapeCode? c = some code) : Form code ['\\', c]
  | hex {digits : List Char} (four : digits.length = 4) (plain : ∀ c ∈ digits, Plain c)
      (means : hexNumber? digits = some code) : Form code ('\\' :: 'u' :: digits)

/-- The codes that are written in hexadecimal although they are no control characters. -/
def guardedCodes : List Nat := [0x26, 0x3c, 0x3e, 0x2028, 0x2029]

/-- The codes that are written in hexadecimal come out with four digits. -/
theorem form_hexPadded {code : Nat} (listed : code ∈ List.range 32 ++ guardedCodes) :
    Form code ('\\' :: 'u' :: (Text.hexPadded 4 code).toList) := by
  -- There are few such codes, and their digits are found by calculation.
  have found : ∀ code ∈ List.range 32 ++ guardedCodes,
      let digits := List.replicate (4 - (Nat.toDigits 16 code).length) '0' ++ Nat.toDigits 16 code
      digits.length = 4 ∧ digits.all (fun c => decide (Plain c)) ∧
        hexNumber? digits = some code := by
    decide +kernel
  obtain ⟨four, plain, means⟩ := found code listed
  rw [Text.hexPadded, String.toList_ofList]
  exact .hex four (fun c member => of_decide_eq_true (List.all_eq_true.mp plain c member)) means

/-- A guarded character has one of the listed codes. -/
theorem mem_guardedCodes {c : Char} (guarded : isGuarded c) : c.toNat ∈ guardedCodes := by
  -- Three of these characters are named in the test, and two are given by their codes.
  simp only [isGuarded, Bool.or_eq_true, beq_iff_eq] at guarded
  rcases guarded with (((rfl | rfl) | rfl) | same) | same
  · decide
  · decide
  · decide
  · rw [same]; decide
  · rw [same]; decide

/-- A character is written in a form that reads as its own code. -/
theorem form_writeChar (c : Char) : Form c.toNat (writeChar c).toList := by
  unfold writeChar
  simp only [Bool.or_eq_true, beq_iff_eq, decide_eq_true_eq]
  split_ifs with quoted newline back tab bell feed listed
  · -- Quotes and backslashes are written with a backslash in front of them.
    rcases quoted with rfl | rfl
    all_goals exact String.toList_ofList ▸ .letter (by decide) (by decide)
  · -- The control characters that have a letter of their own are tried one by one.
    exact newline ▸ .letter (by decide) (by decide)
  · exact back ▸ .letter (by decide) (by decide)
  · exact tab ▸ .letter (by decide) (by decide)
  · exact bell ▸ .letter (by decide) (by decide)
  · exact feed ▸ .letter (by decide) (by decide)
  · -- Other control characters and guarded ones are written by their numbers.
    rw [String.toList_append]
    refine form_hexPadded (List.mem_append.mpr ?_)
    exact listed.imp List.mem_range.mpr mem_guardedCodes
  · -- What is left stands for itself.
    rw [not_or] at quoted listed
    rw [String.toList_singleton]
    exact .alone ⟨quoted.1, quoted.2, not_lt.mp listed.1⟩ rfl

/-- A plain character between quotes is passed over. -/
theorem rawString?_plain {c : Char} (plain : Plain c) (rest : List Char) :
    rawString? (c :: rest) = (rawString? rest).map fun found => (c :: found.1, found.2) := by
  obtain ⟨quote, slash, visible⟩ := plain
  -- A plain character neither closes the string nor escapes what follows it.
  rw [rawString?]
  · rw [if_neg]
    simp only [Bool.or_eq_true, beq_iff_eq, decide_eq_true_eq, not_or]
    exact ⟨slash, by omega⟩
  · exact quote
  · rintro _ _ rfl
    exact absurd rfl slash

/-- Plain characters between quotes are passed over. -/
theorem rawString?_plains {cs : List Char} (plain : ∀ c ∈ cs, Plain c) (rest : List Char) :
    rawString? (cs ++ rest) = (rawString? rest).map fun found => (cs ++ found.1, found.2) := by
  -- One character is passed over after the other.
  induction cs with
  | nil => simp
  | cons c cs ih =>
    rw [List.forall_mem_cons] at plain
    rw [List.cons_append, rawString?_plain plain.1, ih plain.2, Option.map_map]
    rfl

/-- A character in any of its forms is passed over. -/
theorem Form.rawString? {code : Nat} {written : List Char} (form : Form code written)
    (rest : List Char) :
    rawString? (written ++ rest) =
      (Json.rawString? rest).map fun found => (written ++ found.1, found.2) := by
  -- Hexadecimal digits are plain, so after the mark they are passed over one by one.
  cases form with
  | alone plain _ => exact rawString?_plain plain rest
  | letter _ _ => simp [Json.rawString?]
  | hex _ plain _ =>
    rw [List.cons_append, List.cons_append, Json.rawString?, rawString?_plains plain,
      Option.map_map]
    rfl

/-- A character in any of its forms stands for its code. -/
theorem Form.codes? {code : Nat} {written : List Char} (form : Form code written)
    (rest : List Char) : codes? (written ++ rest) = (Json.codes? rest).map (code :: ·) := by
  cases form with
  | alone plain same =>
    -- A plain character is no backslash, so no escape is looked for.
    rw [List.singleton_append, Json.codes?]
    · rw [if_neg (by simpa using plain.2.1), same]
    · rintro _ _ _ _ _ rfl _
      exact plain.2.1 rfl
    · rintro _ _ rfl _
      exact plain.2.1 rfl
  | letter short means =>
    -- A letter other than the mark of a number is looked up.
    rw [List.cons_append, List.singleton_append, Json.codes?]
    · rw [means]
      cases Json.codes? rest <;> rfl
    · rintro _ _ _ _ _ rfl _
      exact short rfl
  | @hex digits four _ means =>
    -- Exactly four digits are taken after the mark.
    match digits, four with
    | [a, b, c, d], _ =>
      simp only [List.cons_append, List.nil_append, Json.codes?]
      rw [means]
      cases Json.codes? rest <;> rfl

/-- Written characters are passed over up to the closing quote. -/
theorem rawString?_escaped (cs rest : List Char) :
    rawString? (escaped cs ++ '"' :: rest) = some (escaped cs, rest) := by
  induction cs with
  | nil => rfl
  | cons c cs ih =>
    -- The first character is passed over in its form, and the others come after it.
    rw [escaped, List.flatMap_cons, List.append_assoc, (form_writeChar c).rawString?]
    rw [escaped] at ih
    rw [ih]
    rfl

/-- Written characters stand for their codes. -/
theorem codes?_escaped (cs : List Char) : codes? (escaped cs) = some (cs.map Char.toNat) := by
  induction cs with
  | nil => rfl
  | cons c cs ih =>
    -- The first character gives its code, and the others theirs.
    rw [escaped, List.flatMap_cons, (form_writeChar c).codes?]
    rw [escaped] at ih
    rw [ih]
    rfl

/-- The code of a character is no half of a pair. -/
theorem not_half (c : Char) : isHighHalf c.toNat = false ∧ isLowHalf c.toNat = false := by
  -- The codes of halves are left out from those of characters.
  have valid : c.toNat < 0xd800 ∨ 0xdfff < c.toNat ∧ c.toNat < 0x110000 := c.valid
  simp only [isHighHalf, isLowHalf, Bool.and_eq_false_iff, decide_eq_false_iff_not]
  omega

/-- The codes of characters are joined to these characters. -/
theorem joinCodes_map_toNat (cs : List Char) : joinCodes (cs.map Char.toNat) = cs := by
  have single (c : Char) : charOfCode c.toNat = c := by
    rw [charOfCode, (not_half c).1, (not_half c).2, Bool.or_self, if_neg Bool.false_ne_true,
      Char.ofNat_toNat]
  induction cs with
  | nil => rfl
  | cons c cs ih =>
    -- A character is looked at together with the next one, as it might be half of a pair.
    cases cs with
    | nil => exact congrArg (fun c => [c]) (single c)
    | cons d cs =>
      rw [List.map_cons] at ih ⊢
      rw [List.map_cons, joinCodes, (not_half c).1, Bool.false_and, if_neg Bool.false_ne_true,
        single, ih]

/-- A written text is read back. -/
theorem text_escaped (s : String) : text (escaped s.toList) = s := by
  -- The codes of the written text are those of its characters.
  rw [text, codes?_escaped, Option.getD_some, joinCodes_map_toNat, String.ofList_toList]

/-- A written string is found up to its closing quote. -/
theorem string?_escaped (cs rest : List Char) :
    string? (escaped cs ++ '"' :: rest) = some (escaped cs, rest) := by
  -- Its closing quote is the first one that is not escaped.
  rw [string?, rawString?_escaped]
  simp [codes?_escaped]

end Tangent.Json
