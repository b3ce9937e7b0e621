import Mathlib
import Tangent.File.Header

/-!
Numbers as JSON writes them.

A numeral has its sign, its digits before and after the point and its exponent apart. Its text is
passed over as one number, and reading that text finds the same parts again.
-/

namespace Tangent.Json

/-- Digits end in front of this. -/
def NoDigit (rest : List Char) : Prop := ∀ c ∈ rest.head?, c.isDigit = false

/-- What may follow a number: more members or items, or their end, or nothing. -/
def Ends (rest : List Char) : Prop := ∀ c ∈ rest.head?, c = ',' ∨ c = ']' ∨ c = '\x7d'

/-- Digits end where a number may. -/
theorem Ends.noDigit {rest : List Char} (ends : Ends rest) : NoDigit rest := by
  intro c front
  -- None of the three characters is a digit.
  rcases ends c front with rfl | rfl | rfl
  all_goals rfl

/-- A character that is no digit ends digits. -/
theorem noDigit_cons {c : Char} (other : c.isDigit = false) (rest : List Char) :
    NoDigit (c :: rest) := by
  -- The character in front is that one.
  intro d front
  cases front
  exact other

/-- Digits in front are all taken. -/
theorem takeWhile_digits {digits rest : List Char} (each : ∀ c ∈ digits, c.isDigit)
    (ended : NoDigit rest) : (digits ++ rest).takeWhile Char.isDigit = digits := by
  rw [List.takeWhile_append_of_pos each]
  -- The rest is empty, or starts with a character that is no digit.
  cases rest with
  | nil => simp
  | cons c more => simp [ended c rfl]

/-- What follows digits is left. -/
theorem dropWhile_digits {digits rest : List Char} (each : ∀ c ∈ digits, c.isDigit)
    (ended : NoDigit rest) : (digits ++ rest).dropWhile Char.isDigit = rest := by
  -- All digits are dropped, and then comes what is none.
  rw [List.dropWhile_append_of_pos each]
  cases rest with
  | nil => rfl
  | cons c more => simp [ended c rfl]

/-- A literal takes the digits in front, too. -/
theorem takeDigits_append {digits rest : List Char} (each : ∀ c ∈ digits, c.isDigit)
    (ended : NoDigit rest) : Decimal.takeDigits (digits ++ rest) = (digits, rest) := by
  -- Both halves of the text are known.
  rw [Decimal.takeDigits, takeWhile_digits each ended, dropWhile_digits each ended]

/-- At least one digit in front is taken with those that follow it. -/
theorem digits?_append {digits rest : List Char} (some_digit : digits ≠ [])
    (each : ∀ c ∈ digits, c.isDigit) (ended : NoDigit rest) :
    digits? (digits ++ rest) = some (digits, rest) := by
  -- Both halves of the text are known, and the first one is not empty.
  rw [digits?, takeWhile_digits each ended, dropWhile_digits each ended,
    if_neg (by simpa using some_digit)]

/-- A number in its parts. -/
structure Numeral where
  negative : Bool
  whole : List Char
  fraction : List Char
  /-- The sign and the digits of the exponent. -/
  exponent? : Option (Bool × List Char)
  whole_digit : ∀ c ∈ whole, c.isDigit
  fraction_digit : ∀ c ∈ fraction, c.isDigit
  exponent_digit : ∀ sign digits, exponent? = some (sign, digits) →
    digits ≠ [] ∧ ∀ c ∈ digits, c.isDigit
  /-- A zero stands in front only on its own. -/
  whole_front : whole = ['0'] ∨ ∃ c rest, whole = c :: rest ∧ c ≠ '0'

namespace Numeral

/-- The digits after a point, if there are any. -/
def fractionText (n : Numeral) : List Char :=
  if n.fraction = [] then [] else '.' :: n.fraction

/-- The exponent behind its mark, if there is one. -/
def exponentText (n : Numeral) : List Char :=
  match n.exponent? with
  | none => []
  | some (negative, digits) => 'e' :: (if negative then '-' else '+') :: digits

/-- The text of a number. -/
def text (n : Numeral) : List Char :=
  (if n.negative then ['-'] else []) ++ (n.whole ++ (n.fractionText ++ n.exponentText))

/-- The exponent of a number. -/
def power (n : Numeral) : Int :=
  match n.exponent? with
  | none => 0
  | some (true, digits) => -(Decimal.exponentSize digits : Int)
  | some (false, digits) => Decimal.exponentSize digits

variable (n : Numeral)

/-- There is a digit before the point. -/
theorem exists_whole : ∃ c rest, n.whole = c :: rest ∧ c.isDigit := by
  -- It is a single zero, or it starts with another digit.
  rcases n.whole_front with zero | ⟨c, rest, front, _⟩
  · exact ⟨'0', [], zero, rfl⟩
  · exact ⟨c, rest, front, n.whole_digit c (front ▸ List.mem_cons_self)⟩

/-- No digit follows in front of an exponent. -/
theorem noDigit_exponentText {rest : List Char} (ended : NoDigit rest) :
    NoDigit (n.exponentText ++ rest) := by
  -- An exponent starts with a letter.
  unfold exponentText
  split
  · exact ended
  · exact noDigit_cons rfl _

/-- No digit follows in front of a point. -/
theorem noDigit_fractionText {rest : List Char} (ended : NoDigit rest) :
    NoDigit (n.fractionText ++ rest) := by
  -- A fraction starts with a point.
  unfold fractionText
  split
  · exact ended
  · exact noDigit_cons rfl _

/-- No point follows in front of an exponent. -/
theorem exponentText_ne_point {rest more : List Char} (ends : Ends rest) :
    n.exponentText ++ rest ≠ '.' :: more := by
  unfold exponentText
  split
  · -- What may follow a number does not start with a point.
    rintro rfl
    exact absurd (ends '.' rfl) (by decide)
  · exact fun same => absurd (List.cons.inj same).1 (by decide)

/-- The digits before the point are taken. -/
theorem whole?_append {rest : List Char} (ended : NoDigit rest) :
    whole? (n.whole ++ rest) = some (n.whole, rest) := by
  rcases n.whole_front with zero | ⟨c, more, front, other⟩
  · -- A zero in front is taken alone.
    rw [zero]
    rfl
  · -- Any other digit is taken with all that follow it.
    have digits := digits?_append (front ▸ List.cons_ne_nil _ _) n.whole_digit ended
    rw [front, List.cons_append] at digits ⊢
    rw [whole?]
    · exact digits
    · exact fun _ same => other (List.cons.inj same).1

/-- The digits after the point are taken with it. -/
theorem fraction?_append {rest : List Char} (ended : NoDigit rest)
    (unmarked : ∀ more, rest ≠ '.' :: more) :
    fraction? (n.fractionText ++ rest) = some (n.fractionText, rest) := by
  -- Without a point nothing is taken, and with one all digits behind it are.
  unfold fractionText
  split
  · rw [List.nil_append, fraction?]
    exact fun more => unmarked more
  · rename_i digits
    rw [List.cons_append, fraction?, digits?_append digits n.fraction_digit ended]
    rfl

/-- The exponent is taken with its mark. -/
theorem exponent?_append {rest : List Char} (ends : Ends rest) :
    Json.exponent? (n.exponentText ++ rest) = some (n.exponentText, rest) := by
  unfold exponentText
  split
  · -- What may follow a number does not start an exponent.
    cases rest with
    | nil => rfl
    | cons c more =>
      rcases ends c rfl with rfl | rfl | rfl
      all_goals rfl
  · rename_i negative digits found
    obtain ⟨some_digit, each⟩ := n.exponent_digit _ _ found
    cases negative
    all_goals
      simp [Json.exponent?, digits?_append some_digit each ends.noDigit]

/-- The text of a number is passed over as a whole. -/
theorem number?_append {rest : List Char} (ends : Ends rest) :
    number? (n.text ++ rest) = some (n.text, rest) := by
  obtain ⟨c, more, front, digit⟩ := n.exists_whole
  have ended := n.noDigit_exponentText ends.noDigit
  have whole := n.whole?_append (n.noDigit_fractionText ended)
  have fraction := n.fraction?_append ended (fun _ => n.exponentText_ne_point ends)
  have exponent := n.exponent?_append ends
  have unsigned : c ≠ '-' := by
    rintro rfl
    exact absurd digit (by decide)
  unfold number? text
  -- A sign is told from a digit, and then the parts are taken one after the other.
  cases sign : n.negative with
  | true => simp [whole, fraction, exponent]
  | false =>
    rw [front] at whole ⊢
    simp only [List.cons_append] at whole
    simp [unsigned, whole, fraction, exponent]

/-- The sign of a number is found in front of its text. -/
theorem takeSign_text : Decimal.takeSign n.text =
    (n.negative, n.whole ++ (n.fractionText ++ n.exponentText)) := by
  obtain ⟨c, more, front, digit⟩ := n.exists_whole
  -- A digit in front is no sign.
  have unsigned {sign : Char} (other : sign.isDigit = false) : c ≠ sign := by
    rintro rfl
    exact absurd digit (other ▸ Bool.false_ne_true)
  rw [text]
  cases n.negative with
  | true => rfl
  | false =>
    rw [front, if_neg Bool.false_ne_true, List.nil_append, List.cons_append, Decimal.takeSign]
    · exact fun _ same => unsigned (by decide) (List.cons.inj same).1
    · exact fun _ same => unsigned (by decide) (List.cons.inj same).1

/-- The exponent of a number is found in its text. -/
theorem takeExponent_text : (Decimal.takeExponent n.exponentText).1 = n.power := by
  unfold exponentText power
  cases found : n.exponent? with
  | none => rfl
  | some exponent =>
    obtain ⟨negative, digits⟩ := exponent
    obtain ⟨some_digit, each⟩ := n.exponent_digit _ _ found
    have bare : NoDigit [] := nofun
    have taken : Decimal.takeDigits digits = (digits, []) := by
      -- The sign is always written, so it is found before the digits.
      simpa using takeDigits_append each bare
    cases negative
    all_goals simp [Decimal.takeExponent, Decimal.takeSign, taken, some_digit]

/-- A number as a literal. -/
def literal : Decimal.Literal := ⟨n.negative, n.whole, n.fraction, n.power⟩

/-- The parts of a number are found in its text. -/
theorem literal_text : Header.literal n.text = n.literal := by
  have bare : Ends [] := nofun
  have ended : NoDigit n.exponentText := by simpa using n.noDigit_exponentText bare.noDigit
  have whole := takeDigits_append n.whole_digit (n.noDigit_fractionText ended)
  have fraction := takeDigits_append n.fraction_digit ended
  unfold Header.literal literal
  rw [n.takeSign_text]
  -- The digits up to the point are taken first.
  dsimp only
  rw [whole]
  dsimp only
  by_cases none : n.fraction = []
  · have pointless : n.fractionText = [] := if_pos none
    rw [pointless, List.nil_append]
    split
    · rename_i same
      exact absurd same (by simpa using n.exponentText_ne_point bare)
    · rw [none, n.takeExponent_text]
  · have pointed : n.fractionText = '.' :: n.fraction := if_neg none
    -- With a point the digits behind it come next.
    simp only [pointed, List.cons_append, fraction, n.takeExponent_text]

end Numeral

/-- The digits of a number stand for it. -/
theorem natOfDigits_toDigits (n : Nat) : Decimal.natOfDigits (Nat.toDigits 10 n) = n :=
  -- The digits are written and read in base ten.
  Nat.ofDigitChars_ten_toDigits

/-- The digits of a number are digits. -/
theorem isDigit_toDigits (n : Nat) : ∀ c ∈ Nat.toDigits 10 n, c.isDigit := fun _ member =>
  -- The base is at most ten, so no letters are used.
  Nat.isDigit_of_mem_toDigits (by decide) (by decide) member

/-- The first digit of a positive number is not zero. -/
theorem toDigits_front {n : Nat} (positive : 0 < n) :
    ∃ c rest, Nat.toDigits 10 n = c :: rest ∧ c ≠ '0' := by
  induction n using Nat.strong_induction_on with
  | h n ih =>
    by_cases small : n < 10
    · refine ⟨n.digitChar, [], Nat.toDigits_of_lt_base small, ?_⟩
      interval_cases n <;> decide
    · -- The number without its last digit has the same front.
      obtain ⟨c, rest, front, other⟩ := ih (n / 10) (by omega) (by omega)
      refine ⟨c, rest ++ [(n % 10).digitChar], ?_, other⟩
      rw [Nat.toDigits_of_base_le (by decide) (by omega), front, List.cons_append]

/-- A signed word as a number. -/
def integer (i : Int64) : Numeral where
  negative := i < 0
  whole := Nat.toDigits 10 i.toInt.natAbs
  fraction := []
  exponent? := none
  whole_digit := isDigit_toDigits _
  fraction_digit := nofun
  exponent_digit := nofun
  whole_front := by
    by_cases zero : i.toInt.natAbs = 0
    · exact .inl (zero ▸ rfl)
    · exact .inr (toDigits_front (Nat.pos_of_ne_zero zero))

/-- A signed word is written as a number. -/
theorem toList_toString (i : Int64) : (toString i).toList = (integer i).text := by
  have sign : i < 0 ↔ i.toInt < 0 := Int64.lt_iff_toInt_lt
  have written : toString i = toString i.toInt := rfl
  have digits (n : Nat) : (Nat.repr n).toList = Nat.toDigits 10 n := by
    rw [Nat.repr_eq_ofList_toDigits, String.toList_ofList]
  rw [written, Numeral.text]
  simp only [integer, Numeral.fractionText, Numeral.exponentText, if_true, List.append_nil,
    decide_eq_true_eq, sign]
  -- A negative number has its own constructor, with the sign in front.
  cases i.toInt with
  | ofNat n => exact (digits n).trans (by simp)
  | negSucc n =>
    have signed : toString (Int.negSucc n) = "-" ++ Nat.repr (n + 1) := rfl
    rw [signed, String.toList_append, digits, if_pos (Int.negSucc_lt_zero n)]
    rfl

/-- A written word is read back. -/
theorem int?_integer (current i : Int64) :
    Header.int? current (.number (integer i).text) = some i := by
  have least := Int64.le_toInt i
  have greatest := Int64.toInt_lt i
  have digits : (integer i).whole ++ ((integer i).fractionText ++ (integer i).exponentText) =
      Nat.toDigits 10 i.toInt.natAbs := by
    simp [integer, Numeral.fractionText, Numeral.exponentText]
  have each : (Nat.toDigits 10 i.toInt.natAbs).all Char.isDigit :=
    List.all_eq_true.mpr (isDigit_toDigits _)
  -- The size of a word fits its sign, also for the least one.
  have value : Decimal.withSign (integer i).negative i.toInt.natAbs = .ok i.toInt := by
    have sign : (integer i).negative = decide (i.toInt < 0) := decide_eq_decide.mpr
      Int64.lt_iff_toInt_lt
    rw [sign, Decimal.withSign, show Decimal.signedReach = 2 ^ 63 from rfl]
    split
    · rename_i negative
      rw [decide_eq_true_eq] at negative
      rw [if_pos (by omega), Except.ok.injEq]
      omega
    · rename_i nonneg
      rw [decide_eq_true_eq] at nonneg
      rw [if_pos (by omega), Except.ok.injEq]
      omega
  rw [Header.int?, (integer i).takeSign_text, digits]
  simp only [each, Bool.not_true, Bool.false_eq_true, if_false, natOfDigits_toDigits, value]
  simp [Except.toOption, Int64.ofInt_toInt]

end Tangent.Json
