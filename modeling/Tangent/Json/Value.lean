/-! JSON values and how a text is read as one. -/

namespace Tangent

/--
A JSON value.

A number is kept as it was written, and so is what stands between the quotes of a string. An
object keeps all its members in order, also those of one name.
-/
inductive Json where
  | null
  | bool (value : Bool)
  | number (literal : List Char)
  | string (raw : List Char)
  | array (items : List Json)
  | object (members : List (String × Json))

namespace Json

/-- What is left after blanks. -/
def skipBlanks (cs : List Char) : List Char :=
  cs.dropWhile (fun c => c == ' ' || c == '\t' || c == '\n' || c == '\r')

/-- The value of a hexadecimal digit. -/
def hexValue? (c : Char) : Option Nat :=
  if '0' ≤ c && c ≤ '9' then some (c.toNat - 48)
  else if 'a' ≤ c && c ≤ 'f' then some (c.toNat - 87)
  else if 'A' ≤ c && c ≤ 'F' then some (c.toNat - 55)
  else none

/-- The number that hexadecimal digits stand for. -/
def hexNumber? (digits : List Char) : Option Nat :=
  digits.foldlM (fun n c => (hexValue? c).map (16 * n + ·)) 0

/-- The code that a letter after a backslash stands for. -/
def escapeCode? (c : Char) : Option Nat :=
  if c == '"' || c == '\\' || c == '/' then some c.toNat
  else if c == 'b' then some 8
  else if c == 'f' then some 12
  else if c == 'n' then some 10
  else if c == 'r' then some 13
  else if c == 't' then some 9
  else none

/-- The codes of the characters between quotes, with escapes resolved one by one. -/
def codes? : List Char → Option (List Nat)
  | [] => some []
  | '\\' :: 'u' :: a :: b :: c :: d :: rest => do
    let code ← hexNumber? [a, b, c, d]
    return code :: (← codes? rest)
  | '\\' :: letter :: rest => do
    let code ← escapeCode? letter
    return code :: (← codes? rest)
  | c :: rest => if c == '\\' then none else (codes? rest).map (c.toNat :: ·)

/-- Whether a code is the first half of a surrogate pair. -/
def isHighHalf (code : Nat) : Bool := 0xd800 ≤ code && code < 0xdc00

/-- Whether a code is the second half of a surrogate pair. -/
def isLowHalf (code : Nat) : Bool := 0xdc00 ≤ code && code < 0xe000

/-- The character of a code, with a replacement for half a surrogate pair. -/
def charOfCode (code : Nat) : Char :=
  if isHighHalf code || isLowHalf code then Char.ofNat 0xfffd else Char.ofNat code

/-- The characters of codes, where the halves of a surrogate pair are one character. -/
def joinCodes : List Nat → List Char
  | [] => []
  | [code] => [charOfCode code]
  | high :: low :: rest =>
    if isHighHalf high && isLowHalf low then
      Char.ofNat (0x10000 + (high - 0xd800) * 1024 + (low - 0xdc00)) :: joinCodes rest
    else charOfCode high :: joinCodes (low :: rest)

/-- The text of a string. -/
def text (raw : List Char) : String :=
  String.ofList (joinCodes ((codes? raw).getD []))

/-- What stands before the closing quote, and what follows it. -/
def rawString? : List Char → Option (List Char × List Char)
  | [] => none
  | '"' :: rest => some ([], rest)
  | '\\' :: c :: rest => (rawString? rest).map (fun found => ('\\' :: c :: found.1, found.2))
  | c :: rest =>
    if c == '\\' || c.toNat < 0x20 then none
    else (rawString? rest).map (fun found => (c :: found.1, found.2))

/-- A string after its opening quote, all of whose escapes are proper. -/
def string? (cs : List Char) : Option (List Char × List Char) := do
  let (raw, rest) ← rawString? cs
  let _ ← codes? raw
  return (raw, rest)

/-- At least one digit in front, and what follows the digits. -/
def digits? (cs : List Char) : Option (List Char × List Char) :=
  let digits := cs.takeWhile Char.isDigit
  if digits.isEmpty then none else some (digits, cs.dropWhile Char.isDigit)

/-- The part of a number before its point: one zero, or digits that do not start with one. -/
def whole? : List Char → Option (List Char × List Char)
  | '0' :: rest => some (['0'], rest)
  | cs => digits? cs

/-- The part of a number after its point, if there is a point. -/
def fraction? : List Char → Option (List Char × List Char)
  | '.' :: rest => (digits? rest).map (fun found => ('.' :: found.1, found.2))
  | cs => some ([], cs)

/-- The exponent of a number, if there is one. -/
def exponent? : List Char → Option (List Char × List Char)
  | [] => some ([], [])
  | mark :: rest =>
    if mark == 'e' || mark == 'E' then
      match rest with
      | '+' :: rest => (digits? rest).map (fun found => (mark :: '+' :: found.1, found.2))
      | '-' :: rest => (digits? rest).map (fun found => (mark :: '-' :: found.1, found.2))
      | rest => (digits? rest).map (fun found => (mark :: found.1, found.2))
    else some ([], mark :: rest)

/-- A number in front. -/
def number? (cs : List Char) : Option (List Char × List Char) := do
  let (sign, rest) : List Char × List Char := match cs with
    | '-' :: rest => (['-'], rest)
    | cs => ([], cs)
  let (whole, rest) ← whole? rest
  let (fraction, rest) ← fraction? rest
  let (exponent, rest) ← exponent? rest
  return (sign ++ whole ++ fraction ++ exponent, rest)

/-- How deep values may be nested. -/
def deepest : Nat := 10000

mutual

/-- A value in front, and what follows it. Fuel bounds the number of parts. -/
def value? (depth : Nat) : Nat → List Char → Option (Json × List Char)
  | 0, _ => none
  | fuel + 1, cs =>
    match skipBlanks cs with
    | 'n' :: 'u' :: 'l' :: 'l' :: rest => some (.null, rest)
    | 't' :: 'r' :: 'u' :: 'e' :: rest => some (.bool true, rest)
    | 'f' :: 'a' :: 'l' :: 's' :: 'e' :: rest => some (.bool false, rest)
    | '"' :: rest => (string? rest).map (fun found => (.string found.1, found.2))
    | '[' :: rest =>
      if depth ≥ deepest then none
      else match skipBlanks rest with
        | ']' :: rest => some (.array [], rest)
        | rest => (items? (depth + 1) fuel rest).map (fun found => (.array found.1, found.2))
    | '\x7b' :: rest =>
      if depth ≥ deepest then none
      else match skipBlanks rest with
        | '\x7d' :: rest => some (.object [], rest)
        | rest => (members? (depth + 1) fuel rest).map (fun found => (.object found.1, found.2))
    | rest => (number? rest).map (fun found => (.number found.1, found.2))

/-- The items of an array up to its end. -/
def items? (depth : Nat) : Nat → List Char → Option (List Json × List Char)
  | 0, _ => none
  | fuel + 1, cs => do
    let (item, rest) ← value? depth fuel cs
    match skipBlanks rest with
    | ']' :: rest => return ([item], rest)
    | ',' :: rest =>
      let (items, rest) ← items? depth fuel rest
      return (item :: items, rest)
    | _ => none

/-- The members of an object up to its end. -/
def members? (depth : Nat) : Nat → List Char → Option (List (String × Json) × List Char)
  | 0, _ => none
  | fuel + 1, cs => do
    match skipBlanks cs with
    | '"' :: rest =>
      let (name, rest) ← string? rest
      match skipBlanks rest with
      | ':' :: rest =>
        let (value, rest) ← value? depth fuel rest
        let member := (text name, value)
        match skipBlanks rest with
        | '\x7d' :: rest => return ([member], rest)
        | ',' :: rest =>
          let (members, rest) ← members? depth fuel rest
          return (member :: members, rest)
        | _ => none
      | _ => none
    | _ => none

end

/-- The one value that a text holds. -/
def parse? (cs : List Char) : Option Json := do
  -- Every part takes at least one character.
  let (value, rest) ← value? 0 (2 * cs.length + 2) cs
  if (skipBlanks rest).isEmpty then some value else none

end Json

end Tangent
