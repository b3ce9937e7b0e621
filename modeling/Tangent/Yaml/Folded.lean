import Tangent.Decimal.Read
import Tangent.Json.Value
import Tangent.Yaml.Cursor

/-! Scalars as they are written: plain, quoted and block text, whose lines are folded. -/

namespace Tangent.Yaml

open Pass

/-! White space between words -/

/-- White space between two words: blanks, or line breaks with the blanks around them dropped. -/
structure Gap where
  /-- Whether a line ended in it. -/
  broken : Bool
  blanks : List Char
  /-- The first line break, unless it was escaped away. -/
  first : List Char
  /-- The other line breaks. -/
  others : List Char

namespace Gap

/-- No white space. -/
def none : Gap := ⟨false, [], [], []⟩

/-- An escaped line break. -/
def escapedBreak : Gap := ⟨true, [], [], []⟩

/-- What a gap is worth: one line feed is a space, and of several the first is not counted. -/
def text (g : Gap) : List Char :=
  if !g.broken then g.blanks
  else if g.first != ['\n'] then g.first ++ g.others
  else if g.others.isEmpty then [' ']
  else g.others

/-- A gap with one more blank, which counts only within a line. -/
def withBlank (g : Gap) (c : Char) : Gap :=
  if g.broken then g else { g with blanks := g.blanks ++ [c] }

/-- A gap with one more line break. -/
def withBreak (g : Gap) (written : List Char) : Gap :=
  if g.broken then { g with others := g.others ++ written } else ⟨true, [], written, []⟩

/-- Takes white space, in which no tab may stand where an indentation is expected. -/
def takeFrom (indent : Int) : Nat → Gap → Pass Gap
  | 0, g => return g
  | fuel + 1, g => do
    let c ← get
    match c.head? with
    | Option.none => return g
    | some x =>
      if isBlank x then
        -- Blanks within a line are no indentation, so tabs are refused after a break only.
        if g.broken && (c.column : Int) < indent && x == '\t' then stop .tab
        skip
        need 1
        takeFrom indent fuel (g.withBlank x)
      else if isBreak x then
        need 2
        let written ← takeBreak
        need 1
        takeFrom indent fuel (g.withBreak written)
      else return g

end Gap

/-! Plain scalars -/

/-- Whether a character has a meaning of its own between brackets. -/
def isFlowMark (c : Char) : Bool :=
  c == ',' || c == '?' || c == '[' || c == ']' || c == '{' || c == '}'

/-- Whether the word of a plain scalar ends here. -/
def endsPlainWord (inFlow : Bool) : List Char → Bool
  | [] => true
  | c :: cs => isSpace c || (c == ':' && endsWord cs) || (inFlow && isFlowMark c)

/-- A plain scalar that is being read: its text, backwards, and the white space after it. -/
structure Plain where
  text : List Char
  gap : Gap

/-- Reads a word of a plain scalar, which the white space before it becomes part of. -/
def plainWord (inFlow : Bool) : Nat → Plain → Pass Plain
  | 0, p => return p
  | fuel + 1, p => do
    match (← get).rest with
    | [] => return p
    | c :: cs =>
      if endsPlainWord inFlow (c :: cs) then return p
      else
        skip
        need 2
        -- White space that is followed by a word is part of the text.
        plainWord inFlow fuel ⟨c :: (p.gap.text.reverse ++ p.text), .none⟩

/-- Reads a plain scalar, whose further lines are indented by a number of columns at least. -/
def plainFrom (inFlow : Bool) (indent : Int) : Nat → Plain → Pass Plain
  | 0, p => return p
  | fuel + 1, p => do
    need 4
    let c ← get
    if c.atDocumentMark || c.head? == some '#' then return p
    let p ← plainWord inFlow (← Pass.fuel) p
    -- The text goes on after white space, unless a comment or a shallower line follows.
    if !(← get).heads isSpace then return p
    need 1
    let p := { p with gap := ← p.gap.takeFrom indent (← Pass.fuel) }
    if !inFlow && ((← get).column : Int) < indent then return p
    plainFrom inFlow indent fuel p

/-- A plain scalar, and whether the place after it is on a later line than its last word. -/
def plain (inFlow : Bool) (indent : Int) : Pass (List Char × Bool) := do
  let p ← plainFrom inFlow indent (← Pass.fuel) ⟨[], .none⟩
  return (p.text.reverse, p.gap.broken)

/-! Quoted scalars -/

/-- What a character after a backslash stands for, if it needs no digits. -/
def escaped? (c : Char) : Option Char :=
  match c with
  | '0' => some '\x00'
  | 'a' => some '\x07'
  | 'b' => some '\x08'
  | 't' => some '\t'
  | '\t' => some '\t'
  | 'n' => some '\n'
  | 'v' => some '\x0b'
  | 'f' => some '\x0c'
  | 'r' => some '\r'
  | 'e' => some '\x1b'
  | ' ' => some ' '
  | '"' => some '"'
  | '\'' => some '\''
  | '\\' => some '\\'
  | 'N' => some '\u0085'
  | '_' => some '\u00a0'
  | 'L' => some '\u2028'
  | 'P' => some '\u2029'
  | _ => none

/-- How many hexadecimal digits follow a character after a backslash. -/
def escapeDigits? (c : Char) : Option Nat :=
  match c with
  | 'x' => some 2
  | 'u' => some 4
  | 'U' => some 8
  | _ => none

/-- Takes the character that a number of hexadecimal digits stand for. -/
def takeCode (width : Nat) : Pass Char := do
  need width
  let digits := (← get).rest.take width
  match Json.hexNumber? digits with
  | some code =>
    if digits.length == width && code.isValidChar then
      skipMany width
      return Char.ofNat code
    else stop .escape
  | none => stop .escape

/-- Takes an escape, whose backslash is in front. -/
def takeEscape : Pass Char := do
  match (← get).rest[1]? with
  | none => stop .escape
  | some c =>
    match escaped? c, escapeDigits? c with
    | some meant, _ =>
      skipMany 2
      return meant
    | none, some width =>
      skipMany 2
      takeCode width
    | none, none => stop .escape

/-- Reads a word of a quoted scalar, backwards, and says whether an escaped line break ended it. -/
def quotedWord (quote : Char) : Nat → List Char → Pass (List Char × Gap)
  | 0, text => return (text, .none)
  | fuel + 1, text => do
    let proceed (meant : Char) : Pass (List Char × Gap) := do
      need 2
      quotedWord quote fuel (meant :: text)
    match (← get).rest with
    | [] => return (text, .none)
    | c :: cs =>
      if isSpace c then return (text, .none)
      else if c == quote then
        -- A quote that is written twice stands for itself.
        if quote == '\'' && cs.head? == some '\'' then
          skipMany 2
          proceed '\''
        else return (text, .none)
      else if c == '\\' && quote == '"' then
        -- An escaped line break joins two lines with nothing between them.
        if (cs.head?.map isBreak).getD false then
          need 3
          skip
          let _ ← takeBreak
          return (text, .escapedBreak)
        else proceed (← takeEscape)
      else
        skip
        proceed c

/-- Reads a quoted scalar after its opening quote, with fuel for every character that is left. -/
def quotedFrom (quote : Char) : Nat → List Char → Pass (List Char)
  | 0, _ => stop .quote
  | fuel + 1, text => do
    need 4
    let c ← get
    if c.atDocumentMark || c.rest.isEmpty then stop .quote
    let (text, gap) ← quotedWord quote (← Pass.fuel) text
    need 1
    if (← get).head? == some quote then
      skip
      return text.reverse
    -- No column is too far out for the lines of a quoted scalar.
    let gap ← gap.takeFrom (-1) (← Pass.fuel)
    quotedFrom quote fuel (gap.text.reverse ++ text)

/-- A quoted scalar whose opening quote is in front. -/
def quoted (quote : Char) : Pass (List Char) := do
  skip
  quotedFrom quote (← Pass.fuel) []

/-! Block scalars -/

/-- What becomes of the line breaks at the end of a block scalar. -/
inductive Chomping where
  | strip
  | clip
  | keep
deriving DecidableEq, Repr

/-- The chomping that a character asks for. -/
def Chomping.ofChar? (c : Char) : Option Chomping :=
  if c == '+' then some .keep else if c == '-' then some .strip else none

/-- Takes the mark of a chomping, if there is one. -/
def takeChomping : Pass (Option Chomping) := do
  need 1
  match (← get).head?.bind Chomping.ofChar? with
  | some chomping =>
    skip
    return some chomping
  | none => return none

/-- Takes the mark of an indentation, if there is one, and zero otherwise. -/
def takeIncrement : Pass Nat := do
  need 1
  match (← get).head? with
  | some c =>
    if !c.isDigit then return 0
    else if c == '0' then stop .scalarHeader
    else
      skip
      return Decimal.digitValue c
  | none => return 0

/-- Takes the marks after the character that starts a block scalar, in either order. -/
def blockHeader : Pass (Chomping × Nat) := do
  match ← takeChomping with
  | some chomping => return (chomping, ← takeIncrement)
  | none =>
    let increment ← takeIncrement
    if increment == 0 then return (.clip, 0)
    else return ((← takeChomping).getD .clip, increment)

/-- Takes spaces up to an indentation, or all of them if it is not known. -/
def takeIndent (indent : Nat) : Nat → Pass Unit
  | 0 => pure ()
  | fuel + 1 => do
    need 1
    let c ← get
    if (indent == 0 || c.column < indent) && c.head? == some ' ' then
      skip
      takeIndent indent fuel

/-- Takes the line breaks and indentation before a line with content, and says the widest. -/
def blockBreaks (indent : Nat) : Nat → Nat → Pass (List Char × Nat)
  | 0, widest => return ([], widest)
  | fuel + 1, widest => do
    takeIndent indent (← Pass.fuel)
    let c ← get
    -- Lines with nothing but spaces count for the indentation that is found.
    let widest := max widest c.column
    if (indent == 0 || c.column < indent) && c.head? == some '\t' then stop .tab
    if c.heads isBreak then
      need 2
      let written ← takeBreak
      let (others, widest) ← blockBreaks indent fuel widest
      return (written ++ others, widest)
    else return ([], widest)

/-- A block scalar that is being read. -/
structure Block where
  text : List Char
  /-- The break after the last line, which is not part of the text yet. -/
  last : List Char
  /-- The empty lines after it. -/
  empty : List Char
  /-- Whether the last line started with a blank. -/
  blankStart : Bool

/-- The text with the break after its last line settled by the line that follows. -/
def Block.joined (b : Block) (literal blankStart : Bool) : List Char :=
  let join :=
    -- A break between two lines of text is folded, unless one of them starts with a blank.
    if !literal && !b.blankStart && !blankStart && b.last == ['\n'] then
      if b.empty.isEmpty then [' '] else []
    else b.last
  b.text ++ join ++ b.empty

/-- Reads the lines of a block scalar, with fuel for every character that is left. -/
def blockLines (literal : Bool) (indent : Nat) : Nat → Block → Pass Block
  | 0, b => return b
  | fuel + 1, b => do
    let c ← get
    if c.column != indent || c.rest.isEmpty then return b
    let blankStart := c.heads isBlank
    let line ← takeWhile (fun x => !isBreak x)
    need 2
    let last ← takeBreak
    let (empty, _) ← blockBreaks indent (← Pass.fuel) 0
    blockLines literal indent fuel
      ⟨b.joined literal blankStart ++ line, last, empty, blankStart⟩

/-- Reads a block scalar inside an indentation; the character that starts it is in front. -/
def block (literal : Bool) (outer : Int) : Pass (List Char) := do
  skip
  let (chomping, increment) ← blockHeader
  skipWhile isBlank
  if (← get).head? == some '#' then skipWhile (fun x => !isBreak x)
  if !(← get).atLineEnd then stop .scalarHeader
  if (← get).heads isBreak then
    need 2
    let _ ← takeBreak
  -- The indentation is stated relative to what is around, or found from the first lines.
  let stated := if increment == 0 then 0 else (max outer 0).toNat + increment
  let (empty, widest) ← blockBreaks stated (← Pass.fuel) 0
  let indent := if stated == 0 then max widest (max (outer + 1) 1).toNat else stated
  need 1
  let b ← blockLines literal indent (← Pass.fuel) ⟨[], [], empty, false⟩
  match chomping with
  | .strip => return b.text
  | .clip => return b.text ++ b.last
  | .keep => return b.text ++ b.last ++ b.empty

end Tangent.Yaml
