import Tangent.Text.Timestamp
import Tangent.Yaml.Value

/-! Pages that scalars and marks are written on, and how a text is written so that it reads back. -/

namespace Tangent.Yaml

/-! Pages -/

/-- A page that is being written. -/
structure Page where
  text : String
  column : Nat
  /-- Whether there is nothing on the line but indentation and marks of entries. -/
  indented : Bool
  /-- Whether nothing has to be kept apart from what comes next. -/
  spaced : Bool

namespace Page

/-- A page with nothing on it. -/
def blank : Page := ⟨"", 0, true, true⟩

/-- Writes a character. -/
def put (p : Page) (c : Char) : Page := { p with text := p.text.push c, column := p.column + 1 }

/-- Writes characters. -/
def putAll (p : Page) (cs : List Char) : Page := cs.foldl put p

/-- Writes a character that ends the line. -/
def putBreak (p : Page) (c : Char) : Page :=
  { p with text := p.text.push c, column := 0, indented := true }

/-- Goes to a column of a line that has nothing else on it. -/
def toIndent (p : Page) (indent : Nat) : Page :=
  let taken := !p.indented || indent < p.column || (p.column == indent && !p.spaced)
  let p := if taken then p.putBreak '\n' else p
  { p.putAll (List.replicate (indent - p.column) ' ') with spaced := true }

/-- Keeps what was written apart from what comes next. -/
def separate (p : Page) : Page := if p.spaced then p else p.put ' '

/-- Writes a mark, after which there may be indentation still. -/
def mark (p : Page) (c : Char) (indents : Bool) : Page :=
  { p.put c with spaced := false, indented := p.indented && indents }

/-- Says that what was written is complete. -/
def closed (p : Page) : Page := { p with spaced := false, indented := false }

end Page

/-! What a text would be read as -/

/-- Whether a text reads as a number in base sixty, as it did in older documents. -/
def isSexagesimal (text : String) : Bool :=
  let (_, unsigned) := Decimal.takeSign text.toList
  let isDigit (c : Char) : Bool := c.isDigit || c == '_'
  let part (cs : List Char) : Bool :=
    match cs with
    | [a] => a.isDigit
    | [a, b] => '0' ≤ a && a ≤ '5' && b.isDigit
    | _ => false
  match (String.ofList unsigned).splitOn ":" with
  | first :: second :: more =>
    let parts := second :: more
    -- The last part may have a fraction.
    let last := (parts.getLast?.getD "").splitOn "."
    first.toList.head?.any Char.isDigit && first.toList.all isDigit &&
      parts.dropLast.all (fun p => part p.toList) && part (last.headD "").toList &&
      last.length ≤ 2 && (last.tail.all (fun p => p.toList.all isDigit))
  | _ => false

/-- Whether a text would be read as something else if it were written without quotes. -/
def readsOtherwise (text : String) : Bool :=
  match Value.ofPlain text with
  | .text s => (Value.bool? (.text s)).isSome || isSexagesimal s
  | _ => true

/-- Whether a character is written as it is. -/
def isShown (c : Char) : Bool :=
  isAllowed c && c ≤ '\uffff' && c != '\ufeff' && c != '\t' && c != '\r' && c != '\u0085'

/-- Whether two tests hold of neighbouring characters. -/
def meets (first second : Char → Bool) : List Char → Bool
  | a :: b :: cs => (first a && second b) || meets first second (b :: cs)
  | _ => false

/-- Whether a text has to be written with escapes, whatever else is around it. -/
def needsEscapes (cs : List Char) : Bool :=
  cs.any (fun c => c != '\t' && !isShown c) || meets (· == ' ') isBreak cs

/-- Whether a text can stand between single quotes. -/
def suitsQuotes (cs : List Char) : Bool :=
  !(needsEscapes cs || cs.contains '\t' || meets isBreak (· == ' ') cs)

/-- Whether a text can stand as lines of its own. -/
def suitsLines (cs : List Char) : Bool := !(needsEscapes cs || cs.getLast? == some ' ')

/-- Whether a colon before white space or a comment starts within a text. -/
def breaksPlain (before : Bool) : List Char → Bool
  | [] => false
  | c :: cs =>
    (c == ':' && ((cs.head?.map isBlank).getD true)) || (c == '#' && before) ||
      breaksPlain (isSpace c) cs

/-- Whether the first character of a text has a meaning of its own. -/
def startsOtherwise : List Char → Bool
  | [] => false
  | c :: cs =>
    if c == '-' || c == '?' || c == ':' then (cs.head?.map isBlank).getD true
    else Token.isIndicator c

/-- Whether a text can stand without quotes in a block. -/
def suitsPlain (text : String) : Bool :=
  let cs := text.toList
  let edge (c : Option Char) : Bool := (c.map isSpace).getD false
  suitsQuotes cs &&
    !(edge cs.head? || edge cs.getLast? || cs.any isBreak || startsOtherwise cs ||
      breaksPlain false cs || text.startsWith "---" || text.startsWith "...")

/-! How a text is written -/

/-- A character that is written with a backslash. -/
def escapedChar (c : Char) : List Char :=
  let short : List (Char × Char) :=
    [('\x00', '0'), ('\x07', 'a'), ('\x08', 'b'), ('\t', 't'), ('\n', 'n'), ('\x0b', 'v'),
      ('\x0c', 'f'), ('\r', 'r'), ('\x1b', 'e'), ('"', '"'), ('\\', '\\'), ('\u0085', 'N'),
      ('\u00a0', '_'), ('\u2028', 'L'), ('\u2029', 'P')]
  let digits (width : Nat) : List Char :=
    let hex := (Nat.toDigits 16 c.toNat).map Char.toUpper
    List.replicate (width - hex.length) '0' ++ hex
  match short.lookup c with
  | some letter => ['\\', letter]
  | none =>
    if c.toNat ≤ 0xff then '\\' :: 'x' :: digits 2
    else if c.toNat ≤ 0xffff then '\\' :: 'u' :: digits 4
    else '\\' :: 'U' :: digits 8

/-- A character between double quotes. -/
def quotedChar (c : Char) : List Char :=
  if !isShown c || isBreak c || c == '"' || c == '\\' then escapedChar c else [c]

/-- A text between double quotes, where after a byte order mark nothing is written as it is. -/
def writeDoubleQuoted (p : Page) (cs : List Char) : Page :=
  let written := if cs.head? == some '\ufeff' then escapedChar else quotedChar
  ((p.separate.put '"').putAll (cs.flatMap written)).put '"' |>.closed

/-- Writes what stands between single quotes, where a quote is written twice. -/
def writeQuotedPart (indent : Nat) (broken : Bool) (p : Page) : List Char → Page
  | [] => p
  | c :: cs =>
    if isBreak c then writeQuotedPart indent true (p.putBreak c) cs
    else
      let p := if broken then p.toIndent indent else p
      let p := if c == '\'' then p.put c else p
      writeQuotedPart indent false { p.put c with indented := false } cs

/-- A text between single quotes, whose lines are indented. -/
def writeSingleQuoted (indent : Nat) (p : Page) (cs : List Char) : Page :=
  (writeQuotedPart indent false { p.separate.put '\'' with indented := false } cs).put '\''
    |>.closed

/-- The marks of a text as lines: one for indentation at its start, one for how it ends. -/
def lineMarks (cs : List Char) : List Char :=
  let hint := if (cs.head?.map (fun c => c == ' ' || isBreak c)).getD false then ['4'] else []
  match cs.reverse with
  | last :: before =>
    if !isBreak last then hint ++ ['-']
    -- One break at the end is taken for granted, but of several all have to be kept.
    else if (before.head?.map isBreak).getD true then hint ++ ['+']
    else hint
  | [] => ['-']

/-- Writes lines under an indentation. -/
def writeLinesPart (indent : Nat) (broken : Bool) (p : Page) : List Char → Page
  | [] => p
  | c :: cs =>
    if isBreak c then writeLinesPart indent true (p.putBreak c) cs
    else
      let p := if broken then p.toIndent indent else p
      writeLinesPart indent false { p.put c with indented := false } cs

/-- A text as lines of its own. -/
def writeLines (indent : Nat) (p : Page) (cs : List Char) : Page :=
  let p := ((p.separate.put '|').putAll (lineMarks cs)).closed
  writeLinesPart indent true { p with spaced := true } cs

/-- A text without quotes. -/
def writePlain (p : Page) (cs : List Char) : Page :=
  ((if cs.isEmpty then p else p.separate).putAll cs).closed

/-- A text as a scalar, in the plainest form that reads back as the same text. -/
def writeText (indent : Nat) (p : Page) (text : String) : Page :=
  let cs := text.toList
  -- Lines are the plainest form for a text that has several of them.
  if cs.contains '\n' then
    if suitsLines cs then writeLines indent p cs else writeDoubleQuoted p cs
  else if readsOtherwise text then writeDoubleQuoted p cs
  else if suitsPlain text then writePlain p cs
  else if suitsQuotes cs then writeSingleQuoted indent p cs
  else writeDoubleQuoted p cs

end Tangent.Yaml
