/-! Places in a text: lines, columns, the characters that separate words, and how far one sees. -/

namespace Tangent.Yaml

/-- Whether a character separates words within a line. -/
def isBlank (c : Char) : Bool := c == ' ' || c == '\t'

/-- Whether a character ends a line. -/
def isBreak (c : Char) : Bool :=
  c == '\n' || c == '\r' || c == '\u0085' || c == '\u2028' || c == '\u2029'

/-- Whether a character separates words. -/
def isSpace (c : Char) : Bool := isBlank c || isBreak c

/-- Whether no word goes on here. -/
def endsWord : List Char → Bool
  | [] => true
  | c :: _ => isSpace c

/-- Whether a character may occur in a text at all. -/
def isAllowed (c : Char) : Bool :=
  isBreak c || c == '\t' || (' ' ≤ c && c ≤ '~') ||
    ('\u00a0' ≤ c && c != '\ufffe' && c != '\uffff')

/-- Why a text is no document. -/
inductive Flaw where
  | control
  | token
  | tab
  | quote
  | escape
  | scalarHeader
  | anchor
  | tag
  | directive
  | version
  | repeatedVersion
  | repeatedHandle
  | unknownHandle
  | depth
  | blockEntry
  | blockKey
  | blockValue
  | missingColon
  | node
  | key
  | entry
  | listEnd
  | mappingEnd
  | documentStart
  | unknownAnchor (name : String)
deriving DecidableEq, Repr

/-- The wording of a flaw. -/
def Flaw.message : Flaw → String
  | .control => "control characters are not allowed"
  | .token => "found character that cannot start any token"
  | .tab => "found a tab character that violates indentation"
  | .quote => "found unexpected end of a quoted scalar"
  | .escape => "found unknown escape"
  | .scalarHeader => "did not find expected comment or line break"
  | .anchor => "did not find expected alphabetic or numeric character"
  | .tag => "did not find a tag"
  | .directive => "found unknown directive"
  | .version => "found incompatible YAML document"
  | .repeatedVersion => "found duplicate %YAML directive"
  | .repeatedHandle => "found duplicate %TAG directive"
  | .unknownHandle => "found undefined tag handle"
  | .depth => "exceeded max depth"
  | .blockEntry => "block sequence entries are not allowed in this context"
  | .blockKey => "mapping keys are not allowed in this context"
  | .blockValue => "mapping values are not allowed in this context"
  | .missingColon => "could not find expected ':'"
  | .node => "did not find expected node content"
  | .key => "did not find expected key"
  | .entry => "did not find expected '-' indicator"
  | .listEnd => "did not find expected ',' or ']'"
  | .mappingEnd => "did not find expected ',' or '\x7d'"
  | .documentStart => "did not find expected <document start>"
  | .unknownAnchor name => s!"unknown anchor '{name}' referenced"

/-- A flaw and the line it was noticed on. -/
structure Problem where
  line : Nat
  flaw : Flaw
deriving DecidableEq, Repr

/-- The message of a problem. -/
def Problem.message (p : Problem) : String := s!"yaml: line {p.line}: {p.flaw.message}"

/-! How far one sees -/

/-- A stretch of a text that comes into view at once, up to what may not occur if it has that. -/
structure Stretch where
  length : Nat
  sound : Bool
deriving DecidableEq, Repr

/-- How many bytes a stretch has room for. -/
def stretchRoom : Nat := 512

/-- The stretches of a text after some characters of a stretch with room left. -/
def stretchesFrom (room count : Nat) : List Char → List Stretch
  | [] => [⟨count, true⟩]
  | c :: cs =>
    let (full, room, count) : List Stretch × Nat × Nat :=
      -- A character is never cut in two, so one that does not fit starts the next stretch.
      if c.utf8Size ≤ room then ([], room, count) else ([⟨count, true⟩], stretchRoom, 0)
    if isAllowed c then full ++ stretchesFrom (room - c.utf8Size) (count + 1) cs
    else full ++ [⟨count, false⟩]

/-- The character that may stand at the start of a text to tell its encoding. -/
def orderMark : Char := '\ufeff'

/-! Places -/

/--
A place in a text, with what is left from there on.

The text comes into view by stretches. What is in view starts where it was last extended.
-/
structure Cursor where
  rest : List Char
  index : Nat
  /-- The line, counted from one. -/
  line : Nat
  column : Nat
  /-- The line breaks since the last character that is not blank. -/
  breaks : Nat
  /-- How many characters are in view, those past the end included. -/
  view : Nat
  /-- What is not in view yet. -/
  ahead : List Stretch
  /-- Whether what is in view starts with an order mark. -/
  marked : Bool
  /-- How many characters the whole text has. -/
  size : Nat

/--
How many characters are in view, and what is not, once enough are.

There is none past something that may not occur, and one past the end.
-/
def extendView? (count view : Nat) : List Stretch → Option (Nat × List Stretch)
  | [] => some (view + 1, [])
  | s :: ahead =>
    if !s.sound then none
    else if view + s.length < count then extendView? count (view + s.length) ahead
    else some (view + s.length, ahead)

namespace Cursor

/-- The start of a text, of which an order mark is no part. -/
def start (text : String) : Cursor :=
  match text.toList with
  -- An empty text is read as an empty line.
  | [] => ⟨['\n'], 0, 1, 0, 0, 0, [⟨1, true⟩], false, 1⟩
  | c :: cs =>
    let (rest, room) :=
      if c == orderMark then (cs, stretchRoom - c.utf8Size) else (c :: cs, stretchRoom)
    ⟨rest, 0, 1, 0, 0, 0, stretchesFrom room 0 rest, false, rest.length⟩

/-- The next character, unless the text is at its end. -/
def head? (c : Cursor) : Option Char := c.rest.head?

/-- Whether the next character satisfies a test. -/
def heads (c : Cursor) (test : Char → Bool) : Bool := (c.rest.head?.map test).getD false

/-- Whether a line ends here. -/
def atLineEnd (c : Cursor) : Bool := (c.rest.head?.map isBreak).getD true

/-- The place after the next character. -/
def skip (c : Cursor) : Cursor :=
  { c with
    rest := c.rest.tail
    index := c.index + 1
    column := c.column + 1
    view := c.view - 1
    breaks := if c.heads isBlank then c.breaks else 0 }

/-- The place after a line break of a number of characters. -/
def skipLine (c : Cursor) (width : Nat) : Cursor :=
  { c with
    rest := c.rest.drop width
    index := c.index + width
    line := c.line + 1
    column := 0
    view := c.view - width
    breaks := c.breaks + 1 }

/-- The place after a line break, if there is one; a return and a feed are one. -/
def skipBreak (c : Cursor) : Cursor :=
  match c.rest with
  | '\r' :: '\n' :: _ => c.skipLine 2
  | x :: _ => if isBreak x then c.skipLine 1 else c
  | [] => c

/-- What a line break stands for; all spellings of one but the two separators are a feed. -/
def breakText (c : Cursor) : List Char :=
  match c.rest with
  | x :: _ =>
    if x == '\u2028' || x == '\u2029' then [x] else if isBreak x then ['\n'] else []
  | [] => []

/-- Whether three given characters and nothing more start the line. -/
def marksDocument (c : Cursor) (mark : Char) : Bool :=
  c.column == 0 &&
    match c.rest with
    | a :: b :: d :: after => a == mark && b == mark && d == mark && endsWord after
    | _ => false

/-- Whether a document starts or ends here. -/
def atDocumentMark (c : Cursor) : Bool := c.marksDocument '-' || c.marksDocument '.'

/-- A problem at this place. -/
def problem (c : Cursor) (flaw : Flaw) : Problem := ⟨c.line, flaw⟩

end Cursor

/-! Steps over a text -/

/-- A step over a text. -/
abbrev Pass := EStateM Problem Cursor

namespace Pass

/-- Stops with a flaw at the place that was reached. -/
def stop {α : Type} (flaw : Flaw) : Pass α := do throw ((← get).problem flaw)

/-- Brings a number of characters into view. -/
def need (count : Nat) : Pass Unit := do
  let c ← get
  if c.view < count then
    match extendView? count c.view c.ahead with
    | some (view, ahead) =>
      set { c with view, ahead, marked := c.rest.head? == some orderMark }
    | none => stop .control

/-- Passes over a character. -/
def skip : Pass Unit := modify Cursor.skip

/-- Passes over several characters. -/
def skipMany : Nat → Pass Unit
  | 0 => pure ()
  | count + 1 => do
    skip
    skipMany count

/-- Passes over a line break, and says what it stands for. -/
def takeBreak : Pass (List Char) := do
  let c ← get
  set c.skipBreak
  return c.breakText

/-- Takes the characters in front that satisfy a test, with fuel for all of them. -/
def takeSome (test : Char → Bool) : Nat → Pass (List Char)
  | 0 => return []
  | fuel + 1 => do
    need 1
    match (← get).head? with
    | none => return []
    | some c =>
      if test c then
        skip
        return c :: (← takeSome test fuel)
      else return []

/-- Fuel for every character of the text, and for its end. -/
def fuel : Pass Nat := do return (← get).size + 1

/-- Takes the characters in front that satisfy a test. -/
def takeWhile (test : Char → Bool) : Pass (List Char) := do takeSome test (← fuel)

/-- Passes over the characters in front that satisfy a test. -/
def skipWhile (test : Char → Bool) : Pass Unit := do
  let _ ← takeWhile test

end Pass

end Tangent.Yaml
