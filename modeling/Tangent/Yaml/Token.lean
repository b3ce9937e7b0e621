import Tangent.Yaml.Comment
import Tangent.Yaml.Folded
import Tangent.Yaml.Tag

/-!
Tokens of a document.

Indentation becomes tokens that open and close blocks, and what turns out to be the key of a
mapping gets a token in front of it when its colon is found. Tokens are handed out in turn, two of
them behind the last one that was taken, and one that may be a key is held back until it is known.
-/

namespace Tangent.Yaml

/-- A scalar as it was written. -/
structure Scalar where
  tag : Option String
  quoted : Bool
  text : String
deriving DecidableEq, Repr

/-- What a token is. -/
inductive Lexeme where
  | textStart
  | textEnd
  | directive (content : Directive)
  | documentStart
  | documentEnd
  | blockList
  | blockMapping
  | blockEnd
  | openList
  | closeList
  | openMapping
  | closeMapping
  | dash
  | comma
  | key
  | value
  | alias (name : String)
  | anchor (name : String)
  | tag (content : Tag)
  | scalar (content : Scalar)
  /-- From here on the text cannot be read. -/
  | broken (problem : Problem)
deriving DecidableEq, Repr

/-- A lexeme and the line it starts on. -/
structure Token where
  lexeme : Lexeme
  line : Nat
deriving DecidableEq, Repr

namespace Token

/-- A token that becomes the key of a mapping if a colon follows on its line. -/
structure Pending where
  /-- Whether nothing but a key can stand here. -/
  required : Bool
  /-- Whether the token is held back until it is known. -/
  held : Bool
  index : Nat
  line : Nat
  column : Nat

/-- What may be a key inside the innermost bracket, or outside all of them. -/
structure Level where
  /-- How many tokens come before what may be a key, or may have been one. -/
  position : Nat
  pending : Option Pending

/-- How far reading tokens has come. -/
structure Scanner where
  cursor : Cursor
  tokens : Array Token
  /-- How many tokens were handed out. -/
  handed : Nat
  /-- The column of the innermost open block, or minus one. -/
  indent : Int
  indents : List Int
  /-- Whether a key can start here without a mark. -/
  keyAllowed : Bool
  level : Level
  /-- The levels where each open bracket stands, the innermost first. -/
  outer : List Level

/-- A step of reading tokens. Those read before a problem are kept. -/
abbrev Scan := EStateM Problem Scanner

namespace Scanner

/-- Before the first token. -/
def start (text : String) : Scanner :=
  ⟨.start text, #[], 0, -1, [], true, ⟨0, none⟩, []⟩

/-- Whether a bracket is open. -/
def inFlow (s : Scanner) : Bool := !s.outer.isEmpty

end Scanner

/-- Takes a step over the text. -/
def inText {α : Type} (pass : Pass α) : Scan α := fun s =>
  match pass s.cursor with
  | .ok a cursor => .ok a { s with cursor }
  | .error problem cursor => .error problem { s with cursor }

/-- Stops with a flaw at the place that was reached. -/
def stop {α : Type} (flaw : Flaw) : Scan α := inText (Pass.stop flaw)

/-- How deep blocks and brackets may be nested. -/
def deepest : Nat := 10000

/-! Putting tokens in their places -/

/-- Puts a token after all others. -/
def emit (lexeme : Lexeme) (line : Nat) : Scan Unit :=
  modify fun s => { s with tokens := s.tokens.push ⟨lexeme, line⟩ }

/-- Puts a token before the one at a position, or after all others if that was handed out. -/
def emitBefore (position : Nat) (lexeme : Lexeme) (line : Nat) : Scan Unit :=
  modify fun s =>
    let place := if position < s.handed then s.tokens.size else position
    { s with tokens := s.tokens.insertIdxIfInBounds place ⟨lexeme, line⟩ }

/-- Says whether a key can start here. -/
def allowKey (allowed : Bool) : Scan Unit := modify fun s => { s with keyAllowed := allowed }

/-- Whether what may be a key is too far back, since a key stays on one line and is not long. -/
def Pending.isStale (p : Pending) (c : Cursor) : Bool :=
  p.line < c.line || p.index + 1024 < c.index

/-- Gives up on what is pending, unless it had to be a key. -/
def Level.forget (l : Level) : Except Problem Level :=
  match l.pending with
  | none => .ok l
  | some p => if p.required then .error ⟨p.line, .missingColon⟩ else .ok { l with pending := none }

/-- Gives up on what is pending if it is too far back. -/
def Level.refresh (l : Level) (c : Cursor) : Except Problem Level :=
  if (l.pending.map (·.isStale c)).getD false then l.forget else .ok l

/-- Changes the innermost level. -/
def updateLevel (change : Level → Except Problem Level) : Scan Unit := do
  let s ← get
  match change s.level with
  | .ok level => set { s with level }
  | .error problem => throw problem

/-- Gives up on what is pending here. -/
def forget : Scan Unit := updateLevel Level.forget

/-- Notes that the token that starts here may be a key. -/
def remember : Scan Unit := do
  let s ← get
  if s.keyAllowed then
    forget
    -- At the column of an open block nothing but a key of it can stand.
    let required := !s.inFlow && s.indent == s.cursor.column
    let p : Pending := ⟨required, true, s.cursor.index, s.cursor.line, s.cursor.column⟩
    modify fun s => { s with level := ⟨s.tokens.size, some p⟩ }

/-- Whether a level holds back the token at a position. -/
def Level.holds (l : Level) (position : Nat) : Bool :=
  l.position == position && (l.pending.map (·.held)).getD false

/-- Whether the next token is held back, after giving up on it if it is too far back. -/
def holdsNext : Scan Bool := do
  let s ← get
  let refresh (l : Level) : Except Problem Level :=
    if l.holds s.handed then l.refresh s.cursor else .ok l
  -- Levels outside of open brackets may hold the token back as well.
  match refresh s.level, s.outer.mapM refresh with
  | .ok level, .ok outer =>
    set { s with level, outer }
    return (level :: outer).any (·.holds s.handed)
  | .error problem, _ => throw problem
  | _, .error problem => throw problem

/-- Hands out the tokens that are followed by two others and not held back. -/
def handOut : Nat → Scan Unit
  | 0 => pure ()
  | fuel + 1 => do
    let s ← get
    if s.handed + 2 < s.tokens.size then
      if !(← holdsNext) then
        modify fun s => { s with handed := s.handed + 1 }
        handOut fuel

/-! Blocks -/

/-- Opens a block at a column that is further in, before the token at a position or at the end. -/
def openBlock (column : Nat) (position : Option Nat) (lexeme : Lexeme) (line : Nat) :
    Scan Unit := do
  let s ← get
  if !s.inFlow && s.indent < column then
    if deepest ≤ s.indents.length then stop .depth
    set { s with indents := s.indent :: s.indents, indent := column }
    match position with
    | some position => emitBefore position lexeme line
    | none => emit lexeme line

/-- Where a block ends that started at a column: before the comments that are indented like it. -/
def blockEndAt (indent : Int) (reach : Int) (index : Int) (line : Nat) :
    List Comment → Int × Nat
  | [] => (index, line)
  | c :: older =>
    if (c.endIndex : Int) < reach then (index, line)
    else
      let (index, line) : Int × Nat :=
        if (c.startColumn : Int) == indent + 1 then (c.startIndex, c.startLine)
        else (index, line)
      blockEndAt indent c.reach index line older

/-- Closes blocks, of which each ends where the one inside it does or before. -/
def closeFrom (column : Int) (comments : List Comment) :
    Nat → Int → Nat → Scan Unit
  | 0, _, _ => pure ()
  | fuel + 1, index, line => do
    let s ← get
    if column < s.indent then
      let (index, line) := blockEndAt s.indent index index line comments
      emit .blockEnd line
      modify fun s => { s with indent := s.indents.headD (-1), indents := s.indents.tail }
      closeFrom column comments fuel index line

/-- Closes the blocks that are further in than a column, before a place. -/
def closeBlocks (column : Int) (c : Cursor) (comments : List Comment) : Scan Unit := do
  let s ← get
  if !s.inFlow then
    closeFrom column comments (s.indents.length + 1) ((c.index : Int) - 1) c.line

/-! White space -/

/-- Whether the last token, or the one before a comma, stands between a key and its value. -/
def afterColon (tokens : Array Token) : Bool :=
  match tokens.toList.reverse with
  | ⟨.comma, _⟩ :: before :: _ => before.lexeme == .value
  | last :: _ => last.lexeme == .value
  | [] => false

/-- Passes over blanks, comments and line breaks, with fuel for every character that is left. -/
def passSpace (before : Cursor) : Nat → List Comment → Scan (List Comment)
  | 0, found => return found
  | fuel + 1, found => do
    inText (Pass.need 1)
    -- An order mark at the start of what is in view hides the first character of a line.
    if (← get).cursor.column == 0 && (← get).cursor.marked then inText Pass.skip
    -- A tab does not indent, so it is passed over only where no indentation is expected.
    let s ← get
    let tabs := s.inFlow || !s.keyAllowed
    inText (Pass.skipWhile (fun x => x == ' ' || (tabs && x == '\t')))
    let gathered ←
      if (← get).cursor.head? == some '#' then
        inText (Comment.gather s.inFlow s.indent (afterColon s.tokens) before.index before.line)
      else pure []
    if (← get).cursor.heads isBreak then
      inText (Pass.need 2)
      let _ ← inText Pass.takeBreak
      if !s.inFlow then allowKey true
      passSpace before fuel (gathered ++ found)
    else return gathered ++ found

/-! Tokens one by one -/

/-- Takes characters that are a token of their own. -/
def take (count : Nat) (lexeme : Lexeme) : Scan Unit := do
  let line := (← get).cursor.line
  inText (Pass.skipMany count)
  emit lexeme line

/-- Takes a mark between documents. -/
def takeDocumentMark (lexeme : Lexeme) (comments : List Comment) : Scan Unit := do
  closeBlocks (-1) (← get).cursor comments
  forget
  allowKey false
  take 3 lexeme

/-- Takes a directive. -/
def takeDirective (comments : List Comment) : Scan Unit := do
  closeBlocks (-1) (← get).cursor comments
  forget
  allowKey false
  let line := (← get).cursor.line
  emit (.directive (← inText Yaml.takeDirective)) line

/-- Takes the end of the text, which ends the last line as well. -/
def takeEnd (comments : List Comment) : Scan Unit := do
  modify fun s =>
    if s.cursor.column == 0 then s
    else { s with cursor := { s.cursor with line := s.cursor.line + 1, column := 0 } }
  closeBlocks (-1) (← get).cursor comments
  forget
  allowKey false
  emit .textEnd (← get).cursor.line

/-- Takes an opening bracket. -/
def takeOpening (lexeme : Lexeme) : Scan Unit := do
  remember
  -- The bracket itself may be a key outside, and inside it nothing is pending yet.
  modify fun s => { s with outer := s.level :: s.outer, level := ⟨s.tokens.size, none⟩ }
  if deepest < (← get).outer.length then stop .depth
  allowKey true
  take 1 lexeme

/-- A level whose token at a position is not held back any longer. -/
def Level.release (l : Level) (position : Nat) : Level :=
  if l.position == position then
    { l with pending := l.pending.map ({ · with held := false }) }
  else l

/--
Takes a closing bracket.

What was last noted inside it is not held back any longer. If nothing was, that is the opening
bracket itself, which can still become a key.
-/
def takeClosing (lexeme : Lexeme) : Scan Unit := do
  forget
  modify fun s =>
    match s.outer with
    | [] => s
    | level :: outer => { s with level := level.release s.level.position, outer }
  allowKey false
  take 1 lexeme

/-- Takes a comma. -/
def takeComma : Scan Unit := do
  forget
  allowKey true
  take 1 .comma

/-- Takes the mark of a list entry. -/
def takeDash : Scan Unit := do
  let s ← get
  if !s.inFlow then
    if !s.keyAllowed then stop .blockEntry
    openBlock s.cursor.column none .blockList s.cursor.line
  forget
  allowKey true
  take 1 .dash

/-- Takes the mark of a key. -/
def takeKey : Scan Unit := do
  let s ← get
  if !s.inFlow then
    if !s.keyAllowed then stop .blockKey
    openBlock s.cursor.column none .blockMapping s.cursor.line
  forget
  allowKey (!s.inFlow)
  take 1 .key

/-- Takes a colon, which makes a key of what is pending. -/
def takeValue : Scan Unit := do
  updateLevel (·.refresh (← get).cursor)
  let s ← get
  match s.level.pending with
  | some p =>
    -- The mapping opens before its key, which in turn comes before what was taken already.
    emitBefore s.level.position .key p.line
    openBlock p.column (some s.level.position) .blockMapping p.line
    modify fun s => { s with level := { s.level with pending := none } }
    allowKey false
  | none =>
    if !s.inFlow then
      if !s.keyAllowed then stop .blockValue
      openBlock s.cursor.column none .blockMapping s.cursor.line
    allowKey (!s.inFlow)
  take 1 .value

/-- Takes something that may be a key. -/
def takeContent (pass : Pass Lexeme) : Scan Unit := do
  remember
  allowKey false
  let line := (← get).cursor.line
  emit (← inText pass) line

/-- Takes a block scalar. -/
def takeBlock (literal : Bool) : Scan Unit := do
  forget
  allowKey true
  let s ← get
  let text ← inText (block literal s.indent)
  emit (.scalar ⟨none, true, String.ofList text⟩) s.cursor.line

/-- Takes a quoted scalar. -/
def takeQuoted (quote : Char) : Scan Unit :=
  takeContent do return .scalar ⟨none, true, String.ofList (← quoted quote)⟩

/-- Takes a plain scalar. -/
def takePlain : Scan Unit := do
  remember
  allowKey false
  let s ← get
  let (text, newLine) ← inText (plain s.inFlow (s.indent + 1))
  -- A scalar that was continued has left off at the start of a line.
  if newLine then allowKey true
  emit (.scalar ⟨none, false, String.ofList text⟩) s.cursor.line

/-- Whether a character has a meaning of its own where a token starts. -/
def isIndicator (c : Char) : Bool := "-?:,[]\x7b\x7d#&*!|>'\"%@`".contains c

/-- Whether a plain scalar can start here. -/
def startsPlain (inFlow : Bool) (c : Char) (cs : List Char) : Bool :=
  !(isSpace c || isIndicator c) || (c == '-' && !((cs.head?.map isBlank).getD false)) ||
    (!inFlow && (c == '?' || c == ':') && !endsWord cs)

/-- Takes the token that starts with a character. -/
def takeToken (c : Char) (cs : List Char) : Scan Unit := do
  let inFlow := (← get).inFlow
  if c == '[' then takeOpening .openList
  else if c == '{' then takeOpening .openMapping
  else if c == ']' then takeClosing .closeList
  else if c == '}' then takeClosing .closeMapping
  else if c == ',' then takeComma
  -- These three are marks only where no word goes on, and otherwise start a plain scalar.
  else if c == '-' && endsWord cs then takeDash
  else if c == '?' && (inFlow || endsWord cs) then takeKey
  else if c == ':' && (inFlow || endsWord cs) then takeValue
  else if c == '*' then takeContent (Lexeme.alias <$> takeAnchor)
  else if c == '&' then takeContent (Lexeme.anchor <$> takeAnchor)
  else if c == '!' then takeContent (Lexeme.tag <$> takeTag)
  else if c == '|' && !inFlow then takeBlock true
  else if c == '>' && !inFlow then takeBlock false
  else if c == '\'' || c == '"' then takeQuoted c
  else if startsPlain inFlow c cs then takePlain
  else stop .token

/-- Takes one more token, and a comment behind it unless it is the mark of an entry. -/
def next : Scan Unit := do
  inText (Pass.need 1)
  if (← get).tokens.isEmpty then emit .textStart 1
  else
    let before := (← get).cursor
    let comments ← passSpace before (before.size + 1) []
    -- A token further out than the open blocks closes them first.
    closeBlocks (← get).cursor.column before comments
    inText (Pass.need 4)
    let c := (← get).cursor
    match c.rest with
    | [] => takeEnd comments
    | x :: xs =>
      if c.column == 0 && x == '%' then takeDirective comments
      else if c.marksDocument '-' then takeDocumentMark .documentStart comments
      else if c.marksDocument '.' then takeDocumentMark .documentEnd comments
      else
        takeToken x xs
        if (← get).tokens.back?.map (·.lexeme) != some .dash then inText Comment.passBehind

/-- Takes tokens until the end of the text is handed out, with fuel for each of them. -/
def scanFrom : Nat → Scan Unit
  | 0 => pure ()
  | fuel + 1 => do
    -- What can be handed out is handed out before another token is taken.
    handOut (← get).tokens.size
    let s ← get
    if s.tokens[s.handed - 1]?.map (·.lexeme) != some .textEnd then
      next
      scanFrom fuel

/-- The tokens of a text that are handed out, and the problem after them if there is one. -/
def scan (text : String) : List Token :=
  match scanFrom (text.length + 8) (.start text) with
  | .ok () s => s.tokens.toList.take s.handed
  | .error problem s => s.tokens.toList.take s.handed ++ [⟨.broken problem, problem.line⟩]

end Token

end Tangent.Yaml
