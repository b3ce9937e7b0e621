import Tangent.Yaml.Cursor

/-!
Comments between tokens.

They say nothing, but a block that ends is taken to end before the comments that are indented as
it is.
-/

namespace Tangent.Yaml

/-- Where a comment of one or several lines stands. -/
structure Comment where
  /-- Where the white space before it starts. -/
  reach : Nat
  startIndex : Nat
  startLine : Nat
  /-- The column of its first line, counted from one. -/
  startColumn : Nat
  endIndex : Nat

namespace Comment

open Pass

/-- How far after a token or a comment another comment is looked for. -/
def sight : Nat := 512

/-- Passes over everything up to an index, and then over the rest of the line. -/
def passTo (index : Nat) : Nat → Pass Unit
  | 0 => pure ()
  | fuel + 1 => do
    need 1
    let c ← get
    if !c.atLineEnd then
      skip
      passTo index fuel
    else if c.index < index then
      need 2
      let _ ← takeBreak
      passTo index fuel

/-- Looks for a comment after blanks on the line of a token, and passes over it. -/
def passOnLine (peek : Nat) : Nat → Pass Unit
  | 0 => pure ()
  | fuel + 1 => do
    need (peek + 1)
    let c ← get
    match c.rest[peek]? with
    | none => pure ()
    | some x =>
      if isBlank x then passOnLine (peek + 1) fuel
      else if x == '#' then passTo (c.index + peek) (← Pass.fuel)

/-- Passes over a comment behind a token that did not end with its line. -/
def passBehind : Pass Unit := do
  if (← get).breaks == 0 then passOnLine 0 sight

/-- What is around comments. -/
structure Context where
  inFlow : Bool
  /-- The columns of the innermost open block. -/
  indent : Nat
  /-- Whether the last token stands between a key and its value. -/
  afterColon : Bool
  /-- The line right below what comes before, unless that is the start of the text. -/
  nextLine : Option Int

/-- Comments that are being gathered. -/
structure Gathering where
  /-- How far behind the place that was reached something is looked at. -/
  peek : Nat
  line : Nat
  column : Nat
  reach : Nat
  /-- The start of the comment that is open: its index, line and column. -/
  opened : Option (Nat × Nat × Nat)
  /-- Whether no empty line was seen. -/
  isFirst : Bool
  /-- Whether the last line was empty. -/
  wasEmpty : Bool
  /-- The comments that are complete, the last one first. -/
  found : List Comment

namespace Gathering

/-- Completes the comment that is open. -/
def close (g : Gathering) (endIndex : Nat) : Gathering :=
  match g.opened with
  | none => g
  | some (startIndex, startLine, startColumn) =>
    { g with
      found := ⟨g.reach, startIndex, startLine, startColumn, endIndex⟩ :: g.found
      opened := none
      reach := endIndex }

/-- Whether an empty line ends the comment that is open: it belongs to what comes before it. -/
def endsAtEmpty (g : Gathering) (x : Context) : Bool :=
  match g.opened with
  | none => false
  | some (_, startLine, startColumn) =>
    g.isFirst &&
      ((x.nextLine == some (startLine : Int) && !x.afterColon) || startColumn - 1 < x.indent)

/-- Whether the comment that is open ends before something that is further out than its block. -/
def endsBefore (g : Gathering) (x : Context) : Bool :=
  match g.opened with
  | none => false
  | some (_, _, startColumn) => g.column - 1 < x.indent && g.column != startColumn

end Gathering

/-- Whether a line break is wider than a byte, so that nothing is looked for behind it. -/
def isWideBreak (c : Char) : Bool := isBreak c && c != '\n' && c != '\r'

/-- Gathers comments with white space between them, with fuel for all that is left. -/
def gatherFrom (x : Context) : Nat → Gathering → Pass (List Comment)
  | 0, g => return g.found
  | fuel + 1, g => do
    let finish (g : Gathering) : Pass (List Comment) := do
      return (g.close ((← get).index + g.peek - 1)).found
    -- What lies further ahead than one sees is not looked for.
    if sight ≤ g.peek then return ← finish g
    need (g.peek + 1)
    let c ← get
    let g := { g with column := g.column + 1 }
    let hidden := 0 < g.peek && ((c.rest[g.peek - 1]?).map isWideBreak).getD false
    let next := c.rest[g.peek]?
    let test (t : Char → Bool) : Bool := !hidden && (next.map t).getD false
    let isEnd := !hidden && next.isNone
    let closes := x.inFlow && test (fun x => x == ']' || x == '}')
    if test isBlank then gatherFrom x fuel { g with peek := g.peek + 1 }
    else if closes || isEnd || test isBreak then
      let ends := closes || (!g.wasEmpty && g.endsAtEmpty x)
      let g := if ends then g.close (c.index + g.peek) else g
      if !test isBreak then finish g
      else
        gatherFrom x fuel
          { g with
            isFirst := false
            wasEmpty := true
            column := 0
            line := g.line + 1
            peek := g.peek + 1 }
    else
      let g := if g.endsBefore x then g.close (c.index + g.peek) else g
      if !test (· == '#') then finish g
      else
        let start := (c.index + g.peek, g.line, g.column)
        passTo (c.index + g.peek) (← Pass.fuel)
        gatherFrom x fuel
          { g with
            -- Lines of comments one below the other are one comment, which starts with the first.
            opened := some (g.opened.getD start)
            wasEmpty := false
            peek := 1
            column := 0
            line := (← get).line }

/-- Gathers the comments that start here, where white space started at an index and on a line. -/
def gather (inFlow : Bool) (indent : Int) (afterColon : Bool) (reach reachLine : Nat) :
    Pass (List Comment) := do
  let c ← get
  let below : Int := c.line - c.breaks + 1
  let nextLine : Option Int :=
    if reachLine ≤ 1 then none
    else some (if c.breaks == 0 && 1 < c.column then below + 1 else below)
  gatherFrom ⟨inFlow, indent.toNat, afterColon, nextLine⟩ (2 * c.size + 2 * sight)
    ⟨0, c.line, c.column, reach, none, c.breaks ≤ 1, false, []⟩

end Comment

end Tangent.Yaml
