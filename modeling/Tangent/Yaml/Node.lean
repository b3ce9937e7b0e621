import Tangent.NameMap
import Tangent.Yaml.Value

/-! Documents: scalars, lists and mappings with the lines they stand on. -/

namespace Tangent.Yaml

/-- An alias of a collection that it is part of. -/
structure Loop where
  line : Nat
  name : String
  /-- Which loop of its document it is. -/
  number : Nat
  /-- Whether the collection is a list. -/
  isList : Bool
  /-- The line the collection stands on. -/
  targetLine : Nat
deriving DecidableEq, Repr

/--
A node of a document.

An alias keeps what it stands for and the line it stands on itself. One that is part of what it
stands for cannot keep it.
-/
inductive Node where
  | scalar (line : Nat) (content : Scalar)
  | list (line : Nat) (tag : Option String) (items : List Node)
  | mapping (line : Nat) (tag : Option String) (entries : List (Node × Node))
  | alias (line : Nat) (name : String) (target : Node)
  | loop (content : Loop)

/-- A document that is not empty. -/
structure Document where
  root : Node
  /-- What each loop stands for. -/
  loops : List Node
  /-- How deep nodes are nested at most. -/
  depth : Nat

namespace Node

/-- The line a node stands on. -/
def line : Node → Nat
  | .scalar line _ => line
  | .list line _ _ => line
  | .mapping line _ _ => line
  | .alias line _ _ => line
  | .loop content => content.line

/-- Whether a node is taken for nothing, as its tag says or its text. -/
def isNull : Node → Bool
  | .scalar _ s => s.isNull
  | .list _ tag _ => tag == some Value.null.tag
  | .mapping _ tag _ => tag == some Value.null.tag
  | .alias _ _ target => target.isNull
  | .loop _ => false

/-- Whether a node stands for another one. -/
def isAlias : Node → Bool
  | .alias _ _ _ => true
  | .loop _ => true
  | _ => false

/-- A scalar that is not written. -/
def absent (line : Nat) : Node := .scalar line ⟨none, false, ""⟩

/-! Tokens -/

/-- What an anchor stands for: a node, or a collection of which not all was read. -/
inductive Anchored where
  | complete (node : Node)
  | unfinished (number : Nat) (isList : Bool) (line : Nat)

/-- What is left of the tokens, and what was read so far. -/
structure Reading where
  tokens : List Token
  /-- What the handles of tags stand for. -/
  handles : List (String × String)
  anchors : NameMap Anchored
  /-- The number of collections with an anchor that were started. -/
  started : Nat
  /-- Those that were read to their ends. -/
  finished : List (Nat × Node)
  /-- The collection that each loop stands for, the last loop first. -/
  loops : List Nat

/-- A step of reading nodes. -/
abbrev Parse := StateT Reading (Except Problem)

/-- The next token, which stays. -/
def peek : Parse Token := do
  match (← get).tokens with
  | [] => return ⟨.textEnd, 0⟩
  | ⟨.broken problem, _⟩ :: _ => throw problem
  | token :: _ => return token

/-- Passes over the next token. -/
def pass : Parse Unit := modify fun r => { r with tokens := r.tokens.tail }

/-- Stops with a flaw at the next token. -/
def refuse {α : Type} (flaw : Flaw) : Parse α := do throw ⟨(← peek).line, flaw⟩

/-! Anchors and tags -/

/-- What the names of the format's own tags start with. -/
def tagHome : String := "tag:yaml.org,2002:"

/-- A tag, shorter if it is one of the format's own. -/
def shortTag (tag : String) : String :=
  if tag.startsWith tagHome then "!!" ++ (tag.drop tagHome.length).toString else tag

/-- The name of a tag, which is no tag if it is a lone mark. -/
def tagName (t : Tag) : Parse (Option String) := do
  if t.handle.isEmpty then return if t.suffix == "!" then none else some (shortTag t.suffix)
  else
    match (← get).handles.lookup t.handle with
    | some home => return some (shortTag (home ++ t.suffix))
    | none => refuse .unknownHandle

/-- The anchor in front, if there is one. -/
def anchor? : Parse (Option String) := do
  match (← peek).lexeme with
  | .anchor name => pass; return some name
  | _ => return none

/-- The tag in front, if there is one. -/
def tag? : Parse (Option Tag) := do
  match (← peek).lexeme with
  | .tag content => pass; return some content
  | _ => return none

/-- What may stand in front of a node. -/
structure Properties where
  anchor : Option String
  tag : Option String
  /-- Whether there is neither an anchor nor a tag, not even a lone mark. -/
  isEmpty : Bool

/-- An anchor and a tag in front, in either order. -/
def properties : Parse Properties := do
  let before ← anchor?
  let tag ← tag?
  -- A tag may come first, and then an anchor can follow it.
  let anchor ← if before.isNone && tag.isSome then anchor? else pure before
  match tag with
  | none => return ⟨anchor, none, anchor.isNone⟩
  | some t => return ⟨anchor, ← tagName t, false⟩

/-- A scalar, for which an anchor stands from here on. -/
def bind (anchor : Option String) (node : Node) : Parse Node := do
  match anchor with
  | none => pure ()
  | some name => modify fun r => { r with anchors := r.anchors.insert name (.complete node) }
  return node

/-- Reads a collection, for which an anchor stands also within it. -/
def bindAround (anchor : Option String) (isList : Bool) (line : Nat) (read : Parse Node) :
    Parse Node := do
  match anchor with
  | none => read
  | some name =>
    -- Until the collection is read to its end, an alias of it within is a loop.
    let number := (← get).started
    modify fun r =>
      { r with
        started := number + 1
        anchors := r.anchors.insert name (.unfinished number isList line) }
    let node ← read
    modify fun r =>
      { r with
        finished := (number, node) :: r.finished
        anchors :=
          -- The name may have been used again within the collection.
          match r.anchors.find? name with
          | some (.unfinished current _ _) =>
            if current == number then r.anchors.insert name (.complete node) else r.anchors
          | _ => r.anchors }
    return node

/-- What an alias stands for. -/
def parseAlias (line : Nat) (name : String) : Parse Node := do
  match (← get).anchors.find? name with
  | none => throw ⟨line, .unknownAnchor name⟩
  | some (.complete target) =>
    pass
    return .alias line name target
  | some (.unfinished number isList targetLine) =>
    pass
    let count := (← get).loops.length
    modify fun r => { r with loops := number :: r.loops }
    return .loop ⟨line, name, count, isList, targetLine⟩

/-! Nodes -/

/-- Whether a token ends the entry of a block mapping. -/
def endsEntry : Lexeme → Bool
  | .key => true
  | .value => true
  | .blockEnd => true
  | _ => false

/-- Whether a token ends the entry of a flow collection. -/
def endsFlowEntry (close : Lexeme) (lexeme : Lexeme) : Bool :=
  lexeme == .comma || lexeme == close

mutual

/-- Reads a node, which may be a block, and whose list entries may be indented no further. -/
def parseNode (isBlock loose : Bool) : Nat → Parse Node
  | 0 => refuse .node
  | fuel + 1 => do
    let first ← peek
    match first.lexeme with
    | .alias name => parseAlias first.line name
    | _ =>
      let p ← properties
      -- Only an anchor or a tag can stand for a scalar that is not written.
      let empty : Parse Node :=
        if p.isEmpty then refuse .node
        else bind p.anchor (.scalar first.line ⟨p.tag, false, ""⟩)
      match (← peek).lexeme with
      | .scalar content =>
        pass
        bind p.anchor (.scalar first.line { content with tag := p.tag })
      | .openList =>
        bindAround p.anchor true first.line do
          pass
          return .list first.line p.tag (← parseFlowList true fuel)
      | .openMapping =>
        bindAround p.anchor false first.line do
          pass
          return .mapping first.line p.tag (← parseFlowMapping true fuel)
      | .dash =>
        if loose then
          bindAround p.anchor true first.line do
            return .list first.line p.tag (← parseLooseList fuel)
        else empty
      | .blockList =>
        if isBlock then
          bindAround p.anchor true first.line do
            pass
            return .list first.line p.tag (← parseBlockList fuel)
        else empty
      | .blockMapping =>
        if isBlock then
          bindAround p.anchor false first.line do
            pass
            return .mapping first.line p.tag (← parseBlockMapping fuel)
        else empty
      | _ => empty

/-- Reads the entries of a block list. -/
def parseBlockList : Nat → Parse (List Node)
  | 0 => refuse .entry
  | fuel + 1 => do
    let token ← peek
    match token.lexeme with
    | .blockEnd => pass; return []
    | .dash =>
      pass
      let after := (← peek).lexeme
      let item ←
        -- Between two marks of entries, or a mark and the end, there is an entry that is left out.
        if after == .dash || after == .blockEnd then pure (absent token.line)
        else parseNode true false fuel
      return item :: (← parseBlockList fuel)
    | _ => refuse .entry

/-- Reads the entries of a list that is indented like the mapping around it. -/
def parseLooseList : Nat → Parse (List Node)
  | 0 => refuse .entry
  | fuel + 1 => do
    let token ← peek
    match token.lexeme with
    | .dash =>
      pass
      let after := (← peek).lexeme
      let item ←
        if after == .dash || endsEntry after then pure (absent token.line)
        else parseNode true false fuel
      return item :: (← parseLooseList fuel)
    | _ => return []

/-- Reads the entries of a block mapping. -/
def parseBlockMapping : Nat → Parse (List (Node × Node))
  | 0 => refuse .key
  | fuel + 1 => do
    let token ← peek
    match token.lexeme with
    | .blockEnd => pass; return []
    | .key =>
      pass
      let key ← parseBlockPart token.line fuel
      let mark ← peek
      let value ←
        match mark.lexeme with
        | .value => do pass; parseBlockPart mark.line fuel
        | _ => pure (absent mark.line)
      return (key, value) :: (← parseBlockMapping fuel)
    | _ => refuse .key

/-- Reads a key or a value of a block mapping, which may be left out. -/
def parseBlockPart (line : Nat) : Nat → Parse Node
  | 0 => refuse .node
  | fuel + 1 => do
    if endsEntry (← peek).lexeme then return absent line
    else parseNode true true fuel

/-- Reads the entries of a list in brackets. -/
def parseFlowList (isFirst : Bool) : Nat → Parse (List Node)
  | 0 => refuse .listEnd
  | fuel + 1 => do
    if (← peek).lexeme == .closeList then
      pass
      return []
    -- Entries are kept apart by commas, and one more may follow the last of them.
    if !isFirst then
      if (← peek).lexeme == .comma then pass else refuse .listEnd
    let token ← peek
    match token.lexeme with
    | .closeList => pass; return []
    | .key =>
      pass
      let after ← peek
      let key ←
        if after.lexeme == .value || endsFlowEntry .closeList after.lexeme then do
          pass
          pure (absent after.line)
        else parseNode false false fuel
      let value ← parsePairValue fuel
      -- A lone pair between brackets is a mapping with one entry.
      return .mapping token.line none [(key, value)] :: (← parseFlowList false fuel)
    | _ =>
      let item ← parseNode false false fuel
      return item :: (← parseFlowList false fuel)

/-- Reads the entries of a mapping in braces. -/
def parseFlowMapping (isFirst : Bool) : Nat → Parse (List (Node × Node))
  | 0 => refuse .mappingEnd
  | fuel + 1 => do
    if (← peek).lexeme == .closeMapping then
      pass
      return []
    if !isFirst then
      if (← peek).lexeme == .comma then pass else refuse .mappingEnd
    match (← peek).lexeme with
    | .closeMapping => pass; return []
    | .key =>
      pass
      let after ← peek
      let key ←
        if after.lexeme == .value || endsFlowEntry .closeMapping after.lexeme then
          pure (absent after.line)
        else parseNode false false fuel
      let value ← parseFlowValue fuel
      return (key, value) :: (← parseFlowMapping false fuel)
    | _ =>
      let key ← parseNode false false fuel
      -- A key without a colon has a value that is left out.
      let value := absent (← peek).line
      return (key, value) :: (← parseFlowMapping false fuel)

/-- Reads the value of an entry of a mapping in braces, which may be left out. -/
def parseFlowValue : Nat → Parse Node
  | 0 => refuse .node
  | fuel + 1 => do
    if (← peek).lexeme == .value then
      pass
      if endsFlowEntry .closeMapping (← peek).lexeme then return absent (← peek).line
      else parseNode false false fuel
    else return absent (← peek).line

/-- Reads the value of a mapping that is an item of a list in brackets, which may be left out. -/
def parsePairValue : Nat → Parse Node
  | 0 => refuse .node
  | fuel + 1 => do
    let mark ← peek
    if mark.lexeme == .value then
      pass
      if endsFlowEntry .closeList (← peek).lexeme then return absent mark.line
      else parseNode false false fuel
    else return absent mark.line

end

/-! Documents -/

/-- Whether a token says that a document has no content. -/
def endsDocument : Lexeme → Bool
  | .directive _ => true
  | .documentStart => true
  | .documentEnd => true
  | .textEnd => true
  | _ => false

/-- What handles stand for where no directive says otherwise. -/
def usualHandles : List (String × String) := [("!", "!"), ("!!", tagHome)]

/-- Reads the directives before a document, of which one at most states a version. -/
def parseDirectives (versioned : Bool) : Nat → Parse Unit
  | 0 => refuse .documentStart
  | fuel + 1 => do
    match (← peek).lexeme with
    | .directive (.version major minor) =>
      if versioned then refuse .repeatedVersion
      if major != 1 || minor != 1 then refuse .version
      pass
      parseDirectives true fuel
    | .directive (.handle name home) =>
      if (← get).handles.any (·.1 == name) then refuse .repeatedHandle
      modify fun r => { r with handles := (name, home) :: r.handles }
      pass
      parseDirectives versioned fuel
    | _ => modify fun r => { r with handles := r.handles ++ usualHandles }

/-- Reads the first document, if there is one. -/
def parseDocument (fuel : Nat) : Parse (Option Node) := do
  -- The first token stands for the start of the text.
  let _ ← peek
  pass
  let first ← peek
  if first.lexeme == .textEnd then return none
  parseDirectives false fuel
  let started := (← peek).lexeme == .documentStart
  if started then pass
  -- Directives are about a document, which has to be marked after them.
  else if let .directive _ := first.lexeme then refuse .documentStart
  let after ← peek
  let root ←
    if started && endsDocument after.lexeme then pure (absent after.line)
    else parseNode true false fuel
  -- What follows the document has to be readable as tokens, but is not read as nodes.
  let _ ← peek
  return some root

end Node

/-- The first document of a text, if the text has one. -/
def Document.ofText (text : String) : Except Problem (Option Document) := do
  let tokens := Token.scan text
  let start : Node.Reading := ⟨tokens, [], .empty, 0, [], []⟩
  let (root?, r) ← Node.parseDocument (4 * tokens.length + 8) start
  let target (number : Nat) : Node := (r.finished.lookup number).getD (.absent 0)
  -- Loops were noted from the last to the first.
  return root?.map fun root => ⟨root, r.loops.reverse.map target, tokens.length⟩

end Tangent.Yaml
