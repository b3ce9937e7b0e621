import Tangent.Yaml.Node

/-!
Values that documents are read as.

A value of the wrong kind spoils a document, but only after all of it was read, so that what the
content itself is at fault with is reported first.
-/

namespace Tangent.Yaml

/-- Why a document does not say what is read from it. -/
inductive Refusal (ε : Type) where
  /-- It is no document, or says something of another kind. -/
  | document (text : String)
  /-- What it says cannot be used. -/
  | content (cause : ε)
deriving DecidableEq, Repr

/-- A value of the wrong kind. -/
structure Mismatch where
  line : Nat
  expected : String
deriving DecidableEq, Repr

/-- The message of values of the wrong kind. -/
def mismatchText (found : List Mismatch) : String :=
  "yaml: " ++ "; ".intercalate (found.map (fun m => s!"line {m.line}: expected {m.expected}"))

/-- How far reading has come. -/
structure Progress where
  mismatches : List Mismatch
  /-- How many nodes were read. -/
  nodes : Nat
  /-- How many of them were read through an alias. -/
  aliased : Nat

/-- What a node is read within. -/
structure Scope where
  document : Document
  /-- Whether an alias is being followed. -/
  inAlias : Bool
  /-- The loops that are being followed. -/
  followed : List Nat

/-- A step of reading values, which collects those of the wrong kind. -/
abbrev Reads (ε : Type) := ReaderT Scope (StateT Progress (Except (Refusal ε)))

variable {ε σ : Type}

/-- Notes a value of the wrong kind. -/
def expected (line : Nat) (what : String) : Reads ε Unit :=
  modify fun p => { p with mismatches := p.mismatches ++ [⟨line, what⟩] }

/-- Stops, because a node cannot be read as anything. -/
def unreadable {β : Type} (line : Nat) (text : String) : Reads ε β :=
  throw (.document s!"yaml: line {line}: {text}")

/-! Aliases -/

/--
Whether too many of the nodes were read through aliases.

Of few nodes, 99 in 100 may be; of many, fewer and fewer, down to one in ten.
-/
def isExcessive (nodes aliased : Nat) : Bool :=
  let many := min (nodes - 400000) 3600000
  100 < aliased && 1000 < nodes && nodes * (99 * 3600000 - 89 * many) < aliased * (100 * 3600000)

/-- Counts a node. -/
def visit (line : Nat) : Reads ε Unit := do
  let inAlias := (← read).inAlias
  modify fun p =>
    { p with nodes := p.nodes + 1, aliased := if inAlias then p.aliased + 1 else p.aliased }
  let p ← get
  if isExcessive p.nodes p.aliased then unreadable line "document contains excessive aliasing"

/-- Reads a node, or what it stands for if it is an alias, which is never an alias itself. -/
def follow {β : Type} (reads : Node → Reads ε β) (node : Node) : Reads ε β := do
  visit node.line
  match node with
  | .alias line _ target =>
    withReader (fun s => { s with inAlias := true }) do
      visit line
      reads target
  | .loop content =>
    let scope ← read
    -- A loop that is met again on the way inside it has no end.
    if scope.followed.contains content.number then
      unreadable content.line s!"anchor '{content.name}' value contains itself"
    match scope.document.loops[content.number]? with
    | none => unreadable content.line s!"unknown anchor '{content.name}' referenced"
    | some target =>
      withReader
          (fun s => { s with inAlias := true, followed := content.number :: s.followed }) do
        visit content.line
        reads target
  | _ => reads node

/-! Scalars -/

/-- What a scalar stands for. -/
def valueOf (line : Nat) (s : Scalar) : Reads ε Value :=
  match s.value? with
  | some value => pure value
  | none => unreadable line s!"cannot decode {s.text}"

/-- Reads a scalar over what was there, which a null leaves. -/
def readScalar (what : String) (meaning? : Scalar → Value → Option σ) (current : σ) :
    Node → Reads ε σ :=
  follow fun
  | .scalar line s => do
    match ← valueOf line s with
    | .null => return current
    | value =>
      match meaning? s value with
      | some found => return found
      | none =>
        expected line what
        return current
  | node => do
    expected node.line what
    return current

/-- Reads a whole number. -/
def readInt (current : Int64) : Node → Reads ε Int64 :=
  readScalar "a whole number" (fun _ v => v.int64?) current

/-- Reads a natural number. -/
def readNat (current : UInt64) : Node → Reads ε UInt64 :=
  readScalar "a natural number" (fun _ v => v.uint64?) current

/-- Reads a number. -/
def readFloat (current : Float) : Node → Reads ε Float :=
  readScalar "a number" (fun _ v => v.float?) current

/-- Reads a truth value. -/
def readBool (current : Bool) : Node → Reads ε Bool :=
  readScalar "a truth value" (fun _ v => v.bool?) current

/-- Reads a text, for which any scalar will do. -/
def readText (current : String) : Node → Reads ε String :=
  readScalar "a text" (fun s v => some (s.textOf v)) current

/-! Mappings -/

/-- What two keys share when they are the same key. -/
def keyIdentity : Node → Nat × String
  | .scalar _ s => (0, s.text)
  | .list _ _ _ => (1, "")
  | .mapping _ _ _ => (2, "")
  | .alias _ name _ => (3, name)
  | .loop content => (3, content.name)

/-- Whether a mapping says a key twice. -/
def repeatsKey : List (Node × Node) → Bool
  | [] => false
  | (key, _) :: rest =>
    rest.any (fun e => keyIdentity e.1 == keyIdentity key) || repeatsKey rest

/-- Whether a key brings in the entries of other mappings. -/
def isMergeKey : Node → Bool
  | .scalar _ s => s.isMerge
  | _ => false

/-- Whether a node is a mapping or stands for one. -/
def isMapping : Node → Bool
  | .mapping _ _ _ => true
  | .alias _ _ (.mapping _ _ _) => true
  | .loop content => !content.isList
  | _ => false

/-- The text of a key; a null is no key. -/
def readKey : Node → Reads ε (Option String) :=
  readScalar "a text" (fun s v => some (some (s.textOf v))) none

/-- The texts among the keys of a mapping, which those it brings in do not replace. -/
def ownTexts (entries : List (Node × Node)) : Reads ε (List String) :=
  entries.foldlM (fun found entry => do
    let text? ← follow (fun
      | .scalar line s => do
        match ← valueOf line s with
        | .text text => return some text
        | _ => return none
      | node => unreadable node.line "invalid map key") entry.1
    return text?.toList ++ found) []

/-- What becomes of the entries of a mapping. -/
structure Form (ε σ : Type) where
  /-- The names that mean something, each of which may be said once, or nothing if all do. -/
  names : Option (List String)
  /-- Reads an entry, which the mapping has itself or brings in. -/
  reads : (broughtIn : Bool) → σ → String → Node → Reads ε σ

/-- What was made of the entries of a mapping so far. -/
structure Filling (σ : Type) where
  value : σ
  /-- The names that entries which are brought in cannot have, once there are such entries. -/
  taken : Option (List String)
  /-- The names that were read. -/
  done : List String

/-- Reads an entry of a mapping. -/
def Form.readEntry (form : Form ε σ) (f : Filling σ) (entry : Node × Node) :
    Reads ε (Filling σ) := do
  if isMergeKey entry.1 then return f
  match ← readKey entry.1 with
  | none => return f
  | some name =>
    -- An entry of the mapping itself comes before one that is brought in.
    if (f.taken.getD []).contains name then return f
    let f := { f with taken := f.taken.map (name :: ·) }
    match form.names with
    | some names =>
      if !names.contains name then return f
      if f.done.contains name then
        expected entry.1.line "each name once"
        return f
    | none => pure ()
    return { f with
      value := ← form.reads f.taken.isSome f.value name entry.2
      done := name :: f.done }

/--
Reads the entries of a mapping, and after them those that it brings in.

With the value come the names that are taken, if the mapping is brought in itself.
-/
def Form.readEntries (form : Form ε σ) : Nat → σ × Option (List String) → Node →
    Reads ε (σ × Option (List String))
  | 0, start, _ => return start
  | fuel + 1, start, .mapping line _ entries => do
    if repeatsKey entries then
      expected line "each key once"
      return start
    let f ← entries.foldlM form.readEntry ⟨start.1, start.2, []⟩
    -- Of several marks that bring in entries the last one counts.
    match entries.reverse.find? (isMergeKey ·.1) with
    | none => return (f.value, f.taken)
    | some (_, source) =>
      let taken ←
        match f.taken with
        | some taken => pure taken
        | none => ownTexts entries
      let sources :=
        match source with
        | .list _ _ items => items
        | single => [single]
      let (value, taken) ← sources.foldlM (fun current node => do
        if !isMapping node then
          unreadable node.line "map merge requires map or sequence of maps as the value"
        follow (form.readEntries fuel current) node) (f.value, some taken)
      return (value, if f.taken.isSome then taken else none)
  | _, start, _ => return start

/-- Reads a mapping that is no alias over what was there, unless it is a null. -/
def Form.readHere? (form : Form ε σ) (current : σ) : Node → Reads ε (Option σ)
  | .scalar line s => do
    match ← valueOf line s with
    | .null => return none
    | _ =>
      expected line "a mapping"
      return some current
  | .mapping line tag entries => do
    let document := (← read).document
    -- A way through the document follows each loop once at most.
    let fuel := (document.loops.length + 1) * (document.depth + 1)
    return some (← form.readEntries fuel (current, none) (.mapping line tag entries)).1
  | node => do
    expected node.line "a mapping"
    return some current

/-- Reads a mapping over what was there, unless it is a null. -/
def Form.read? (form : Form ε σ) (current : σ) : Node → Reads ε (Option σ) :=
  follow (form.readHere? current)

/-- Reads a mapping over what was there, which a null leaves. -/
def Form.read (form : Form ε σ) (current : σ) (node : Node) : Reads ε σ := do
  return (← form.read? current node).getD current

/-! Documents -/

/-- Reads a text over what was there, which an empty one leaves. -/
def readDocument (reads : Node → Reads ε σ) (current : σ) (text : String) :
    Except (Refusal ε) σ := do
  match ← (Document.ofText text).mapError (fun problem => .document problem.message) with
  | none => return current
  | some document =>
    -- The document counts as a node as well.
    let (value, p) ← (reads document.root).run ⟨document, false, []⟩ |>.run ⟨[], 1, 0⟩
    if p.mismatches.isEmpty then return value
    else throw (.document (mismatchText p.mismatches))

end Tangent.Yaml
