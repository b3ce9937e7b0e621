import Tangent.Decimal.Read
import Tangent.File.Bytes
import Tangent.Json.Value
import Tangent.Yaml.Cursor

/-! Names of anchors, tags, and the directives that say what tags stand for. -/

namespace Tangent.Yaml

open Pass

/-- Whether a character may occur in the name of an anchor. -/
def isNameChar (c : Char) : Bool := c.isAlphanum || c == '_' || c == '-'

/-- Whether something that is not part of a name may follow it. -/
def endsName : List Char → Bool
  | [] => true
  | c :: _ =>
    isSpace c || c == '?' || c == ':' || c == ',' || c == ']' || c == '}' || c == '%' ||
      c == '@' || c.toNat == 0x60

/-- Takes a name after the mark of an anchor or an alias. -/
def takeAnchor : Pass String := do
  skip
  let name ← takeWhile isNameChar
  if name.isEmpty || !endsName (← get).rest then stop .anchor
  return String.ofList name

/-! Tags -/

/-- A tag as it is written: a handle that stands for the start of its name, and the rest. -/
structure Tag where
  handle : String
  suffix : String
deriving DecidableEq, Repr

/-- Whether a character may occur in the name of a tag; a percent sign starts an escape. -/
def isTagChar (c : Char) : Bool := isNameChar c || ";/?:@&=+$,.!~*'()[]%".contains c

/-- How many bytes a character takes whose first byte is given. -/
def byteWidth? (byte : Nat) : Option Nat :=
  if byte < 0x80 then some 1
  else if byte < 0xc0 then none
  else if byte < 0xe0 then some 2
  else if byte < 0xf0 then some 3
  else if byte < 0xf8 then some 4
  else none

/-- Takes a byte that is written as a percent sign and two digits. -/
def takeByte : Pass Nat := do
  need 3
  match (← get).rest with
  | '%' :: a :: b :: _ =>
    match Json.hexNumber? [a, b] with
    | some byte =>
      skipMany 3
      return byte
    | none => stop .tag
  | _ => stop .tag

/-- Takes the bytes of a character after its first one. -/
def takeBytes : Nat → Pass (List Nat)
  | 0 => return []
  | count + 1 => do
    let byte ← takeByte
    if byte < 0x80 || 0xc0 ≤ byte then stop .tag
    return byte :: (← takeBytes count)

/-- Takes a character that is written as its bytes. -/
def takeEscaped : Pass (List Char) := do
  let first ← takeByte
  match byteWidth? first with
  | none => stop .tag
  | some width =>
    let others ← takeBytes (width - 1)
    return charsOf ((first :: others).map UInt8.ofNat)

/-- Takes the characters of the name of a tag. -/
def takeTagChars : Nat → Pass (List Char)
  | 0 => return []
  | fuel + 1 => do
    need 1
    match (← get).head? with
    | none => return []
    | some c =>
      if c == '%' then
        let meant ← takeEscaped
        return meant ++ (← takeTagChars fuel)
      else if isTagChar c then
        skip
        return c :: (← takeTagChars fuel)
      else return []

/-- Takes the name of a tag. -/
def takeTagName : Pass String := do return String.ofList (← takeTagChars (← Pass.fuel))

/-- Takes a mark, a name, and a second mark if there is one. -/
def takeHandle : Pass String := do
  need 1
  if (← get).head? != some '!' then stop .tag
  skip
  let name ← takeWhile isNameChar
  if (← get).head? == some '!' then
    skip
    return String.ofList ('!' :: name ++ ['!'])
  else return String.ofList ('!' :: name)

/-- Whether a handle has a mark at both ends. -/
def isNamedHandle (handle : String) : Bool := 2 ≤ handle.length && handle.endsWith "!"

/-- Takes a tag that is written out between angle brackets. -/
def takeWholeTag : Pass Tag := do
  skipMany 2
  let name ← takeTagName
  if name.isEmpty || (← get).head? != some '>' then stop .tag
  skip
  return ⟨"", name⟩

/-- Takes a tag with a handle; what looks like one may turn out to be part of the name. -/
def takeShortTag : Pass Tag := do
  let handle ← takeHandle
  let name ← takeTagName
  if isNamedHandle handle then
    if name.isEmpty then stop .tag
    return ⟨handle, name⟩
  else
    let suffix := (handle.drop 1).toString ++ name
    return if suffix.isEmpty then ⟨"", "!"⟩ else ⟨"!", suffix⟩

/-- Takes a tag, whose mark is in front. -/
def takeTag : Pass Tag := do
  need 2
  let tag ← if (← get).rest[1]? == some '<' then takeWholeTag else takeShortTag
  need 1
  if !endsWord (← get).rest then stop .tag
  return tag

/-! Directives -/

/-- What a directive says. -/
inductive Directive where
  | version (major minor : Nat)
  /-- What a handle stands for. -/
  | handle (name home : String)
deriving DecidableEq, Repr

/-- Takes a number of at most two digits. -/
def takeVersionNumber : Pass Nat := do
  let digits ← takeWhile Char.isDigit
  if digits.isEmpty || 2 < digits.length then stop .directive
  return Decimal.natOfDigits digits

/-- Takes a version. -/
def takeVersion : Pass Directive := do
  skipWhile isBlank
  let major ← takeVersionNumber
  if (← get).head? != some '.' then stop .directive
  skip
  return .version major (← takeVersionNumber)

/-- Takes a handle and what it stands for. -/
def takeHandleHome : Pass Directive := do
  skipWhile isBlank
  let handle ← takeHandle
  if handle != "!" && !isNamedHandle handle then stop .directive
  need 1
  if !(← get).heads isBlank then stop .directive
  skipWhile isBlank
  let home ← takeTagName
  if home.isEmpty then stop .directive
  need 1
  if !endsWord (← get).rest then stop .directive
  return .handle handle home

/-- Takes a directive with the rest of its line. -/
def takeDirective : Pass Directive := do
  skip
  let name ← takeWhile isNameChar
  if !endsWord (← get).rest then stop .directive
  let directive ←
    if name == "YAML".toList then takeVersion
    else if name == "TAG".toList then takeHandleHome
    else stop .directive
  skipWhile isBlank
  if (← get).head? == some '#' then skipWhile (fun c => !isBreak c)
  if !(← get).atLineEnd then stop .directive
  if (← get).heads isBreak then
    need 2
    let _ ← takeBreak
  return directive

end Tangent.Yaml
