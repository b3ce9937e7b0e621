import Tangent.Decimal.Layout
import Tangent.Decimal.Whole
import Tangent.File.Bytes
import Tangent.Json.Value
import Tangent.Json.Write
import Tangent.Text.Timestamp

/-! The header of a saved program, a JSON object. -/

namespace Tangent

/-- What a header says about a program. -/
structure Header (α : Type) where
  paths : Int64
  vars? : Option (List String)
  seeds? : Option (List α)
  source : String
  peak : Int64

namespace Header

variable {α : Type}

/-- The header that nothing was read into. -/
def blank : Header α := ⟨0, none, none, "", 0⟩

/-- The version of the tool that a header names. -/
def toolVersion : String := "0.1.0"

/-- A time at which a program is saved, if that is known, is one that is read back. -/
def ValidStamp (stamp : Option String) : Prop :=
  ∀ s ∈ stamp, Timestamp.check? s.toList = some ()

/-- A time that is not known. -/
theorem validStamp_none : ValidStamp none := by
  intro s given
  cases given

/-- The member that says when a program was saved, if that is known. -/
def stampMember : Option String → String
  | some stamp => "\"created_at\":" ++ Json.writeString stamp ++ ","
  | none => ""

/-- The member that holds the source, left out when there is none. -/
def sourceMember (source : String) : String :=
  if source == "" then "" else "\"source\":" ++ Json.writeString source ++ ","

/-- The text of a header. A seed that is no number cannot be written. -/
def write? [Stored α] (stamp : Option String) (h : Header α) : Option String :=
  if ((h.seeds?.getD []).all Binary64.finite) then
    some ("\x7b\"format_version\":1,\"autoexpr_version\":" ++ Json.writeString toolVersion ++ "," ++
      stampMember stamp ++
      s!"\"paths\":{h.paths}," ++
      "\"vars\":" ++ Json.writeArray? (h.vars?.map (·.map Json.writeString)) ++ "," ++
      "\"seeds\":" ++ Json.writeArray? (h.seeds?.map (·.map Decimal.headerNumber)) ++ "," ++
      sourceMember h.source ++
      s!"\"peak_temp_elements\":{h.peak}" ++ "\x7d")
  else none

/-- A letter as it counts when names are compared: upper case, long s and Kelvin as s and k. -/
def foldChar (c : Char) : Char :=
  if c.toNat == 0x17f then 'S' else if c.toNat == 0x212a then 'K' else c.toUpper

/-- Whether two member names are the same but for case. -/
def sameName (a b : String) : Bool := a.toList.map foldChar == b.toList.map foldChar

/-- A machine integer, written without a point and an exponent. -/
def int? (current : Int64) : Json → Option Int64
  | .null => some current
  | .number literal =>
    let (negative, digits) := Decimal.takeSign literal
    -- A point or an exponent makes a number no integer, whatever its value.
    if !digits.all Char.isDigit then none
    else (Decimal.withSign negative (Decimal.natOfDigits digits)).toOption.map Int64.ofInt
  | _ => none

/-- A number as it was written. -/
def literal (text : List Char) : Decimal.Literal :=
  let (negative, rest) := Decimal.takeSign text
  let (whole, rest) := Decimal.takeDigits rest
  let (fraction, rest) := match rest with
    | '.' :: rest => Decimal.takeDigits rest
    | rest => ([], rest)
  ⟨negative, whole, fraction, (Decimal.takeExponent rest).1⟩

/-- A double that is not too large. -/
def float? [Stored α] (current : α) : Json → Option α
  | .null => some current
  | .number text =>
    let value : α := (literal text).toFloat
    if Binary64.finite value then some value else none
  | _ => none

/-- A text. -/
def string? (current : String) : Json → Option String
  | .null => some current
  | .string raw => some (Json.text raw)
  | _ => none

/-- Items of a list, each over the item that stood at its place before. -/
def items? {ν : Type} (item? : ν → Json → Option ν) (blank : ν) (current : List ν) :
    List Json → Option (List ν)
  | [] => some []
  | json :: rest => do
    let item ← item? (current.headD blank) json
    return item :: (← items? item? blank current.tail rest)

/-- A list that may be absent, and what a longer one left in the places after it. -/
structure Places (ν : Type) where
  items? : Option (List ν)
  left : List ν

/-- Reads a list over what was in its places before; an empty list leaves nothing behind. -/
def Places.read? {ν : Type} (item? : ν → Json → Option ν) (blank : ν) (current : Places ν) :
    Json → Option (Places ν)
  | .null => some ⟨none, []⟩
  | .array [] => some ⟨some [], []⟩
  | .array items => do
    let before := current.items?.getD [] ++ current.left
    let found ← Header.items? item? blank before items
    return ⟨some found, before.drop found.length⟩
  | _ => none

/-- A date and time, or nothing. The text counts, so its characters may be written as escapes. -/
def stamp? : Json → Option Unit
  | .null => some ()
  | .string raw => Timestamp.check? (Json.text raw).toList
  | _ => none

/-- A header that members are being read into. -/
structure Reading (α : Type) where
  header : Header α
  vars : Places String
  seeds : Places α

/-- Reads one member over what was read before. Unknown members say nothing. -/
def Reading.member? [Stored α] (r : Reading α) (member : String × Json) : Option (Reading α) :=
  let (name, json) := member
  let h := r.header
  if sameName name "paths" then
    (int? h.paths json).map fun paths => { r with header := { h with paths } }
  else if sameName name "vars" then
    (r.vars.read? string? "" json).map fun vars => { r with vars }
  else if sameName name "seeds" then
    (r.seeds.read? float? (Stored.ofBits 0) json).map fun seeds => { r with seeds }
  else if sameName name "source" then
    (string? h.source json).map fun source => { r with header := { h with source } }
  else if sameName name "peak_temp_elements" then
    (int? h.peak json).map fun peak => { r with header := { h with peak } }
  else if sameName name "format_version" then (int? 0 json).map (fun _ => r)
  else if sameName name "autoexpr_version" then (string? "" json).map (fun _ => r)
  else if sameName name "created_at" then (stamp? json).map (fun _ => r)
  else some r

/-- The header that a text holds. -/
def read? [Stored α] (bytes : Bytes) : Option (Header α) := do
  match ← Json.parse? (charsOf bytes) with
  | .null => return blank
  | .object members =>
    let r ← members.foldlM Reading.member? ⟨blank, ⟨none, []⟩, ⟨none, []⟩⟩
    return { r.header with vars? := r.vars.items?, seeds? := r.seeds.items? }
  | _ => none

end Header

end Tangent
