import Tangent.Text.Quoted

/-! The written form of JSON strings and lists. -/

namespace Tangent.Json

/-- The characters that are written as an escape although JSON would not need it. -/
def isGuarded (c : Char) : Bool :=
  c == '<' || c == '>' || c == '&' || c.toNat == 0x2028 || c.toNat == 0x2029

/-- One character of a string. -/
def writeChar (c : Char) : String :=
  if c == '"' || c == '\\' then String.ofList ['\\', c]
  else if c == '\n' then "\\n"
  else if c == '\r' then "\\r"
  else if c == '\t' then "\\t"
  else if c.toNat == 8 then "\\b"
  else if c.toNat == 12 then "\\f"
  else if c.toNat < 0x20 || isGuarded c then "\\u" ++ Text.hexPadded 4 c.toNat
  else String.singleton c

/-- A string between quotes. -/
def writeString (s : String) : String :=
  "\"" ++ String.join (s.toList.map writeChar) ++ "\""

/-- Written items as an array, and nothing as null. -/
def writeArray? (items : Option (List String)) : String :=
  match items with
  | some items => "[" ++ ",".intercalate items ++ "]"
  | none => "null"

end Tangent.Json
