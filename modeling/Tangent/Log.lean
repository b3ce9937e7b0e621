import Tangent.Decimal.Whole
import Tangent.Text.Quoted

/-! Log records: how much they matter and how they are written on a line. -/

namespace Tangent

/-- Why a text is no log level. -/
inductive LevelError where
  | unknownName (text : String)
  | badOffset (text offset : String) (fault : Decimal.WholeFault)
deriving DecidableEq, Repr

/-- The message of a level error. -/
def LevelError.message : LevelError → String
  | .unknownName text => s!"slog: level string {Text.quote text}: unknown name"
  | .badOffset text offset fault =>
    s!"slog: level string {Text.quote text}: strconv.Atoi: parsing {Text.quote offset}: " ++
      fault.message

/-- How much a record matters; more is more. -/
abbrev Level := Int64

namespace Level

/-- For those who look for a fault. -/
def debug : Level := -4

/-- For everyone. -/
def info : Level := 0

/-- Something is not as it may have been meant. -/
def warn : Level := 4

/-- Something failed. -/
def error : Level := 8

/-- The levels that have names. -/
def named : List (String × Level) :=
  [("DEBUG", debug), ("INFO", info), ("WARN", warn), ("ERROR", error)]

/-- A capital letter; the dotless i has the same one as the dotted. -/
def capital (c : Char) : Char := if c == '\u0131' then 'I' else c.toUpper

/-- The level of a name in any case, with an offset after its sign if there is one. -/
def ofText (text : String) : Except LevelError Level := do
  let isSign (c : Char) : Bool := c == '+' || c == '-'
  let name := text.toList.takeWhile (fun c => !isSign c)
  let rest := text.toList.dropWhile (fun c => !isSign c)
  let offset ←
    if rest.isEmpty then pure 0
    else
      match Decimal.readSigned rest with
      | .ok n => pure n
      | .error fault => throw (.badOffset text (String.ofList rest) fault)
  match named.lookup (String.ofList (name.map capital)) with
  | some level => return level + Int64.ofInt offset
  | none => throw (.unknownName text)

/-- The name of a level that has one. -/
def name (level : Level) : String :=
  ((named.find? (fun entry => entry.2 == level)).map (·.1)).getD ""

end Level

/-- Something to be told, with named details. -/
structure LogRecord where
  level : Level
  message : String
  details : List (String × String)

namespace LogRecord

/-- Whether a value would be hard to tell from what is around it. -/
def needsQuotes (value : String) : Bool :=
  value.isEmpty ||
    value.toList.any fun c =>
      if c.toNat < 0x80 then c.toNat < 0x20 || c == ' ' || c == '=' || c == '"'
      else c == '\ufffd' || !Text.isPrintable c

/-- A value on a line. -/
def written (value : String) : String := if needsQuotes value then Text.quote value else value

/-- A record on a line. -/
def line (r : LogRecord) : String :=
  let details := [("level", r.level.name), ("msg", r.message)] ++ r.details
  " ".intercalate (details.map (fun (key, value) => key ++ "=" ++ written value))

end LogRecord

end Tangent
