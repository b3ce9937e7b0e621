import Tangent.Decimal.Whole
import Tangent.Text.Base64
import Tangent.Text.Timestamp
import Tangent.Yaml.Token

/-! What scalars stand for: nothing, truth values, numbers, times or text. -/

namespace Tangent.Yaml

/-- What a scalar stands for. -/
inductive Value where
  | null
  | bool (value : Bool)
  | int (value : Int)
  | float (value : Float)
  | time (written : String)
  | text (value : String)

namespace Value

/-- The tag of a value, when it is written out. -/
def tag : Value → String
  | .null => "!!null"
  | .bool _ => "!!bool"
  | .int _ => "!!int"
  | .float _ => "!!float"
  | .time _ => "!!timestamp"
  | .text _ => "!!str"

/-- The words that stand for something else than themselves. -/
def words : List (String × Value) :=
  [("", .null), ("~", .null), ("null", .null), ("Null", .null), ("NULL", .null),
    ("true", .bool true), ("True", .bool true), ("TRUE", .bool true),
    ("false", .bool false), ("False", .bool false), ("FALSE", .bool false),
    (".nan", .float (0.0 / 0.0)), (".NaN", .float (0.0 / 0.0)), (".NAN", .float (0.0 / 0.0)),
    (".inf", .float (1.0 / 0.0)), (".Inf", .float (1.0 / 0.0)), (".INF", .float (1.0 / 0.0)),
    ("+.inf", .float (1.0 / 0.0)), ("+.Inf", .float (1.0 / 0.0)), ("+.INF", .float (1.0 / 0.0)),
    ("-.inf", .float (-1.0 / 0.0)), ("-.Inf", .float (-1.0 / 0.0)),
    ("-.INF", .float (-1.0 / 0.0))]

/-- Whether a number fits in a signed word. -/
def fits (n : Int) : Bool := (Decimal.withSign (n < 0) n.natAbs).toOption.isSome

/-- A whole number with a sign and a mark of its base in front. -/
def integer? (cs : List Char) : Option Int :=
  (Decimal.readInteger cs).toOption.or ((Decimal.readNatural cs).toOption.map Int.ofNat)

/-- A whole number with a sign after the mark of its base. -/
def markedInteger? (mark : Char) (base : Nat) : List Char → Option Int
  | '0' :: m :: cs => do
    if m != mark then none
    let (negative, digits) := Decimal.takeSign cs
    if digits.isEmpty then none
    let magnitude ← (Decimal.readDigits base Decimal.maxWord false 0 digits).toOption
    (Decimal.withSign negative magnitude).toOption
  | _ => none

/-- A decimal number that a double can hold. -/
def decimal? (cs : List Char) : Option Float :=
  let (negative, unsigned) := Decimal.takeSign cs
  let (whole, rest) := Decimal.takeDigits unsigned
  let (fraction, rest) :=
    match rest with
    | '.' :: rest => Decimal.takeDigits rest
    | rest => ([], rest)
  let (exponent, rest) := Decimal.takeExponent rest
  let x := (⟨negative, whole, fraction, exponent⟩ : Decimal.Literal).toFloat
  if (whole.isEmpty && fraction.isEmpty) || !rest.isEmpty || !Binary64.finite x then none
  else some x

/-- Whether every underscore stands between two digits. -/
def separates : List Char → Bool
  | a :: '_' :: b :: cs => a.isDigit && b.isDigit && separates (b :: cs)
  | [_, '_'] => false
  | _ :: cs => separates cs
  | [] => true

/-- A number that starts with a digit or a sign; underscores do not count. -/
def number? (cs : List Char) : Option Value :=
  let plain := cs.filter (· != '_')
  ((integer? plain).map .int).or <|
    ((decimal? plain).map .float).or <|
      ((markedInteger? 'b' 2 plain).map .int).or ((markedInteger? 'o' 8 plain).map .int)

/-- What a plain scalar stands for. -/
def ofPlain (text : String) : Value :=
  match words.lookup text with
  | some value => value
  | none =>
    let found : Option Value :=
      match text.toList with
      | [] => none
      | c :: cs =>
        if c == '.' then
          if separates (c :: cs) then (decimal? ((c :: cs).filter (· != '_'))).map .float
          else none
        else if (Timestamp.looseCheck? (c :: cs)).isSome then some (.time text)
        else if c.isDigit || c == '+' || c == '-' then number? (c :: cs)
        else none
    found.getD (.text text)

/-- The number of a value. -/
def float? : Value → Option Float
  | .int n => some (Binary64.nearest (n < 0) n.natAbs 1)
  | .float x => some x
  | _ => none

/-- Two to the power 63. -/
def twoTo63 : Float := 9223372036854775808.0

/-- A double without its fraction; one too large in size gives the least whole number. -/
def truncate (x : Float) : Int64 :=
  if x < twoTo63 then x.toInt64 else Int64.minValue

/-- The whole number of a value, a fraction dropped. -/
def int64? : Value → Option Int64
  | .int n => if fits n then some (Int64.ofInt n) else none
  | .float x => if x ≤ twoTo63 then some (truncate x) else none
  | _ => none

/-- The natural number of a value, a fraction dropped; a negative double wraps around. -/
def uint64? : Value → Option UInt64
  | .int n => if 0 ≤ n then some (UInt64.ofNat n.toNat) else none
  | .float x =>
    if x < twoTo63 then some (truncate x).toUInt64
    else if x ≤ 2.0 * twoTo63 then some ((truncate (x - twoTo63)).toUInt64 ^^^ 0x8000000000000000)
    else none
  | _ => none

/-- The truth of a value, which older words may stand for as well. -/
def bool? : Value → Option Bool
  | .bool b => some b
  | .text s =>
    if ["y", "Y", "yes", "on"].contains s then some true
    else if ["n", "N", "no", "off"].contains s then some false
    else none
  | _ => none

end Value

namespace Scalar

/-- Whether a scalar is text whatever it looks like. -/
def isText (s : Scalar) : Bool := s.tag == some "!!str" || (s.tag.isNone && s.quoted)

/-- Whether a scalar as a key brings in the entries of another mapping. -/
def isMerge (s : Scalar) : Bool :=
  s.text == "<<" && ((s.tag.isNone && !s.quoted) || s.tag == some "!!merge")

/-- Whether a scalar is taken for nothing, as its tag says or its text. -/
def isNull (s : Scalar) : Bool :=
  if s.isText then false
  else
    match s.tag with
    | some tag => tag == Value.null.tag
    | none =>
      match Value.ofPlain s.text with
      | .null => true
      | _ => false

/-- The tag of bytes that are written as letters. -/
def bytesTag : String := "!!binary"

/-- The tags that say what the text of a scalar has to stand for. -/
def checkedTags : List String :=
  ["!!null", "!!bool", "!!int", "!!float", "!!timestamp"]

/-- What a scalar stands for, unless its tag says otherwise; a tag of another kind says nothing. -/
def value? (s : Scalar) : Option Value :=
  if s.isText then some (.text s.text)
  else
    let plain := Value.ofPlain s.text
    match s.tag with
    | none => some plain
    | some tag =>
      if tag == bytesTag then
        (Base64.decode? s.text).map (fun bytes => .text (String.ofList (charsOf bytes)))
      else if !checkedTags.contains tag then some (.text s.text)
      else if tag == plain.tag then some plain
      else
        match plain with
        | .int n =>
          if tag == "!!float" && Value.fits n then (Value.float? (.int n)).map .float
          else none
        | _ => none

/-- The text of a scalar that stands for a value, which is the text it was written as if need be. -/
def textOf (s : Scalar) : Value → String
  | .text text => text
  | _ => s.text

end Scalar

end Tangent.Yaml
