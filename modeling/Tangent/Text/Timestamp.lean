/-! The shapes of dates and times. -/

namespace Tangent.Timestamp

/-- Two digits in front, as a number. -/
def twoDigits? : List Char → Option (Nat × List Char)
  | a :: b :: rest =>
    if a.isDigit && b.isDigit then some ((a.toNat - 48) * 10 + (b.toNat - 48), rest) else none
  | _ => none

/-- One or two digits in front, as a number. -/
def shortDigits? : List Char → Option (Nat × List Char)
  | a :: rest =>
    if !a.isDigit then none
    else match twoDigits? (a :: rest) with
      | some found => some found
      | none => some (a.toNat - 48, rest)
  | [] => none

/-- What follows an expected character. -/
def after? (c : Char) : List Char → Option (List Char)
  | d :: rest => if d == c then some rest else none
  | [] => none

/-- Whether a year has a leap day. -/
def isLeap (year : Nat) : Bool := year % 4 == 0 && (year % 100 != 0 || year % 400 == 0)

/-- The number of days of a month. -/
def daysIn (year month : Nat) : Nat :=
  if month == 2 then (if isLeap year then 29 else 28)
  else if month == 4 || month == 6 || month == 9 || month == 11 then 30
  else 31

/-- A fraction of a second in front is passed over. -/
def skipFraction : List Char → List Char
  | mark :: digit :: rest =>
    if (mark == '.' || mark == ',') && digit.isDigit then rest.dropWhile Char.isDigit
    else mark :: digit :: rest
  | cs => cs

/-- Accepts an offset from universal time and nothing after it. -/
def zone? (cs : List Char) : Option Unit := do
  match cs with
  | ['Z'] => return ()
  | sign :: rest =>
    let (hours, rest) ← twoDigits? rest
    let rest ← after? ':' rest
    let (minutes, rest) ← twoDigits? rest
    if (sign == '+' || sign == '-') && hours ≤ 24 && minutes ≤ 60 && rest.isEmpty then return ()
    else none
  | [] => none

/-- Whether numbers are a day of the calendar. -/
def isDay (year month day : Nat) : Bool :=
  1 ≤ month && month ≤ 12 && 1 ≤ day && day ≤ daysIn year month

/-- Whether numbers are a time of the day. -/
def isTime (hour minute second : Nat) : Bool := hour < 24 && minute < 60 && second < 60

/-- A year in front, which has four digits. -/
def year? (cs : List Char) : Option (Nat × List Char) := do
  let (century, rest) ← twoDigits? cs
  let (years, rest) ← twoDigits? rest
  return (100 * century + years, rest)

/-- Accepts a date and a time with an offset, such as `2025-01-02T03:04:05Z`. -/
def check? (cs : List Char) : Option Unit := do
  let (year, rest) ← year? cs
  let (month, rest) ← twoDigits? (← after? '-' rest)
  let (day, rest) ← twoDigits? (← after? '-' rest)
  let (hour, rest) ← shortDigits? (← after? 'T' rest)
  let (minute, rest) ← twoDigits? (← after? ':' rest)
  let (second, rest) ← twoDigits? (← after? ':' rest)
  zone? (skipFraction rest)
  if isDay year month day && isTime hour minute second then return () else none

/-- A time in front whose numbers may be short, and what follows its fraction. -/
def looseTime? (cs : List Char) : Option (List Char) := do
  let (hour, rest) ← shortDigits? cs
  let (minute, rest) ← shortDigits? (← after? ':' rest)
  let (second, rest) ← shortDigits? (← after? ':' rest)
  if isTime hour minute second then return skipFraction rest else none

/--
Accepts a date whose numbers may be short, alone or with a time.

After a letter the time has an offset, after spaces it has none.
-/
def looseCheck? (cs : List Char) : Option Unit := do
  let (year, rest) ← year? cs
  let (month, rest) ← shortDigits? (← after? '-' rest)
  let (day, rest) ← shortDigits? (← after? '-' rest)
  if !isDay year month day then none
  match rest with
  | [] => return ()
  | mark :: rest =>
    if mark == 'T' || mark == 't' then zone? (← looseTime? rest)
    else if mark == ' ' && (← looseTime? (rest.dropWhile (· == ' '))).isEmpty then return ()
    else none

end Tangent.Timestamp
