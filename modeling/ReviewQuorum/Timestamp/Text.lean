import ReviewQuorum.Calendar
import ReviewQuorum.Moment
import ReviewQuorum.Text.Blank
import ReviewQuorum.Text.Decimal

/-! # The text of an instant

Instants are written in the form of RFC 3339 in UTC: `2024-01-01T00:00:00Z`, with no fraction of a
second or with three, six or nine digits of one, the fewest that are exact. A leap second is written
as second 60. A year outside of `0000` to `9999` has a sign.

Reading is more liberal. Any offset is accepted, a letter may be small, numbers may have fewer
digits, blanks may stand around them, a blank may stand in for `T`, the fraction may have any number
of digits, of which nine count, and `UTC` may stand in for `Z`. -/

namespace ReviewQuorum.Timestamp

/-! ### Writing -/

/-- The year of a date as it is written. -/
def yearText (year : Int) : List Char :=
  if 0 ≤ year ∧ year ≤ 9999 then Decimal.padded 4 year.toNat
  else (if year < 0 then '-' else '+') :: Decimal.padded 4 year.natAbs

/-- The fraction of a second as it is written. -/
def fractionText (nanos : Nat) : List Char :=
  if nanos = 0 then []
  else if nanos % 1000000 = 0 then '.' :: Decimal.padded 3 (nanos / 1000000)
  else if nanos % 1000 = 0 then '.' :: Decimal.padded 6 (nanos / 1000)
  else '.' :: Decimal.padded 9 nanos

/-- The seconds of a day. -/
def secondsPerDay : Nat := 86400

/-- The characters of an instant. -/
def chars (t : Timestamp) : List Char :=
  let date := Date.ofDays (t.second / secondsPerDay)
  let time := (t.second % secondsPerDay).toNat
  let leap := t.nanos / nanosPerSecond
  yearText date.year ++ '-' :: Decimal.padded 2 date.month ++ '-' :: Decimal.padded 2 date.day ++
    'T' :: Decimal.padded 2 (time / 3600) ++ ':' :: Decimal.padded 2 (time / 60 % 60) ++
    ':' :: Decimal.padded 2 (time % 60 + leap) ++ fractionText (t.nanos % nanosPerSecond) ++ ['Z']

/-- The text of an instant. -/
def toText (t : Timestamp) : String := String.ofList t.chars

/-! ### Reading -/

/-- Reads a number of one digit at least and of `most` digits at most. -/
def number? (most : Nat) (cs : List Char) : Option (Nat × List Char) :=
  let ds := (cs.take most).takeWhile Char.isDigit
  if ds.isEmpty then none else some (ds.foldl Decimal.pushDigit 0, cs.drop ds.length)

/-- Reads a number between bounds, with blanks before it. -/
def field? (least largest : Nat) (cs : List Char) : Option (Nat × List Char) := do
  let (n, rest) ← number? 2 (Text.trimLeft cs)
  if least ≤ n ∧ n ≤ largest then some (n, rest) else none

/-- Reads a character, with blanks before it. -/
def separator? (c : Char) (cs : List Char) : Option (List Char) :=
  Text.dropPrefix? [c] (Text.trimLeft cs)

/-- The years of instants. -/
def yearInRange (year : Int) : Bool := -262143 ≤ year && year ≤ 262142

/-- Reads a year: four digits at most, or a sign and any number of digits. -/
def year? (cs : List Char) : Option (Int × List Char) :=
  match Text.trimLeft cs with
  | '-' :: rest => (number? rest.length rest).map fun (n, rest) => (-(n : Int), rest)
  | '+' :: rest => (number? rest.length rest).map fun (n, rest) => ((n : Int), rest)
  | rest => (number? 4 rest).map fun (n, rest) => ((n : Int), rest)

/-- Reads a date. -/
def date? (cs : List Char) : Option (Date × List Char) := do
  let (year, cs) ← year? cs
  let (month, cs) ← field? 1 12 (← separator? '-' cs)
  let (day, cs) ← field? 1 31 (← separator? '-' cs)
  let date : Date := ⟨year, month, day⟩
  if yearInRange year ∧ date.isValid then some (date, cs) else none

/-- Reads the nanoseconds of a fraction, if there is one. Digits after the ninth do not count. -/
def fraction? : List Char → Option (Nat × List Char)
  | '.' :: cs => do
    let (n, rest) ← number? 9 cs
    some (n * Nat.pow 10 (9 - (cs.length - rest.length)), rest.dropWhile Char.isDigit)
  | cs => some (0, cs)

/-- Reads a time of day, as its second and the nanoseconds in it. Second 60 is the leap second after
second 59. -/
def timeOfDay? (cs : List Char) : Option ((Nat × Nat) × List Char) := do
  let (hour, cs) ← field? 0 23 cs
  let (minute, cs) ← field? 0 59 (← separator? ':' cs)
  let (second, cs) ← field? 0 60 (← separator? ':' cs)
  let (nanos, cs) ← fraction? cs
  let leap := second / 60
  some ((hour * 3600 + minute * 60 + (second - leap), nanos + leap * nanosPerSecond), cs)

/-- Reads what a time offset ends with: two digits for the hours, then two for the minutes. -/
def offsetParts? : List Char → Option (Nat × List Char)
  | h₁ :: h₂ :: cs => do
    let hours := 10 * (← Decimal.digit? h₁) + (← Decimal.digit? h₂)
    match cs.dropWhile fun c => c == ':' || Text.isBlank c with
    | m₁ :: m₂ :: rest =>
      let tens ← Decimal.digit? m₁
      let minutes := 10 * tens + (← Decimal.digit? m₂)
      if tens < 6 ∧ hours < 24 then some (60 * hours + minutes, rest) else none
    | _ => none
  | _ => none

/-- Reads a time offset, in minutes. -/
def offset? : List Char → Option (Int × List Char)
  | 'Z' :: cs => some (0, cs)
  | 'z' :: cs => some (0, cs)
  | '+' :: cs => (offsetParts? cs).map fun (n, rest) => ((n : Int), rest)
  | '-' :: cs => (offsetParts? cs).map fun (n, rest) => (-(n : Int), rest)
  | '\u2212' :: cs => (offsetParts? cs).map fun (n, rest) => (-(n : Int), rest)
  | u :: t :: c :: cs =>
    if u.toUpper = 'U' ∧ t.toUpper = 'T' ∧ c.toUpper = 'C' then some (0, cs) else none
  | _ => none

/-- Reads an instant from characters. -/
def ofChars? (cs : List Char) : Option Timestamp := do
  let (date, cs) ← date? cs
  let cs ←
    match cs with
    | 'T' :: rest => some rest
    | 't' :: rest => some rest
    | ' ' :: rest => some rest
    | _ => none
  let ((second, nanos), cs) ← timeOfDay? cs
  let (offset, cs) ← offset? (Text.trimLeft cs)
  if !(Text.trimLeft cs).isEmpty then none
  else
    let utc := date.toDays * secondsPerDay + second - offset * 60
    if yearInRange (Date.ofDays (utc / secondsPerDay)).year then some (ofParts utc nanos) else none

/-- The instant that a text writes. -/
def ofText? (s : String) : Option Timestamp := ofChars? s.toList

end ReviewQuorum.Timestamp
