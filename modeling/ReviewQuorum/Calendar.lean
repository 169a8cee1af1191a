/-! # The civil calendar

Days of the proleptic Gregorian calendar are counted from the first of January 1970. Years are
shifted to start in March, so that a leap day is the last day of its year, and grouped into eras of
400 years, which all have the same number of days. `Date.toDays` counts and `Date.ofDays` finds the
date of a count. -/

namespace ReviewQuorum

/-- A date of the civil calendar. -/
structure Date where
  year : Int
  month : Nat
  day : Nat
deriving DecidableEq

namespace Date

/-- Whether a year has a leap day. -/
def isLeapYear (year : Int) : Bool := year % 4 == 0 && (year % 100 != 0 || year % 400 == 0)

/-- The days of a month. -/
def daysInMonth (year : Int) (month : Nat) : Nat :=
  if month = 2 then (if isLeapYear year then 29 else 28)
  else if month = 4 ∨ month = 6 ∨ month = 9 ∨ month = 11 then 30
  else 31

/-- Whether the parts make a date. -/
def isValid (d : Date) : Bool :=
  1 ≤ d.month && d.month ≤ 12 && 1 ≤ d.day && d.day ≤ daysInMonth d.year d.month

/-- The days of an era of 400 years. -/
def daysPerEra : Nat := 146097

/-- The days from the start of the era of the year zero to the first of January 1970. -/
def epochOffset : Nat := 719468

/-- The day of a year that starts in March, from its month and the day in it. -/
def dayOfYear (month day : Nat) : Nat := (153 * ((month + 9) % 12) + 2) / 5 + day - 1

/-- The day of an era, from the year in it and the day of that year. -/
def dayOfEra (yearOfEra dayOfYear : Nat) : Nat :=
  365 * yearOfEra + yearOfEra / 4 - yearOfEra / 100 + dayOfYear

/-- The number of days from the first of January 1970. -/
def toDays (d : Date) : Int :=
  let year := if d.month ≤ 2 then d.year - 1 else d.year
  let era := year / 400
  let yearOfEra := (year % 400).toNat
  era * daysPerEra + dayOfEra yearOfEra (dayOfYear d.month d.day) - epochOffset

/-- The date a number of days after the first of January 1970. -/
def ofDays (days : Int) : Date :=
  let shifted := days + epochOffset
  let era := shifted / daysPerEra
  let doe := (shifted % daysPerEra).toNat
  let yearOfEra := (doe - doe / 1460 + doe / 36524 - doe / 146096) / 365
  let doy := doe - (365 * yearOfEra + yearOfEra / 4 - yearOfEra / 100)
  let shiftedMonth := (5 * doy + 2) / 153
  let month := if shiftedMonth < 10 then shiftedMonth + 3 else shiftedMonth - 9
  let year := era * 400 + yearOfEra
  ⟨if month ≤ 2 then year + 1 else year, month, doy - (153 * shiftedMonth + 2) / 5 + 1⟩

end Date

end ReviewQuorum
