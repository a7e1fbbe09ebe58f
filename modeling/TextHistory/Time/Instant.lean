import TextHistory.Text.Numeral

/-!
# Instants

A moment in universal time, given by its calendar fields in the proleptic Gregorian calendar. The
nanoseconds of a leap second start at `10 ^ 9`, on top of second 59, so that its text shows
second 60. Years may lie far outside the four-digit ones; such a year is written with a sign.
-/

set_option autoImplicit false

namespace TextHistory

/-- A moment in universal time. -/
structure Instant where
  year : Int
  month : Nat
  day : Nat
  hour : Nat
  minute : Nat
  second : Nat
  nano : Nat
  deriving DecidableEq, Repr

namespace Instant

/-! ## The calendar -/

/-- A year with a 29th of February. -/
def isLeap (year : Int) : Bool := year % 4 == 0 && (year % 100 != 0 || year % 400 == 0)

/-- The number of days in a month. -/
def daysIn (year : Int) (month : Nat) : Nat :=
  if month = 2 then (if isLeap year then 29 else 28)
  else if month = 4 ∨ month = 6 ∨ month = 9 ∨ month = 11 then 30
  else 31

/-- The years that can be represented. -/
def minYear : Int := -262143
def maxYear : Int := 262142

/-- The fields name a day of the calendar. -/
def isDate (year : Int) (month day : Nat) : Bool :=
  minYear ≤ year && year ≤ maxYear && 1 ≤ month && month ≤ 12 && 1 ≤ day && day ≤ daysIn year month

/-- The same time on the next day. -/
def nextDay (t : Instant) : Instant :=
  if t.day < daysIn t.year t.month then { t with day := t.day + 1 }
  else if t.month < 12 then { t with month := t.month + 1, day := 1 }
  else { t with year := t.year + 1, month := 1, day := 1 }

/-- The same time on the day before. -/
def previousDay (t : Instant) : Instant :=
  if 1 < t.day then { t with day := t.day - 1 }
  else if 1 < t.month then { t with month := t.month - 1, day := daysIn t.year (t.month - 1) }
  else { t with year := t.year - 1, month := 12, day := 31 }

/-- The instant that a clock `offset` minutes ahead of universal time shows as `t`. -/
def ofLocal (t : Instant) (offset : Int) : Instant :=
  let minutes : Int := t.hour * 60 + t.minute - offset
  let t := if minutes < 0 then t.previousDay else if 1440 ≤ minutes then t.nextDay else t
  let m := (minutes % 1440).toNat
  { t with hour := m / 60, minute := m % 60 }

/-! ## Writing -/

/-- A number with leading zeros up to a width. -/
def padded (width n : Nat) : Text :=
  let digits := Numeral.print n
  List.replicate (width - digits.length) '0' ++ digits

/-- A year: four digits, or a sign and at least four digits. -/
def printYear (year : Int) : Text :=
  if 0 ≤ year ∧ year ≤ 9999 then padded 4 year.toNat
  else (if year < 0 then '-' else '+') :: padded 4 year.natAbs

/-- A fraction of a second in as many groups of three digits as it needs. -/
def printFraction (nano : Nat) : Text :=
  if nano = 0 then []
  else if nano % 1000000 = 0 then '.' :: padded 3 (nano / 1000000)
  else if nano % 1000 = 0 then '.' :: padded 6 (nano / 1000)
  else '.' :: padded 9 nano

/-- The time of day, where a leap second shows as second 60. -/
def printTime (t : Instant) : Text :=
  let leap := 1000000000 ≤ t.nano
  let second := if leap then t.second + 1 else t.second
  let nano := if leap then t.nano - 1000000000 else t.nano
  padded 2 t.hour ++ ':' :: padded 2 t.minute ++ ':' :: padded 2 second ++ printFraction nano

/-- The date. -/
def printDate (t : Instant) : Text :=
  printYear t.year ++ '-' :: padded 2 t.month ++ '-' :: padded 2 t.day

/-- The text of an instant with a given text for the offset zero. -/
def printWith (zone : String) (t : Instant) : Text :=
  t.printDate ++ 'T' :: t.printTime ++ zone.toList

/-- The text of an instant in a record of the store. -/
def print (t : Instant) : Text := t.printWith "+00:00"

/-- The text of an instant in JSON. -/
def printZulu (t : Instant) : Text := t.printWith "Z"

end Instant

end TextHistory
