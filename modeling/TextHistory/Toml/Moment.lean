import TextHistory.Time.Instant

/-!
# Dates and times in TOML

A date, a time of day, or a date with a time of day and perhaps an offset. The canonical form
separates date and time by a capital `T`, has at most nine digits after the point and no zeros at
their end, and writes the zero offset as a capital `Z` where it was a letter.
-/

set_option autoImplicit false

namespace TextHistory.Toml.Moment

/-- The canonical form of what was read, and the text after it. -/
abbrev Reading := Option (Text × Text)

/-- A field of digits of a fixed width, whose value must lie in a range. -/
def field (width low high : Nat) (t : Text) : Reading :=
  let digits := t.take width
  let n := Numeral.value digits
  if digits.length = width ∧ digits.all Char.isDigit ∧ low ≤ n ∧ n ≤ high then
    some (digits, t.drop width)
  else none

/-- A given character. -/
def mark (c : Char) : Text → Reading
  | d :: rest => if d = c then some ([c], rest) else none
  | [] => none

/-- A date. -/
def date (t : Text) : Reading := do
  let (year, t) ← field 4 0 9999 t
  let (_, t) ← mark '-' t
  let (month, t) ← field 2 1 12 t
  let (_, t) ← mark '-' t
  let days := Instant.daysIn (Numeral.value year) (Numeral.value month)
  let (day, t) ← field 2 1 days t
  return (year ++ '-' :: month ++ '-' :: day, t)

/-- The digits after a point, if there is one. -/
def fraction (t : Text) : Reading :=
  match t with
  | '.' :: rest =>
    let digits := rest.takeWhile Char.isDigit
    let kept := ((digits.take 9).reverse.dropWhile (· == '0')).reverse
    if digits.isEmpty then none
    else some (if kept.isEmpty then [] else '.' :: kept, rest.dropWhile Char.isDigit)
  | _ => some ([], t)

/-- A time of day. -/
def time (t : Text) : Reading := do
  let (hour, t) ← field 2 0 23 t
  let (_, t) ← mark ':' t
  let (minute, t) ← field 2 0 59 t
  let (_, t) ← mark ':' t
  let (second, t) ← field 2 0 60 t
  let (frac, t) ← fraction t
  return (hour ++ ':' :: minute ++ ':' :: second ++ frac, t)

/-- An offset of hours and minutes. The zero offset is written with a plus sign. -/
def hours (sign : Char) (t : Text) : Reading := do
  let (hour, t) ← field 2 0 23 t
  let (_, t) ← mark ':' t
  let (minute, t) ← field 2 0 59 t
  let isZero := Numeral.value (hour ++ minute) = 0
  return ((if isZero then '+' else sign) :: hour ++ ':' :: minute, t)

/-- An offset, if there is one. -/
def offset (t : Text) : Reading :=
  match t with
  | 'Z' :: rest => some (['Z'], rest)
  | 'z' :: rest => some (['Z'], rest)
  | '+' :: rest => hours '+' rest
  | '-' :: rest => hours '-' rest
  | _ => some ([], t)

/-- The time of day and the offset behind a date, if they are there. -/
def timeOfDate (t : Text) : Reading :=
  match t with
  | c :: rest =>
    if c = 'T' ∨ c = 't' ∨ c = ' ' then
      match time rest with
      | some (clock, t) => (offset t).map fun (zone, t) => ('T' :: clock ++ zone, t)
      | none => some ([], c :: rest)
    else some ([], c :: rest)
  | [] => some ([], [])

/-- A date or a time at the beginning of a text. -/
def read (t : Text) : Reading :=
  match date t with
  | some (day, t) => (timeOfDate t).map fun (rest, t) => (day ++ rest, t)
  | none => time t

end TextHistory.Toml.Moment
