import TextHistory.Text.Blank
import TextHistory.Time.Instant

/-!
# Reading instants

Two readers for date and time with an offset. `Instant.read` accepts one form, with exactly four
digits for the year and two for everything else. `Instant.readLoosely?` also accepts fewer digits,
blanks between the parts, a year with a sign, and `UTC` for the offset.
-/

set_option autoImplicit false

namespace TextHistory

/-- Why a text is not an instant. -/
inductive TimeFault where
  | tooShort
  | tooLong
  | invalid
  | outOfRange
  deriving DecidableEq, Repr

/-- The wording of a fault. -/
def TimeFault.message : TimeFault → String
  | .tooShort => "premature end of input"
  | .tooLong => "trailing input"
  | .invalid => "input contains invalid characters"
  | .outOfRange => "input is out of range"

namespace Instant

/-- Between `least` and `most` digits, as a number. -/
def digits (least most : Nat) (t : Text) : Except TimeFault (Nat × Text) :=
  let ds := (t.take most).takeWhile Char.isDigit
  if least ≤ ds.length then .ok (Numeral.value ds, t.drop ds.length)
  else if t.length < least then .error .tooShort
  else .error .invalid

/-- One given character. -/
def expect (c : Char) : Text → Except TimeFault Text
  | [] => .error .tooShort
  | d :: rest => if d = c then .ok rest else .error .invalid

/-- The mark between date and time. -/
def separator : Text → Except TimeFault Text
  | [] => .error .tooShort
  | c :: rest => if c = 'T' ∨ c = 't' ∨ c = ' ' then .ok rest else .error .invalid

/-- The fraction of a second, if there is one, in nanoseconds; digits after the ninth are
ignored. -/
def nanoseconds : Text → Except TimeFault (Nat × Text)
  | '.' :: rest =>
    let ds := (rest.take 9).takeWhile Char.isDigit
    if rest.isEmpty then .error .tooShort
    else if ds.isEmpty then .error .invalid
    else
      let nano := Numeral.value ds * Nat.pow 10 (9 - ds.length)
      .ok (nano, (rest.drop ds.length).dropWhile Char.isDigit)
  | t => .ok (0, t)

/-- An offset in minutes. `between` reads what stands between hours and minutes. -/
def offset (between : Text → Except TimeFault Text) : Text → Except TimeFault (Int × Text)
  | [] => .error .tooShort
  | c :: rest =>
    if c = 'Z' ∨ c = 'z' then .ok (0, rest)
    else if c ≠ '+' ∧ c ≠ '-' ∧ c ≠ '\u2212' then .error .invalid
    else do
      let (hours, rest) ← digits 2 2 rest
      let rest ← between rest
      let (minutes, rest) ← digits 2 2 rest
      if 59 < minutes ∨ 23 < hours then .error .outOfRange
      else
        let m : Int := hours * 60 + minutes
        return (if c = '+' then m else -m, rest)

/-- The instant of some local fields and an offset, if they name one. -/
def ofFields? (year : Int) (month day hour minute second nano : Nat) (offset : Int) :
    Option Instant :=
  if isDate year month day ∧ hour ≤ 23 ∧ minute ≤ 59 ∧ second ≤ 60 then
    let leap := second = 60
    let t := ofLocal ⟨year, month, day, hour, minute, if leap then 59 else second,
      if leap then nano + 1000000000 else nano⟩ offset
    if isDate t.year t.month t.day then some t else none
  else none

/-- Reads the strict form. -/
def read (t : Text) : Except TimeFault Instant := do
  let (year, t) ← digits 4 4 t
  let t ← expect '-' t
  let (month, t) ← digits 2 2 t
  let t ← expect '-' t
  let (day, t) ← digits 2 2 t
  let t ← separator t
  let (hour, t) ← digits 2 2 t
  let t ← expect ':' t
  let (minute, t) ← digits 2 2 t
  let t ← expect ':' t
  let (second, t) ← digits 2 2 t
  let (nano, t) ← nanoseconds t
  let (offset, t) ← offset (expect ':') t
  if !t.isEmpty then .error .tooLong
  else
    match ofFields? year month day hour minute second nano offset with
    | some i => .ok i
    | none => .error .outOfRange

/-! ## The loose form -/

/-- The text from its first character that is not blank on. -/
def skipBlanks (t : Text) : Text := t.dropWhile Text.isBlank

/-- A year of up to four digits, or of any number of digits behind a sign. -/
def looseYear (t : Text) : Except TimeFault (Int × Text) :=
  match skipBlanks t with
  | '-' :: rest => (digits 1 rest.length rest).map fun (n, rest) => (-(n : Int), rest)
  | '+' :: rest => (digits 1 rest.length rest).map fun (n, rest) => ((n : Int), rest)
  | t => (digits 1 4 t).map fun (n, rest) => ((n : Int), rest)

/-- One or two digits, after blanks. -/
def looseNumber (t : Text) : Except TimeFault (Nat × Text) := digits 1 2 (skipBlanks t)

/-- A given character, after blanks. -/
def looseExpect (c : Char) (t : Text) : Except TimeFault Text := expect c (skipBlanks t)

/-- An offset, with any colons and blanks between hours and minutes. -/
def looseOffset (t : Text) : Except TimeFault (Int × Text) :=
  if (t.take 3).map Char.toUpper == ['U', 'T', 'C'] then .ok (0, t.drop 3)
  else offset (fun t => .ok (t.dropWhile fun c => c == ':' || Text.isBlank c)) t

/-- Reads the loose form. -/
def readLoosely (t : Text) : Except TimeFault Instant := do
  let (year, t) ← looseYear t
  let t ← looseExpect '-' t
  let (month, t) ← looseNumber t
  let t ← looseExpect '-' t
  let (day, t) ← looseNumber t
  let t ← separator t
  let (hour, t) ← looseNumber t
  let t ← looseExpect ':' t
  let (minute, t) ← looseNumber t
  let t ← looseExpect ':' t
  let (second, t) ← looseNumber t
  let (nano, t) ← nanoseconds t
  let (offset, t) ← looseOffset (skipBlanks t)
  if !(skipBlanks t).isEmpty then .error .tooLong
  else
    match ofFields? year month day hour minute second nano offset with
    | some i => .ok i
    | none => .error .outOfRange

end Instant

end TextHistory
