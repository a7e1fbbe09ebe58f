import TextHistory.Settings.Value

/-!
# Paths to settings

The name of a setting can be a path into the tables and lists of settings, such as `store.files[0]`:
a key, and then any number of further keys behind points and of numbers in brackets. Keys are made
of letters, digits, underscores, hyphens and blanks. Capital letters in keys do not count.
-/

set_option autoImplicit false

namespace TextHistory

/-- One step into a value. -/
inductive PathStep where
  /-- To the value at a key of a table. -/
  | key (k : Text)
  /-- To an item of a list, counted from the beginning, or from the end if negative. -/
  | item (n : Int)
  deriving DecidableEq, Repr

/-- A path from a table of settings to one of them. -/
structure SettingPath where
  head : Text
  steps : List PathStep := []
  deriving DecidableEq, Repr

namespace SettingPath

/-! ## Reading -/

/-- A character of a key. -/
def isKeyChar (c : Char) : Bool := c.isAlphanum || c == '_' || c == '-' || c == ' '

/-- A key at the beginning of a text, and the text after it. -/
def readKey (t : Text) : Option (Text × Text) :=
  let key := t.takeWhile isKeyChar
  if key.isEmpty then none else some (key, t.dropWhile isKeyChar)

def skipBlanks (t : Text) : Text := t.dropWhile fun c => c == ' ' || c == '\t'

/-- A number after its opening bracket, and the text after the closing one. -/
def readItem (t : Text) : Option (Int × Text) :=
  let (sign, body) := match skipBlanks t with
    | '-' :: rest => (['-'], rest)
    | t => ([], t)
  let digits := body.takeWhile Char.isDigit
  match skipBlanks (body.drop digits.length), Numeral.readSigned (sign ++ digits) with
  | ']' :: rest, some n => some (n, rest)
  | _, _ => none

/-- One step at the beginning of a text, and the text after it. -/
def readStep : Text → Option (PathStep × Text)
  | '.' :: rest => (readKey rest).map fun (k, rest) => (.key k, rest)
  | '[' :: rest => (readItem rest).map fun (n, rest) => (.item n, rest)
  | _ => none

/-- The steps that a text spells. The first argument bounds their number. -/
def readSteps : Nat → Text → Option (List PathStep)
  | _, [] => some []
  | 0, _ => none
  | more + 1, t => do
    let (step, rest) ← readStep t
    let steps ← readSteps more rest
    return step :: steps

/-- The path that a text spells. -/
def read? (t : Text) : Option SettingPath := do
  let (head, rest) ← readKey t
  let steps ← readSteps rest.length rest
  return ⟨head, steps⟩

/-- The path that a name stands for; a name that spells no path is one key. -/
def ofName (name : Text) : SettingPath := (read? name).getD ⟨name, []⟩

end SettingPath

end TextHistory
