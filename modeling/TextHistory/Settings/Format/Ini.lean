import TextHistory.Settings.Value
import TextHistory.Text.Blank
import TextHistory.Text.Hex

/-!
# INI files

Headings in brackets, and keys with their values behind an equals sign or a colon. What stands
before the first heading belongs to no section. A comment takes a line of its own. All values are
texts.
-/

set_option autoImplicit false

namespace TextHistory.Settings.Ini

/-! ## Texts -/

/-- What a backslash begins: the character that it stands for, and the text after it. -/
def escaped? : Text → Option (Char × Text)
  | '0' :: rest => some ('\x00', rest)
  | 'a' :: rest => some ('\x07', rest)
  | 'b' :: rest => some ('\x08', rest)
  | 't' :: rest => some ('\t', rest)
  | 'r' :: rest => some ('\r', rest)
  | 'n' :: rest => some ('\n', rest)
  | 'x' :: a :: b :: c :: d :: rest => (Hex.char? [a, b, c, d]).map (·, rest)
  | 'x' :: _ => none
  | c :: rest => some (c, rest)
  | [] => none

/-- The text up to a character that ends it, and the text from that character on. The end of the
file ends it only if `mayEnd`. The first argument bounds the number of steps; one for every
character and one more are enough. -/
def readUntil (isEnd : Char → Bool) (mayEnd : Bool) : Nat → Text → Text → Option (Text × Text)
  | 0, _, _ => none
  | steps + 1, seen, t =>
    match t with
    | [] => if mayEnd then some (seen.reverse, []) else none
    | c :: rest =>
      if isEnd c then some (seen.reverse, t)
      else if c = '\\' then do
        let (c, rest) ← escaped? rest
        readUntil isEnd mayEnd steps (c :: seen) rest
      else readUntil isEnd mayEnd steps (c :: seen) rest

/-- A text up to a character that must follow it, and the text from that character on. -/
def readPart (isEnd : Char → Bool) (t : Text) : Option (Text × Text) :=
  readUntil isEnd false (t.length + 1) [] t

/-- The rest of a line. -/
def readLine (t : Text) : Option (Text × Text) :=
  readUntil (fun c => c == '\n' || c == '\r') true (t.length + 1) [] t

/-- A character ends a key. -/
def isMark (c : Char) : Bool := c == '=' || c == ':'

/-- A value, after the mark behind its key. Its first part may stand between quotes. -/
def readValue (t : Text) : Option (Text × Text) :=
  let t := t.dropWhile fun c => Text.isBlank c && c != '\n' && c != '\r'
  match t with
  | [] => some ([], [])
  | c :: rest =>
    if c = '"' ∨ c = '\x27' then do
      let (quoted, rest) ← readPart (· == c) rest
      let (after, rest) ← readLine rest.tail
      return (quoted ++ after, rest)
    else readLine t

/-! ## Files -/

/-- What was read of a file. -/
structure Progress where
  entries : Setting.Entries := []
  /-- The heading that the lines stand under. -/
  heading : Option Text := none
  /-- A key that waits for its value. -/
  key : Text := []

namespace Progress

/-- Opens a section; one that was there before is given up. -/
def openSection (p : Progress) (name : Text) : Progress :=
  { p with entries := p.entries.put name (.table []), heading := some name }

/-- Gives a value to the key that waits for one. -/
def define (p : Progress) (value : Text) : Progress :=
  let v := Setting.text value
  let entries := match p.heading with
    | none => p.entries.put p.key v
    | some name =>
      let inner := ((p.entries.get? name).getD (.table [])).entries
      p.entries.put name (.table (inner.put p.key v))
  { p with entries := entries, key := [] }

end Progress

/-- The text without blanks in front, and whether it then stands at the beginning of a line. -/
def skipBlanks (fresh : Bool) : Text → Bool × Text
  | c :: rest => if Text.isBlank c then skipBlanks (c == '\n') rest else (fresh, c :: rest)
  | [] => (fresh, [])

/-- The parts of a file, where `fresh` says that a line begins. The first argument bounds the
number of steps; one for every character and one more are enough. -/
def readFrom : Nat → Bool → Progress → Text → Option Setting.Entries
  | 0, _, _, _ => none
  | steps + 1, fresh, p, t =>
    match skipBlanks fresh t with
    | (_, []) => some p.entries
    | (fresh, c :: rest) =>
      if c = ';' ∨ c = '#' then
        if fresh then readFrom steps true p ((rest.dropWhile (· != '\n')).drop 1) else none
      else if c = '[' then do
        let (name, rest) ← readPart (· == ']') rest
        readFrom steps false (p.openSection (Text.trim name)) rest.tail
      else if isMark c then
        if p.key.isEmpty then none
        else do
          let (value, rest) ← readValue rest
          readFrom steps false (p.define (Text.trim value)) rest
      else do
        let (key, rest) ← readPart isMark (c :: rest)
        readFrom steps false { p with key := Text.trim key } rest

/-- The entries of a file, with a table for every section. -/
def read? (t : Text) : Option Setting.Entries := readFrom (t.length + 1) true {} t

end TextHistory.Settings.Ini
