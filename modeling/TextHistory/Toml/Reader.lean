import TextHistory.Toml.Scalar
import TextHistory.Toml.Table

/-!
# Reading TOML

A document is read line by line: headings say which table the lines after them belong to, and every
other line that is not blank gives a value to a key. A document with a fault anywhere has no value.
-/

set_option autoImplicit false

namespace TextHistory.Toml

/-! ## Between values -/

/-- The text after a comment, if one is there. What may not stand in a comment is left, and is a
fault for the next reader. -/
def skipComment (t : Text) : Text :=
  match t with
  | '#' :: rest => rest.dropWhile isPlain
  | _ => t

/-- The text after blanks, comments and ends of lines. The first argument bounds the number of
steps; one for every character is enough. -/
def skipGaps : Nat → Text → Text
  | 0, t => t
  | steps + 1, t =>
    let t := skipComment (skipBlanks t)
    match newline? t with
    | some rest => skipGaps steps rest
    | none => t

/-- The text after the end of a line, where only blanks and a comment may stand before it. -/
def endLine (t : Text) : Option Text :=
  match skipComment (skipBlanks t) with
  | [] => some []
  | t => newline? t

/-! ## Keys -/

/-- The characters of a key without quotes. -/
def isBare (c : Char) : Bool := c.isAlphanum || c == '_' || c == '-'

/-- One part of a key. -/
def readPart (t : Text) : Option (Text × Text) :=
  match t with
  | '"' :: rest => basicBody t.length [] rest
  | '\x27' :: rest => literalBody [] rest
  | _ =>
    let part := t.takeWhile isBare
    if part.isEmpty then none else some (part, t.dropWhile isBare)

/-- The parts of a key, with points between them. The first argument bounds their number. -/
def readParts : Nat → Text → Option (List Text × Text)
  | 0, _ => none
  | steps + 1, t => do
    let (part, rest) ← readPart (skipBlanks t)
    match skipBlanks rest with
    | '.' :: rest =>
      let (parts, rest) ← readParts steps rest
      return (part :: parts, rest)
    | rest => return ([part], rest)

/-- A value may stand inside fewer containers than this, and a key has fewer parts. -/
def depthLimit : Nat := 80

/-- A key: the path, the last part, and the text after it. -/
def readKey (t : Text) : Option (List Text × Text × Text) := do
  let (parts, rest) ← readParts (depthLimit - 1) t
  let last ← parts.getLast?
  return (parts.dropLast, last, rest)

/-! ## Values -/

mutual

/-- A value at the beginning of a text, which may hold `depth` containers inside each other. The
first argument bounds the number of steps; `2` for every character are enough. -/
def readValue : Nat → Nat → Text → Option (Toml × Text)
  | 0, _, _ => none
  | steps + 1, depth, t =>
    match t with
    | '[' :: rest => if depth = 0 then none else readItems steps (depth - 1) [] rest
    | '{' :: rest =>
      if depth = 0 then none
      else
        match skipBlanks rest with
        | '}' :: rest => some (.table [], rest)
        | rest => readEntries steps (depth - 1) [] rest
    | _ => readScalar t

/-- The items of an array. A comma may stand behind the last one. -/
def readItems : Nat → Nat → List Toml → Text → Option (Toml × Text)
  | 0, _, _, _ => none
  | steps + 1, depth, seen, t =>
    match skipGaps t.length t with
    | ']' :: rest => some (.array seen.reverse, rest)
    | t => do
      let (v, rest) ← readValue steps depth t
      match skipGaps rest.length rest with
      | ',' :: rest => readItems steps depth (v :: seen) rest
      | ']' :: rest => some (.array (v :: seen).reverse, rest)
      | _ => none

/-- The entries of a table on one line. -/
def readEntries : Nat → Nat → Entries → Text → Option (Toml × Text)
  | 0, _, _, _ => none
  | steps + 1, depth, seen, t => do
    let (path, key, rest) ← readKey t
    match rest with
    | '=' :: rest =>
      let (v, rest) ← readValue steps depth (skipBlanks rest)
      let seen ← seen.define path key v
      match skipBlanks rest with
      | ',' :: rest => readEntries steps depth seen rest
      | '}' :: rest => some (.table (finishEntries seen), rest)
      | _ => none
    | _ => none

end

/-! ## Documents -/

/-- A line that gives a value to a key of the table with the given heading. -/
def readDefinition (heading : List Text) (es : Entries) (t : Text) : Option (Entries × Text) := do
  let (path, key, rest) ← readKey t
  match rest with
  | '=' :: rest =>
    let (v, rest) ← readValue (2 * rest.length + 2) (depthLimit - 1) (skipBlanks rest)
    let rest ← endLine rest
    let es ← es.defineUnder heading path key v
    return (es, rest)
  | _ => none

/-- The line of a heading, after its first bracket: the table that it opens, the entries after
that, and the text after the line. -/
def readHeading (es : Entries) (t : Text) : Option (List Text × Entries × Text) := do
  match t with
  | '[' :: rest =>
    let (path, key, rest) ← readKey rest
    match rest with
    | ']' :: ']' :: rest =>
      let rest ← endLine rest
      let es ← es.openItem path key
      return (path ++ [key], es, rest)
    | _ => none
  | rest =>
    let (path, key, rest) ← readKey rest
    match rest with
    | ']' :: rest =>
      let rest ← endLine rest
      let es ← es.openTable path key
      return (path ++ [key], es, rest)
    | _ => none

/-- The lines of a document. The first argument bounds the number of steps; one for every
character and one more are enough. -/
def readLines : Nat → List Text → Entries → Text → Option Entries
  | 0, _, _, _ => none
  | steps + 1, heading, es, t =>
    match skipGaps t.length t with
    | [] => some es
    | '[' :: rest => do
      let (heading, es, rest) ← readHeading es rest
      readLines steps heading es rest
    | t => do
      let (es, rest) ← readDefinition heading es t
      readLines steps heading es rest

/-- The entries of the table that a document describes. A byte order mark in front is passed
over. -/
def read? (t : Text) : Option (List (Text × Toml)) :=
  let t := match t with
    | '\uFEFF' :: rest => rest
    | _ => t
  (readLines (t.length + 1) [] [] t).map finishEntries

end TextHistory.Toml
