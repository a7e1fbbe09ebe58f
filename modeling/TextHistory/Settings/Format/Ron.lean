import TextHistory.Settings.Value
import TextHistory.Text.Hex

/-!
# RON files

An object notation with structures in parentheses, maps in braces and sequences in brackets.
Comments stand between slashes and stars, and may contain each other, or behind two slashes. The
name of a structure has no meaning here.
-/

set_option autoImplicit false

namespace TextHistory.Settings.Ron

/-! ## Between values -/

/-- The text after the end of a comment, inside `depth` others. -/
def skipComment : Nat → Text → Option Text
  | 0, '*' :: '/' :: rest => some rest
  | depth + 1, '*' :: '/' :: rest => skipComment depth rest
  | depth, '/' :: '*' :: rest => skipComment (depth + 1) rest
  | depth, _ :: rest => skipComment depth rest
  | _, [] => none

/-- The text after blanks and comments; none if a comment does not end. The first argument bounds
the number of steps. -/
def skipGaps : Nat → Text → Option Text
  | 0, t => some t
  | steps + 1, t =>
    match t.dropWhile fun c => c == ' ' || c == '\n' || c == '\t' || c == '\r' with
    | '/' :: '/' :: rest => skipGaps steps (rest.dropWhile (· != '\n'))
    | '/' :: '*' :: rest => (skipComment 0 rest).bind (skipGaps steps)
    | t => some t

/-- The first token behind blanks and comments. -/
def next (t : Text) : Option Text := skipGaps (t.length + 1) t

/-! ## Names -/

/-- A character of a name. -/
def isNameChar (c : Char) : Bool := c.isAlphanum || c == '_'

/-- A name at the beginning of a text, and the text after it. The letter of a string without
escapes is no name. -/
def readName (t : Text) : Option (Text × Text) :=
  match t with
  | 'r' :: '"' :: _ => none
  | 'r' :: '#' :: _ => none
  | c :: _ =>
    if isNameChar c ∧ !c.isDigit then some (t.takeWhile isNameChar, t.dropWhile isNameChar)
    else none
  | [] => none

/-! ## Strings -/

/-- The character that stands behind a backslash for another one. -/
def unescape? : Char → Option Char
  | '\x27' => some '\x27'
  | '"' => some '"'
  | '\\' => some '\\'
  | 'n' => some '\n'
  | 'r' => some '\r'
  | 't' => some '\t'
  | '0' => some '\x00'
  | _ => none

/-- What a backslash begins: the character that it stands for, and the text after it. -/
def escaped? : Text → Option (Char × Text)
  | 'x' :: a :: b :: rest => (Hex.char? [a, b]).map (·, rest)
  | 'u' :: '{' :: rest =>
    match rest.dropWhile (· != '}') with
    | _ :: after => (Hex.char? (rest.takeWhile (· != '}'))).map (·, after)
    | [] => none
  | c :: rest => (unescape? c).map (·, rest)
  | [] => none

/-- A string after its opening quote. The first argument bounds the number of steps; one for every
character and one more are enough. -/
def readString : Nat → Text → Text → Option (Text × Text)
  | 0, _, _ => none
  | steps + 1, seen, t =>
    match t with
    | '"' :: rest => some (seen.reverse, rest)
    | '\\' :: rest => do
      let (c, rest) ← escaped? rest
      readString steps (c :: seen) rest
    | c :: rest => readString steps (c :: seen) rest
    | [] => none

/-- A string without escapes, after its first letter. It ends with a quote and as many hash signs
as stand before its opening quote. -/
def readRaw (t : Text) : Option (Text × Text) :=
  let signs := t.takeWhile (· == '#')
  match t.drop signs.length with
  | '"' :: rest => Text.splitFirst? ('"' :: signs) rest
  | _ => none

/-- A character after its opening quote. -/
def readChar (t : Text) : Option (Text × Text) := do
  let (c, rest) ← match t with
    | '\\' :: rest => escaped? rest
    | c :: rest => some (c, rest)
    | [] => none
  match rest with
  | '\x27' :: rest => some ([c], rest)
  | _ => none

/-! ## Numbers -/

/-- The integer in digits of any base. -/
def integer? : Text → Option Nat
  | '0' :: 'x' :: digits => Hex.read? 16 digits
  | '0' :: 'o' :: digits => Hex.read? 8 digits
  | '0' :: 'b' :: digits => Hex.read? 2 digits
  | digits => Numeral.read digits

/-- A number, and the text after it. Underscores between its digits have no meaning. -/
def readNumber (t : Text) : Option (Setting × Text) := do
  let isPart (c : Char) : Bool := c.isAlphanum || c == '_' || c == '.' || c == '+' || c == '-'
  let (negative, body) := Numeral.splitSign ((t.takeWhile isPart).filter (· != '_'))
  let rest := t.dropWhile isPart
  match integer? body with
  | some n => some (.ofInt (if negative then -(n : Int) else n), rest)
  | none =>
    let x ← Double.read? body
    if body.head?.any fun c => c.isDigit || c == '.' then
      some (.float (if negative then x.negate else x), rest)
    else none

/-! ## Values -/

/-- A text begins with a name and a colon. -/
def startsField (t : Text) : Bool :=
  match readName t with
  | some (_, rest) => ((next rest).bind List.head?) == some ':'
  | none => false

mutual

/-- A value at the beginning of a text, and the text after it. The first argument bounds the
number of steps; four for every character are enough. -/
def readValue : Nat → Text → Option (Setting × Text)
  | 0, _ => none
  | steps + 1, t =>
    match readName t with
    | some (name, rest) => readNamed steps name rest
    | none =>
      match t with
      | '(' :: rest => readGroup steps rest
      | '[' :: rest => (readItems steps ']' [] rest).map fun (vs, rest) => (.list vs, rest)
      | '{' :: rest => (readEntries steps [] rest).map fun (es, rest) => (.table es, rest)
      | '"' :: rest =>
        (readString (rest.length + 1) [] rest).map fun (s, rest) => (.text s, rest)
      | 'r' :: rest => (readRaw rest).map fun (s, rest) => (.text s, rest)
      | '\x27' :: rest => (readChar rest).map fun (s, rest) => (.text s, rest)
      | '-' :: 'i' :: 'n' :: 'f' :: rest => some (.float (.infinite true), rest)
      | t => readNumber t

/-- A value that begins with a name. -/
def readNamed : Nat → Text → Text → Option (Setting × Text)
  | 0, _, _ => none
  | steps + 1, name, t =>
    match String.ofList name with
    | "true" => some (.boolean true, t)
    | "false" => some (.boolean false, t)
    | "None" => some (.nothing, t)
    | "inf" => some (.float (.infinite false), t)
    | "NaN" => some (.float .nan, t)
    | "Some" => do
      match ← next t with
      | '(' :: rest =>
        let (v, rest) ← readValue steps (← next rest)
        match ← next rest with
        | ')' :: rest => some (v, rest)
        | _ => none
      | _ => none
    | _ => do
      match ← next t with
      | '(' :: rest => readGroup steps rest
      | t => some (.nothing, t)

/-- What stands in parentheses, after the opening one: fields, items, or nothing. -/
def readGroup : Nat → Text → Option (Setting × Text)
  | 0, _ => none
  | steps + 1, t => do
    match ← next t with
    | ')' :: rest => some (.nothing, rest)
    | t =>
      if startsField t then
        (readFields steps [] t).map fun (es, rest) => (.table es, rest)
      else (readItems steps ')' [] t).map fun (vs, rest) => (.list vs, rest)

/-- The items of a sequence, up to the character that closes it. -/
def readItems : Nat → Char → List Setting → Text → Option (List Setting × Text)
  | 0, _, _, _ => none
  | steps + 1, close, seen, t => do
    let t ← next t
    if t.head? = some close then some (seen.reverse, t.tail)
    else
      let (v, rest) ← readValue steps t
      match ← next rest with
      | ',' :: rest => readItems steps close (v :: seen) rest
      | c :: rest => if c = close then some ((v :: seen).reverse, rest) else none
      | [] => none

/-- The fields of a structure, up to its closing parenthesis. -/
def readFields : Nat → Setting.Entries → Text → Option (Setting.Entries × Text)
  | 0, _, _ => none
  | steps + 1, seen, t => do
    match ← next t with
    | ')' :: rest => some (seen, rest)
    | t =>
      let (name, rest) ← readName t
      match ← next rest with
      | ':' :: rest =>
        let (v, rest) ← readValue steps (← next rest)
        match ← next rest with
        | ',' :: rest => readFields steps (seen.put name v) rest
        | ')' :: rest => some (seen.put name v, rest)
        | _ => none
      | _ => none

/-- The entries of a map, whose keys must be texts, up to its closing brace. -/
def readEntries : Nat → Setting.Entries → Text → Option (Setting.Entries × Text)
  | 0, _, _ => none
  | steps + 1, seen, t => do
    match ← next t with
    | '}' :: rest => some (seen, rest)
    | t =>
      match ← readValue steps t with
      | (.text key, rest) =>
        match ← next rest with
        | ':' :: rest =>
          let (v, rest) ← readValue steps (← next rest)
          match ← next rest with
          | ',' :: rest => readEntries steps (seen.put key v) rest
          | '}' :: rest => some (seen.put key v, rest)
          | _ => none
        | _ => none
      | _ => none

end

/-- The value of a file. -/
def read? (t : Text) : Option Setting := do
  let (v, rest) ← readValue (4 * t.length + 4) (← next t)
  if (← next rest).isEmpty then some v else none

end TextHistory.Settings.Ron
