import TextHistory.Json.Reader
import TextHistory.Settings.Value
import TextHistory.Text.Alphanumeric
import TextHistory.Text.Blank

/-!
# JSON5 files

JSON with comments, commas behind the last item, names without quotes, strings in single quotes
and on several lines, and more forms of numbers.
-/

set_option autoImplicit false

namespace TextHistory.Settings.Json5

/-! ## Between values -/

/-- A character ends a line. -/
def isLineEnd (c : Char) : Bool := c == '\n' || c == '\r' || c == '\u2028' || c == '\u2029'

/-- A character that may stand between tokens. -/
def isSpace (c : Char) : Bool := (Text.isBlank c && c != '\u0085') || c == '\uFEFF'

/-- The text after blanks and comments; a comment that does not end is left. The first argument
bounds the number of steps. -/
def skipGaps : Nat → Text → Text
  | 0, t => t
  | steps + 1, t =>
    match t.dropWhile isSpace with
    | '/' :: '/' :: rest => skipGaps steps (rest.dropWhile fun c => !isLineEnd c)
    | '/' :: '*' :: rest =>
      match Text.splitFirst? ['*', '/'] rest with
      | some (_, rest) => skipGaps steps rest
      | none => '/' :: '*' :: rest
    | t => t

/-- The first token behind blanks and comments. -/
def next (t : Text) : Text := skipGaps (t.length + 1) t

/-! ## Strings -/

/-- What a backslash begins: the text that it stands for, which is empty at the end of a line, and
the text after it. -/
def escaped? : Text → Option (Text × Text)
  | '\r' :: '\n' :: rest => some ([], rest)
  | 'x' :: a :: b :: rest => (Hex.char? [a, b]).map ([·], rest)
  | 'u' :: a :: b :: c :: d :: rest =>
    match Hex.read? 16 [a, b, c, d], rest with
    | some n, '\\' :: 'u' :: e :: f :: g :: h :: after =>
      match Hex.read? 16 [e, f, g, h] with
      | some m =>
        if 0xD800 ≤ n ∧ n < 0xDC00 ∧ 0xDC00 ≤ m ∧ m < 0xE000 then
          some ([Char.ofNat (0x10000 + (n - 0xD800) * 0x400 + (m - 0xDC00))], after)
        else (Hex.char? [a, b, c, d]).map ([·], rest)
      | none => (Hex.char? [a, b, c, d]).map ([·], rest)
    | _, rest => (Hex.char? [a, b, c, d]).map ([·], rest)
  | c :: rest =>
    if isLineEnd c then some ([], rest)
    else
      match c with
      | '0' => some (['\x00'], rest)
      | 'b' => some (['\x08'], rest)
      | 'f' => some (['\x0c'], rest)
      | 'n' => some (['\n'], rest)
      | 'r' => some (['\r'], rest)
      | 't' => some (['\t'], rest)
      | 'v' => some (['\x0b'], rest)
      | c => if c.isDigit ∨ c = 'x' ∨ c = 'u' then none else some ([c], rest)
  | [] => none

/-- A string after its opening quote, up to the same quote. The first argument bounds the number
of steps; one for every character and one more are enough. -/
def readString (quote : Char) : Nat → Text → Text → Option (Text × Text)
  | 0, _, _ => none
  | steps + 1, seen, t =>
    match t with
    | '\\' :: rest => do
      let (s, rest) ← escaped? rest
      readString quote steps (s.reverse ++ seen) rest
    | c :: rest =>
      if c = quote then some (seen.reverse, rest)
      else if isLineEnd c then none
      else readString quote steps (c :: seen) rest
    | [] => none

/-! ## Names -/

/-- A character of a name without quotes; a digit cannot be the first one. -/
def isNameChar (c : Char) : Bool := c == '$' || c == '_' || Text.isAlphanumeric c

/-- A name without quotes. The first argument bounds the number of steps. -/
def readBare : Nat → Text → Text → Option (Text × Text)
  | 0, _, _ => none
  | steps + 1, seen, t =>
    match t with
    | '\\' :: 'u' :: a :: b :: c :: d :: rest => do
      let c ← Hex.char? [a, b, c, d]
      readBare steps (c :: seen) rest
    | c :: rest =>
      if isNameChar c ∧ !(seen.isEmpty ∧ c.isDigit) then readBare steps (c :: seen) rest
      else if seen.isEmpty then none
      else some (seen.reverse, t)
    | [] => none

/-- The name of a member. -/
def readName (t : Text) : Option (Text × Text) :=
  match t with
  | '"' :: rest => readString '"' (rest.length + 1) [] rest
  | '\x27' :: rest => readString '\x27' (rest.length + 1) [] rest
  | t => readBare (t.length + 1) [] t

/-! ## Numbers -/

/-- A decimal number without a sign, and the text after it. A zero stands alone before the
point. -/
def readDecimal (negative : Bool) (t : Text) : Option (Setting × Text) := do
  let whole := match t with
    | '0' :: _ => ['0']
    | t => t.takeWhile Char.isDigit
  let rest := t.drop whole.length
  let (point, fraction, rest) := match rest with
    | '.' :: rest => (['.'], rest.takeWhile Char.isDigit, rest.dropWhile Char.isDigit)
    | rest => ([], [], rest)
  if whole.isEmpty ∧ fraction.isEmpty then none
  else
    -- a letter that no exponent follows belongs to what comes next, and is refused there
    let (exp, rest) := (Json.exponent rest).getD ([], rest)
    if point.isEmpty ∧ exp.isEmpty then
      let n ← Numeral.readSigned ((if negative then ['-'] else []) ++ whole)
      return (.integer n, rest)
    else
      let x ← Double.read? (whole ++ point ++ fraction ++ exp)
      return (.float (if negative then x.negate else x), rest)

/-- A number, and the text after it. -/
def readNumber (t : Text) : Option (Setting × Text) := do
  let (negative, body) := Numeral.splitSign t
  match body with
  | 'I' :: 'n' :: 'f' :: 'i' :: 'n' :: 'i' :: 't' :: 'y' :: rest =>
    some (.float (.infinite negative), rest)
  | 'N' :: 'a' :: 'N' :: rest => some (.float .nan, rest)
  | '0' :: x :: rest =>
    if x = 'x' ∨ x = 'X' then
      -- a number in hexadecimal digits has 32 bits, and keeps no sign
      let n ← Hex.read? 16 (rest.takeWhile (Hex.isDigit 16))
      if n < Nat.pow 2 32 ∧ t.length = body.length then
        some (.integer n, rest.dropWhile (Hex.isDigit 16))
      else none
    else readDecimal negative body
  | _ => readDecimal negative body

/-! ## Values -/

/-- The value of a literal, if the text begins with it. -/
def literal (name : String) (v : Setting) (t : Text) : Option (Setting × Text) :=
  (Text.stripLead? name.toList t).map (v, ·)

mutual

/-- A value at the beginning of a text, and the text after it. The first argument bounds the
number of steps; two for every character are enough. -/
def readValue : Nat → Text → Option (Setting × Text)
  | 0, _ => none
  | steps + 1, t =>
    match t with
    | 'n' :: _ => literal "null" .nothing t
    | 't' :: _ => literal "true" (.boolean true) t
    | 'f' :: _ => literal "false" (.boolean false) t
    | '"' :: rest =>
      (readString '"' (rest.length + 1) [] rest).map fun (s, rest) => (.text s, rest)
    | '\x27' :: rest =>
      (readString '\x27' (rest.length + 1) [] rest).map fun (s, rest) => (.text s, rest)
    | '[' :: rest =>
      match next rest with
      | ']' :: rest => some (.list [], rest)
      | rest => readItems steps [] rest
    | '{' :: rest =>
      match next rest with
      | '}' :: rest => some (.table [], rest)
      | rest => readMembers steps [] rest
    | _ => readNumber t

/-- The items of an array, from the first token of one of them on. -/
def readItems : Nat → List Setting → Text → Option (Setting × Text)
  | 0, _, _ => none
  | steps + 1, seen, t => do
    let (v, rest) ← readValue steps t
    match next rest with
    | ',' :: rest =>
      match next rest with
      | ']' :: rest => some (.list (v :: seen).reverse, rest)
      | rest => readItems steps (v :: seen) rest
    | ']' :: rest => some (.list (v :: seen).reverse, rest)
    | _ => none

/-- The members of an object, from the first token of a name on. -/
def readMembers : Nat → Setting.Entries → Text → Option (Setting × Text)
  | 0, _, _ => none
  | steps + 1, seen, t => do
    let (name, rest) ← readName t
    match next rest with
    | ':' :: rest =>
      let (v, rest) ← readValue steps (next rest)
      let seen := seen.put name v
      match next rest with
      | ',' :: rest =>
        match next rest with
        | '}' :: rest => some (.table seen, rest)
        | rest => readMembers steps seen rest
      | '}' :: rest => some (.table seen, rest)
      | _ => none
    | _ => none

end

/-- The value of a file. -/
def read? (t : Text) : Option Setting := do
  let (v, rest) ← readValue (2 * t.length + 2) (next t)
  if (next rest).isEmpty then some v else none

end TextHistory.Settings.Json5
