import TextHistory.Text.Hex
import TextHistory.Toml.Moment
import TextHistory.Toml.Value

/-!
# Scalars in TOML

Strings of the four kinds, numbers, truth values and dates. Every reader takes a text that begins
with what it reads and gives the value and the text after it.
-/

set_option autoImplicit false

namespace TextHistory.Toml

/-! ## Characters -/

/-- A character that may stand in a comment and, quotes and backslashes aside, in a string. -/
def isPlain (c : Char) : Bool := c == '\t' || (0x20 ≤ c.toNat && c != '\x7f')

/-- The blank characters within a line. -/
def isBlank (c : Char) : Bool := c == ' ' || c == '\t'

/-- The text from the first character on that is not blank. -/
def skipBlanks (t : Text) : Text := t.dropWhile isBlank

/-- The text after the end of a line, if one is there. -/
def newline? : Text → Option Text
  | '\n' :: rest => some rest
  | '\r' :: '\n' :: rest => some rest
  | _ => none

/-! ## Strings -/

/-- The character that stands behind a backslash for another one. -/
def unescape? : Char → Option Char
  | 'b' => some '\x08'
  | 't' => some '\t'
  | 'n' => some '\n'
  | 'f' => some '\x0c'
  | 'r' => some '\r'
  | '"' => some '"'
  | '\\' => some '\\'
  | _ => none

/-- What a backslash begins: the character that it stands for, and the text after it. -/
def escaped? : Text → Option (Char × Text)
  | 'u' :: a :: b :: c :: d :: rest => (Hex.char? [a, b, c, d]).map (·, rest)
  | 'U' :: a :: b :: c :: d :: e :: f :: g :: h :: rest =>
    (Hex.char? [a, b, c, d, e, f, g, h]).map (·, rest)
  | c :: rest => (unescape? c).map (·, rest)
  | [] => none

/-- A string on one line, after its opening quote. The first argument bounds the number of steps;
one for every character is enough. -/
def basicBody : Nat → Text → Text → Option (Text × Text)
  | 0, _, _ => none
  | steps + 1, seen, t =>
    match t with
    | '"' :: rest => some (seen.reverse, rest)
    | '\\' :: rest => do
      let (c, rest) ← escaped? rest
      basicBody steps (c :: seen) rest
    | c :: rest => if isPlain c then basicBody steps (c :: seen) rest else none
    | [] => none

/-- A string on one line in which nothing is escaped, after its opening quote. -/
def literalBody (seen : Text) : Text → Option (Text × Text)
  | '\x27' :: rest => some (seen.reverse, rest)
  | c :: rest => if isPlain c then literalBody (c :: seen) rest else none
  | [] => none

/-- Three quotes end a string of several lines; one or two more in front of them belong to it. -/
def closing? (quote : Char) (t : Text) : Option (Text × Text) :=
  let run := min (t.takeWhile (· == quote)).length 5
  if 3 ≤ run then some (List.replicate (run - 3) quote, t.drop run) else none

/-- The text after blanks and ends of lines. The first argument bounds the number of steps. -/
def skipLines : Nat → Text → Text
  | 0, t => t
  | steps + 1, t =>
    match newline? (skipBlanks t) with
    | some rest => skipLines steps rest
    | none => skipBlanks t

/-- A string of several lines, after its opening quotes. A backslash at the end of a line joins it
to the next text. -/
def basicLines : Nat → Text → Text → Option (Text × Text)
  | 0, _, _ => none
  | steps + 1, seen, t =>
    match closing? '"' t with
    | some (quotes, rest) => some (seen.reverse ++ quotes, rest)
    | none =>
      match newline? t with
      | some rest => basicLines steps ('\n' :: seen) rest
      | none =>
        match t with
        | '\\' :: rest =>
          match newline? (skipBlanks rest) with
          | some next => basicLines steps seen (skipLines steps next)
          | none => do
            let (c, rest) ← escaped? rest
            basicLines steps (c :: seen) rest
        | c :: rest => if isPlain c then basicLines steps (c :: seen) rest else none
        | [] => none

/-- A string of several lines in which nothing is escaped, after its opening quotes. -/
def literalLines : Nat → Text → Text → Option (Text × Text)
  | 0, _, _ => none
  | steps + 1, seen, t =>
    match closing? '\x27' t with
    | some (quotes, rest) => some (seen.reverse ++ quotes, rest)
    | none =>
      match newline? t with
      | some rest => literalLines steps ('\n' :: seen) rest
      | none =>
        match t with
        | c :: rest => if isPlain c then literalLines steps (c :: seen) rest else none
        | [] => none

/-- The text of a string of several lines begins behind the end of its first line. -/
def firstLine (t : Text) : Text := (newline? t).getD t

/-- A string of any kind. -/
def readString (t : Text) : Option (Text × Text) :=
  match t with
  | '"' :: '"' :: '"' :: rest => basicLines t.length [] (firstLine rest)
  | '"' :: rest => basicBody t.length [] rest
  | '\x27' :: '\x27' :: '\x27' :: rest => literalLines t.length [] (firstLine rest)
  | '\x27' :: rest => literalBody [] rest
  | _ => none

/-! ## Numbers -/

/-- Further digits; an underscore may stand between two of them. -/
def moreDigits (isDigit : Char → Bool) : Text → Option (Text × Text)
  | [] => some ([], [])
  | ['_'] => none
  | '_' :: c :: rest =>
    if isDigit c then (moreDigits isDigit rest).map fun (ds, t) => (c :: ds, t) else none
  | c :: rest =>
    if isDigit c then (moreDigits isDigit rest).map fun (ds, t) => (c :: ds, t)
    else some ([], c :: rest)

/-- One or more digits. -/
def readDigits (isDigit : Char → Bool) : Text → Option (Text × Text)
  | c :: rest =>
    if isDigit c then (moreDigits isDigit rest).map fun (ds, t) => (c :: ds, t) else none
  | [] => none

/-- Digits without a zero in front. -/
def readWhole : Text → Option (Text × Text)
  | '0' :: rest => some (['0'], rest)
  | t => readDigits Char.isDigit t

/-- The exponent of a number, if it has one. -/
def readExponent (t : Text) : Option (Int × Text) :=
  match t with
  | c :: rest =>
    if c = 'e' ∨ c = 'E' then do
      let (negative, rest) := Numeral.splitSign rest
      let (digits, rest) ← readDigits Char.isDigit rest
      let n := Numeral.value digits
      return (if negative then -(n : Int) else n, rest)
    else some (0, t)
  | [] => some (0, t)

/-- The value of an integer, if it has 64 bits. -/
def ofInteger? (negative : Bool) (n : Nat) : Option Toml :=
  let n : Int := if negative then -(n : Int) else n
  if Numeral.isSignedWord n then some (.integer n) else none

/-- The value of a number with a fraction or an exponent. A number too large for a double is
refused, unless it is negative. -/
def ofFloat? (negative : Bool) (digits : Text) (exponent : Int) : Option Toml :=
  match Double.ofDecimal negative digits exponent with
  | .infinite false => none
  | x => some (.float x)

/-- A decimal number. -/
def readDecimal (t : Text) : Option (Toml × Text) := do
  let (negative, body) := Numeral.splitSign t
  let (whole, rest) ← readWhole body
  match rest with
  | '.' :: rest =>
    let (fraction, rest) ← readDigits Char.isDigit rest
    let (exponent, rest) ← readExponent rest
    let x ← ofFloat? negative (whole ++ fraction) (exponent - fraction.length)
    return (x, rest)
  | c :: _ =>
    if c = 'e' ∨ c = 'E' then
      let (exponent, rest) ← readExponent rest
      let x ← ofFloat? negative whole exponent
      return (x, rest)
    else
      let n ← ofInteger? negative (Numeral.value whole)
      return (n, rest)
  | [] =>
    let n ← ofInteger? negative (Numeral.value whole)
    return (n, rest)

/-- An integer in a base that is a power of two, after its mark. -/
def readBased (base : Nat) (t : Text) : Option (Toml × Text) := do
  let (digits, rest) ← readDigits (Hex.isDigit base) t
  let n ← Hex.read? base digits
  let v ← ofInteger? false n
  return (v, rest)

/-- A number that is infinite or none at all. -/
def readSpecial (t : Text) : Option (Toml × Text) :=
  let (negative, body) := Numeral.splitSign t
  match body with
  | 'i' :: 'n' :: 'f' :: rest => some (.float (.infinite negative), rest)
  | 'n' :: 'a' :: 'n' :: rest => some (.float .nan, rest)
  | _ => none

/-- A number of any form. -/
def readNumber (t : Text) : Option (Toml × Text) :=
  match readSpecial t with
  | some r => some r
  | none =>
    match t with
    | '0' :: 'x' :: rest => readBased 16 rest
    | '0' :: 'o' :: rest => readBased 8 rest
    | '0' :: 'b' :: rest => readBased 2 rest
    | _ => readDecimal t

/-! ## Scalars of any kind -/

/-- A value that is neither an array nor a table. -/
def readScalar (t : Text) : Option (Toml × Text) :=
  match t with
  | '"' :: _ => (readString t).map fun (s, rest) => (.string s, rest)
  | '\x27' :: _ => (readString t).map fun (s, rest) => (.string s, rest)
  | 't' :: 'r' :: 'u' :: 'e' :: rest => some (.boolean true, rest)
  | 'f' :: 'a' :: 'l' :: 's' :: 'e' :: rest => some (.boolean false, rest)
  | _ =>
    match Moment.read t with
    | some (written, rest) => some (.moment written, rest)
    | none => readNumber t

end TextHistory.Toml
