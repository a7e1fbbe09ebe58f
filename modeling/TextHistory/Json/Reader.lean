import TextHistory.Json.Value
import TextHistory.Text.Hex

/-!
# Reading JSON

A text is read into a `Reading`, which holds everything up to the first fault: a broken scalar is
a leaf, and a container that is not closed ends with the last item that could be begun. A reader
of typed values walks a reading in the order of the text, and so reports whichever comes first, a
fault of syntax or a value of the wrong type. `Reading.value?` is the value of a reading without a
fault.

A string may contain half of a surrogate pair. It is then no text, but it can be passed over.
-/

set_option autoImplicit false

namespace TextHistory.Json

/-- What could be read of a value. -/
inductive Reading where
  /-- A scalar with a fault of syntax. -/
  | broken
  | null
  | bool (b : Bool)
  | number (n : Number)
  /-- A string, with its text if it has one. -/
  | string (content : Option Text)
  /-- The items up to the first fault, and whether the array is closed. -/
  | array (items : List Reading) (closed : Bool)
  /-- The members up to the first fault, and whether the object is closed. -/
  | object (members : List (Option Text × Reading)) (closed : Bool)
  deriving Repr

/-- There is no fault of syntax anywhere in the value. -/
def Reading.isWhole : Reading → Bool
  | .broken => false
  | .array _ closed => closed
  | .object _ closed => closed
  | _ => true

/-! ## Blanks and literals -/

/-- The characters that may stand between tokens. -/
def isSpace (c : Char) : Bool := c == ' ' || c == '\n' || c == '\t' || c == '\r'

/-- The text from its first token on. -/
def skipSpace (t : Text) : Text := t.dropWhile isSpace

/-- The value of a literal, if the text begins with it. -/
def literal (name : String) (value : Reading) (t : Text) : Reading × Text :=
  if name.toList.isPrefixOf t then (value, t.drop name.length) else (.broken, t)

/-! ## Strings -/

/-- A piece of a string: a character, or one unit of a surrogate pair or of a character given by
its number. -/
inductive Piece where
  | char (c : Char)
  | unit (n : Nat)
  deriving DecidableEq, Repr

/-- The character after a backslash that stands for another one. -/
def unescape? : Char → Option Char
  | '"' => some '"'
  | '\\' => some '\\'
  | '/' => some '/'
  | 'b' => some '\x08'
  | 'f' => some '\x0c'
  | 'n' => some '\n'
  | 'r' => some '\r'
  | 't' => some '\t'
  | _ => none

/-- The pieces of a string up to its closing quote, and the text after it. -/
def pieces (seen : List Piece) : Text → Option (List Piece × Text)
  | [] => none
  | '"' :: rest => some (seen.reverse, rest)
  | '\\' :: 'u' :: a :: b :: c :: d :: rest =>
    match Hex.read? 16 [a, b, c, d] with
    | some n => pieces (.unit n :: seen) rest
    | none => none
  | '\\' :: c :: rest =>
    match unescape? c with
    | some c => pieces (.char c :: seen) rest
    | none => none
  | c :: rest => if c.toNat < 0x20 ∨ c = '\\' then none else pieces (.char c :: seen) rest

/-- The text that pieces spell, unless half of a surrogate pair stands alone. -/
def joinPieces (seen : Text) : List Piece → Option Text
  | [] => some seen.reverse
  | .char c :: rest => joinPieces (c :: seen) rest
  | .unit n :: rest =>
    if n < 0xD800 ∨ 0xE000 ≤ n then joinPieces (Char.ofNat n :: seen) rest
    else
      match rest with
      | .unit m :: rest =>
        if n < 0xDC00 ∧ 0xDC00 ≤ m ∧ m < 0xE000 then
          joinPieces (Char.ofNat (0x10000 + (n - 0xD800) * 0x400 + (m - 0xDC00)) :: seen) rest
        else none
      | _ => none

/-- A string after its opening quote, and the text after it; none when it has a fault. -/
def stringBody (t : Text) : Option (Option Text × Text) :=
  (pieces [] t).map fun (ps, rest) => (joinPieces [] ps, rest)

/-! ## Numbers -/

/-- The digits at the beginning of a text, and the rest. -/
def takeDigits (t : Text) : Text × Text := (t.takeWhile Char.isDigit, t.dropWhile Char.isDigit)

/-- The fraction at the beginning of a text, if there is one: as written, and the rest. None when
no digit follows the point. -/
def fraction (t : Text) : Option (Text × Text) :=
  match t with
  | '.' :: rest =>
    let (digits, rest) := takeDigits rest
    if digits.isEmpty then none else some ('.' :: digits, rest)
  | _ => some ([], t)

/-- The exponent at the beginning of a text, if there is one: as written, and the rest. -/
def exponent (t : Text) : Option (Text × Text) :=
  match t with
  | c :: rest =>
    if c = 'e' ∨ c = 'E' then
      let (sign, rest) := match rest with
        | '+' :: rest => (['+'], rest)
        | '-' :: rest => (['-'], rest)
        | _ => ([], rest)
      let (digits, rest) := takeDigits rest
      if digits.isEmpty then none else some (c :: sign ++ digits, rest)
    else some ([], t)
  | [] => some ([], t)

/-- A number without its sign: its digits, and what is written after them. -/
def magnitude (t : Text) : Option (Text × Text × Text) := do
  let (digits, rest) ← match t with
    | '0' :: rest => if (rest.head?.map Char.isDigit).getD false then none else some (['0'], rest)
    | _ => let (digits, rest) := takeDigits t; if digits.isEmpty then none else some (digits, rest)
  let (frac, rest) ← fraction rest
  let (exp, rest) ← exponent rest
  return (digits, frac ++ exp, rest)

/-- A number, and the text after it. -/
def readNumber (t : Text) : Reading × Text :=
  let (sign, body) := match t with
    | '-' :: rest => (['-'], rest)
    | _ => ([], t)
  match magnitude body with
  | none => (.broken, t)
  | some (digits, extra, rest) =>
    let n :=
      if !extra.isEmpty then Number.decimal (sign ++ digits ++ extra)
      else if sign.isEmpty then Number.natural (Numeral.value digits)
      else Number.negative (Numeral.value digits)
    (.number n, rest)

/-! ## Values -/

mutual

/-- A value at the beginning of a text, and the text after it. The first argument bounds the
number of steps; `2` for every character are enough. -/
def readValue : Nat → Text → Reading × Text
  | 0, t => (.broken, t)
  | steps + 1, t =>
    match t with
    | 'n' :: _ => literal "null" .null t
    | 't' :: _ => literal "true" (.bool true) t
    | 'f' :: _ => literal "false" (.bool false) t
    | '"' :: rest =>
      match stringBody rest with
      | some (content, rest) => (.string content, rest)
      | none => (.broken, rest)
    | '[' :: rest =>
      match skipSpace rest with
      | ']' :: rest => (.array [] true, rest)
      | rest => readItems steps [] rest
    | '{' :: rest =>
      match skipSpace rest with
      | '}' :: rest => (.object [] true, rest)
      | rest => readMembers steps [] rest
    | _ => readNumber t

/-- The items of an array from the first token of one of them on. -/
def readItems : Nat → List Reading → Text → Reading × Text
  | 0, seen, t => (.array seen.reverse false, t)
  | steps + 1, seen, t =>
    let (r, rest) := readValue steps t
    let seen := r :: seen
    if r.isWhole then
      match skipSpace rest with
      | ',' :: rest =>
        match skipSpace rest with
        | ']' :: rest => (.array seen.reverse false, rest)
        | rest => readItems steps seen rest
      | ']' :: rest => (.array seen.reverse true, rest)
      | rest => (.array seen.reverse false, rest)
    else (.array seen.reverse false, rest)

/-- The members of an object from the quote of a name on. -/
def readMembers : Nat → List (Option Text × Reading) → Text → Reading × Text
  | 0, seen, t => (.object seen.reverse false, t)
  | steps + 1, seen, t =>
    match t with
    | '"' :: rest =>
      match stringBody rest with
      | none => (.object seen.reverse false, rest)
      | some (name, rest) =>
        match skipSpace rest with
        | ':' :: rest =>
          let (r, rest) := readValue steps (skipSpace rest)
          let seen := (name, r) :: seen
          if r.isWhole then
            match skipSpace rest with
            | ',' :: rest => readMembers steps seen (skipSpace rest)
            | '}' :: rest => (.object seen.reverse true, rest)
            | rest => (.object seen.reverse false, rest)
          else (.object seen.reverse false, rest)
        | rest => (.object ((name, .broken) :: seen).reverse false, rest)
    | t => (.object seen.reverse false, t)

end

/-- A text read as one value: the reading, and whether nothing but blanks follows it. -/
structure Document where
  root : Reading
  ended : Bool
  deriving Repr

/-- Reads a text. -/
def read (t : Text) : Document :=
  let (r, rest) := readValue (2 * t.length + 2) (skipSpace t)
  ⟨r, (skipSpace rest).isEmpty⟩

/-! ## Values without a fault -/

/-- A member added to the members before it; one of the same name gives way to it. -/
def putMember (name : Text) (v : Json) (members : List (Text × Json)) : List (Text × Json) :=
  if members.any (·.1 == name) then
    members.map fun m => if m.1 == name then (name, v) else m
  else members ++ [(name, v)]

mutual

/-- The value of a reading, if there is no fault in it and every string is a text. -/
def Reading.value? : Reading → Option Json
  | .broken => none
  | .null => some .null
  | .bool b => some (.bool b)
  | .number n => some (.number n)
  | .string content => content.map .string
  | .array items closed => if closed then (valueItems? items).map .array else none
  | .object members closed => if closed then (valueMembers? [] members).map .object else none

def valueItems? : List Reading → Option (List Json)
  | [] => some []
  | r :: rest => do
    let v ← r.value?
    let vs ← valueItems? rest
    return v :: vs

def valueMembers? (seen : List (Text × Json)) :
    List (Option Text × Reading) → Option (List (Text × Json))
  | [] => some seen
  | (name, r) :: rest => do
    let name ← name
    let v ← r.value?
    valueMembers? (putMember name v seen) rest

end

/-- The value that a text spells. -/
def parse? (t : Text) : Option Json :=
  let d := read t
  if d.ended then d.root.value? else none

mutual

/-- A value as a reading without a fault. -/
def toReading : Json → Reading
  | .null => .null
  | .bool b => .bool b
  | .number n => .number n
  | .string t => .string (some t)
  | .array items => .array (itemReadings items) true
  | .object members => .object (memberReadings members) true

def itemReadings : List Json → List Reading
  | [] => []
  | j :: rest => toReading j :: itemReadings rest

def memberReadings : List (Text × Json) → List (Option Text × Reading)
  | [] => []
  | (k, v) :: rest => (some k, toReading v) :: memberReadings rest

end

end TextHistory.Json
