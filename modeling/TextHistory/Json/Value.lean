import TextHistory.Text.Numeral

/-!
# JSON values

A JSON value keeps apart what a reader of a certain type of value has to keep apart: a number
written as a plain sequence of digits, one with a minus sign, and one with a fraction or an
exponent. Objects keep their members in order.
-/

set_option autoImplicit false

namespace TextHistory

namespace Json

/-- A number by the form in which it is written. -/
inductive Number where
  /-- Digits alone. -/
  | natural (n : Nat)
  /-- A minus sign and digits; the digits may be all zero. -/
  | negative (n : Nat)
  /-- With a fraction or an exponent, as written. -/
  | decimal (written : Text)
  deriving DecidableEq, Repr

end Json

/-- A JSON value. -/
inductive Json where
  | null
  | bool (b : Bool)
  | number (n : Json.Number)
  | string (t : Text)
  | array (items : List Json)
  | object (members : List (Text × Json))
  deriving Repr

namespace Json

/-- A natural number as a value. -/
def nat (n : Nat) : Json := .number (.natural n)

/-- A fixed text as a value. -/
def word (s : String) : Json := .string s.toList

/-- A value, or null where there is none. -/
def ofOption {α : Type} (f : α → Json) : Option α → Json
  | none => .null
  | some a => f a

/-- An object with fixed names. -/
def record (members : List (String × Json)) : Json :=
  .object (members.map fun (k, v) => (k.toList, v))

/-- The value of a member of an object; of members with one name the last one counts. -/
def get? (j : Json) (name : String) : Option Json :=
  match j with
  | .object members => (members.reverse.find? (·.1 == name.toList)).map (·.2)
  | _ => none

/-! ## Writing -/

/-- One character between quotes. -/
def escape (c : Char) : Text :=
  match c with
  | '"' => ['\\', '"']
  | '\\' => ['\\', '\\']
  | '\n' => ['\\', 'n']
  | '\r' => ['\\', 'r']
  | '\t' => ['\\', 't']
  | '\x08' => ['\\', 'b']
  | '\x0c' => ['\\', 'f']
  | c =>
    if c.toNat < 0x20 then
      "\\u00".toList ++ [Nat.digitChar (c.toNat / 16), Nat.digitChar (c.toNat % 16)]
    else [c]

/-- A text between quotes. -/
def printString (t : Text) : Text := '"' :: t.flatMap escape ++ ['"']

/-- A number as it is written. -/
def Number.print : Number → Text
  | .natural n => Numeral.print n
  | .negative n => '-' :: Numeral.print n
  | .decimal written => written

mutual

/-- The written form of a value, without blanks. -/
def print : Json → Text
  | .null => "null".toList
  | .bool true => "true".toList
  | .bool false => "false".toList
  | .number n => n.print
  | .string t => printString t
  | .array items => '[' :: printItems items ++ [']']
  | .object members => '{' :: printMembers members ++ ['}']

/-- The items of an array, with commas between them. -/
def printItems : List Json → Text
  | [] => []
  | [j] => print j
  | j :: rest => print j ++ ',' :: printItems rest

/-- The members of an object, with commas between them. -/
def printMembers : List (Text × Json) → Text
  | [] => []
  | [(k, v)] => printString k ++ ':' :: print v
  | (k, v) :: rest => printString k ++ ':' :: (print v ++ ',' :: printMembers rest)

end

end Json

end TextHistory
