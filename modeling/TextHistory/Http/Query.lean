import TextHistory.Text.Percent

/-!
# Queries

The named parameters of an address. In written form the pairs are joined by ampersands, a name and
its value by an equals sign, a space is a plus sign, and the bytes of every character but a few are
percent-encoded. Reading takes any text: a plus sign is made a space before percent signs are looked
at, so an encoded plus sign stays one, and bytes that are not UTF-8 are replaced.
-/

set_option autoImplicit false

namespace TextHistory

/-- Named parameters, in order. -/
abbrev Query := List (Text × Text)

namespace Query

/-! ## Writing -/

/-- The characters that are written as they are. -/
def isKept (c : Char) : Bool :=
  c.isAlphanum || c == '*' || c == '-' || c == '.' || c == '_'

/-- The written form of one character. -/
def encodeChar (c : Char) : Text :=
  if c = ' ' then ['+']
  else if isKept c then [c]
  else (String.utf8EncodeChar c).flatMap Percent.escape

/-- The written form of a name or a value. -/
def encode (t : Text) : Text := t.flatMap encodeChar

/-- The written form of parameters. -/
def print : Query → Text
  | [] => []
  | [(k, v)] => encode k ++ '=' :: encode v
  | (k, v) :: rest => encode k ++ '=' :: (encode v ++ '&' :: print rest)

/-! ## Reading -/

/-- The name or value that a written form stands for. -/
def decode (t : Text) : Text :=
  Utf8.decodeLossy (Percent.bytes (t.map fun c => if c = '+' then ' ' else c))

/-- A name and its value; a pair without an equals sign has an empty value. -/
def readPair (t : Text) : Text × Text :=
  (decode (t.takeWhile (· != '=')), decode ((t.dropWhile (· != '=')).drop 1))

/-- The parameters of a written form; empty pairs are passed over. -/
def read (t : Text) : Query :=
  ((t.splitOn '&').filter fun pair => !pair.isEmpty).map readPair

/-! ## Looking parameters up -/

/-- The value of the first parameter with a name. -/
def get? (q : Query) (name : String) : Option Text :=
  (q.find? (·.1 == name.toList)).map (·.2)

/-- A parameter occurs more than once. -/
def repeats (q : Query) (name : String) : Bool := 1 < q.countP (·.1 == name.toList)

end Query

end TextHistory
