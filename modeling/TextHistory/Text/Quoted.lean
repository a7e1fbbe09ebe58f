import TextHistory.Text.Printable

/-!
# Quoted text in messages

A text or a character between quotes, with everything that would not show escaped by a backslash:
a short form where there is one, else its number in braces.
-/

set_option autoImplicit false

namespace TextHistory.Quoted

/-- The lower-case hexadecimal digits of a number. -/
def hexDigits (n : Nat) : Text := Nat.toDigits 16 n

/-- One character inside quotes of the kind `quote`; only that kind is escaped. -/
def escape (quote c : Char) : Text :=
  if c = quote ∨ c = '\\' then ['\\', c]
  else if c = '\n' then ['\\', 'n']
  else if c = '\r' then ['\\', 'r']
  else if c = '\t' then ['\\', 't']
  else if c = '\x00' then ['\\', '0']
  else if Text.isPrintable c then [c]
  else ['\\', 'u', '{'] ++ hexDigits c.toNat ++ ['}']

/-- A text between double quotes. -/
def text (t : Text) : Text := '"' :: t.flatMap (escape '"') ++ ['"']

/-- A character between single quotes. -/
def char (c : Char) : Text := '\x27' :: escape '\x27' c ++ ['\x27']

end TextHistory.Quoted
