import TextHistory.Text.Hex
import TextHistory.Text.Utf8

/-!
# Percent-encoded text

A text as printable ASCII: the bytes of every character that is not kept are written as a percent
sign and two upper-case hexadecimal digits. Reading accepts more than writing produces: digits of
either case, unescaped characters of any kind, and a percent sign that no two digits follow, which
stands for itself.
-/

set_option autoImplicit false

namespace TextHistory.Percent

/-! ## Writing -/

/-- A byte as a percent sign and two digits. -/
def escape (b : UInt8) : Text := ['%', Hex.digit (b.toNat / 16), Hex.digit (b.toNat % 16)]

/-- Printable ASCII that is written as it is: all but the percent sign and the characters that
have a meaning of their own in an address. -/
def isKept (c : Char) : Bool :=
  0x20 ≤ c.toNat && c.toNat < 0x7F && !"%\"<>[\\]^`\x7b|\x7d".toList.contains c

/-- The written form of one character. -/
def encodeChar (c : Char) : Text :=
  if isKept c then [c] else (String.utf8EncodeChar c).flatMap escape

/-- The written form of a text. -/
def encode (t : Text) : Text := t.flatMap encodeChar

/-! ## Reading -/

/-- The bytes that a written form stands for. -/
def bytes : Text → List UInt8
  | '%' :: a :: b :: rest =>
    match Hex.value? a, Hex.value? b with
    | some x, some y => UInt8.ofNat (16 * x + y) :: bytes rest
    | _, _ => String.utf8EncodeChar '%' ++ bytes (a :: b :: rest)
  | c :: rest => String.utf8EncodeChar c ++ bytes rest
  | [] => []

/-- The text that a written form stands for. -/
def decode (t : Text) : Except Utf8.Fault Text := Utf8.decode (bytes t)

end TextHistory.Percent
