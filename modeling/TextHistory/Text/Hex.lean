import TextHistory.Text.Basic

/-!
# Hexadecimal digits

Digits of the bases up to sixteen, of either case, and the characters that are given by their
number in such digits.
-/

set_option autoImplicit false

namespace TextHistory.Hex

/-- The upper-case digit of a number below sixteen. -/
def digit (n : Nat) : Char := "0123456789ABCDEF".toList.getD n '0'

/-- The number that a digit of either case stands for. -/
def value? (c : Char) : Option Nat :=
  let n := c.toNat
  if 0x30 ≤ n ∧ n ≤ 0x39 then some (n - 0x30)
  else if 0x41 ≤ n ∧ n ≤ 0x46 then some (n - 0x41 + 10)
  else if 0x61 ≤ n ∧ n ≤ 0x66 then some (n - 0x61 + 10)
  else none

/-- The character is a digit of a base. -/
def isDigit (base : Nat) (c : Char) : Bool := (value? c).any (· < base)

/-- The number that one or more digits of a base spell. -/
def read? (base : Nat) (digits : Text) : Option Nat :=
  if digits ≠ [] ∧ digits.all (isDigit base) then
    some (digits.foldl (fun n c => base * n + (value? c).getD 0) 0)
  else none

/-- The character with a number in hexadecimal digits. -/
def char? (digits : Text) : Option Char := do
  let n ← read? 16 digits
  if n < 0xD800 ∨ (0xE000 ≤ n ∧ n < 0x110000) then some (Char.ofNat n) else none

end TextHistory.Hex
