import TextHistory.Text.Basic

/-!
# Decimal numerals

Natural numbers in decimal notation. A *word* is a number of the machine's address size, 64 bits;
its numeral may carry one leading plus sign and any number of leading zeros, but must not exceed
the largest word.
-/

set_option autoImplicit false

namespace TextHistory

/-- The number of 64-bit words: every word is smaller. -/
def wordLimit : Nat := Nat.pow 2 64

/-- Word arithmetic keeps the remainder modulo `2 ^ 64`. -/
def wrap (n : Nat) : Nat := n % wordLimit

/-- The largest signed word, and so the largest position a text may have. -/
def maxPosition : Nat := Nat.pow 2 63 - 1

theorem wrap_of_lt {n : Nat} (h : n < wordLimit) : wrap n = n := Nat.mod_eq_of_lt h

namespace Numeral

/-- The decimal digits of a number, without leading zeros. -/
def print (n : Nat) : Text := Nat.toDigits 10 n

/-- The value of one decimal digit. -/
def digit (c : Char) : Nat := c.toNat - '0'.toNat

/-- The number that a list of digits spells, whatever its length. -/
def value (digits : Text) : Nat := digits.foldl (fun n c => 10 * n + digit c) 0

/-- One or more decimal digits. -/
def read (t : Text) : Option Nat :=
  if t ≠ [] ∧ t.all Char.isDigit then some (value t) else none

/-- A sign, if there is one: whether it is a minus, and the text after it. -/
def splitSign : Text → Bool × Text
  | '-' :: rest => (true, rest)
  | '+' :: rest => (false, rest)
  | t => (false, t)

/-- A numeral of a word: an optional plus sign, then digits of a value below `2 ^ 64`. -/
def readWord (t : Text) : Option Nat :=
  let digits := match t with
    | '+' :: rest => rest
    | _ => t
  (read digits).filter (· < wordLimit)

/-- A word with a sign: an integer of 64 bits. -/
def isSignedWord (n : Int) : Bool := -(Nat.pow 2 63 : Int) ≤ n && n < (Nat.pow 2 63 : Int)

/-- A numeral of a word with a sign. -/
def readSigned (t : Text) : Option Int := do
  let (negative, digits) := splitSign t
  let n ← read digits
  let n : Int := if negative then -(n : Int) else n
  if isSignedWord n then some n else none

/-- The numeral of an integer. -/
def printSigned (n : Int) : Text := if n < 0 then '-' :: print n.natAbs else print n.toNat

end Numeral

end TextHistory
