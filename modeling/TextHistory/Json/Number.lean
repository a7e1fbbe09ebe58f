import TextHistory.Json.Value
import TextHistory.Number.Double

/-!
# The values of JSON numbers

A number is read to a double in one pass and with one machine word: its digits are taken as long
as the number that they spell fits in a word, the digits after that only move the point, and the
word is then scaled by a power of ten. The result may be off by a few last places, and a number
just below the largest double can come out as too large.
-/

set_option autoImplicit false

namespace TextHistory.Json

/-- Takes digits behind those of a word, as long as the longer number is a word as well. Gives
that number, how many digits were taken, and the others. -/
def takeDigitsOfWord (n : Nat) : Text → Nat × Nat × Text
  | [] => (n, 0, [])
  | c :: rest =>
    let longer := 10 * n + Numeral.digit c
    if longer < wordLimit then
      let (m, taken, left) := takeDigitsOfWord longer rest
      (m, taken + 1, left)
    else (n, 0, c :: rest)

/-- Scales a number that is not negative by a power of ten; none if it gets too large. Powers
beyond the largest double are applied in several steps, of which the first argument bounds the
number; a word is zero after two. -/
def scaleWord : Nat → Double → Int → Option Double
  | 0, x, _ => some x
  | steps + 1, x, e =>
    if e.natAbs ≤ 308 then some (x.timesTen e) |>.filter Double.isFinite
    else if x.isZero then some x
    else if 0 ≤ e then none
    else scaleWord steps (x.timesTen (-308)) (e + 308)

/-- The value of digits before and after the point and an exponent. -/
def valueOfDigits (whole fraction : Text) (exponent : Int) : Option Double :=
  let (n, _, left) := takeDigitsOfWord 0 whole
  let (n, taken, _) := takeDigitsOfWord n fraction
  let place : Int := left.length - taken
  scaleWord 3 (Double.ofRatio false ⟨n, 1⟩) (place + exponent)

/-- The value of a number without a sign, as it is written. -/
def valueOfWritten (t : Text) : Option Double :=
  let whole := t.takeWhile Char.isDigit
  let rest := t.dropWhile Char.isDigit
  let (fraction, rest) := match rest with
    | '.' :: rest => (rest.takeWhile Char.isDigit, rest.dropWhile Char.isDigit)
    | _ => ([], rest)
  let (negative, digits) := Numeral.splitSign rest.tail
  let n := Numeral.value digits
  valueOfDigits whole fraction (if negative then -(n : Int) else n)

namespace Number

/-- The double that a number stands for; none if it is too large. -/
def value? : Number → Option Double
  | .natural n => valueOfDigits (Numeral.print n) [] 0
  | .negative n => (valueOfDigits (Numeral.print n) [] 0).map Double.negate
  | .decimal ('-' :: written) => (valueOfWritten written).map Double.negate
  | .decimal written => valueOfWritten written

/-- A number is too large for a double. -/
def overflows (n : Number) : Bool := n.value?.isNone

end Number

end TextHistory.Json
