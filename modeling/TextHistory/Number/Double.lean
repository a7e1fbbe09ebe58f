import TextHistory.Text.Numeral

/-!
# Doubles

Binary floating-point numbers with 53 bits of precision, held exactly. A decimal is read to the
nearest double, a half going to the even one. A double is written with the fewest digits that read
back to it, of those the nearest, always positionally and without a point where it is whole. A
double can be scaled by a power of ten, with a rounding of its own.
-/

set_option autoImplicit false

namespace TextHistory

/-- A double: `m * 2 ^ e` with its sign, where `m < 2 ^ 53` and `-1074 ≤ e ≤ 971`, and where `m` is
at least `2 ^ 52` unless `e` is the least exponent. -/
inductive Double where
  | finite (negative : Bool) (m : Nat) (e : Int)
  | infinite (negative : Bool)
  | nan
  deriving DecidableEq, Repr

namespace Double

/-! ## Ratios -/

/-- A positive number as a quotient. -/
structure Ratio where
  num : Nat
  den : Nat
  deriving DecidableEq, Repr

namespace Ratio

/-- The quotient times a power of a base. -/
def scale (base : Nat) (r : Ratio) (e : Int) : Ratio :=
  ⟨r.num * Nat.pow base e.toNat, r.den * Nat.pow base (-e).toNat⟩

def floor (r : Ratio) : Nat := r.num / r.den

/-- The nearest number, a half going to the even one. -/
def roundEven (r : Ratio) : Nat :=
  let q := r.num / r.den
  let twice := 2 * (r.num % r.den)
  if r.den < twice ∨ (twice = r.den ∧ q % 2 = 1) then q + 1 else q

/-- The nearest number, a half going up. -/
def roundUp (r : Ratio) : Nat := (2 * r.num + r.den) / (2 * r.den)

end Ratio

/-! ## Reading -/

/-- The double nearest to a quotient. -/
def ofRatio (negative : Bool) (r : Ratio) : Double :=
  if r.num = 0 then .finite negative 0 (-1074)
  else
    let e := (r.num.log2 : Int) - r.den.log2 - 53
    let e := if (r.scale 2 (-e)).floor < Nat.pow 2 53 then e else e + 1
    let e := max e (-1074)
    let m := (r.scale 2 (-e)).roundEven
    let (m, e) := if m = Nat.pow 2 53 then (Nat.pow 2 52, e + 1) else (m, e)
    if 971 < e then .infinite negative else .finite negative m e

/-- The double nearest to a number whose digits are followed by a power of ten. -/
def ofDecimal (negative : Bool) (digits : Text) (exponent : Int) : Double :=
  let digits := digits.dropWhile (· == '0')
  let size : Int := digits.length + exponent
  if digits.isEmpty ∨ size < -400 then .finite negative 0 (-1074)
  else if 400 < size then .infinite negative
  else ofRatio negative (Ratio.scale 10 ⟨Numeral.value digits, 1⟩ exponent)

/-- The exponent at the end of a number, which begins with the letter. -/
def exponent? : Text → Option Int
  | [] => some 0
  | _ :: rest => do
    let (negative, digits) := Numeral.splitSign rest
    let n ← Numeral.read digits
    return if negative then -(n : Int) else n

/-- The double nearest to a written number: a decimal with digits before or after the point, the
word for an infinite number, or the one for no number. -/
def read? (t : Text) : Option Double :=
  let (negative, body) := Numeral.splitSign t
  if Text.isWord "inf" body ∨ Text.isWord "infinity" body then some (.infinite negative)
  else if Text.isWord "nan" body then some .nan
  else
    let mantissa := body.takeWhile fun c => c != 'e' && c != 'E'
    let whole := mantissa.takeWhile (· != '.')
    let fraction := (mantissa.dropWhile (· != '.')).drop 1
    let digits := whole ++ fraction
    if digits.isEmpty ∨ !digits.all Char.isDigit then none
    else
      (exponent? (body.drop mantissa.length)).map fun e =>
        ofDecimal negative digits (e - fraction.length)

/-! ## Writing -/

/-- The numbers that read back to a double, in quarters of its last place: those between the two
bounds, and the bounds too if `closed`. -/
structure Span where
  low : Ratio
  value : Ratio
  high : Ratio
  closed : Bool
  deriving DecidableEq, Repr

/-- The numbers that read back to `m * 2 ^ e`. The next double below is nearer than the next one
above where `m` is the least that the exponent allows. -/
def span (m : Nat) (e : Int) : Span :=
  let quarter : Ratio := Ratio.scale 2 ⟨1, 1⟩ (e - 2)
  let times (k : Nat) : Ratio := ⟨k * quarter.num, quarter.den⟩
  let below := if m = Nat.pow 2 52 ∧ -1074 < e then 1 else 2
  ⟨times (4 * m - below), times (4 * m), times (4 * m + 2), m % 2 = 0⟩

/-- The number `d` reads back, where all bounds have been scaled to its place. -/
def Span.contains (s : Span) (d : Nat) : Bool :=
  if s.closed then s.low.num ≤ d * s.low.den ∧ d * s.high.den ≤ s.high.num
  else s.low.num < d * s.low.den ∧ d * s.high.den < s.high.num

/-- A span in units of a power of ten. -/
def Span.inUnits (s : Span) (place : Int) : Span :=
  ⟨s.low.scale 10 (-place), s.value.scale 10 (-place), s.high.scale 10 (-place), s.closed⟩

/-- The nearest number of the given place that reads back. -/
def Span.hit? (s : Span) (place : Int) : Option Nat :=
  let s := s.inUnits place
  let below := s.value.floor
  match s.contains below, s.contains (below + 1) with
  | true, true => some s.value.roundEven
  | true, false => some below
  | false, true => some (below + 1)
  | false, false => none

/-- The place of the first digit of a number that is not zero. -/
def firstPlace (r : Ratio) : Int :=
  if r.den ≤ r.num then (Numeral.print r.floor).length - 1
  else -((Numeral.print (r.den.pred / r.num)).length : Int)

/-- The first hit on ever finer places; seventeen digits are always enough. -/
def shortestFrom (s : Span) : Nat → Int → Nat × Int
  | 0, place => (s.inUnits place |>.value.roundEven, place)
  | more + 1, place =>
    match s.hit? place with
    | some d => (d, place)
    | none => shortestFrom s more (place - 1)

/-- The fewest digits that read back to `m * 2 ^ e`, as a number and the place of its last digit. -/
def shortest (m : Nat) (e : Int) : Nat × Int :=
  let s := span m e
  shortestFrom s 16 (firstPlace s.value)

/-- A number with a last place, written without an exponent. -/
def printPositional (d : Nat) (place : Int) : Text :=
  let digits := Numeral.print d
  if 0 ≤ place then digits ++ List.replicate place.toNat '0'
  else
    let after := (-place).toNat
    let digits := List.replicate (after + 1 - digits.length) '0' ++ digits
    let fraction := (digits.drop (digits.length - after)).reverse.dropWhile (· == '0')
    let whole := digits.take (digits.length - after)
    if fraction.isEmpty then whole else whole ++ '.' :: fraction.reverse

def signed (negative : Bool) (t : Text) : Text := if negative then '-' :: t else t

/-- The written form of a double. -/
def print : Double → Text
  | .finite negative m e =>
    if m = 0 then signed negative ['0']
    else
      let (d, place) := shortest m e
      signed negative (printPositional d place)
  | .infinite negative => signed negative "inf".toList
  | .nan => "NaN".toList

/-! ## Scaling -/

/-- Multiplies or divides by a power of ten that is rounded to a double first. -/
def timesTen (x : Double) (e : Int) : Double :=
  match x, ofDecimal false ['1'] e.natAbs with
  | .finite negative m k, .finite _ n l =>
    if 0 ≤ e then ofRatio negative (Ratio.scale 2 ⟨m * n, 1⟩ (k + l))
    else ofRatio negative (Ratio.scale 2 ⟨m, n⟩ (k - l))
  | .finite negative m _, _ =>
    if e < 0 ∨ m = 0 then .finite negative 0 (-1074) else .infinite negative
  | x, _ => x

/-- The opposite number. -/
def negate : Double → Double
  | .finite negative m e => .finite (!negative) m e
  | .infinite negative => .infinite (!negative)
  | .nan => .nan

/-! ## Conversions -/

/-- The value is a number, and not an infinite one. -/
def isFinite : Double → Bool
  | .finite .. => true
  | _ => false

/-- The value is a zero of either sign. -/
def isZero : Double → Bool
  | .finite _ m _ => m = 0
  | _ => false

/-- The nearest word, a half going up; what lies below zero or is no number becomes zero, and what
is too large the largest word. -/
def toWord : Double → Nat
  | .finite false m e => min (Ratio.scale 2 ⟨m, 1⟩ e).roundUp (wordLimit - 1)
  | .infinite false => wordLimit - 1
  | _ => 0

end Double

end TextHistory
