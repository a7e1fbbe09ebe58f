import TextHistory.Text.Numeral

/-!
# Checked words

A computation in which nothing is taken for granted: a sum, a difference or a product that is no
word, a number that has no counterpart of the other signedness, and a stretch that does not lie
inside its text are faults and end it. Some sums and differences may leave the words and are tested;
these are options and no faults.

Texts are searched here position by position, as a search runs: outward from an expected position
on both sides at once, until the pattern is found or both sides have run out; and from the left, to
tell whether a pattern stands in a text once.
-/

set_option autoImplicit false

namespace TextHistory

/-- What can go wrong with words and with stretches of texts. -/
inductive WordFault where
  /-- A sum, a difference or a product is no word. -/
  | overflow
  /-- A difference is no signed word and has been brought into their range. -/
  | saturated
  /-- A number has no counterpart of the other signedness. -/
  | lostValue
  /-- A stretch does not lie inside its text. -/
  | outside
  /-- A loop has not ended within the steps it is given. -/
  | endless
  deriving DecidableEq, Repr

/-- A computation that a fault ends. -/
abbrev Checked (α : Type) := Except WordFault α

/-- A value that must be there. -/
def Checked.require {α : Type} (fault : WordFault) : Option α → Checked α
  | some a => .ok a
  | none => .error fault

/-! ## Words -/

namespace Word

/-- A sum, if it is a word. -/
def add? (a b : Nat) : Option Nat := if a + b < wordLimit then some (a + b) else none

/-- A difference, if it is a word. -/
def sub? (a b : Nat) : Option Nat := if b ≤ a then some (a - b) else none

/-- A word as a signed one, if it is not too large. -/
def signed? (n : Nat) : Option Int := if n ≤ maxPosition then some (n : Int) else none

/-- A sum of signed words, if it is one. -/
def signedAdd? (a b : Int) : Option Int :=
  if Numeral.isSignedWord (a + b) then some (a + b) else none

/-- A sum. -/
def add (a b : Nat) : Checked Nat := .require .overflow (add? a b)

/-- A difference. -/
def sub (a b : Nat) : Checked Nat := .require .overflow (sub? a b)

/-- A product. -/
def mul (a b : Nat) : Checked Nat :=
  if a * b < wordLimit then .ok (a * b) else .error .overflow

/-- A word as a signed one. -/
def signed (n : Nat) : Checked Int := .require .lostValue (signed? n)

/-- A signed word as one without a sign. -/
def unsigned (n : Int) : Checked Nat :=
  if 0 ≤ n ∧ n < wordLimit then .ok n.toNat else .error .lostValue

/-- A difference of signed words. -/
def signedSub (a b : Int) : Checked Int :=
  if Numeral.isSignedWord (a - b) then .ok (a - b) else .error .overflow

/-- A difference of signed words that stays in their range: it loses its value where it would leave
the range. -/
def signedSubWithin (a b : Int) : Checked Int :=
  if Numeral.isSignedWord (a - b) then .ok (a - b) else .error .saturated

end Word

namespace Text

/-! ## Stretches -/

/-- The stretch from `start` to `stop`. -/
def cut (t : Text) (start stop : Nat) : Checked Text :=
  if start ≤ stop ∧ stop ≤ t.length then .ok (slice t start stop) else .error .outside

/-- The text with the stretch from `start` to `stop` replaced. -/
def replace (t : Text) (start stop : Nat) (inserted : Text) : Checked Text :=
  if start ≤ stop ∧ stop ≤ t.length then .ok (splice t start (stop - start) inserted)
  else .error .outside

/-! ## Searching -/

/-- Whether a pattern stands at a position, which is not read when it lies behind `last`. -/
def readsAt (text pattern : Text) (last position : Nat) : Checked Bool :=
  if position ≤ last then do
    let stop ← Word.add position pattern.length
    let stretch ← cut text position stop
    return stretch == pattern
  else return false

/-- The same for a position that there may not be. -/
def readsAt? (text pattern : Text) (last : Nat) : Option Nat → Checked Bool
  | none => .ok false
  | some position => readsAt text pattern last position

/-- Looks for a pattern at the two positions `d` away from the expected one, the smaller one first,
and then farther away. The search ends early when neither side has a position left. -/
def seek (text pattern : Text) (last expected : Nat) : Nat → Nat → Checked (Option Nat)
  | 0, _ => .ok none
  | steps + 1, d => do
    let below := Word.sub? expected d
    let above := Word.add? expected d
    let foundBelow ← readsAt? text pattern last below
    if foundBelow then return below
    else
      -- both sides begin at the same position, which is looked at once
      let foundAbove ← readsAt? text pattern last (if 0 < d then above else none)
      if foundAbove then return above
      else if below.all (· == 0) && above.all (last ≤ ·) then return none
      else seek text pattern last expected steps (d + 1)

/-- The occurrence of a pattern nearest to the expected position and not farther than `range` from
it, the smaller one of two that are as near. -/
def seekNearest (text pattern : Text) (expected range : Nat) : Checked (Option Nat) :=
  match Word.sub? text.length pattern.length with
  | none => .ok none
  | some last => seek text pattern last expected (range + 1) 0

/-- Looks for a pattern from a position on. -/
def seekRight (text pattern : Text) (last : Nat) : Nat → Nat → Checked (Option Nat)
  | 0, _ => .ok none
  | steps + 1, position => do
    let found ← readsAt text pattern last position
    if found then return position
    else seekRight text pattern last steps (position + 1)

/-- The first occurrence of a pattern from a position on. -/
def seekFirst (text pattern : Text) (start : Nat) : Checked (Option Nat) :=
  match Word.sub? text.length pattern.length with
  | none => .ok none
  | some last => seekRight text pattern last (last + 1 - start) start

/-- Whether a pattern stands in a text no more than once. -/
def standsOnce (text pattern : Text) : Checked Bool :=
  if pattern.isEmpty then return text.isEmpty
  else do
    match ← seekFirst text pattern 0 with
    | none => return true
    | some first =>
      let next ← Word.add first 1
      let second ← seekFirst text pattern next
      return second.isNone

end Text

end TextHistory
