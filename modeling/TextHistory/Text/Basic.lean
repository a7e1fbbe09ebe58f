/-!
# Texts

A text is a list of Unicode scalar values, and every coordinate in this library counts them.
This module holds what is asked of two texts, or of two token lists: how far they agree from
the front and from the back, where one occurs inside the other, what is left when one is cut out
of the other, whether one is a given word, and which one comes first.
-/

set_option autoImplicit false

namespace TextHistory

/-- A text: its scalar values in order. -/
abbrev Text := List Char

namespace Text

/-! ## Agreement at the two ends -/

/-- The length of the longest common beginning of two lists. -/
def commonLead {α : Type} [DecidableEq α] : List α → List α → Nat
  | x :: xs, y :: ys => if x = y then commonLead xs ys + 1 else 0
  | _, _ => 0

/-- The length of the longest common end of two lists. -/
def commonTail {α : Type} [DecidableEq α] (xs ys : List α) : Nat :=
  commonLead xs.reverse ys.reverse

theorem commonLead_le {α : Type} [DecidableEq α] (xs ys : List α) :
    commonLead xs ys ≤ xs.length ∧ commonLead xs ys ≤ ys.length := by
  fun_induction commonLead xs ys with
  | case1 x xs ys ih => simpa using ih
  | case2 => simp
  | case3 => simp

theorem take_commonLead {α : Type} [DecidableEq α] (xs ys : List α) :
    xs.take (commonLead xs ys) = ys.take (commonLead xs ys) := by
  fun_induction commonLead xs ys with
  | case1 x xs ys ih => simp [ih]
  | case2 => rfl
  | case3 => simp

theorem commonTail_le {α : Type} [DecidableEq α] (xs ys : List α) :
    commonTail xs ys ≤ xs.length ∧ commonTail xs ys ≤ ys.length := by
  simpa [commonTail] using commonLead_le xs.reverse ys.reverse

/-- The common end of two lists is the same stretch of both. -/
theorem drop_commonTail {α : Type} [DecidableEq α] (xs ys : List α) :
    xs.drop (xs.length - commonTail xs ys) = ys.drop (ys.length - commonTail xs ys) := by
  have h := congrArg List.reverse (take_commonLead xs.reverse ys.reverse)
  rwa [List.reverse_take, List.reverse_take, List.reverse_reverse, List.reverse_reverse,
    List.length_reverse, List.length_reverse] at h

/-! ## Occurrences -/

/-- `pattern` stands in `text` at position `at`, whole. -/
def occursAt (text pattern : Text) (position : Nat) : Bool :=
  decide (position ≤ text.length) && pattern.isPrefixOf (text.drop position)

/-- Every position at which `pattern` occurs, in ascending order and overlaps included. -/
def occurrences (text pattern : Text) : List Nat :=
  (List.range (text.length + 1)).filter (occursAt text pattern)

/-- `text` with the `length` characters from `start` on replaced by `inserted`. -/
def splice (text : Text) (start length : Nat) (inserted : Text) : Text :=
  text.take start ++ inserted ++ text.drop (start + length)

/-- The characters of `text` from `start` up to but not including `stop`. -/
def slice (text : Text) (start stop : Nat) : Text := (text.take stop).drop start

/-! ## Cutting -/

/-- A text without a given beginning, if it has it. -/
def stripLead? (lead t : Text) : Option Text :=
  if lead.isPrefixOf t then some (t.drop lead.length) else none

/-- A text without a given end, if it has it. -/
def stripTail? (tail t : Text) : Option Text :=
  if tail.isSuffixOf t then some (t.take (t.length - tail.length)) else none

/-- The parts of a text before and after the first occurrence of a separator. -/
def splitFirst? (separator : Text) : Text → Option (Text × Text)
  | [] => if separator.isEmpty then some ([], []) else none
  | c :: rest =>
    if separator.isPrefixOf (c :: rest) then some ([], (c :: rest).drop separator.length)
    else (splitFirst? separator rest).map fun (a, b) => (c :: a, b)

/-! ## Words -/

/-- A text is a word, which is given in small letters, in any mixture of the ASCII cases. -/
def isWord (word : String) (t : Text) : Bool := t.map Char.toLower == word.toList

/-! ## Order -/

/-- The order of texts: by characters, as the bytes of their UTF-8 form would have it. -/
def precedes : Text → Text → Bool
  | [], _ => true
  | _ :: _, [] => false
  | a :: s, b :: t => a.toNat < b.toNat || (a == b && precedes s t)

end Text

end TextHistory
