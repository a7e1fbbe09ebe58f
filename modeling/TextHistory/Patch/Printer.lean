import TextHistory.Patch.Basic
import TextHistory.Text.Numeral
import TextHistory.Text.Percent

/-!
# The text form of a patch

A hunk is written as a heading with its two ranges and a line for each of its runs: the sign of
the operation and the percent-encoded text. A range is a place counted from one, with its length
unless that is one; an empty range gives the place counted from zero.
-/

set_option autoImplicit false

namespace TextHistory

/-- The sign that stands for an operation. -/
def EditKind.sign : EditKind → Char
  | .equal => ' '
  | .delete => '-'
  | .insert => '+'

namespace Hunk

/-- A range in a heading. -/
def printRange (start length : Nat) : Text :=
  match length with
  | 0 => Numeral.print start ++ [',', '0']
  | 1 => Numeral.print (start + 1)
  | n => Numeral.print (start + 1) ++ ',' :: Numeral.print n

/-- The heading of a hunk, without a line end. -/
def heading (h : Hunk) : Text :=
  "@@ -".toList ++ printRange h.oldStart h.oldLength
    ++ (" +".toList ++ (printRange h.newStart h.newLength ++ " @@".toList))

/-- The line of a run, without a line end. -/
def printEdit (e : Edit) : Text := e.kind.sign :: Percent.encode e.text

/-- The lines of a hunk. -/
def print (h : Hunk) : Text :=
  h.heading ++ '\n' :: h.edits.flatMap fun e => printEdit e ++ ['\n']

end Hunk

/-- The text form of a patch. -/
def Patch.print (p : Patch) : Text := p.flatMap Hunk.print

end TextHistory
