import TextHistory.Alignment.Shortest
import TextHistory.Edit.Merge
import TextHistory.Text.Lines

/-!
# The script between two texts

Texts are compared line by line first; where lines are replaced by other lines, the two sides are
compared once more character by character. The outcome is merged into a normal form. Equal texts
give one kept run, or nothing when they are empty.

What two lists of tokens share is found by a search that is given. It need not find all of it: a
search that is cut short gives a longer script between the same texts.
-/

set_option autoImplicit false

namespace TextHistory.Script

/-- The tokens of a stretch, as one text. -/
def pick (tokens : List Text) (start length : Nat) : Text :=
  ((tokens.drop start).take length).flatten

/-- The runs of a block; what it replaces is left to `refine`. -/
def ofBlock (old new : List Text) (refine : Text → Text → Script) : Block → Script
  | .equal o _ k => [⟨.equal, pick old o k⟩]
  | .delete o k _ => [⟨.delete, pick old o k⟩]
  | .insert _ n k => [⟨.insert, pick new n k⟩]
  | .replace o k n k' => refine (pick old o k) (pick new n k')

/-- A replaced text, as one deletion and one insertion. -/
def swap (old new : Text) : Script := [⟨.delete, old⟩, ⟨.insert, new⟩]

/-- The script between two texts, character by character. -/
def betweenChars (search : Aligner) (old new : Text) : Script :=
  let a := old.map fun c => [c]
  let b := new.map fun c => [c]
  (search a b).blocks.flatMap (ofBlock a b swap)

/-- The script between two texts, line by line and within replaced lines by characters. -/
def betweenLines (search : Aligner) (old new : Text) : Script :=
  let a := Text.lines old
  let b := Text.lines new
  (search a b).blocks.flatMap (ofBlock a b (betweenChars search))

/-- The script that leads from `old` to `new` by what a search finds. -/
def betweenBy (search : Aligner) (old new : Text) : Script :=
  if old = new then coalesce [⟨.equal, old⟩] else merge (coalesce (betweenLines search old new))

/-- The script that leads from `old` to `new` by a search that is not cut short. -/
def between (old new : Text) : Script := betweenBy Alignment.shortest old new

end TextHistory.Script
