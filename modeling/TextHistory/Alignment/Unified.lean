import TextHistory.Alignment.Shortest
import TextHistory.Text.Lines
import TextHistory.Text.Numeral

/-!
# Unified differences

Two texts compared line by line in the unified format: changed lines with three kept lines around
them, in groups that are set apart where more than six lines are kept in a row. Texts without a
difference give no output at all.
-/

set_option autoImplicit false

namespace TextHistory.Unified

/-- The number of kept lines around a change. -/
def radius : Nat := 3

/-! ## Groups of blocks -/

/-- A kept block without its first tokens, so that `radius` are left. -/
def cutFront : Block → Block
  | .equal o n k => .equal (o + (k - radius)) (n + (k - radius)) (k - (k - radius))
  | b => b

/-- A kept block without its last tokens, so that `radius` are left. -/
def cutBack : Block → Block
  | .equal o n k => .equal o n (k - (k - radius))
  | b => b

/-- The blocks with a kept beginning and a kept end cut down to the radius. -/
def trimEnds (blocks : List Block) : List Block :=
  let blocks := match blocks with
    | [] => []
    | b :: rest => cutFront b :: rest
  match blocks.getLast? with
  | none => blocks
  | some b => blocks.dropLast ++ [cutBack b]

/-- Whether a group of blocks has nothing to show: it is empty, or keeps a single stretch. -/
def isIdle : List Block → Bool
  | [] => true
  | [.equal ..] => true
  | _ => false

/-- Splits blocks into groups at the kept stretches of more than twice the radius; `open?` is the
group being gathered, in reverse. A last group with nothing to show is left out. -/
def split (gathered : List Block) : List Block → List (List Block)
  | [] => if isIdle gathered then [] else [gathered.reverse]
  | .equal o n k :: rest =>
    if 2 * radius < k then
      (.equal o n radius :: gathered).reverse
        :: split [.equal (o + (k - radius)) (n + (k - radius)) radius] rest
    else split (.equal o n k :: gathered) rest
  | b :: rest => split (b :: gathered) rest

/-- The groups of an alignment. -/
def groups (blocks : List Block) : List (List Block) := split [] (trimEnds blocks)

/-! ## Ranges -/

/-- Where a block starts in the old list and where it ends there. -/
def oldRange : Block → Nat × Nat
  | .equal o _ k => (o, o + k)
  | .delete o k _ => (o, o + k)
  | .insert o _ _ => (o, o)
  | .replace o k _ _ => (o, o + k)

/-- Where a block starts in the new list and where it ends there. -/
def newRange : Block → Nat × Nat
  | .equal _ n k => (n, n + k)
  | .delete _ _ n => (n, n)
  | .insert _ n k => (n, n + k)
  | .replace _ _ n k => (n, n + k)

/-- A range of lines, counted from one: the place alone for a single line, and the place before
for none. -/
def printRange (start stop : Nat) : Text :=
  match stop - start with
  | 1 => Numeral.print (start + 1)
  | 0 => Numeral.print start ++ ",0".toList
  | n => Numeral.print (start + 1) ++ [','] ++ Numeral.print n

/-- The heading of a group, from where its first block starts to where its last one ends. -/
def heading (group : List Block) : Text :=
  match group.head?, group.getLast? with
  | some first, some last =>
    "@@ -".toList ++ printRange (oldRange first).1 (oldRange last).2
      ++ " +".toList ++ printRange (newRange first).1 (newRange last).2 ++ " @@\n".toList
  | _, _ => []

/-! ## Lines -/

/-- A line behind its sign; a line without an end is given one and a note. -/
def printLine (sign : Char) (line : Text) : Text :=
  sign :: line
    ++ if Text.lacksEnd line then "\n\\ No newline at end of file\n".toList else []

/-- The lines of a block behind their signs. -/
def printBlock (old new : List Text) : Block → Text
  | .equal o _ k => ((old.drop o).take k).flatMap (printLine ' ')
  | .delete o k _ => ((old.drop o).take k).flatMap (printLine '-')
  | .insert _ n k => ((new.drop n).take k).flatMap (printLine '+')
  | .replace o k n k' =>
    ((old.drop o).take k).flatMap (printLine '-') ++ ((new.drop n).take k').flatMap (printLine '+')

/-- The unified difference of two texts under the given labels. -/
def difference (old new oldLabel newLabel : Text) : Text :=
  let a := Text.lines old
  let b := Text.lines new
  match groups (Alignment.shortest a b).blocks with
  | [] => []
  | gs =>
    "--- ".toList ++ oldLabel ++ "\n+++ ".toList ++ newLabel ++ ['\n']
      ++ gs.flatMap fun g => heading g ++ g.flatMap (printBlock a b)

end TextHistory.Unified
