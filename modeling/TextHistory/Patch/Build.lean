import TextHistory.Patch.Basic
import TextHistory.Text.Numeral

/-!
# Building a patch from a script

The edits of a script are gathered into hunks: a kept run of at most twice the margin stays inside
the hunk, a longer one ends it. A finished hunk is surrounded by enough of the text before it and
after it to tell its place: the context grows by the margin until what the hunk looks for occurs
only once or is long enough, and then once more.

Margins are words, and sums and products of words are taken modulo `2 ^ 64`. A margin near that
limit can so ask for context that ends before it begins; then there is no patch. Neither is there
one when the script deletes or inserts outside the text.
-/

set_option autoImplicit false

namespace TextHistory

/-- How long the text a hunk looks for is made in search of a unique place. -/
def settledLength : Nat := 32

namespace Hunk

/-- A hunk to which nothing has been added yet. -/
def empty : Hunk := ⟨[], 0, 0, 0, 0⟩

/-! ## Context -/

/-- No two places of the text hold the pattern; the empty pattern has one place only in the empty
text. -/
def occursOnce (text pattern : Text) : Bool :=
  if pattern.isEmpty then text.isEmpty else (Text.occurrences text pattern).length ≤ 1

/-- The end of the stretch of a text that ends at `stop`, moved on by `padding`. -/
def paddedStop (text : Text) (stop padding : Nat) : Nat := min (wrap (stop + padding)) text.length

/-- The stretch from `start` to `stop`, with `padding` more characters on each side as far as the
text goes; none when its end comes to lie before its start. -/
def window (text : Text) (start stop padding : Nat) : Option Text :=
  let low := start - padding
  let high := paddedStop text stop padding
  if low ≤ high then some (Text.slice text low high) else none

/-- A pattern that is not extended further. -/
def isSettled (text : Text) (margin : Nat) (pattern : Text) : Bool :=
  occursOnce text pattern || settledLength - wrap (2 * margin) ≤ pattern.length

/-- The padding at which the pattern is settled, tried from `padding` on in steps of the margin.
Every step makes the pattern longer by at least one character or reaches both ends of the text,
so no more than `settledLength` steps are made. -/
def growth (text : Text) (start stop margin : Nat) : Nat → Nat → Option Nat
  | 0, padding => some padding
  | steps + 1, padding =>
    match window text start stop padding with
    | none => none
    | some pattern =>
      if isSettled text margin pattern then some padding
      else growth text start stop margin steps (wrap (padding + margin))

/-- A kept run, unless it is empty. -/
def context (t : Text) : Script := if t.isEmpty then [] else [⟨.equal, t⟩]

/-- A hunk with the given context before and after it. -/
def surroundBy (h : Hunk) (lead trail : Text) : Hunk :=
  { edits := context lead ++ h.edits ++ context trail
    oldStart := h.oldStart - lead.length
    oldLength := h.oldLength + (lead.length + trail.length)
    newStart := h.newStart - lead.length
    newLength := h.newLength + (lead.length + trail.length) }

/-- A hunk with its context in the text it is applied to. -/
def surround (h : Hunk) (text : Text) (margin : Nat) : Option Hunk :=
  if text.isEmpty then some h
  else do
    let start := min h.newStart text.length
    let stop := min (h.newStart + h.oldLength) text.length
    let grown ← growth text start stop margin (settledLength + 1) 0
    let padding := wrap (grown + margin)
    let high := paddedStop text stop padding
    if high < stop then none
    else
      some (h.surroundBy (Text.slice text (start - padding) start) (Text.slice text stop high))

end Hunk

/-! ## Gathering -/

/-- A patch under construction. -/
structure Draft where
  /-- The finished hunks, last one first. -/
  finished : List Hunk
  /-- The hunk being gathered; it has no edits while none is open. -/
  hunk : Hunk
  /-- The text with the finished hunks applied. -/
  rolling : Text
  /-- The text with every edit so far applied. -/
  current : Text
  /-- How much of `current` lies behind. -/
  position : Nat
  deriving DecidableEq, Repr

namespace Draft

/-- A draft for a text, before the first edit. -/
def start (text : Text) : Draft := ⟨[], Hunk.empty, text, text, 0⟩

/-- The open hunk; one is opened here if there is none. -/
def opened (d : Draft) : Hunk :=
  if d.hunk.edits.isEmpty then { d.hunk with oldStart := d.position, newStart := d.position }
  else d.hunk

/-- Adds an insertion. -/
def insert (d : Draft) (t : Text) : Option Draft :=
  if d.current.length < d.position then none
  else
    let h := d.opened
    some { d with
      hunk := { h with edits := h.edits ++ [⟨.insert, t⟩], newLength := h.newLength + t.length }
      current := Text.splice d.current d.position 0 t
      position := d.position + t.length }

/-- Adds a deletion. -/
def delete (d : Draft) (t : Text) : Option Draft :=
  if d.current.length < d.position + t.length then none
  else
    let h := d.opened
    some { d with
      hunk := { h with edits := h.edits ++ [⟨.delete, t⟩], oldLength := h.oldLength + t.length }
      current := Text.splice d.current d.position t.length [] }

/-- Keeps a run inside the open hunk. -/
def keep (d : Draft) (t : Text) : Draft :=
  { d with
    hunk :=
      { d.hunk with
        edits := d.hunk.edits ++ [⟨.equal, t⟩]
        oldLength := d.hunk.oldLength + t.length
        newLength := d.hunk.newLength + t.length }
    position := d.position + t.length }

/-- Passes a run that belongs to no hunk. -/
def skip (d : Draft) (t : Text) : Draft := { d with position := d.position + t.length }

/-- Finishes the open hunk, if there is one. -/
def close (d : Draft) (margin : Nat) : Option Draft :=
  if d.hunk.edits.isEmpty then some d
  else do
    let h ← d.hunk.surround d.rolling margin
    return { d with finished := h :: d.finished, hunk := Hunk.empty, rolling := d.current }

/-- Adds a kept run: it stays in the open hunk if it is short and edits may follow, ends the hunk
if it is long, and is passed over otherwise. -/
def equal (d : Draft) (margin : Nat) (isLast : Bool) (t : Text) : Option Draft :=
  if d.hunk.edits.isEmpty then some (d.skip t)
  else if t.length ≤ wrap (2 * margin) ∧ !isLast then some (d.keep t)
  else if wrap (2 * margin) ≤ t.length then (d.close margin).map (·.skip t)
  else some (d.skip t)

/-- Adds one run of a script. -/
def add (d : Draft) (margin : Nat) (isLast : Bool) (e : Edit) : Option Draft :=
  match e.kind with
  | .insert => d.insert e.text
  | .delete => d.delete e.text
  | .equal => d.equal margin isLast e.text

/-- Adds the runs of a script. -/
def addAll (margin : Nat) (d : Draft) : Script → Option Draft
  | [] => some d
  | e :: rest => do
    let d ← d.add margin rest.isEmpty e
    addAll margin d rest

end Draft

/-- The patch that makes the edits of a script in the text it starts from. A margin of zero counts
as one. -/
def Patch.make? (text : Text) (s : Script) (margin : Nat) : Option Patch := do
  let margin := max margin 1
  if s.all (·.kind == .equal) then return []
  let d ← Draft.addAll margin (Draft.start text) s
  let d ← d.close margin
  return d.finished.reverse

end TextHistory
