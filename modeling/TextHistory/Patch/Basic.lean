import TextHistory.Edit.Basic
import TextHistory.Text.Quoted
import TextHistory.Text.Utf8

/-!
# Patches

A hunk is a script with a place for it: where its source stands in the text the hunk is applied
to, how long it is, and how long its target is. A patch is a list of hunks; an empty one means
that nothing changes. This module also names the ways in which a patch can be refused.
-/

set_option autoImplicit false

namespace TextHistory

/-- A script anchored at a place. Positions are offsets in characters, from zero on. -/
structure Hunk where
  edits : Script
  /-- The place of the source, as the heading shows it. -/
  oldStart : Nat
  oldLength : Nat
  /-- The place of the hunk in the text as the hunks before it leave it. -/
  newStart : Nat
  newLength : Nat
  deriving DecidableEq, Repr

/-- Hunks in the order in which they are applied. -/
abbrev Patch := List Hunk

/-- What is wrong with a line of a patch. -/
inductive Malformation where
  | noHeading
  | unknownOperation (sign : Char)
  | badText (fault : Utf8.Fault)
  | wrongLengths
  deriving DecidableEq, Repr

/-- The wording of a malformation. -/
def Malformation.message : Malformation → String
  | .noHeading => "expected hunk header"
  | .unknownOperation sign => "unknown operation " ++ String.ofList (Quoted.char sign)
  | .badText fault => fault.message
  | .wrongLengths => "hunk lengths do not match its body"

/-- Why a patch is refused. -/
inductive PatchFault where
  /-- A line, counted from one, cannot be read. -/
  | malformed (line : Nat) (reason : Malformation)
  /-- A hunk, counted from zero, has no place in the text. -/
  | rejected (hunk : Nat)
  deriving DecidableEq, Repr

/-- The wording of a refusal. -/
def PatchFault.message : PatchFault → String
  | .malformed line reason =>
    let text := reason.message
    s!"malformed patch at line {line}: {text}"
  | .rejected hunk => s!"hunk {hunk} does not match the text it is applied to"

end TextHistory
