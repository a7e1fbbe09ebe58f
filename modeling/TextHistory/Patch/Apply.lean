import TextHistory.Patch.Basic
import TextHistory.Text.Numeral

/-!
# Applying a patch

Every hunk is looked for near the place where it is expected: where its heading says, moved by
the drift that the hunks before it have shown. The occurrence nearest to that place is taken. A
hunk is first looked for with all its context, then with no more than the margin, then with none;
a hunk that only inserts has nothing but its context to go by and is looked for once. A hunk that
is not found is left out and the next one is tried.

Positions are signed words; a place that is no such word is no place at all.
-/

set_option autoImplicit false

namespace TextHistory

/-- How far from their places hunks are looked for, and with how much context. -/
structure Reach where
  margin : Nat := 4
  range : Nat := 1000
  deriving DecidableEq, Repr

/-! ## The nearest occurrence -/

/-- The distance between two positions. -/
def Text.distance (a b : Nat) : Nat := (a - b) + (b - a)

/-- The first of the positions that is nearest to the expected one. -/
def Text.closest (expected : Nat) : List Nat → Option Nat
  | [] => none
  | p :: rest =>
    match closest expected rest with
    | none => some p
    | some q => if distance q expected < distance p expected then some q else some p

/-- The occurrence of a pattern that is nearest to the expected position and not farther than
`range` from it; of two that are equally near, the earlier one. -/
def Text.nearestOccurrence (text pattern : Text) (expected range : Nat) : Option Nat :=
  closest expected ((occurrences text pattern).filter fun p => distance p expected ≤ range)

/-! ## One hunk -/

/-- A hunk taken apart: the context around it, what it looks for and what it puts there. -/
structure Core where
  lead : Text
  source : Text
  target : Text
  trail : Text
  deriving DecidableEq, Repr

/-- The kept run that a script begins with, and the rest. -/
def Script.takeLead : Script → Text × Script
  | ⟨.equal, t⟩ :: rest => (t, rest)
  | s => ([], s)

/-- The kept run that a script ends with, and what comes before it. -/
def Script.takeTrail (s : Script) : Text × Script :=
  match s.getLast? with
  | some ⟨.equal, t⟩ => (t, s.dropLast)
  | _ => ([], s)

/-- The parts of a hunk. -/
def Hunk.core (h : Hunk) : Core :=
  let (lead, rest) := Script.takeLead h.edits
  let (trail, inner) := Script.takeTrail rest
  ⟨lead, inner.source, inner.target, trail⟩

/-- The core with at most `kept` characters of context on each side. -/
def Core.trim (c : Core) (kept : Nat) : Core :=
  { c with lead := c.lead.drop (c.lead.length - kept), trail := c.trail.take kept }

/-- What is looked for. -/
def Core.pattern (c : Core) : Text := c.lead ++ c.source ++ c.trail

/-- What is put in its place. -/
def Core.replacement (c : Core) : Text := c.lead ++ c.target ++ c.trail

/-- The core with all of its context, with the margin's worth of it and with none. Only the first
form is used when there is nothing between the contexts to look for. -/
def Core.levels (c : Core) (margin : Nat) : List Core :=
  if c.source.isEmpty then [c] else [c, c.trim margin, c.trim 0]

/-- A position moved by a drift, but not below zero; none when either leaves the signed words. -/
def moved? (position : Nat) (drift : Int) : Option Nat :=
  let p := (position : Int) + drift
  if position ≤ maxPosition ∧ p ≤ maxPosition then some p.toNat else none

/-- Looks for one form of a hunk: where it was found, and where it stands without any drift. -/
def Core.locate? (c full : Core) (text : Text) (start : Nat) (drift : Int) (range : Nat) :
    Option (Nat × Nat) := do
  let nominal := start + (full.lead.length - c.lead.length)
  let expected ← moved? nominal drift
  let found ← Text.nearestOccurrence text c.pattern expected range
  return (found, nominal)

/-- Places a hunk: the form of it that was found, and where. -/
def Hunk.place? (text : Text) (h : Hunk) (drift : Int) (o : Reach) :
    Option (Core × Nat × Nat) :=
  let full := h.core
  (full.levels o.margin).findSome? fun c =>
    (c.locate? full text h.newStart drift o.range).map fun p => (c, p)

/-! ## All hunks -/

/-- A number brought into the range of the signed words. -/
def clampDrift (d : Int) : Int := max (-(maxPosition : Int) - 1) (min d maxPosition)

/-- A text in the course of an application. -/
structure Progress where
  text : Text
  /-- How far from its nominal place the last hunk was found, corrected for those left out. -/
  drift : Int
  deriving DecidableEq, Repr

/-- Applies one hunk, and says whether it found its place. -/
def Progress.apply (s : Progress) (o : Reach) (h : Hunk) : Progress × Bool :=
  match h.place? s.text s.drift o with
  | some (c, found, nominal) =>
    (⟨Text.splice s.text found c.pattern.length c.replacement, (found : Int) - nominal⟩, true)
  | none => (⟨s.text, clampDrift (s.drift - ((h.newLength : Int) - h.oldLength))⟩, false)

/-- Applies hunks in order. -/
def Progress.applyAll (o : Reach) (s : Progress) : Patch → Progress × List Bool
  | [] => (s, [])
  | h :: rest =>
    let (s, placed) := s.apply o h
    let (s, flags) := applyAll o s rest
    (s, placed :: flags)

namespace Patch

/-- The text with every hunk applied that found its place, and a flag for each hunk. -/
def apply (p : Patch) (text : Text) (o : Reach) : Text × List Bool :=
  let (s, flags) := Progress.applyAll o ⟨text, 0⟩ p
  (s.text, flags)

/-- The text with every hunk applied, or the first hunk that found no place. -/
def applyStrict (p : Patch) (text : Text) (o : Reach) : Except PatchFault Text :=
  let (out, flags) := p.apply text o
  match flags.findIdx? (!·) with
  | some i => .error (.rejected i)
  | none => .ok out

end Patch

end TextHistory
