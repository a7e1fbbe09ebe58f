import TextHistory.Patch.Apply
import TextHistory.Patch.Build
import TextHistory.Text.Checked

/-!
# Patches in checked words

Applying a patch and building one, step by step, with every word and every stretch of a text
checked. Where no step is a fault, this is what is computed without checks.

A form of a hunk is told by how much context it keeps on each side. When the margin is so large or
so small that the next form keeps what the last one did, it is passed over.
-/

set_option autoImplicit false

namespace TextHistory

/-! ## Applying -/

/-- A place moved by the drift, but not below zero; none when it leaves the signed words. -/
def shifted (position : Nat) (drift : Int) : Checked (Option Nat) :=
  match Word.signed? position with
  | none => .ok none
  | some p =>
    match Word.signedAdd? p drift with
    | none => .ok none
    | some q => (Word.unsigned (max q 0)).map some

namespace Hunk

/-- Places one form of a hunk, which begins so far behind the place of the hunk, if it is found. -/
def placeForm (text : Text) (c : Core) (start behind : Nat) (drift : Int) (range : Nat) :
    Checked (Option Progress) :=
  match Word.add? start behind with
  | none => .ok none
  | some nominal => do
    match ← shifted nominal drift with
    | none => return none
    | some expected =>
      match ← Text.seekNearest text c.pattern expected range with
      | none => return none
      | some found =>
        let stop ← Word.add found c.pattern.length
        let changed ← Text.replace text found stop c.replacement
        let landed ← Word.signed found
        let intended ← Word.signed nominal
        let drift ← Word.signedSub landed intended
        return some ⟨changed, drift⟩

/-- Places the form of a hunk that keeps so much of its context. -/
def tryForm (text : Text) (h : Hunk) (drift : Int) (range keptLead keptTrail : Nat) :
    Checked (Option Progress) := do
  let full := h.core
  let behind ← Word.sub full.lead.length keptLead
  let lead ← Text.cut full.lead behind full.lead.length
  let trail ← Text.cut full.trail 0 keptTrail
  placeForm text { full with lead := lead, trail := trail } h.newStart behind drift range

/-- How much context the forms of a hunk keep, at most: any amount, the margin and none. Only the
first form is tried when there is nothing between the contexts to look for. -/
def fuzz (c : Core) (margin : Nat) : List Nat :=
  if c.source.isEmpty then [wordLimit - 1] else [wordLimit - 1, margin, 0]

/-- Tries forms in order, unless they keep as much context as the form tried last. -/
def tryForms (text : Text) (h : Hunk) (drift : Int) (range : Nat) :
    Option (Nat × Nat) → List Nat → Checked (Option Progress)
  | _, [] => .ok none
  | previous, kept :: rest => do
    let sizes := (min h.core.lead.length kept, min h.core.trail.length kept)
    if previous = some sizes then tryForms text h drift range previous rest
    else
      match ← tryForm text h drift range sizes.1 sizes.2 with
      | some s => return some s
      | none => tryForms text h drift range (some sizes) rest

end Hunk

namespace Progress

/-- Applies one hunk. -/
def applyChecked (s : Progress) (o : Reach) (h : Hunk) : Checked (Progress × Bool) := do
  match ← Hunk.tryForms s.text h s.drift o.range none (Hunk.fuzz h.core o.margin) with
  | some placed => return (placed, true)
  | none =>
    let added ← Word.signed h.newLength
    let removed ← Word.signed h.oldLength
    let gain ← Word.signedSub added removed
    let drift ← Word.signedSubWithin s.drift gain
    return (⟨s.text, drift⟩, false)

/-- Applies hunks in order. -/
def applyAllChecked (o : Reach) (s : Progress) : Patch → Checked (Progress × List Bool)
  | [] => .ok (s, [])
  | h :: rest => do
    let (s, placed) ← s.applyChecked o h
    let (s, flags) ← applyAllChecked o s rest
    return (s, placed :: flags)

end Progress

/-- Applies a patch. -/
def Patch.applyChecked (p : Patch) (text : Text) (o : Reach) : Checked (Text × List Bool) := do
  let (s, flags) ← Progress.applyAllChecked o ⟨text, 0⟩ p
  return (s.text, flags)

/-! ## Building -/

namespace Hunk

/-- A pattern that is not extended further. -/
def isSettledChecked (text : Text) (margin : Nat) (pattern : Text) : Checked Bool := do
  let once ← Text.standsOnce text pattern
  if once then return true
  else
    let twice ← Word.mul 2 margin
    return settledLength - twice ≤ pattern.length

/-- The padding at which the pattern is settled. -/
def growthChecked (text : Text) (start stop margin : Nat) : Nat → Nat → Text → Checked Nat
  | 0, _, _ => .error .endless
  | steps + 1, padding, pattern => do
    let settled ← isSettledChecked text margin pattern
    if settled then return padding
    else
      let padding ← Word.add padding margin
      let high ← Word.add stop padding
      let pattern ← Text.cut text (start - padding) (min high text.length)
      growthChecked text start stop margin steps padding pattern

/-- A hunk with the given context before and after it. -/
def surroundByChecked (h : Hunk) (lead trail : Text) : Checked Hunk := do
  let length ← Word.add lead.length trail.length
  let oldStart ← Word.sub h.oldStart lead.length
  let newStart ← Word.sub h.newStart lead.length
  let oldLength ← Word.add h.oldLength length
  let newLength ← Word.add h.newLength length
  return ⟨context lead ++ h.edits ++ context trail, oldStart, oldLength, newStart, newLength⟩

/-- A hunk with its context in the text it is applied to. -/
def surroundChecked (h : Hunk) (text : Text) (margin : Nat) : Checked Hunk :=
  if text.isEmpty then .ok h
  else do
    let start := min h.newStart text.length
    let reached ← Word.add h.newStart h.oldLength
    let stop := min reached text.length
    let pattern ← Text.cut text start stop
    let grown ← growthChecked text start stop margin (settledLength + 1) 0 pattern
    let padding ← Word.add grown margin
    let lead ← Text.cut text (start - padding) start
    let high ← Word.add stop padding
    let trail ← Text.cut text stop (min high text.length)
    h.surroundByChecked lead trail

end Hunk

namespace Draft

/-- Adds an insertion. -/
def insertChecked (d : Draft) (t : Text) : Checked Draft := do
  let _ ← Word.add d.opened.newLength t.length
  .require .outside (d.insert t)

/-- Adds a deletion. -/
def deleteChecked (d : Draft) (t : Text) : Checked Draft := do
  let _ ← Word.add d.opened.oldLength t.length
  .require .outside (d.delete t)

/-- Keeps a run inside the open hunk. -/
def keepChecked (d : Draft) (t : Text) : Checked Draft := do
  let _ ← Word.add d.hunk.oldLength t.length
  let _ ← Word.add d.hunk.newLength t.length
  return d.keep t

/-- Finishes the open hunk, if there is one. -/
def closeChecked (d : Draft) (margin : Nat) : Checked Draft :=
  if d.hunk.edits.isEmpty then .ok d
  else do
    let h ← d.hunk.surroundChecked d.rolling margin
    return { d with finished := h :: d.finished, hunk := Hunk.empty, rolling := d.current }

/-- Adds a kept run. -/
def equalChecked (d : Draft) (margin : Nat) (isLast : Bool) (t : Text) : Checked Draft := do
  let twice ← Word.mul 2 margin
  if t.length ≤ twice ∧ !d.hunk.edits.isEmpty ∧ !isLast then d.keepChecked t
  else if twice ≤ t.length ∧ !d.hunk.edits.isEmpty then
    let d ← d.closeChecked margin
    return d.skip t
  else return d.skip t

/-- Adds one run of a script, which begins where the draft has got to. -/
def addChecked (d : Draft) (margin : Nat) (isLast : Bool) (e : Edit) : Checked Draft := do
  let _ ← Word.add d.position e.text.length
  match e.kind with
  | .insert => d.insertChecked e.text
  | .delete => d.deleteChecked e.text
  | .equal => d.equalChecked margin isLast e.text

/-- Adds the runs of a script. -/
def addAllChecked (margin : Nat) (d : Draft) : Script → Checked Draft
  | [] => .ok d
  | e :: rest => do
    let d ← d.addChecked margin rest.isEmpty e
    addAllChecked margin d rest

end Draft

/-- The patch that makes the edits of a script in the text it starts from. -/
def Patch.makeChecked (text : Text) (s : Script) (margin : Nat) : Checked Patch := do
  let margin := max margin 1
  if s.all (·.kind == .equal) then return []
  else
    let d ← Draft.addAllChecked margin (Draft.start text) s
    let d ← d.closeChecked margin
    return d.finished.reverse

end TextHistory
