import TextHistory.Edit.Semantic

/-!
# The scan with its stack checked

A scan that does not take its stack at its word: every position that is taken from it must be that
of an equality, in the script as it is at that moment. Where no position is a fault and the steps
suffice, this is the scan without checks.
-/

set_option autoImplicit false

namespace TextHistory

/-- What can go wrong in a scan. -/
inductive ScanFault where
  /-- A position from the stack does not lie inside the script. -/
  | outside
  /-- A position from the stack is that of an edit. -/
  | noEquality
  /-- The scan has not ended within the steps it is given. -/
  | endless
  deriving DecidableEq, Repr

namespace Scan

/-- The text of the equality at a position from the stack. -/
def equalityAt (edits : Script) (i : Nat) : Except ScanFault Text :=
  match edits[i]? with
  | none => .error .outside
  | some ⟨.equal, t⟩ => .ok t
  | some _ => .error .noEquality

/-- Turns the innermost equality into edits. Two more positions are taken from the stack when the
script has changed: that of the equality before, which is dropped, and that of the one before that,
behind which the scan goes on. -/
def absorbChecked (s : Scan) (i : Nat) (outer : List Nat) : Except ScanFault Scan := do
  let t ← equalityAt s.edits i
  let next := s.absorb i t outer
  let _ ← (outer.take 2).mapM (equalityAt next.edits)
  return next

/-- One step, with the number of equalities it absorbs; none when the scan has reached the end. -/
def stepChecked (s : Scan) : Except ScanFault (Option (Scan × Nat)) :=
  match s.edits[s.position]? with
  | none => .ok none
  | some ⟨.equal, t⟩ => .ok (some (s.pass t.length, 0))
  | some e =>
    match s.last, s.equalities with
    | some length, i :: outer =>
      if length ≤ s.before.size ∧ length ≤ (s.after.add e).size then
        (s.absorbChecked i outer).map fun next => some (next, 1)
      else .ok (some (s.advance e, 0))
    | _, _ => .ok (some (s.advance e, 0))

/-- The scan run for so many steps at most: where it ends, and how many equalities it absorbs. -/
def runChecked : Nat → Scan → Except ScanFault (Scan × Nat)
  | 0, _ => .error .endless
  | steps + 1, s => do
    match ← s.stepChecked with
    | none => return (s, 0)
    | some (next, absorbed) =>
      let (done, more) ← runChecked steps next
      return (done, absorbed + more)

/-- Steps in which a scan of a script ends: between two absorptions it goes over the script once at
most, and the script and the equalities left in it are never more together than at first. -/
def stepLimit (s : Script) : Nat :=
  equalityCount s * (s.length + equalityCount s + 1) + s.length + 1

end Scan

end TextHistory
