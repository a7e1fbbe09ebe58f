import TextHistory.Edit.Merge

/-!
# Absorbing short equalities

An equality that is no longer than the edits before it and the edits after it makes a script
harder to read than it helps. `Script.absorb` scans a script for such equalities, turns each into
a deletion and an insertion of its text, goes back to the equality before it, and at the end
merges what became neighbours. The scan keeps the positions of the equalities it has passed on a
stack, innermost first.
-/

set_option autoImplicit false

namespace TextHistory

/-- How much a stretch of edits inserts and deletes. -/
structure Extent where
  inserted : Nat
  deleted : Nat
  deriving DecidableEq, Repr

/-- The larger of the two lengths. -/
def Extent.size (x : Extent) : Nat := max x.inserted x.deleted

/-- The extent with one more run of edits. -/
def Extent.add (x : Extent) (e : Edit) : Extent :=
  match e.kind with
  | .insert => { x with inserted := x.inserted + e.text.length }
  | .delete => { x with deleted := x.deleted + e.text.length }
  | .equal => x

/-- A scan for equalities to absorb. -/
structure Scan where
  edits : Script
  /-- The run to look at next. -/
  position : Nat := 0
  /-- Positions of the equalities passed, innermost first. -/
  equalities : List Nat := []
  /-- The edits before the innermost equality and after it. -/
  before : Extent := ⟨0, 0⟩
  after : Extent := ⟨0, 0⟩
  /-- The length of the innermost equality, while it may still be absorbed. -/
  last : Option Nat := none
  changed : Bool := false
  deriving DecidableEq, Repr

namespace Scan

/-- The script with the equality of text `t` at position `i` turned into edits. -/
def split (edits : Script) (i : Nat) (t : Text) : Script :=
  edits.take i ++ ⟨.delete, t⟩ :: ⟨.insert, t⟩ :: edits.drop (i + 1)

/-- Passes an equality. -/
def pass (s : Scan) (length : Nat) : Scan :=
  { s with
    position := s.position + 1
    equalities := s.position :: s.equalities
    before := s.after
    after := ⟨0, 0⟩
    last := some length }

/-- Goes over a run of edits. -/
def advance (s : Scan) (e : Edit) : Scan :=
  { s with position := s.position + 1, after := s.after.add e }

/-- The innermost equality, if it is no longer than the edits on either side of it, the run `e`
included: its position, its text and the positions below it on the stack. -/
def absorbable (s : Scan) (e : Edit) : Option (Nat × Text × List Nat) :=
  match s.last, s.equalities with
  | some length, i :: outer =>
    if length ≤ s.before.size ∧ length ≤ (s.after.add e).size then
      match s.edits[i]? with
      | some ⟨.equal, t⟩ => some (i, t, outer)
      | _ => none
    else none
  | _, _ => none

/-- Turns an equality into edits and goes back behind the second equality before it, so that the
one just before it is looked at again. -/
def absorb (s : Scan) (i : Nat) (t : Text) (outer : List Nat) : Scan :=
  { edits := split s.edits i t
    position := match outer.tail with
      | [] => 0
      | p :: _ => p + 1
    equalities := outer.tail
    changed := true }

/-- One step of the scan; none when it has reached the end. -/
def step (s : Scan) : Option Scan :=
  match s.edits[s.position]? with
  | none => none
  | some ⟨.equal, t⟩ => some (s.pass t.length)
  | some e =>
    match s.absorbable e with
    | some (i, t, outer) => some (s.absorb i t outer)
    | none => some (s.advance e)

/-! ## The scan ends -/

/-- The number of equalities in a script. -/
def equalityCount (edits : Script) : Nat := edits.countP (·.kind == .equal)

/-- Splitting an equality leaves one fewer. -/
theorem equalityCount_split {edits : Script} {i : Nat} {t : Text}
    (h : edits[i]? = some ⟨.equal, t⟩) :
    equalityCount (split edits i t) + 1 = equalityCount edits := by
  obtain ⟨hi, hx⟩ := List.getElem?_eq_some_iff.mp h
  have hsplit : edits = edits.take i ++ ⟨.equal, t⟩ :: edits.drop (i + 1) := by
    rw [← hx, ← List.drop_eq_getElem_cons hi, List.take_append_drop]
  conv => rhs; rw [hsplit]
  simp [equalityCount, split, List.countP_append]
  omega

/-- What is absorbed is an equality of the script. -/
theorem getElem?_of_absorbable {s : Scan} {e : Edit} {i : Nat} {t : Text} {outer : List Nat}
    (h : s.absorbable e = some (i, t, outer)) : s.edits[i]? = some ⟨.equal, t⟩ := by
  unfold absorbable at h
  split at h
  · split at h
    · split at h
      · next heq => cases h; exact heq
      · cases h
    · cases h
  · cases h

/-- A step leaves fewer equalities, or as many and less of the script to go. -/
theorem step_decreases {s s' : Scan} (h : s.step = some s') :
    Prod.Lex (· < ·) (· < ·)
      (equalityCount s'.edits, s'.edits.length - s'.position)
      (equalityCount s.edits, s.edits.length - s.position) := by
  unfold step at h
  split at h
  · cases h
  · next t heq =>
    obtain ⟨hi, -⟩ := List.getElem?_eq_some_iff.mp heq
    cases h
    exact Prod.Lex.right _ (by simp only [pass]; omega)
  · next e _ heq =>
    obtain ⟨hi, -⟩ := List.getElem?_eq_some_iff.mp heq
    split at h
    · next i t outer ha =>
      cases h
      have := equalityCount_split (getElem?_of_absorbable ha)
      exact Prod.Lex.left _ _ (by simp only [absorb]; omega)
    · cases h
      exact Prod.Lex.right _ (by simp only [advance]; omega)

/-- The scan run to its end. -/
def run (s : Scan) : Scan :=
  match _h : s.step with
  | none => s
  | some s' => run s'
termination_by (equalityCount s.edits, s.edits.length - s.position)
decreasing_by exact step_decreases _h

end Scan

/-- The script without equalities that are no longer than the edits on both sides; a script with
none such is returned as it is. -/
def Script.absorb (s : Script) : Script :=
  let done := Scan.run { edits := s }
  if done.changed then Script.merge done.edits else done.edits

end TextHistory
