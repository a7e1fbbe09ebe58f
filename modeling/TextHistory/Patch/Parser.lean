import TextHistory.Patch.Basic
import TextHistory.Text.Lines
import TextHistory.Text.Numeral
import TextHistory.Text.Percent

/-!
# Reading a patch

A patch is read row by row. A row that is not blank must be a heading; the rows after it up to
the next one that starts with an at sign are the body of the hunk, each with the sign of an
operation and a percent-encoded text. Blank rows count for nothing anywhere. When a body is
complete its lengths are held against the heading.
-/

set_option autoImplicit false

namespace TextHistory

namespace Hunk

/-! ## Headings -/

/-- A place counted from one, as an offset. -/
def readStart? (t : Text) : Option Nat := do
  let n ← Numeral.readWord t
  if n = 0 then none else some (n - 1)

/-- A range in any of its three spellings, without a bound on the place. -/
def readSpelling? (t : Text) : Option (Nat × Nat) :=
  match Text.splitFirst? [','] t with
  | none => do
    let start ← readStart? t
    return (start, 1)
  | some (a, ['0']) => do
    let start ← Numeral.readWord a
    return (start, 0)
  | some (a, b) => do
    let start ← readStart? a
    let length ← Numeral.readWord b
    return (start, length)

/-- A range in a heading. A place must be a position that a text can have. -/
def readRange? (t : Text) : Option (Nat × Nat) :=
  (readSpelling? t).filter fun r => r.1 ≤ maxPosition

/-- The hunk that a heading announces, still without a body. -/
def readHeading? (row : Text) : Option Hunk := do
  let inner ← Text.stripLead? "@@ -".toList row
  let inner ← Text.stripTail? " @@".toList inner
  let (old, new) ← Text.splitFirst? " +".toList inner
  let (oldStart, oldLength) ← readRange? old
  let (newStart, newLength) ← readRange? new
  return ⟨[], oldStart, oldLength, newStart, newLength⟩

/-! ## Bodies -/

/-- The operation that a sign stands for. -/
def readSign? : Char → Option EditKind
  | ' ' => some .equal
  | '-' => some .delete
  | '+' => some .insert
  | _ => none

/-- A row of a body, which stands in the given line. -/
def readEdit (line : Nat) (sign : Char) (t : Text) : Except PatchFault Edit :=
  match readSign? sign with
  | none => .error (.malformed line (.unknownOperation sign))
  | some op =>
    match Percent.decode t with
    | .error fault => .error (.malformed line (.badText fault))
    | .ok text => .ok ⟨op, text⟩

/-- The rows of a body, the first of which stands in the given line. -/
def readBody (line : Nat) : List Text → Except PatchFault Script
  | [] => .ok []
  | [] :: rest => readBody (line + 1) rest
  | (sign :: t) :: rest => do
    let e ← readEdit line sign t
    let es ← readBody (line + 1) rest
    return e :: es

/-- The lengths in the heading are those of the body. -/
def lengthsMatch (h : Hunk) : Bool :=
  h.edits.source.length == h.oldLength && h.edits.target.length == h.newLength

/-- A row that ends the body before it. -/
def opensHunk (row : Text) : Bool := row.head? == some '@'

/-- A hunk whose heading stands in the given line. -/
def read (line : Nat) (heading : Text) (body : List Text) : Except PatchFault Hunk :=
  match readHeading? heading with
  | none => .error (.malformed line .noHeading)
  | some h => do
    let edits ← readBody (line + 1) body
    let h := { h with edits := edits }
    if h.lengthsMatch then .ok h else .error (.malformed line .wrongLengths)

end Hunk

namespace Patch

/-- The hunks in some rows, the first of which stands in the given line. -/
def readRows (line : Nat) : List Text → Except PatchFault Patch
  | [] => .ok []
  | row :: rest =>
    if row.isEmpty then readRows (line + 1) rest
    else do
      let body := rest.takeWhile (!Hunk.opensHunk ·)
      let h ← Hunk.read line row body
      let hs ← readRows (line + 1 + body.length) (rest.dropWhile (!Hunk.opensHunk ·))
      return h :: hs
termination_by rows => rows.length
decreasing_by
  · simp
  · have := (List.dropWhile_suffix (!Hunk.opensHunk ·) (l := rest)).length_le
    simp only [List.length_cons]
    omega

/-- The patch that a text spells. -/
def parse (t : Text) : Except PatchFault Patch := readRows 1 (Text.rows t)

end Patch

end TextHistory
