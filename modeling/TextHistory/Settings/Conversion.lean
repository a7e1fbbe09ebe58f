import TextHistory.Tuning
import TextHistory.Settings.Value

/-!
# Typed settings

A setting is read leniently: a number may be given as a text or a truth value, a truth value as a
number or a word, and a text as anything but a list, a table or nothing.
-/

set_option autoImplicit false

namespace TextHistory

namespace Setting

/-- The word means yes. -/
def isYes (t : Text) : Bool := ["true", "on", "yes"].any (Text.isWord · t)

/-- The word means no. -/
def isNo (t : Text) : Bool := ["false", "off", "no"].any (Text.isWord · t)

/-- A truth value. -/
def toBoolean? : Setting → Option Bool
  | .boolean b => some b
  | .integer n => some (n ≠ 0)
  | .float x => some (!x.isZero)
  | .text t => word t
  | _ => none
where
  word (t : Text) : Option Bool :=
    if isYes t ∨ t = ['1'] then some true
    else if isNo t ∨ t = ['0'] then some false
    else none

/-- A natural number below `2 ^ 64`. -/
def toNatural? : Setting → Option Nat
  | .boolean b => some b.toNat
  | .integer n => if n < 0 then none else some n.toNat
  | .float x => some x.toWord
  | .text t => word t
  | _ => none
where
  word (t : Text) : Option Nat :=
    if isYes t then some 1
    else if isNo t then some 0
    else Numeral.readWord t

/-- A natural number below `2 ^ 64`, or nothing. -/
def toOptionalNatural? : Setting → Option (Option Nat)
  | .nothing => some none
  | v => v.toNatural?.map some

/-- A text. -/
def toText? : Setting → Option Text
  | .boolean true => some "true".toList
  | .boolean false => some "false".toList
  | .integer n => some (Numeral.printSigned n)
  | .float x => some x.print
  | .text t => some t
  | _ => none

/-- The value of an entry in a type, or a given one if the entry is missing. -/
def entryD {α : Type} (entries : Entries) (key : String) (f : Setting → Option α)
    (default : α) : Option α :=
  match entries.get? key.toList with
  | some v => f v
  | none => some default

/-- The value of the first item of a list in a type, or a given one if the list is empty. -/
def itemD {α : Type} (items : List Setting) (f : Setting → Option α) (default : α) : Option α :=
  match items with
  | v :: _ => f v
  | [] => some default

/-- How patches are made and applied: a table, or a list of values in the order of the fields. -/
def toTuning? (v : Setting) : Option Tuning :=
  let o : Tuning := {}
  match v with
  | .table es => do
    let diffTimeout ← entryD es "diff_timeout_ms" toOptionalNatural? o.diffTimeout
    let semanticCleanup ← entryD es "semantic_cleanup" toBoolean? o.semanticCleanup
    let patchMargin ← entryD es "patch_margin" toNatural? o.patchMargin
    let matchDistance ← entryD es "match_distance" toNatural? o.matchDistance
    return { diffTimeout, semanticCleanup, patchMargin, matchDistance }
  | .list vs => do
    let diffTimeout ← itemD vs toOptionalNatural? o.diffTimeout
    let semanticCleanup ← itemD (vs.drop 1) toBoolean? o.semanticCleanup
    let patchMargin ← itemD (vs.drop 2) toNatural? o.patchMargin
    let matchDistance ← itemD (vs.drop 3) toNatural? o.matchDistance
    return { diffTimeout, semanticCleanup, patchMargin, matchDistance }
  | _ => none

end Setting

end TextHistory
