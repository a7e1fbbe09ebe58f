import TextHistory.Settings.Path

/-!
# Layers of settings

Settings come from several places, and what comes later covers what came before. A layer is a list
of named values, whose names are paths. Tables are merged entry by entry, and every other value
takes the place of the one before. A path makes the tables and lists that it leads through.
-/

set_option autoImplicit false

namespace TextHistory.Settings

/-- Named values from one place. -/
abbrev Layer := Setting.Entries

/-- Keys that differ in capital letters only are one key. -/
def fold (key : Text) : Text := key.map Char.toLower

/-! ## Merging tables -/

mutual

/-- Puts a value at a key. A table is merged with the one that is there, or takes the place of
another value, unless it is empty. -/
def mergeValue (base : Layer) (key : Text) : Setting → Layer
  | .table [] => if (base.get? key).isSome then base else base.put key (.table [])
  | .table (e :: es) =>
    let inner := ((base.get? key).getD (.table [])).entries
    base.put key (.table (mergeEntries inner (e :: es)))
  | v => base.put key v

/-- Merges the entries of a table into another one. -/
def mergeEntries (base : Layer) : List (Text × Setting) → Layer
  | [] => base
  | (key, v) :: rest => mergeEntries (mergeValue base (fold key) v) rest

end

/-! ## Following paths -/

/-- The position of an item; one counted from the end must be there. -/
def position? (size : Nat) (n : Int) : Option Nat :=
  if 0 ≤ n then some n.toNat
  else if n.natAbs ≤ size then some (size - n.natAbs)
  else none

/-- Changes an item of a list, which is made longer to hold it. -/
def changeItem (items : List Setting) (n : Int) (f : Setting → Setting) : List Setting :=
  match position? items.length n with
  | none => items
  | some i =>
    let items := items ++ List.replicate (i + 1 - items.length) .nothing
    items.modify i f

/-- Puts a value at the end of the steps from another one. Only the last key merges tables. -/
def mergeAt (v : Setting) : List PathStep → Setting → Setting
  | [], _ => v
  | [.key k], base => .table (mergeValue base.entries (fold k) v)
  | .key k :: steps, base =>
    let inner := (base.entries.get? (fold k)).getD .nothing
    .table (base.entries.put (fold k) (mergeAt v steps inner))
  | .item n :: steps, base => .list (changeItem base.items n (mergeAt v steps))

/-- Puts a value at a path. -/
def mergeAtPath (base : Layer) (p : SettingPath) (v : Setting) : Layer :=
  (mergeAt v (.key p.head :: p.steps) (.table base)).entries

/-- Covers settings with a layer. -/
def cover (base layer : Layer) : Layer :=
  layer.foldl (fun base (name, v) => mergeAtPath base (.ofName name) v) base

end TextHistory.Settings
