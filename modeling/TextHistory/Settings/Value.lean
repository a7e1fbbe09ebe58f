import TextHistory.Number.Double

/-!
# Values of settings

What a file of settings can hold, whatever its format. A table is a list of entries, in which every
key stands once.
-/

set_option autoImplicit false

namespace TextHistory

/-- The value of a setting. -/
inductive Setting where
  | nothing
  | boolean (b : Bool)
  /-- An integer of 64 bits with sign. -/
  | integer (n : Int)
  | float (x : Double)
  | text (t : Text)
  | list (items : List Setting)
  | table (entries : List (Text × Setting))
  deriving Repr

namespace Setting

/-- The entries of a table. -/
abbrev Entries := List (Text × Setting)

namespace Entries

/-- The value at a key. -/
def get? (es : Entries) (key : Text) : Option Setting := (es.find? (·.1 == key)).map (·.2)

/-- Puts a value at a key, in the place of the one that is there or at the end. -/
def put (es : Entries) (key : Text) (v : Setting) : Entries :=
  if es.any (·.1 == key) then es.map fun (k, w) => if k == key then (k, v) else (k, w)
  else es ++ [(key, v)]

end Entries

/-- The entries of a table; a value of another kind has none. -/
def entries : Setting → Entries
  | .table es => es
  | _ => []

/-- The items of a list; a value of another kind has none. -/
def items : Setting → List Setting
  | .list vs => vs
  | _ => []

/-- An integer if it has 64 bits, and else the nearest double. -/
def ofInt (n : Int) : Setting :=
  if Numeral.isSignedWord n then .integer n
  else .float (Double.ofRatio (n < 0) ⟨n.natAbs, 1⟩)

end Setting

end TextHistory
