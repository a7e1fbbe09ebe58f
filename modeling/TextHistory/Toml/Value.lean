import TextHistory.Number.Double

/-!
# TOML values

The data of a TOML document. A date or time is kept in its canonical written form.
-/

set_option autoImplicit false

namespace TextHistory

/-- A TOML value. -/
inductive Toml where
  | boolean (b : Bool)
  /-- An integer of 64 bits with sign. -/
  | integer (n : Int)
  | float (x : Double)
  | string (t : Text)
  /-- A date, a time, or both, with or without an offset. -/
  | moment (written : Text)
  | array (items : List Toml)
  | table (entries : List (Text × Toml))
  deriving Repr

namespace Toml

/-- The value of a key in a list of entries. -/
def lookup? (entries : List (Text × Toml)) (key : Text) : Option Toml :=
  (entries.find? (·.1 == key)).map (·.2)

end Toml

end TextHistory
