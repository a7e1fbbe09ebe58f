import TextHistory.Json.Number
import TextHistory.Json.Reader
import TextHistory.Settings.Format.Ini
import TextHistory.Settings.Format.Json5
import TextHistory.Settings.Format.Ron
import TextHistory.Settings.Format.Yaml
import TextHistory.Settings.Layer
import TextHistory.Toml.Reader

/-!
# Formats of files of settings

The end of a file's name says in which format it is. Whatever the format, the file is read to a
table of settings, or it has a fault.
-/

set_option autoImplicit false

namespace TextHistory

/-! ## Values of other kinds -/

mutual

/-- The setting that a TOML value stands for; dates and times become texts. -/
def Setting.ofToml : Toml → Setting
  | .boolean b => .boolean b
  | .integer n => .integer n
  | .float x => .float x
  | .string t => .text t
  | .moment t => .text t
  | .array vs => .list (Setting.ofTomlItems vs)
  | .table es => .table (Setting.ofTomlEntries es)

def Setting.ofTomlItems : List Toml → List Setting
  | [] => []
  | v :: rest => Setting.ofToml v :: Setting.ofTomlItems rest

def Setting.ofTomlEntries : List (Text × Toml) → Setting.Entries
  | [] => []
  | (key, v) :: rest => (key, Setting.ofToml v) :: Setting.ofTomlEntries rest

end

/-- The setting that a JSON number stands for; none if it is too large. A minus sign in front of a
zero makes it a double. -/
def Setting.ofNumber? (n : Json.Number) : Option Setting :=
  match n with
  | .natural k => if Numeral.isSignedWord k then some (.integer k) else n.value?.map .float
  | .negative k =>
    if k ≠ 0 ∧ Numeral.isSignedWord (-(k : Int)) then some (.integer (-(k : Int)))
    else n.value?.map .float
  | .decimal _ => n.value?.map .float

mutual

/-- The setting that a JSON value stands for; none if a number is too large, or if more than
`depth` arrays and objects stand inside each other. -/
def Setting.ofJson? (depth : Nat) : Json → Option Setting
  | .null => some .nothing
  | .bool b => some (.boolean b)
  | .number n => Setting.ofNumber? n
  | .string t => some (.text t)
  | .array vs =>
    if depth = 0 then none else (Setting.ofJsonItems? (depth - 1) vs).map .list
  | .object es =>
    if depth = 0 then none else (Setting.ofJsonMembers? (depth - 1) es).map .table

def Setting.ofJsonItems? (depth : Nat) : List Json → Option (List Setting)
  | [] => some []
  | v :: rest => do
    let s ← Setting.ofJson? depth v
    let more ← Setting.ofJsonItems? depth rest
    return s :: more

def Setting.ofJsonMembers? (depth : Nat) : List (Text × Json) → Option Setting.Entries
  | [] => some []
  | (key, v) :: rest => do
    let s ← Setting.ofJson? depth v
    let more ← Setting.ofJsonMembers? depth rest
    return (key, s) :: more

end

namespace Settings

/-! ## Formats -/

/-- A format of files of settings. -/
inductive Format where
  | toml
  | json
  | yaml
  | ini
  | ron
  | json5
  deriving DecidableEq, Repr

namespace Format

/-- What stands behind the last point of the name of a file, and the format that it means. -/
def endings : List (String × Format) :=
  [("toml", .toml), ("json", .json), ("yaml", .yaml), ("yml", .yaml), ("ini", .ini), ("ron", .ron),
    ("json5", .json5)]

/-- The format of a file with a name. -/
def ofEnding? (ending : Text) : Option Format :=
  (endings.find? (·.1.toList == ending)).map (·.2)

/-- More arrays and objects than this cannot stand inside each other in a JSON file. -/
def jsonDepth : Nat := 127

/-- What a text in a format stands for. -/
def value? (f : Format) (t : Text) : Option Setting :=
  match f with
  | .toml => (Toml.read? t).map fun es => .table (Setting.ofTomlEntries es)
  | .json => (Json.parse? t).bind (Setting.ofJson? jsonDepth)
  | .yaml => Yaml.read? t
  | .ini => (Ini.read? t).map .table
  | .ron => Ron.read? t
  | .json5 => Json5.read? t

/-- The settings in a text, which must be a table. -/
def read? (f : Format) (t : Text) : Option Layer :=
  match f.value? t with
  | some (.table es) => some es
  | _ => none

end Format

end Settings

end TextHistory
