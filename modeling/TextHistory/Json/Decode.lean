import TextHistory.Json.Number
import TextHistory.Json.Reader

/-!
# Typed values from JSON

A decoder takes a reading to a value of some type or to the first fault in the order of the text:
a fault of syntax, or data of the wrong kind. A record is read from an object, where members with
unknown names are passed over and known ones must not repeat, or from an array that lists the
fields in their order.
-/

set_option autoImplicit false

namespace TextHistory.Json

/-- Why a text holds no value of the wanted type. -/
inductive Fault where
  | syntaxError
  | dataError
  deriving DecidableEq, Repr

/-- Takes a reading to a value of a type. -/
abbrev Decoder (α : Type) := Reading → Except Fault α

/-! ## Single values -/

/-- The fault of a value that is not of the wanted kind. A string or a number is read to its end
before it is refused, so a fault of its own comes first. -/
def mismatch : Reading → Fault
  | .broken => .syntaxError
  | .string none => .syntaxError
  | .number n => if n.overflows then .syntaxError else .dataError
  | _ => .dataError

/-- A text. -/
def text : Decoder Text
  | .string (some t) => .ok t
  | r => .error (mismatch r)

/-- A truth value. -/
def boolean : Decoder Bool
  | .bool b => .ok b
  | r => .error (mismatch r)

/-- A natural number below `2 ^ 64`, written without a fraction or an exponent. -/
def natural : Decoder Nat
  | .number (.natural n) =>
    if n < wordLimit then .ok n else .error (mismatch (.number (.natural n)))
  | r => .error (mismatch r)

/-- Null, or a value of a type. -/
def optional {α : Type} (d : Decoder α) : Decoder (Option α)
  | .null => .ok none
  | r => (d r).map some

/-- A value that is passed over. -/
def skip : Decoder Unit
  | r => if r.isWhole then .ok () else .error .syntaxError

/-- An array whose items are all of one type. -/
def listOf {α : Type} (d : Decoder α) : Decoder (List α)
  | .array items closed => do
    let xs ← items.mapM d
    if closed then .ok xs else .error .syntaxError
  | r => .error (mismatch r)

/-! ## Records -/

/-- When a field may be left out. -/
inductive Presence where
  /-- Never. -/
  | required
  /-- From an object. -/
  | nullable
  /-- From an object and at the end of an array. -/
  | defaulted
  deriving DecidableEq, Repr

/-- A field of a record: its name, when it may be left out, and what its value must be. -/
structure Field where
  name : String
  presence : Presence
  check : Decoder Unit

/-- A field whose value is read by a decoder. -/
def field {α : Type} (name : String) (presence : Presence) (d : Decoder α) : Field :=
  ⟨name, presence, fun r => (d r).map fun _ => ()⟩

/-- The fields that were present, by name. -/
abbrev Fields := List (Text × Reading)

/-- The fields of a record from the members of an object. -/
def fieldsOfMembers (fields : List Field) (closed : Bool) (seen : Fields) :
    List (Option Text × Reading) → Except Fault Fields
  | [] =>
    if !closed then .error .syntaxError
    else if fields.any fun f => f.presence = .required ∧ !seen.any (·.1 == f.name.toList) then
      .error .dataError
    else .ok seen
  | (none, _) :: _ => .error .syntaxError
  | (some name, r) :: rest =>
    match fields.find? (·.name.toList == name) with
    | none => do
      skip r
      fieldsOfMembers fields closed seen rest
    | some f =>
      if seen.any (·.1 == name) then .error .dataError
      else do
        f.check r
        fieldsOfMembers fields closed ((name, r) :: seen) rest

/-- The fields of a record from the items of an array. -/
def fieldsOfItems (closed : Bool) (seen : Fields) : List Field → List Reading → Except Fault Fields
  | [], items => if closed ∧ items.isEmpty then .ok seen else .error .syntaxError
  | f :: fields, [] =>
    if !closed then .error .syntaxError
    else if f.presence = .defaulted then fieldsOfItems closed seen fields []
    else .error .dataError
  | f :: fields, r :: rest => do
    f.check r
    fieldsOfItems closed ((f.name.toList, r) :: seen) fields rest

/-- The fields of a record. -/
def fieldsOf (fields : List Field) : Decoder Fields
  | .object members closed => fieldsOfMembers fields closed [] members
  | .array items closed => fieldsOfItems closed [] fields items
  | r => .error (mismatch r)

/-- The value of a field that is there. -/
def Fields.get {α : Type} (fs : Fields) (name : String) (d : Decoder α) : Except Fault α :=
  match fs.find? (·.1 == name.toList) with
  | some (_, r) => d r
  | none => .error .dataError

/-- The value of a field, or a given one if it was left out. -/
def Fields.getD {α : Type} (fs : Fields) (name : String) (d : Decoder α) (default : α) :
    Except Fault α :=
  match fs.find? (·.1 == name.toList) with
  | some (_, r) => d r
  | none => .ok default

/-- Reads a whole text as a value of a type. -/
def decode {α : Type} (d : Decoder α) (t : Text) : Except Fault α := do
  let doc := read t
  let a ← d doc.root
  if doc.ended then .ok a else .error .syntaxError

/-- Reads a JSON value as a value of a type. -/
def Decoder.ofJson? {α : Type} (d : Decoder α) (j : Json) : Option α :=
  (d (toReading j)).toOption

end TextHistory.Json
