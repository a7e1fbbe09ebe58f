import TextHistory.Toml.Value

/-!
# Building tables

A document defines its tables piece by piece: by headings, by headings of arrays of tables, and by
dotted keys. Every key may be defined once. So a table under construction remembers how it came
about, which decides what may still be added to it, and a definition that is not allowed fails.
-/

set_option autoImplicit false

namespace TextHistory.Toml

/-- How a table came about. -/
inductive Origin where
  /-- By a heading of a table inside it. -/
  | implied
  /-- By a dotted key. -/
  | dotted
  /-- By its own heading. -/
  | headed
  deriving DecidableEq, Repr

/-- A value or a table under construction. -/
inductive Node where
  | value (v : Toml)
  | table (origin : Origin) (entries : List (Text × Node))
  /-- An array of tables, the newest first. -/
  | tables (items : List (List (Text × Node)))
  deriving Repr

/-- The entries of a table under construction. -/
abbrev Entries := List (Text × Node)

namespace Entries

def get? (es : Entries) (key : Text) : Option Node := (es.find? (·.1 == key)).map (·.2)

/-- Puts a node at a key, in the place of the one that is there or at the end. -/
def put (es : Entries) (key : Text) (n : Node) : Entries :=
  if es.any (·.1 == key) then es.map fun (k, m) => if k == key then (k, n) else (k, m)
  else es ++ [(key, n)]

/-! ## Reaching a table -/

/-- Changes the table at a path, by a function that is told how that table came about. Tables that
are missing are made, by a dotted key if `dotted`. The path may not lead through a value, nor a
dotted key through a table with its own heading; of an array of tables it takes the newest. -/
def change (dotted : Bool) (f : Origin → Entries → Option Entries) :
    List Text → Origin → Entries → Option Entries
  | [], origin, es => f origin es
  | key :: path, _, es =>
    let made : Origin := if dotted then .dotted else .implied
    match es.get? key with
    | none => (change dotted f path made []).map fun inner => es.put key (.table made inner)
    | some (.table origin inner) =>
      if dotted ∧ origin = .headed then none
      else (change dotted f path origin inner).map fun inner => es.put key (.table origin inner)
    | some (.tables (newest :: older)) =>
      (change dotted f path .headed newest).map fun inner => es.put key (.tables (inner :: older))
    | some _ => none

/-! ## Definitions -/

/-- Adds an entry with a key that is not there yet. -/
def add (key : Text) (n : Node) (es : Entries) : Option Entries :=
  if (es.get? key).isSome then none else some (es ++ [(key, n)])

/-- Adds a value under a dotted key, which is given as the path and the last key. The table that
it goes into must have come about by dotted keys, unless there is no path. -/
def define (path : List Text) (key : Text) (v : Toml) (es : Entries) : Option Entries :=
  let place (origin : Origin) (es : Entries) : Option Entries :=
    if path.isEmpty ∨ origin = .dotted then es.add key (.value v) else none
  change true place path .headed es

/-- Opens a table by its heading. It may be there already if headings of tables inside it have
implied it. -/
def openTable (path : List Text) (key : Text) (es : Entries) : Option Entries :=
  let place (_ : Origin) (es : Entries) : Option Entries :=
    match es.get? key with
    | none => some (es.put key (.table .headed []))
    | some (.table .implied inner) => some (es.put key (.table .headed inner))
    | some _ => none
  change false place path .headed es

/-- Opens a new table of an array of tables. -/
def openItem (path : List Text) (key : Text) (es : Entries) : Option Entries :=
  let place (_ : Origin) (es : Entries) : Option Entries :=
    match es.get? key with
    | none => some (es.put key (.tables [[]]))
    | some (.tables items) => some (es.put key (.tables ([] :: items)))
    | some _ => none
  change false place path .headed es

/-- Adds a value to the table with the given heading. -/
def defineUnder (heading path : List Text) (key : Text) (v : Toml) (es : Entries) :
    Option Entries :=
  change false (fun _ inner => define path key v inner) heading .headed es

end Entries

/-! ## Finished tables -/

mutual

/-- The value of a finished node. -/
def Node.finish : Node → Toml
  | .value v => v
  | .table _ entries => .table (finishEntries entries)
  | .tables items => .array (finishItems items).reverse

/-- The entries of a finished table. -/
def finishEntries : List (Text × Node) → List (Text × Toml)
  | [] => []
  | (key, n) :: rest => (key, n.finish) :: finishEntries rest

/-- The tables of a finished array, in the order given. -/
def finishItems : List (List (Text × Node)) → List Toml
  | [] => []
  | entries :: rest => .table (finishEntries entries) :: finishItems rest

end

end TextHistory.Toml
