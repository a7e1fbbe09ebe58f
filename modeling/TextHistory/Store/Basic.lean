import TextHistory.Error
import TextHistory.Version.File

/-!
# The store

Histories are kept in two tables: one row for every tracked file, and one row for every entry of
every chain, with the place of the entry in its chain. Times are kept as text and read back when a
row is looked at, so a row whose time cannot be read back makes the reading fail.

Every operation is one transaction on the tables. Nothing is ever deleted, and the only field that
is changed later is the time of the last change of a file.
-/

set_option autoImplicit false

namespace TextHistory

/-- A row of the table of files. -/
structure FileRow where
  name : Text
  base : Text
  createdAt : Text
  updatedAt : Text
  deriving DecidableEq, Repr

/-- A row of the table of entries. -/
structure EntryRow where
  file : Text
  index : Nat
  timestamp : Text
  patch : Text
  authorName : Option Text
  authorEmail : Option Text
  deriving DecidableEq, Repr

/-- The two tables. -/
structure Store where
  files : List FileRow := []
  entries : List EntryRow := []
  deriving DecidableEq, Repr

/-! ## Rows -/

/-- A stored time. -/
def readTime (t : Text) : Except Error Instant :=
  match Instant.read t with
  | .ok i => .ok i
  | .error fault => .error (.persistence fault)

namespace EntryRow

/-- The author in a row; an address without a name means nobody. -/
def author (r : EntryRow) : Option Author := r.authorName.map fun name => ⟨name, r.authorEmail⟩

def entry (r : EntryRow) : Except Error Entry := do
  let timestamp ← readTime r.timestamp
  return ⟨timestamp, r.patch, r.author⟩

def summary (r : EntryRow) : Except Error EntrySummary := do
  let timestamp ← readTime r.timestamp
  return ⟨r.index, timestamp, r.author⟩

/-- The row of an entry at a place in a chain. -/
def ofEntry (file : Text) (index : Nat) (e : Entry) : EntryRow :=
  { file := file
    index := index
    timestamp := e.timestamp.print
    patch := e.patch
    authorName := e.author.map Author.name
    authorEmail := e.author.bind Author.email }

end EntryRow

namespace Store

/-- The row of a file. -/
def row? (s : Store) (name : Text) : Option FileRow := s.files.find? (·.name == name)

/-- The file is tracked. -/
def tracks (s : Store) (name : Text) : Bool := s.files.any (·.name == name)

/-- The rows of a chain, by their places. -/
def chain (s : Store) (name : Text) : List EntryRow :=
  (s.entries.filter (·.file == name)).mergeSort fun a b => a.index ≤ b.index

/-- The length of a chain. -/
def count (s : Store) (name : Text) : Nat := s.entries.countP (·.file == name)

/-! ## Reading -/

/-- A file with its chain, if it is tracked. -/
def find (s : Store) (name : Text) : Except Error (Option TrackedFile) :=
  match s.row? name with
  | none => .ok none
  | some row => do
    let entries ← (s.chain name).mapM EntryRow.entry
    let createdAt ← readTime row.createdAt
    let updatedAt ← readTime row.updatedAt
    return some ⟨row.name, row.base, entries, createdAt, updatedAt⟩

/-- What a listing shows of a row of the table of files. -/
def summarize (s : Store) (row : FileRow) : Except Error Summary := do
  let createdAt ← readTime row.createdAt
  let updatedAt ← readTime row.updatedAt
  return ⟨row.name, s.count row.name, createdAt, updatedAt⟩

/-- All files, by their names. -/
def list (s : Store) : Except Error (List Summary) :=
  (s.files.mergeSort fun a b => a.name.precedes b.name).mapM s.summarize

/-- What a listing shows of a chain, if the file is tracked. -/
def history (s : Store) (name : Text) : Except Error (Option (List EntrySummary)) :=
  if s.tracks name then do
    let rows ← (s.chain name).mapM EntryRow.summary
    return some rows
  else .ok none

/-! ## Writing -/

/-- Begins to track a file, unless it is tracked already. -/
def create (s : Store) (now : Instant) (name base : Text) : Store × Except Error TrackedFile :=
  if s.tracks name then (s, .error (.alreadyExists name))
  else
    ({ s with files := s.files ++ [⟨name, base, now.print, now.print⟩] },
      .ok ⟨name, base, [], now, now⟩)

/-- The table of files with a new time of change for one of them. -/
def touch (now : Instant) (name : Text) (files : List FileRow) : List FileRow :=
  files.map fun r => if r.name == name then { r with updatedAt := now.print } else r

/-- Adds an entry to a chain in one transaction, which fails when the file is not tracked or its
chain does not have the expected length. -/
def insert (s : Store) (now : Instant) (name : Text) (e : Entry) (expected : Option Nat) :
    Except Error Store :=
  if !s.tracks name then .error (.notFound name)
  else
    let length := s.count name
    if expected.any (· != length) then .error (.conflict name (expected.getD length) length)
    else .ok { files := touch now name s.files, entries := s.entries ++ [.ofEntry name length e] }

/-- Reads a file after its chain has grown. -/
def reread (s : Store) (name : Text) : Except Error TrackedFile := do
  match ← s.find name with
  | some f => .ok f
  | none => .error (.notFound name)

/-- Adds an entry to a chain and then reads the file again. -/
def append (s : Store) (now : Instant) (name : Text) (e : Entry) (expected : Option Nat) :
    Store × Except Error TrackedFile :=
  match s.insert now name e expected with
  | .error e => (s, .error e)
  | .ok s => (s, s.reread name)

end Store

end TextHistory
