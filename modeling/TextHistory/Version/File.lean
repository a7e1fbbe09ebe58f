import TextHistory.Json.Decode
import TextHistory.Time.Reader

/-!
# Tracked files

A tracked file is a base text and a chain of entries, each with the text of a patch that leads
from the version before it to its own. The chain only grows, and the place of an entry in it is
its version number. `Summary` and `EntrySummary` are what listings show of files and entries.
-/

set_option autoImplicit false

namespace TextHistory

/-- Who wrote a version. -/
structure Author where
  name : Text
  email : Option Text
  deriving DecidableEq, Repr

/-- One link of a chain. -/
structure Entry where
  timestamp : Instant
  /-- The text of a patch. -/
  patch : Text
  author : Option Author
  deriving DecidableEq, Repr

/-- A file with its history. -/
structure TrackedFile where
  name : Text
  base : Text
  entries : List Entry
  createdAt : Instant
  updatedAt : Instant
  deriving DecidableEq, Repr

/-- What a listing shows of a file. -/
structure Summary where
  name : Text
  versionCount : Nat
  createdAt : Instant
  updatedAt : Instant
  deriving DecidableEq, Repr

/-- What a listing shows of an entry. -/
structure EntrySummary where
  index : Nat
  timestamp : Instant
  author : Option Author
  deriving DecidableEq, Repr

namespace TrackedFile

/-- The number of the last version, if there is one after the base. -/
def head? (f : TrackedFile) : Option Nat :=
  if f.entries.isEmpty then none else some (f.entries.length - 1)

def summary (f : TrackedFile) : Summary := ⟨f.name, f.entries.length, f.createdAt, f.updatedAt⟩

/-- What a listing shows of the chain. -/
def history (f : TrackedFile) : List EntrySummary :=
  f.entries.mapIdx fun i e => ⟨i, e.timestamp, e.author⟩

end TrackedFile

/-! ## JSON -/

/-- An instant from JSON. -/
def Instant.decode : Json.Decoder Instant := fun r => do
  let t ← Json.text r
  match Instant.readLoosely t with
  | .ok i => .ok i
  | .error _ => .error .dataError

def Instant.toJson (t : Instant) : Json := .string t.printZulu

namespace Author

def decode : Json.Decoder Author := fun r => do
  let fs ← Json.fieldsOf
    [Json.field "name" .required Json.text,
     Json.field "email" .defaulted (Json.optional Json.text)] r
  return {
    name := ← fs.get "name" Json.text
    email := ← fs.getD "email" (Json.optional Json.text) none }

/-- An author as JSON; an address that is missing is left out. -/
def toJson (a : Author) : Json :=
  .record (("name", .string a.name) :: match a.email with
    | some e => [("email", .string e)]
    | none => [])

end Author

namespace Entry

def decode : Json.Decoder Entry := fun r => do
  let fs ← Json.fieldsOf
    [Json.field "timestamp" .required Instant.decode,
     Json.field "patch" .required Json.text,
     Json.field "author" .defaulted (Json.optional Author.decode)] r
  return {
    timestamp := ← fs.get "timestamp" Instant.decode
    patch := ← fs.get "patch" Json.text
    author := ← fs.getD "author" (Json.optional Author.decode) none }

def toJson (e : Entry) : Json :=
  .record [("timestamp", e.timestamp.toJson), ("patch", .string e.patch),
    ("author", Json.ofOption Author.toJson e.author)]

end Entry

namespace TrackedFile

def decode : Json.Decoder TrackedFile := fun r => do
  let fs ← Json.fieldsOf
    [Json.field "filename" .required Json.text,
     Json.field "base" .required Json.text,
     Json.field "versions" .required (Json.listOf Entry.decode),
     Json.field "createdAt" .required Instant.decode,
     Json.field "updatedAt" .required Instant.decode] r
  return {
    name := ← fs.get "filename" Json.text
    base := ← fs.get "base" Json.text
    entries := ← fs.get "versions" (Json.listOf Entry.decode)
    createdAt := ← fs.get "createdAt" Instant.decode
    updatedAt := ← fs.get "updatedAt" Instant.decode }

def toJson (f : TrackedFile) : Json :=
  .record [("filename", .string f.name), ("base", .string f.base),
    ("versions", .array (f.entries.map Entry.toJson)),
    ("createdAt", f.createdAt.toJson), ("updatedAt", f.updatedAt.toJson)]

end TrackedFile

namespace Summary

def decode : Json.Decoder Summary := fun r => do
  let fs ← Json.fieldsOf
    [Json.field "filename" .required Json.text,
     Json.field "versionCount" .required Json.natural,
     Json.field "createdAt" .required Instant.decode,
     Json.field "updatedAt" .required Instant.decode] r
  return {
    name := ← fs.get "filename" Json.text
    versionCount := ← fs.get "versionCount" Json.natural
    createdAt := ← fs.get "createdAt" Instant.decode
    updatedAt := ← fs.get "updatedAt" Instant.decode }

def toJson (s : Summary) : Json :=
  .record [("filename", .string s.name), ("versionCount", .nat s.versionCount),
    ("createdAt", s.createdAt.toJson), ("updatedAt", s.updatedAt.toJson)]

end Summary

namespace EntrySummary

def decode : Json.Decoder EntrySummary := fun r => do
  let fs ← Json.fieldsOf
    [Json.field "index" .required Json.natural,
     Json.field "timestamp" .required Instant.decode,
     Json.field "author" .nullable (Json.optional Author.decode)] r
  return {
    index := ← fs.get "index" Json.natural
    timestamp := ← fs.get "timestamp" Instant.decode
    author := ← fs.getD "author" (Json.optional Author.decode) none }

def toJson (s : EntrySummary) : Json :=
  .record [("index", .nat s.index), ("timestamp", s.timestamp.toJson),
    ("author", Json.ofOption Author.toJson s.author)]

end EntrySummary

end TextHistory
