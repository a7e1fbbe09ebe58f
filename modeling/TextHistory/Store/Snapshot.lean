import TextHistory.Store.Basic

/-!
# Snapshots of the store

The two tables as one JSON text, in which a store outlives the program. An empty text is the
snapshot of an empty store.
-/

set_option autoImplicit false

namespace TextHistory

namespace FileRow

def decode : Json.Decoder FileRow := fun r => do
  let fs ← Json.fieldsOf
    [Json.field "name" .required Json.text,
     Json.field "base" .required Json.text,
     Json.field "createdAt" .required Json.text,
     Json.field "updatedAt" .required Json.text] r
  return {
    name := ← fs.get "name" Json.text
    base := ← fs.get "base" Json.text
    createdAt := ← fs.get "createdAt" Json.text
    updatedAt := ← fs.get "updatedAt" Json.text }

def toJson (r : FileRow) : Json :=
  .record [("name", .string r.name), ("base", .string r.base),
    ("createdAt", .string r.createdAt), ("updatedAt", .string r.updatedAt)]

end FileRow

namespace EntryRow

def decode : Json.Decoder EntryRow := fun r => do
  let fs ← Json.fieldsOf
    [Json.field "file" .required Json.text,
     Json.field "index" .required Json.natural,
     Json.field "timestamp" .required Json.text,
     Json.field "patch" .required Json.text,
     Json.field "authorName" .nullable (Json.optional Json.text),
     Json.field "authorEmail" .nullable (Json.optional Json.text)] r
  return {
    file := ← fs.get "file" Json.text
    index := ← fs.get "index" Json.natural
    timestamp := ← fs.get "timestamp" Json.text
    patch := ← fs.get "patch" Json.text
    authorName := ← fs.getD "authorName" (Json.optional Json.text) none
    authorEmail := ← fs.getD "authorEmail" (Json.optional Json.text) none }

def toJson (r : EntryRow) : Json :=
  .record [("file", .string r.file), ("index", .nat r.index), ("timestamp", .string r.timestamp),
    ("patch", .string r.patch), ("authorName", Json.ofOption Json.string r.authorName),
    ("authorEmail", Json.ofOption Json.string r.authorEmail)]

end EntryRow

namespace Store

def decode : Json.Decoder Store := fun r => do
  let fs ← Json.fieldsOf
    [Json.field "files" .required (Json.listOf FileRow.decode),
     Json.field "entries" .required (Json.listOf EntryRow.decode)] r
  return {
    files := ← fs.get "files" (Json.listOf FileRow.decode)
    entries := ← fs.get "entries" (Json.listOf EntryRow.decode) }

/-- The text of a store. -/
def print (s : Store) : Text :=
  (Json.record [("files", .array (s.files.map FileRow.toJson)),
    ("entries", .array (s.entries.map EntryRow.toJson))]).print

/-- The store that a text holds. -/
def read? (t : Text) : Option Store :=
  if t.isEmpty then some {} else (Json.decode decode t).toOption

end Store

end TextHistory
