import TextHistory.Json.Decode
import TextHistory.Version.File

/-!
# Requests to a history and its answers

What is asked of a history and what it answers, with the JSON forms in which both travel.
-/

set_option autoImplicit false

namespace TextHistory

/-! ## Requests -/

/-- A new text for a file. -/
structure Submission where
  name : Text
  content : Text
  author : Option Author := none
  /-- The length of the chain that the text was made from. -/
  expected : Option Nat := none
  deriving DecidableEq, Repr

/-- A patch from the latest version of a file. -/
structure PatchSubmission where
  name : Text
  patch : Text
  /-- The text that the patch leads to; the base of a file that is not tracked yet. -/
  content : Option Text := none
  author : Option Author := none
  expected : Option Nat := none
  deriving DecidableEq, Repr

/-! ## Answers -/

/-- What a write did. -/
inductive SaveEffect where
  | baseCreated
  | patchAppended
  | noChange
  deriving DecidableEq, Repr

namespace SaveEffect

def name : SaveEffect → String
  | .baseCreated => "base-created"
  | .patchAppended => "patch-appended"
  | .noChange => "no-change"

/-- The effect that a text names. -/
def read? (t : Text) : Option SaveEffect :=
  [.baseCreated, .patchAppended, .noChange].find? fun s => s.name.toList == t

end SaveEffect

/-- The answer to a write. -/
structure Receipt where
  effect : SaveEffect
  versionCount : Nat
  /-- The number of the latest version, unless that is the base. -/
  version : Option Nat
  deriving DecidableEq, Repr

/-- The answer to a write that leaves a chain of the given length. -/
def Receipt.ofCount (effect : SaveEffect) (count : Nat) : Receipt :=
  ⟨effect, count, if count = 0 then none else some (count - 1)⟩

/-- The latest text of a file. -/
structure Latest where
  name : Text
  content : Text
  versionCount : Nat
  deriving DecidableEq, Repr

/-- The unified difference of two versions. -/
structure VersionDifference where
  old : Option Nat
  new : Option Nat
  text : Text
  deriving DecidableEq, Repr

/-! ## JSON -/

namespace Submission

def decode : Json.Decoder Submission := fun r => do
  let fs ← Json.fieldsOf
    [Json.field "path" .required Json.text,
     Json.field "content" .required Json.text,
     Json.field "author" .defaulted (Json.optional Author.decode),
     Json.field "expectedVersions" .defaulted (Json.optional Json.natural)] r
  return {
    name := ← fs.get "path" Json.text
    content := ← fs.get "content" Json.text
    author := ← fs.getD "author" (Json.optional Author.decode) none
    expected := ← fs.getD "expectedVersions" (Json.optional Json.natural) none }

/-- A request as JSON; what was not given is left out. -/
def toJson (q : Submission) : Json :=
  .record ([("path", .string q.name), ("content", .string q.content)]
    ++ (match q.author with
      | some a => [("author", a.toJson)]
      | none => [])
    ++ (match q.expected with
      | some n => [("expectedVersions", .nat n)]
      | none => []))

end Submission

namespace PatchSubmission

def decode : Json.Decoder PatchSubmission := fun r => do
  let fs ← Json.fieldsOf
    [Json.field "path" .required Json.text,
     Json.field "patch" .required Json.text,
     Json.field "newContent" .defaulted (Json.optional Json.text),
     Json.field "author" .defaulted (Json.optional Author.decode),
     Json.field "expectedVersions" .defaulted (Json.optional Json.natural)] r
  return {
    name := ← fs.get "path" Json.text
    patch := ← fs.get "patch" Json.text
    content := ← fs.getD "newContent" (Json.optional Json.text) none
    author := ← fs.getD "author" (Json.optional Author.decode) none
    expected := ← fs.getD "expectedVersions" (Json.optional Json.natural) none }

end PatchSubmission

namespace SaveEffect

/-- An effect from JSON: its name, alone or as the only name of an object that holds null. -/
def decode : Json.Decoder SaveEffect
  | .object [(some name, .null)] true => named name
  | r => Json.text r >>= named
where
  named (t : Text) : Except Json.Fault SaveEffect :=
    match read? t with
    | some s => .ok s
    | none => .error .dataError

def toJson (s : SaveEffect) : Json := .word s.name

end SaveEffect

namespace Receipt

def decode : Json.Decoder Receipt := fun r => do
  let fs ← Json.fieldsOf
    [Json.field "status" .required SaveEffect.decode,
     Json.field "versionCount" .required Json.natural,
     Json.field "version" .nullable (Json.optional Json.natural)] r
  return {
    effect := ← fs.get "status" SaveEffect.decode
    versionCount := ← fs.get "versionCount" Json.natural
    version := ← fs.getD "version" (Json.optional Json.natural) none }

def toJson (o : Receipt) : Json :=
  .record [("status", o.effect.toJson), ("versionCount", .nat o.versionCount),
    ("version", Json.ofOption Json.nat o.version)]

end Receipt

namespace Latest

def decode : Json.Decoder Latest := fun r => do
  let fs ← Json.fieldsOf
    [Json.field "filename" .required Json.text,
     Json.field "content" .required Json.text,
     Json.field "versionCount" .required Json.natural] r
  return {
    name := ← fs.get "filename" Json.text
    content := ← fs.get "content" Json.text
    versionCount := ← fs.get "versionCount" Json.natural }

def toJson (l : Latest) : Json :=
  .record [("filename", .string l.name), ("content", .string l.content),
    ("versionCount", .nat l.versionCount)]

end Latest

namespace VersionDifference

def decode : Json.Decoder VersionDifference := fun r => do
  let fs ← Json.fieldsOf
    [Json.field "from" .nullable (Json.optional Json.natural),
     Json.field "to" .nullable (Json.optional Json.natural),
     Json.field "diff" .required Json.text] r
  return {
    old := ← fs.getD "from" (Json.optional Json.natural) none
    new := ← fs.getD "to" (Json.optional Json.natural) none
    text := ← fs.get "diff" Json.text }

def toJson (d : VersionDifference) : Json :=
  .record [("from", Json.ofOption Json.nat d.old), ("to", Json.ofOption Json.nat d.new),
    ("diff", .string d.text)]

end VersionDifference

end TextHistory
