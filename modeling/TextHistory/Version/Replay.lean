import TextHistory.Tuning
import TextHistory.Error
import TextHistory.Patch.Parser
import TextHistory.Version.File
import TextHistory.Version.Name

/-!
# Replaying a chain

The text of a version is found by applying the patches of the chain, in order, to the base text.
The first entry that cannot be read or applied stops the replay and is named in the error.
-/

set_option autoImplicit false

namespace TextHistory

/-- A version of a file as it was rebuilt. -/
structure VersionText where
  content : Text
  /-- The last entry applied; none for the base. -/
  version : Option Nat
  totalVersions : Nat
  deriving DecidableEq, Repr

/-- The text after an entry, from the text before it. -/
def Entry.apply (o : Tuning) (content : Text) (e : Entry) : Except PatchFault Text := do
  let p ← Patch.parse e.patch
  o.applyStrict p content

/-- The text after some entries, the first of which has the number `index`; an entry that fails is
reported with its number. -/
def replay (o : Tuning) (index : Nat) (content : Text) :
    List Entry → Except (Nat × PatchFault) Text
  | [] => .ok content
  | e :: rest =>
    match e.apply o content with
    | .ok content => replay o (index + 1) content rest
    | .error cause => .error (index, cause)

/-- The number of entries that lead to a version. -/
def entriesUpTo (version : Option Nat) : Nat :=
  match version with
  | some v => v + 1
  | none => 0

/-- The version of a file that a name means. -/
def TrackedFile.versionAt (o : Tuning) (f : TrackedFile) (which : VersionName) :
    Except Error VersionText :=
  let version := which.resolve f.entries.length
  match replay o 0 f.base (f.entries.take (entriesUpTo version)) with
  | .ok content => .ok ⟨content, version, f.entries.length⟩
  | .error (index, cause) => .error (.patchApplication f.name index cause)

/-! ## JSON -/

namespace VersionText

def toJson (r : VersionText) : Json :=
  .record [("content", .string r.content), ("version", Json.ofOption Json.nat r.version),
    ("totalVersions", .nat r.totalVersions)]

def decode : Json.Decoder VersionText := fun r => do
  let fs ← Json.fieldsOf
    [Json.field "content" .required Json.text,
     Json.field "version" .nullable (Json.optional Json.natural),
     Json.field "totalVersions" .required Json.natural] r
  return {
    content := ← fs.get "content" Json.text
    version := ← fs.getD "version" (Json.optional Json.natural) none
    totalVersions := ← fs.get "totalVersions" Json.natural }

end VersionText

end TextHistory
