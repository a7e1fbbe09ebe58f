import TextHistory.Alignment.Unified
import TextHistory.History.Messages
import TextHistory.Patch.Printer
import TextHistory.Store.Basic
import TextHistory.Version.Replay

/-!
# Histories

What a history offers to its users: versions are read by replay and written as patches from the
latest version. A write is first planned from the file as it was read and then done in one
transaction of the store, which is told how long the chain was when it was read. So the store
refuses a patch that was made from an older version.
-/

set_option autoImplicit false

namespace TextHistory

/-! ## The clock -/

/-- What the clock shows in the course of a write, which looks at it twice. It may have been set
back in between. -/
structure Clock where
  /-- When the entry of the write is made. -/
  made : Instant
  /-- When the store takes the write in. -/
  stored : Instant
  deriving DecidableEq, Repr

/-- A clock that stands still during a write. -/
instance : Coe Instant Clock := ⟨fun t => ⟨t, t⟩⟩

namespace History

/-! ## Reading -/

/-- A file that must be tracked. -/
def tracked (s : Store) (name : Text) : Except Error TrackedFile := do
  match ← s.find name with
  | some f => .ok f
  | none => .error (.notFound name)

/-- The latest text of a file; a file that is not tracked has the empty text. -/
def latest (o : Tuning) (s : Store) (name : Text) : Except Error Latest := do
  match ← s.find name with
  | none => .ok ⟨name, [], 0⟩
  | some f =>
    let head ← f.versionAt o .latest
    .ok ⟨f.name, head.content, head.totalVersions⟩

/-- A version of a file. -/
def version (o : Tuning) (s : Store) (name : Text) (which : VersionName) :
    Except Error VersionText := do
  let f ← tracked s name
  f.versionAt o which

/-- What a listing shows of a chain. -/
def log (s : Store) (name : Text) : Except Error (List EntrySummary) := do
  match ← s.history name with
  | some rows => .ok rows
  | none => .error (.notFound name)

/-- The title of a version. -/
def title (name : Text) (version : Option Nat) : Text :=
  name ++ '@' :: match version with
    | some v => Numeral.print v
    | none => "base".toList

/-- The unified difference of two versions of a file. -/
def difference (o : Tuning) (s : Store) (name : Text) (old new : VersionName) :
    Except Error VersionDifference := do
  let f ← tracked s name
  let a ← f.versionAt o old
  let b ← f.versionAt o new
  return ⟨a.version, b.version,
    Unified.difference a.content b.content (title name a.version) (title name b.version)⟩

/-! ## Planning a write -/

/-- What is to be done for a write. -/
inductive Plan where
  /-- Nothing: the answer is known. -/
  | answer (receipt : Receipt)
  /-- The file is to be tracked from this text on. -/
  | create (base : Text)
  /-- A patch is to be added to a chain of the given length. -/
  | append (patch : Text) (length : Nat)
  deriving DecidableEq, Repr

/-- Holds the length that a caller expects against the actual one. -/
def checkLength (name : Text) (expected : Option Nat) (actual : Nat) : Except Error Unit :=
  match expected with
  | some n => if n = actual then .ok () else .error (.conflict name n actual)
  | none => .ok ()

/-- Plans a new text for a file as it was found. -/
def planText (o : Tuning) (found : Option TrackedFile) (q : Submission) :
    Except Error Plan :=
  match found with
  | none => do
    checkLength q.name q.expected 0
    return .create q.content
  | some f => do
    let length := f.entries.length
    checkLength q.name q.expected length
    let head ← f.versionAt o .latest
    match o.patch? head.content q.content with
    | none => .error .unbuildable
    | some [] => return .answer (.ofCount .noChange length)
    | some p => return .append p.print length

/-- Plans a patch that has been read for a file as it was found. -/
def planPatch (o : Tuning) (found : Option TrackedFile) (p : Patch) (q : PatchSubmission) :
    Except Error Plan :=
  match found with
  | none =>
    match q.content with
    | none => .error (.notFound q.name)
    | some base => do
      checkLength q.name q.expected 0
      return .create base
  | some f => do
    let length := f.entries.length
    checkLength q.name q.expected length
    let head ← f.versionAt o .latest
    match o.applyStrict p head.content with
    | .error cause => .error (.invalidPatch cause)
    | .ok patched =>
      if q.content.any (· != patched) then .error (.contentMismatch q.name)
      else if patched = head.content then return .answer (.ofCount .noChange length)
      else return .append p.print length

/-- Does what was planned. -/
def perform (s : Store) (now : Clock) (name : Text) (author : Option Author) :
    Plan → Store × Except Error Receipt
  | .answer receipt => (s, .ok receipt)
  | .create base =>
    let (s, r) := s.create now.stored name base
    (s, r.map fun _ => .ofCount .baseCreated 0)
  | .append patch length =>
    let (s, r) := s.append now.stored name ⟨now.made, patch, author⟩ (some length)
    (s, r.map fun f => .ofCount .patchAppended f.entries.length)

/-! ## Writing -/

/-- Saves a new text for a file. The first one becomes the base; later ones are stored as patches,
unless they do not differ from the latest version. -/
def save (o : Tuning) (s : Store) (now : Clock) (q : Submission) :
    Store × Except Error Receipt :=
  match s.find q.name with
  | .error e => (s, .error e)
  | .ok found =>
    match planText o found q with
    | .error e => (s, .error e)
    | .ok plan => perform s now q.name q.author plan

/-- Saves a patch, which must apply to the latest version. -/
def savePatch (o : Tuning) (s : Store) (now : Clock) (q : PatchSubmission) :
    Store × Except Error Receipt :=
  match Patch.parse q.patch with
  | .error cause => (s, .error (.invalidPatch cause))
  | .ok p =>
    match s.find q.name with
    | .error e => (s, .error e)
    | .ok found =>
      match planPatch o found p q with
      | .error e => (s, .error e)
      | .ok plan => perform s now q.name q.author plan

end History

end TextHistory
