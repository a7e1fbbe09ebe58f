import TextHistory.Service.Start

/-!
# A model of a machine

A tree of folders and files with a working folder in it, on which the service can be started. A
file can hold the store only if it has at most one character, since no text is a database and one
byte counts as none. Every address is taken.
-/

set_option autoImplicit false

namespace TextHistory.Service

/-- Folders and files, by the names on the way from the root. -/
structure Directory where
  /-- The working folder. -/
  here : List Text
  files : List (List Text × Text)
  folders : List (List Text) := []
  deriving DecidableEq, Repr

namespace Directory

/-! ## Looking things up -/

/-- The text of a file. -/
def file? (d : Directory) (way : List Text) : Option Text :=
  (d.files.find? (·.1 == way)).map (·.2)

/-- A folder, which may be one only because something is in it. -/
def isFolder (d : Directory) (way : List Text) : Bool :=
  way.isPrefixOf d.here || d.folders.any way.isPrefixOf
    || d.files.any fun (file, _) => way.isPrefixOf file && way != file

/-- The size of a text in bytes. -/
def byteSize (t : Text) : Nat := (Utf8.encode t).length

/-- A file can have the name. -/
def isName (name : Text) : Bool := byteSize name ≤ 255 && !name.contains '\x00'

/-- One more name on the way from the root. -/
def step (way : List Text) (name : Text) : List Text :=
  if name = ['.', '.'] then way.dropLast else way ++ [name]

/-- Where a path begins. -/
def origin (d : Directory) (path : Text) : List Text := if path.head? = some '/' then [] else d.here

/-- The way from the root that a path means, which leads through folders only. -/
def walk? (d : Directory) (path : Text) : Option (List Text) :=
  (Path.names path).foldlM (fun way name =>
    if isName name ∧ d.isFolder way then some (step way name) else none) (d.origin path)

/-- The path can only mean a folder. -/
def namesFolder (path : Text) : Bool :=
  let last := (path.splitOn '/').getLast?
  last == some [] || last == some ['.'] || last == some ['.', '.']

def fileText (path : Text) : StateM Directory (Option Text) := do
  let d ← get
  return if namesFolder path then none else (d.walk? path).bind d.file?

/-! ## Making folders -/

/-- The folders on the way that a path means, which are made where they are missing, and the way
itself; none if a file is in the way. -/
def foldersOn? (d : Directory) (path : Text) : Option (List (List Text)) :=
  ((Path.names path).foldlM (fun (ways : List (List Text)) name =>
    let way := step (ways.headD []) name
    if isName name ∧ (d.file? way).isNone then some (way :: ways) else none) [d.origin path])

/-- Makes the folder that a path means and those on the way to it, unless a file is in the way. -/
def makeFolder (path : Text) : StateM Directory Bool := do
  let d ← get
  match d.foldersOn? path with
  | none => return false
  | some ways =>
    set { d with folders := d.folders ++ ways }
    return true

/-! ## Opening the store -/

/-- One more name on the way to the file of a store. No file may be in the way. The folders need
not be there, since two points take back the name before them. -/
def stepToStore (d : Directory) (way : List Text) (name : Text) : Option (List Text) :=
  if name = ['.', '.'] then some way.dropLast
  else if isName name ∧ (d.file? way).isNone then some (way ++ [name])
  else none

/-- The way to the file of a store with a path, which must not be too long. -/
def wayToStore? (d : Directory) (path : Text) : Option (List Text) := do
  let way ← (Path.names path).foldlM d.stepToStore (d.origin path)
  if byteSize (way.flatMap ('/' :: ·)) ≤ 504 then some way else none

/-- The file of a store can be written to. A journal stands beside it, whose name is longer. -/
def isWritable (name : StoreName) (way : List Text) : Bool :=
  name.mayWrite && byteSize (way.getLastD []) + "-journal".length ≤ 255

/-- Opens a store, whose file is made if it is not there. -/
def openStore (name : StoreName) : StateM Directory Bool := do
  let d ← get
  match name.path with
  | none => return name.mayWrite
  | some path =>
    match d.wayToStore? path with
    | none => return false
    | some way =>
      if d.isFolder way then return false
      match d.file? way with
      | some content => return isWritable name way && byteSize content ≤ 1
      | none =>
        if !name.mayCreate ∨ !d.isFolder way.dropLast then return false
        set { d with files := d.files ++ [(way, [])] }
        return isWritable name way

/-- The machine as a host. -/
def host : Host (StateM Directory) where
  fileText := fileText
  makeFolder := makeFolder
  openStore := openStore
  listen _ := pure false

end Directory

end TextHistory.Service
