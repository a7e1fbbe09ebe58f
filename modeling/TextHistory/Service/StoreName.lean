import TextHistory.Text.Numeral
import TextHistory.Text.Percent

/-!
# Names of stores

A store is named by the path of its file, by nothing or by a word of its own if it is to have no
file, or by an address. An address begins with `file:`. It can name this machine between slashes,
has percent signs for what may not stand in it, and ends with options behind a question mark, which
say how the file is to be used. What stands behind a hash sign is passed over.
-/

set_option autoImplicit false

namespace TextHistory.Service

/-- Where a store is kept and how. -/
structure StoreName where
  /-- The path of the file; none if the store is kept in memory. -/
  path : Option Text
  /-- The file may be made if it is not there. -/
  mayCreate : Bool := true
  mayWrite : Bool := true
  deriving DecidableEq, Repr

namespace StoreName

/-! ## Parts of an address -/

/-- The text before a character, and the text after it if it is there. -/
def cut (mark : Char) (t : Text) : Text × Option Text :=
  match t.dropWhile (· != mark) with
  | _ :: rest => (t.takeWhile (· != mark), some rest)
  | [] => (t, none)

/-- The text that a part of an address stands for, which ends before the first zero byte. -/
def decode (t : Text) : Text := Utf8.decodeLossy ((Percent.bytes t).takeWhile (· != 0))

/-- An option, with the empty value if it has none. -/
def option (t : Text) : Text × Text :=
  let (name, value) := cut '=' t
  (decode name, decode (value.getD []))

/-- The options of an address; one without a name is passed over. -/
def options (t : Text) : List (Text × Text) :=
  ((t.splitOn '&').map option).filter fun (name, _) => !name.isEmpty

/-- An address without its scheme and its machine, which must be this one. -/
def localPart? (t : Text) : Option Text :=
  match t with
  | '/' :: '/' :: rest =>
    let machine := rest.takeWhile (· != '/')
    if machine.isEmpty ∨ machine = "localhost".toList then some (rest.drop machine.length)
    else none
  | t => some t

/-! ## Options -/

/-- What may be done with the file. -/
inductive Access where
  | read
  | write
  | create
  /-- Nothing, because the store is kept in memory. -/
  | memory
  deriving DecidableEq, Repr

namespace Access

/-- The rights that are left behind an option. After the one for memory, any can be asked for. -/
def rank : Access → Nat
  | .read => 1
  | .write => 2
  | .create => 6
  | .memory => 128

/-- The rights that an option needs, of those that have been left. -/
def need : Access → Nat
  | .memory => 0
  | a => a.rank

def names : List (String × Access) :=
  [("ro", .read), ("rw", .write), ("rwc", .create), ("memory", .memory)]

end Access

/-- The rights after options for them; none if one is unknown or asks for too much. -/
def access? (options : List (Text × Text)) : Option Access :=
  let asked := options.filter (·.1 == "mode".toList)
  asked.foldlM (fun (left : Access) (_, value) => do
    let (_, a) ← Access.names.find? (·.1.toList == value)
    if a.need ≤ left.rank then some a else none) .create

/-- The options about what several users share have known values. -/
def sharingIsKnown (options : List (Text × Text)) : Bool :=
  (options.filter (·.1 == "cache".toList)).all fun (_, value) =>
    value == "shared".toList || value == "private".toList

/-- The ways to keep files, of which the last one keeps them in memory. -/
def keepers : List String := ["unix", "unix-none", "unix-dotfile", "unix-excl", "memdb"]

/-- The way to keep the file. -/
def keeper? (options : List (Text × Text)) : Option String :=
  match (options.filter (·.1 == "vfs".toList)).getLast? with
  | none => some "unix"
  | some (_, value) => keepers.find? (·.toList == value)

/-- The text means yes. -/
def isYes (t : Text) : Bool :=
  ["on", "yes", "true"].any (Text.isWord · t) || Numeral.value (t.takeWhile Char.isDigit) != 0

/-- The file is said never to change. -/
def isFixed (options : List (Text × Text)) : Bool :=
  (options.find? (·.1 == "immutable".toList)).any (isYes ·.2)

/-! ## Names -/

/-- A path means no file. -/
def isInMemory (path : Text) : Bool := path.isEmpty || path == ":memory:".toList

/-- The name that an address stands for, without its scheme. -/
def ofAddress? (t : Text) : Option StoreName := do
  let (path, query) := cut '?' ((← localPart? t).takeWhile (· != '#'))
  let path := decode path
  let options := options (query.getD [])
  let access ← access? options
  let keeper ← keeper? options
  if !sharingIsKnown options then none
  else
    let mayWrite := access ≠ .read
    if access = .memory ∨ keeper = "memdb" ∨ isInMemory path then
      some ⟨none, true, mayWrite⟩
    else some ⟨some path, access = .create, mayWrite && !isFixed options⟩

/-- The name that a text stands for; none if there can be no such store. -/
def read? (t : Text) : Option StoreName :=
  if t.contains '\x00' then none
  else
    match Text.stripLead? "file:".toList t with
    | some address => ofAddress? address
    | none => some ⟨if isInMemory t then none else some t, true, true⟩

end StoreName

end TextHistory.Service
