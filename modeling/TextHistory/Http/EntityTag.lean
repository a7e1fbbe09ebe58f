import TextHistory.Sha256
import TextHistory.Text.Blank
import TextHistory.Text.Numeral
import TextHistory.Text.Utf8

/-!
# Entity tags

The tag of a version is a digest of the name of its file, the number of the version and its text.
The three are written one after the other in such a way that the bytes can be divided in one way
only: the name is preceded by its length, and the number by a mark that says whether there is one.
-/

set_option autoImplicit false

namespace TextHistory.EntityTag

/-! ## What is digested -/

/-- The bytes of a word, the lowest first. -/
def littleEndian (n : Nat) : List UInt8 :=
  (List.range 8).map fun i => UInt8.ofNat (n / Nat.pow 256 i)

/-- The number of a version, if it has one, behind a mark. -/
def versionBytes : Option Nat → List UInt8
  | some v => 1 :: littleEndian v
  | none => [0]

/-- The bytes that stand for a version of a file. -/
def preimage (name : Text) (version : Option Nat) (content : Text) : List UInt8 :=
  let bytes := Utf8.encode name
  littleEndian bytes.length ++ bytes ++ versionBytes version ++ Utf8.encode content

/-! ## The tag -/

/-- Takes bytes to their digest. -/
abbrev Hash := List UInt8 → List UInt8

/-- A byte as two lower-case hexadecimal digits. -/
def hexByte (b : UInt8) : Text := [Nat.digitChar (b.toNat / 16), Nat.digitChar (b.toNat % 16)]

/-- The tag of a version of a file: a quoted digest. -/
def of (hash : Hash) (name : Text) (version : Option Nat) (content : Text) : Text :=
  '"' :: (hash (preimage name version content)).flatMap hexByte ++ ['"']

/-! ## Holding a tag against a list -/

/-- A list of tags, with commas between them, holds a tag or a star, which stands for any tag. -/
def listed (tag : Text) (list : Text) : Bool :=
  (list.splitOn ',').any fun entry =>
    let entry := Text.trim entry
    entry == tag || entry == ['*']

end TextHistory.EntityTag
