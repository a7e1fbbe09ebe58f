import TextHistory.Text.Blank
import TextHistory.Text.Numeral

/-!
# Names of versions

The versions of a file are its base text and the texts after each entry of its chain. A name means
one of them: the base, the latest, or the one after a given entry.
-/

set_option autoImplicit false

namespace TextHistory

/-- Which version of a file is meant. -/
inductive VersionName where
  /-- The text before any entry. -/
  | base
  /-- The text after the given entry, counted from zero, or after the last one. -/
  | index (n : Nat)
  | latest
  deriving DecidableEq, Repr

namespace VersionName

/-- The written form of a name. -/
def print : VersionName → Text
  | .base => "base".toList
  | .index n => Numeral.print n
  | .latest => "latest".toList

/-- The name that a text is, blanks around it aside; the error is the text without them. -/
def read (t : Text) : Except Text VersionName :=
  let t := Text.trim t
  if Text.isWord "latest" t then .ok .latest
  else if Text.isWord "base" t then .ok .base
  else
    match Numeral.readWord t with
    | some n => .ok (.index n)
    | none => .error t

/-- The entry whose text a name means in a chain of the given length; none for the base. -/
def resolve (which : VersionName) (length : Nat) : Option Nat :=
  if length = 0 then none
  else
    match which with
    | .base => none
    | .index n => some (min n (length - 1))
    | .latest => some (length - 1)

end VersionName

end TextHistory
