import TextHistory.Text.Basic

/-!
# Paths

The text of a path names folders and a file, separated by slashes. Empty names and single points
between slashes stand for nothing, and two points for the folder above.
-/

set_option autoImplicit false

namespace TextHistory.Path

/-- The names in a path that stand for something. -/
def names (t : Text) : List Text :=
  (t.splitOn '/').filter fun name => !name.isEmpty && name != ['.']

/-- A path, written backwards, without the slashes and points at its end that stand for nothing. -/
def trimBackwards : Text → Text
  | '/' :: rest => if rest.isEmpty then ['/'] else trimBackwards rest
  | '.' :: '/' :: rest => if rest.isEmpty then ['/'] else trimBackwards rest
  | t => t

/-- The path of the folder that holds what a path names; none for the root and the empty path. -/
def parent? (t : Text) : Option Text :=
  let t := trimBackwards t.reverse
  if t.isEmpty ∨ t = ['/'] then none
  else some (trimBackwards (t.dropWhile (· != '/'))).reverse

/-! ## Names of files -/

/-- The name of the file that a path can mean. -/
def fileName? (t : Text) : Option Text := (names t).getLast?.filter (· != ['.', '.'])

/-- What stands behind the last point of the name of a file. A point at its beginning does not
count. -/
def ending? (t : Text) : Option Text := do
  let name := (← fileName? t).reverse
  match name.dropWhile (· != '.') with
  | _ :: _ :: _ => some (name.takeWhile (· != '.')).reverse
  | _ => none

/-- A path with a point and an ending behind the name of the file. -/
def withEnding? (t : Text) (ending : String) : Option Text :=
  if (fileName? t).isSome then
    some ((trimBackwards t.reverse).reverse ++ '.' :: ending.toList)
  else none

/-! ## Other paths -/

/-- A path below another one; a path that begins at the root stays as it is. -/
def join (base t : Text) : Text :=
  if base.isEmpty ∨ t.head? = some '/' then t
  else if base.getLast? = some '/' then base ++ t
  else base ++ '/' :: t

/-- A path with the home folder in the place of a tilde at its beginning. -/
def expandHome (home : Option Text) (t : Text) : Text :=
  match Text.stripLead? "~/".toList t, home with
  | some rest, some home => join home rest
  | _, _ => t

end TextHistory.Path
