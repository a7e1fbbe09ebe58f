import TextHistory.Text.Basic

/-!
# Media types

A media type is written as a type, a slash and a subtype, with parameters behind semicolons. What
follows the last plus sign of a subtype is its suffix, which names the notation that the subtype is
written in. Letters of either case mean the same.
-/

set_option autoImplicit false

namespace TextHistory

/-- A media type; its parameters do not matter here. -/
structure MediaType where
  type : Text
  /-- The subtype without its suffix. -/
  subtype : Text
  suffix : Option Text
  deriving DecidableEq, Repr

namespace MediaType

/-- The characters of names and unquoted values. -/
def isToken (c : Char) : Bool := c.isAlphanum || "!#$%&'*+-.^_`|~".toList.contains c

/-- The characters that may stand between quotes. -/
def isQuotable (c : Char) : Bool := 0x20 ≤ c.toNat && c != '\x7f'

/-! ## Parameters -/

/-- Where a reader of parameters stands. -/
inductive Place where
  /-- Before a name. -/
  | gap
  | name
  /-- Behind the equals sign. -/
  | equals
  | value
  /-- Behind the opening quote, where a quote is not yet the closing one. -/
  | opened
  | quoted
  /-- Behind the closing quote. -/
  | closed
  deriving DecidableEq, Repr

/-- The place after one more character, unless it cannot stand there. -/
def Place.next? (p : Place) (c : Char) : Option Place :=
  match p with
  | .gap => if c = ' ' then some .gap else if isToken c then some .name else none
  | .name => if isToken c then some .name else if c = '=' then some .equals else none
  | .equals => if c = '"' then some .opened else if isToken c then some .value else none
  | .value => if isToken c then some .value else if c = ';' then some .gap else none
  | .opened => if isQuotable c then some .quoted else none
  | .quoted =>
    if c = '"' then some .closed else if isQuotable c then some .quoted else none
  | .closed => if c = ';' then some .gap else if c = ' ' then some .closed else none

/-- Parameters may end here. -/
def Place.isFinal : Place → Bool
  | .gap | .equals | .value | .closed => true
  | .name | .opened | .quoted => false

/-- The text behind the first semicolon is a list of parameters. -/
def areParameters (t : Text) : Bool := (t.foldlM Place.next? .gap).any Place.isFinal

/-! ## The whole type -/

/-- A subtype as written, and its suffix. A plus sign in front does not begin a suffix. -/
def splitSuffix (t : Text) : Text × Option Text :=
  let tail := (t.reverse.takeWhile (· != '+')).reverse
  let lead := t.take (t.length - tail.length - 1)
  if lead.isEmpty ∨ tail.length = t.length then (t, none) else (lead, some tail)

/-- The media type that a text names. -/
def read? (t : Text) : Option MediaType :=
  let type := t.takeWhile isToken
  match t.dropWhile isToken with
  | '/' :: rest =>
    let (subtype, suffix) := splitSuffix (rest.takeWhile isToken)
    let found : MediaType := ⟨type, subtype, suffix⟩
    match rest.dropWhile isToken with
    | [] => if type.isEmpty then none else some found
    | ';' :: parameters =>
      if type.isEmpty ∨ subtype.isEmpty ∨ !areParameters parameters then none else some found
    | _ => none
  | _ => none

/-- The type is that of JSON, or of something written in JSON. -/
def isJson (m : MediaType) : Bool :=
  Text.isWord "application" m.type
    && (Text.isWord "json" m.subtype || m.suffix.any (Text.isWord "json"))

end MediaType

end TextHistory
