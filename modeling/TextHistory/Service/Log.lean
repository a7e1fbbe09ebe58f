import TextHistory.Text.Alphanumeric
import TextHistory.Text.Blank
import TextHistory.Text.Numeral
import TextHistory.Text.Utf8

/-!
# Log lines

The service logs events of one level under one name; an event has a message and named values. A
filter, given as a list of directives, decides which events are shown. A directive sets a level for
the names with a given beginning and for the events with a given value, or inside certain
activities only, of which there are none here. Of the directives that apply to an event the most
special one counts.
-/

set_option autoImplicit false

namespace TextHistory

/-! ## Events -/

/-- Something that happened, with named values. -/
structure LogEvent where
  message : Text
  values : List (String × Text) := []
  deriving DecidableEq, Repr

namespace LogEvent

/-- An event has a value with a name; its message is one. -/
def has (e : LogEvent) (name : Text) : Bool :=
  name == "message".toList || e.values.any (·.1.toList == name)

/-- The line of an event of level `info`. -/
def line (logName : String) (e : LogEvent) : Text :=
  "INFO ".toList ++ logName.toList ++ ": ".toList ++ e.message
    ++ e.values.flatMap fun (name, value) => ' ' :: (name.toList ++ '=' :: value)

end LogEvent

/-! ## Levels -/

/-- How much is shown, in ascending order. -/
inductive LogLevel where
  | off
  | error
  | warn
  | info
  | debug
  | trace
  deriving DecidableEq, Repr

namespace LogLevel

def all : List LogLevel := [.off, .error, .warn, .info, .debug, .trace]

def rank : LogLevel → Nat
  | .off => 0
  | .error => 1
  | .warn => 2
  | .info => 3
  | .debug => 4
  | .trace => 5

def name : LogLevel → String
  | .off => "off"
  | .error => "error"
  | .warn => "warn"
  | .info => "info"
  | .debug => "debug"
  | .trace => "trace"

/-- The level with a name or a number. -/
def read? (t : Text) : Option LogLevel :=
  all.find? fun l => Text.isWord l.name t || Numeral.readWord t == some l.rank

end LogLevel

/-! ## Directives -/

/-- A directive of a filter. -/
structure LogDirective where
  /-- The beginning of the names that it is about; all names if there is none. -/
  lead : Option Text := none
  /-- The activity inside which it applies. -/
  activity : Option Text := none
  /-- The value that an event must have, and what it must be. -/
  value : Option (Text × Option Text) := none
  level : LogLevel := .trace
  deriving DecidableEq, Repr

namespace LogDirective

/-- Why a text is no directive. -/
inductive Fault where
  | malformed
  /-- What should be a level is none. -/
  | level
  /-- A part ends inside a character, because blanks in front have moved it. -/
  | split
  deriving DecidableEq, Repr

/-- The wording of a fault. -/
def Fault.message : Fault → String
  | .level => "error parsing level filter: expected one of \"off\", \"error\", \"warn\", " ++
      "\"info\", \"debug\", \"trace\", or a number 0-5"
  | _ => "invalid filter directive"

/-- Which part of a directive is being read, and at which byte it begins. -/
inductive Part where
  | start
  | lead (first : Nat)
  | activity (first : Nat)
  | value (first : Nat)
  | valueEnd
  | bracketEnd
  | level (first : Nat)
  deriving DecidableEq, Repr

/-- A text without a number of bytes at its beginning, if a character begins there. -/
def dropBytes : Nat → Text → Except Fault Text
  | 0, t => .ok t
  | _, [] => .error .split
  | n, c :: rest => if n < c.utf8Size then .error .split else dropBytes (n - c.utf8Size) rest

/-- The text before a number of bytes, if a character begins there. -/
def takeBytes : Nat → Text → Except Fault Text
  | 0, _ => .ok []
  | _, [] => .error .split
  | n, c :: rest =>
    if n < c.utf8Size then .error .split
    else (takeBytes (n - c.utf8Size) rest).map (c :: ·)

/-- The part of a text between two bytes. -/
def between (t : Text) (first last : Nat) : Except Fault Text := do
  takeBytes (last - first) (← dropBytes first t)

/-- A directive can begin with the character. -/
def isFirst (c : Char) : Bool := c == '-' || c == ':' || c == '_' || Text.isAlphanumeric c

/-- A named value, perhaps with what it must be. -/
def readValue (t : Text) : Text × Option Text :=
  match t.splitOn '=' with
  | name :: value :: _ => (name, some value)
  | _ => (t, none)

/-- The directive and the part after the character at byte `i`. -/
def step (whole : Text) (d : LogDirective) (part : Part) (i : Nat) (c : Char) :
    Except Fault (LogDirective × Part) := do
  match part, c with
  | .start, '[' => return (d, .activity (i + 1))
  | .start, c => if isFirst c then return (d, .lead i) else .error .malformed
  | .lead first, '=' => return ({ d with lead := some (← between whole first i) }, .level (i + 1))
  | .lead first, '[' =>
    return ({ d with lead := some (← between whole first i) }, .activity (i + 1))
  | .activity first, ']' =>
    return ({ d with activity := some (← between whole first i) }, .bracketEnd)
  | .activity first, '{' =>
    let name ← between whole first i
    return ({ d with activity := if name.isEmpty then none else some name }, .value (i + 1))
  | .value first, '}' =>
    let t ← between whole first i
    if t.isEmpty then .error .malformed
    else return ({ d with value := some (readValue t) }, .valueEnd)
  | .valueEnd, ']' => return (d, .bracketEnd)
  | .bracketEnd, '=' => return (d, .level (i + 1))
  | .valueEnd, _ => .error .malformed
  | .bracketEnd, _ => .error .malformed
  | part, _ => return (d, part)

/-- The directive at the end of its text. A word that is a level is one for all names. -/
def finish (whole : Text) (d : LogDirective) : Part → Except Fault LogDirective
  | .lead first => do
    let t ← dropBytes first whole
    match LogLevel.read? t with
    | some l => return { d with level := l }
    | none => return { d with lead := some t }
  | .level first => do
    let t ← dropBytes first whole
    if t.isEmpty then return d
    else
      match LogLevel.read? t with
      | some l => return { d with level := l }
      | none => .error .level
  | .bracketEnd => .ok d
  | _ => .error .malformed

/-- Reads the characters from byte `i` on. -/
def readFrom (whole : Text) (d : LogDirective) (part : Part) (i : Nat) :
    Text → Except Fault LogDirective
  | [] => finish whole d part
  | c :: rest => do
    let (d, part) ← step whole d part i c
    readFrom whole d part (i + c.utf8Size) rest

/-- The directive that a text stands for. The bytes of its parts are counted without blanks in
front, but taken from the text as it is. -/
def read (t : Text) : Except Fault LogDirective := readFrom t {} .start 0 (Text.trim t)

/-- A directive applies to an event under a name. One that is about an activity, or about what a
value must be, never does. -/
def applies (d : LogDirective) (logName : String) (e : LogEvent) : Bool :=
  let fits := match d.value with
    | none => true
    | some (name, none) => e.has name
    | some (_, some _) => false
  d.activity.isNone && fits && (d.lead.getD []).isPrefixOf logName.toList

/-- A directive is less special than another one that applies to the same event. A longer
beginning counts more than a value, and a value more than none. -/
def isBelow (a b : LogDirective) : Bool :=
  let size (d : LogDirective) : Nat := (d.lead.map (·.length + 1)).getD 0
  let name (d : LogDirective) : Text := (d.value.map (·.1)).getD []
  if size a ≠ size b then size a < size b
  else if a.value.isSome ≠ b.value.isSome then b.value.isSome
  else (name a).precedes (name b) && name a != name b

end LogDirective

/-! ## Filters -/

/-- A filter of log lines. -/
abbrev LogFilter := List LogDirective

namespace LogFilter

/-- The pieces of a text that should be directives, and what they are. -/
def pieces (t : Text) : List (Text × Except LogDirective.Fault LogDirective) :=
  ((t.splitOn ',').filter fun piece => !piece.isEmpty).map fun piece =>
    (piece, LogDirective.read piece)

/-- The pieces that are no directives and are ignored, each with its fault. -/
def ignored (t : Text) : List (Text × LogDirective.Fault) :=
  (pieces t).filterMap fun (piece, d) =>
    match d with
    | .ok _ => none
    | .error fault => some (piece, fault)

/-- A text that cannot be taken apart is no filter at all. -/
def isBroken (t : Text) : Bool := (ignored t).any (·.2 == .split)

/-- The filter that a text stands for; without any directive, level `info` is shown. -/
def read (t : Text) : LogFilter :=
  match (pieces t).filterMap (·.2.toOption) with
  | [] => [{ level := .info }]
  | filter => filter

/-- The directive that counts for an event: the most special one, and of equals the last one. -/
def directive? (f : LogFilter) (logName : String) (e : LogEvent) : Option LogDirective :=
  (f.filter (·.applies logName e)).foldl (fun best d =>
    match best with
    | none => some d
    | some b => if d.isBelow b then some b else some d) none

/-- An event of level `info` is shown. -/
def shows (f : LogFilter) (logName : String) (e : LogEvent) : Bool :=
  match f.directive? logName e with
  | some d => LogLevel.info.rank ≤ d.level.rank
  | none => false

end LogFilter

end TextHistory
