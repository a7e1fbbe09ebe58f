import TextHistory.Text.Basic

/-!
# Command lines

Arguments are options with a value, flags that stop the program at once, and operands. A long
option begins with two hyphens and may carry its value behind an equals sign; a short one is one
letter behind a hyphen and may carry its value directly. Otherwise the value is the next argument,
which must not begin with a hyphen unless it is nothing else. Two hyphens alone end the options.
-/

set_option autoImplicit false

namespace TextHistory.CommandLine

/-! ## Descriptions -/

/-- An option that takes a value, at most once. -/
structure OptionName where
  long : String
  short : Option Char := none
  /-- Whether the value may be the empty text. -/
  mayBeEmpty : Bool := true
  deriving DecidableEq, Repr

/-- Why the arguments do not lead to a run. -/
inductive Stop where
  /-- They are not what the program takes. -/
  | wrong
  /-- A flag asks for a text and nothing else. -/
  | asked (flag : String)
  deriving DecidableEq, Repr

/-- What a program takes. -/
structure Grammar where
  options : List OptionName
  /-- The flags that stop the program, each with its letter. -/
  flags : List (String × Char) := [("help", 'h')]
  /-- The first operand is the last argument that is read. -/
  stopsAtOperand : Bool := false
  deriving DecidableEq, Repr

/-! ## Single arguments -/

/-- What an argument is. -/
inductive Shape where
  | operand
  /-- The end of the options. -/
  | ending
  | flag (name : String)
  /-- An option, with its value if it carries one. -/
  | option (o : OptionName) (attached : Option Text)
  | unknown
  deriving DecidableEq, Repr

/-- The shape of a long option, without its hyphens. -/
def Grammar.longShape (g : Grammar) (t : Text) : Shape :=
  let name := t.takeWhile (· != '=')
  let attached := match t.dropWhile (· != '=') with
    | _ :: value => some value
    | [] => none
  match g.flags.find? (·.1.toList == name) with
  | some (flag, _) => if attached.isSome then .unknown else .flag flag
  | none =>
    match g.options.find? (·.long.toList == name) with
    | some o => .option o attached
    | none => .unknown

/-- The shape of a short option, without its hyphen. -/
def Grammar.shortShape (g : Grammar) (letter : Char) (rest : Text) : Shape :=
  match g.flags.find? (·.2 == letter) with
  | some (flag, _) => .flag flag
  | none =>
    match g.options.find? (·.short == some letter) with
    | none => .unknown
    | some o =>
      match rest with
      | [] => .option o none
      | '=' :: value => .option o (some value)
      | value => .option o (some value)

/-- The shape of an argument. -/
def Grammar.shape (g : Grammar) (t : Text) : Shape :=
  match t with
  | ['-', '-'] => .ending
  | '-' :: '-' :: rest => g.longShape rest
  | '-' :: letter :: rest => g.shortShape letter rest
  | _ => .operand

/-! ## All arguments -/

/-- What was found among the arguments. -/
structure Arguments where
  options : List (String × Text) := []
  operands : List Text := []
  deriving DecidableEq, Repr

namespace Arguments

/-- The value of an option. -/
def get? (a : Arguments) (name : String) : Option Text :=
  (a.options.find? (·.1 == name)).map (·.2)

/-- Adds the value of an option, which must not have one yet. -/
def give (a : Arguments) (o : OptionName) (value : Text) : Except Stop Arguments :=
  if (a.get? o.long).isSome ∨ (value.isEmpty ∧ !o.mayBeEmpty) then .error .wrong
  else .ok { a with options := a.options ++ [(o.long, value)] }

/-- An argument can be the value of the option before it. -/
def isValue : Text → Bool
  | '-' :: _ :: _ => false
  | _ => true

/-- Reads arguments, given what was found before them. -/
def readFrom (g : Grammar) (found : Arguments) : List Text → Except Stop Arguments
  | [] => .ok found
  | t :: rest =>
    match g.shape t with
    | .operand =>
      if g.stopsAtOperand then .ok { found with operands := t :: rest }
      else readFrom g { found with operands := found.operands ++ [t] } rest
    | .ending =>
      if g.stopsAtOperand then .error .wrong
      else .ok { found with operands := found.operands ++ rest }
    | .flag name => .error (.asked name)
    | .option o (some value) => do
      let found ← found.give o value
      readFrom g found rest
    | .option o none =>
      match rest with
      | value :: rest =>
        if isValue value then do
          let found ← found.give o value
          readFrom g found rest
        else .error .wrong
      | [] => .error .wrong
    | .unknown => .error .wrong

/-- Reads the arguments of a program. With a grammar that stops at the first operand, the operands
are that one and everything after it. -/
def read (g : Grammar) (ts : List Text) : Except Stop Arguments := readFrom g {} ts

end Arguments

end TextHistory.CommandLine
