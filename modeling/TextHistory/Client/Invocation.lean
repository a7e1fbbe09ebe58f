import TextHistory.CommandLine
import TextHistory.Text.Numeral
import TextHistory.Toml.Reader

/-!
# Invocations of the client

What the client is asked to do: options that say where the service is, and then a command with
arguments of its own.
-/

set_option autoImplicit false

namespace TextHistory.Client

open CommandLine

/-! ## Commands -/

/-- What the client does for its user. -/
inductive Command where
  /-- Shows every tracked file. -/
  | list
  /-- Shows the latest text of a file, or that of a version. -/
  | text (name : Text) (version : Option Text)
  /-- Saves the text of a file, or what is typed, and says by whom and from which length. -/
  | save (name : Text) (file author email : Option Text) (expected : Option Nat)
  /-- Shows the chain of a file. -/
  | log (name : Text)
  /-- Shows the difference of two versions. -/
  | difference (name old new : Text)
  deriving DecidableEq, Repr

/-- A command, and where the service and its settings are. -/
structure Invocation where
  config : Option Text
  url : Option Text
  command : Command
  deriving DecidableEq, Repr

/-! ## Reading arguments -/

/-- Reads the arguments of a command, which must have the given number of operands. -/
def readOperands (options : List OptionName) (count : Nat) (ts : List Text) :
    Except Stop Arguments := do
  let found ← Arguments.read { options := options } ts
  if found.operands.length = count then return found else .error .wrong

def textCommand (ts : List Text) : Except Stop Command := do
  let found ← readOperands [⟨"version", none, true⟩] 1 ts
  return .text (found.operands.headD []) (found.get? "version")

def saveOptions : List OptionName :=
  [⟨"file", none, false⟩, ⟨"author", none, true⟩, ⟨"email", none, true⟩, ⟨"expect", none, true⟩]

/-- An address belongs to an author, and the expected length must be a word. -/
def saveCommand (ts : List Text) : Except Stop Command := do
  let found ← readOperands saveOptions 1 ts
  let author := found.get? "author"
  let email := found.get? "email"
  if email.isSome ∧ author.isNone then .error .wrong
  else
    let name := found.operands.headD []
    let file := found.get? "file"
    match found.get? "expect" with
    | none => return .save name file author email none
    | some raw =>
      match Numeral.readWord raw with
      | some n => return .save name file author email (some n)
      | none => .error .wrong

def logCommand (ts : List Text) : Except Stop Command := do
  let found ← readOperands [] 1 ts
  return .log (found.operands.headD [])

def differenceCommand (ts : List Text) : Except Stop Command := do
  let found ← readOperands [] 3 ts
  match found.operands with
  | [name, old, new] => return .difference name old new
  | _ => .error .wrong

/-- The names that may stand in the place of a command. -/
def commandNames : List String := ["ls", "cat", "save", "log", "diff", "help"]

/-- Help is asked for as a whole or for one command. -/
def readHelp : List Text → Stop
  | [] => .asked "help"
  | [name] => if commandNames.any (·.toList == name) then .asked "help" else .wrong
  | _ => .wrong

/-- The command with a name. -/
def readCommand (name : Text) (ts : List Text) : Except Stop Command :=
  match String.ofList name with
  | "ls" => do
    let _ ← readOperands [] 0 ts
    return .list
  | "cat" => textCommand ts
  | "save" => saveCommand ts
  | "log" => logCommand ts
  | "diff" => differenceCommand ts
  | "help" => .error (readHelp ts)
  | _ => .error .wrong

/-- What may stand before the command. -/
def grammar : Grammar :=
  { options := [⟨"config", some 'c', false⟩, ⟨"url", none, true⟩], stopsAtOperand := true }

/-- Reads an invocation. -/
def Invocation.read (ts : List Text) : Except Stop Invocation := do
  let found ← Arguments.read grammar ts
  match found.operands with
  | [] => .error .wrong
  | name :: rest =>
    let command ← readCommand name rest
    return ⟨found.get? "config", found.get? "url", command⟩

/-! ## Where the service is -/

/-- The address of the service in a file of settings, empty if it has none. The error is that the
file has a fault or an address that is no text. -/
def urlOfFile (t : Text) : Except Unit Text :=
  match Toml.read? t with
  | none => .error ()
  | some entries =>
    match Toml.lookup? entries "url".toList with
    | none => .ok []
    | some (.string url) => .ok url
    | some _ => .error ()

/-- The address of a service on the same machine. -/
def usualUrl : Text := "http://localhost:5232".toList

/-- The address of the service: that of the arguments, else that of the environment, else that of
the file, else the usual one, without slashes at its end. -/
def chooseUrl (argument fromEnvironment : Option Text) (fromFile : Text) : Text :=
  let url := match argument, fromEnvironment with
    | some url, _ => url
    | none, some url => url
    | none, none => if fromFile.isEmpty then usualUrl else fromFile
  (url.reverse.dropWhile (· == '/')).reverse

end TextHistory.Client
