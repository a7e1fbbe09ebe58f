import TextHistory.Client.Call

/-!
# Running the client

An invocation is read, the address of the service is looked up, the text to be saved is read if
there is one, and the request is sent. What the client needs from outside is a `Host`.
-/

set_option autoImplicit false

namespace TextHistory.Client

/-- What the client needs from outside, as actions of some kind. -/
structure Host (m : Type → Type) where
  /-- The text of a file, if it can be read. -/
  fileText : Text → m (Option Text)
  /-- What is typed, if it is text. -/
  readInput : m (Option Text)
  /-- Sends a request to the service with the given address, and waits for the response. -/
  send : Text → Request → m (Option Response)

/-- The address in a file of settings, if there is a file. -/
def fileUrl {m : Type → Type} [Monad m] (host : Host m) : Option Text → m (Except Failure Text)
  | none => pure (.ok [])
  | some path => do
    match ← host.fileText path with
    | none => return .error (.missingSettings path)
    | some t => return (urlOfFile t).mapError fun _ => .settings

/-- The text that a command saves; other commands save nothing. -/
def content {m : Type → Type} [Monad m] (host : Host m) : Command → m (Except Failure Text)
  | .save _ (some path) _ _ _ => do
    match ← host.fileText path with
    | none => return .error (.missingFile path)
    | some t => return .ok t
  | .save _ none _ _ _ => do
    match ← host.readInput with
    | none => return .error .input
    | some t => return .ok t
  | _ => pure (.ok [])

/-- Does what an invocation asks for, and gives what is to be shown. -/
def Invocation.run {m : Type → Type} [Monad m] (host : Host m) (fromEnvironment : Option Text)
    (i : Invocation) : m (Except Failure Text) := do
  match ← fileUrl host i.config with
  | .error e => return .error e
  | .ok fromFile =>
    match ← content host i.command with
    | .error e => return .error e
    | .ok t =>
      match ← host.send (chooseUrl i.url fromEnvironment fromFile) (i.command.request t) with
      | none => return .error (.noResponse i.command.label)
      | some r => return i.command.present r

/-- Runs the client with its arguments. -/
def run {m : Type → Type} [Monad m] (host : Host m) (fromEnvironment : Option Text)
    (arguments : List Text) : m (Except Failure Text) := do
  match Invocation.read arguments with
  | .error stop => return .error (.stopped stop)
  | .ok i => i.run host fromEnvironment

end TextHistory.Client
