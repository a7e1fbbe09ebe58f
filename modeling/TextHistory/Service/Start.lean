import TextHistory.CommandLine
import TextHistory.Service.Log
import TextHistory.Service.Path
import TextHistory.Service.StoreName
import TextHistory.Settings.Environment
import TextHistory.Settings.Format
import TextHistory.Settings.Service
import TextHistory.Text.Quoted

/-!
# Starting the service

The service reads its settings from a file and from the environment, opens its store, and listens.
What it needs from outside is a `Host`, so that the same start can be run on a machine and on a
model of one.
-/

set_option autoImplicit false

namespace TextHistory.Service

/-- What the service needs from outside, as actions of some kind. -/
structure Host (m : Type → Type) where
  /-- The text of a file, if there is such a file. Bytes that are no text are replaced. -/
  fileText : Text → m (Option Text)
  /-- Makes a folder and those above it, and says whether they are there then. -/
  makeFolder : Text → m Bool
  /-- Opens a store, and says whether it can be used. -/
  openStore : StoreName → m Bool
  /-- Begins to listen at an address, and says whether that is possible. -/
  listen : Text → m Bool

/-! ## Failures -/

/-- Why the service did not start. -/
inductive Failure where
  /-- The filter of the log lines cannot be taken apart. -/
  | filter
  /-- The arguments stop it. -/
  | stopped (s : CommandLine.Stop)
  /-- The file of settings is not well-formed. -/
  | settingsFile
  /-- A setting has a value that does not fit. -/
  | settings
  | folder (path : Text)
  | store (path : Text)
  | address (t : Text)
  deriving DecidableEq, Repr

/-- The wording of a failure, if it has one. -/
def Failure.message? : Failure → Option Text
  | .filter => none
  | .stopped _ => none
  | .settingsFile => some "failed to read config file".toList
  | .settings => some "failed to deserialise ServerConfig".toList
  | .folder path => some ("failed to create ".toList ++ Quoted.text path)
  | .store path => some ("failed to open store at ".toList ++ Quoted.text path)
  | .address t => some ("failed to bind ".toList ++ t)

/-- The exit status of a failure. -/
def Failure.status : Failure → Nat
  | .stopped (.asked _) => 0
  | .stopped .wrong => 2
  | .filter => 101
  | _ => 1

/-! ## Settings -/

/-- What the program takes. -/
def grammar : CommandLine.Grammar :=
  { options := [⟨"config", some 'c', false⟩], flags := [("help", 'h'), ("version", 'V')] }

/-- The file of settings that the arguments name. -/
def settingsPath (arguments : List Text) : Except CommandLine.Stop Text := do
  let found ← CommandLine.Arguments.read grammar arguments
  if found.operands.isEmpty then return (found.get? "config").getD "revlog.toml".toList
  else .error .wrong

/-- The first of some files that is there, and its format. -/
def readFirst {m : Type → Type} [Monad m] (host : Host m) (path : Text) :
    List (String × Settings.Format) → m (Option (Settings.Format × Text))
  | [] => pure none
  | (ending, format) :: rest => do
    match Path.withEnding? path ending with
    | none => return none
    | some other =>
      match ← host.fileText other with
      | some t => return some (format, t)
      | none => readFirst host path rest

/-- The format and the text of the file of settings: the file with the given path, or else one
with a usual ending added. A file with another ending counts as empty. -/
def readSettings {m : Type → Type} [Monad m] (host : Host m) (path : Text) :
    m (Option (Settings.Format × Text)) := do
  match ← host.fileText path with
  | some t => return ((Path.ending? path).bind Settings.Format.ofEnding?).map (·, t)
  | none => readFirst host path Settings.Format.endings

/-- A text without a byte order mark in front. -/
def withoutMark : Text → Text
  | '\uFEFF' :: rest => rest
  | t => t

/-- The settings from the file, if there is one, and from the environment, which covers it. -/
def loadSettings (file : Option (Settings.Format × Text)) (environment : List (Text × Text)) :
    Except Failure ServiceSettings :=
  let read := match file with
    | none => some []
    | some (format, t) => format.read? t
  match read with
  | none => .error .settingsFile
  | some entries =>
    let layer := Settings.cover (Settings.cover [] entries)
      (Settings.ofEnvironment "revlog_" environment)
    match ServiceSettings.ofLayer? layer with
    | none => .error .settings
    | some s => .ok s

/-! ## Events -/

/-- The name under which the service logs. -/
def logName : String := "revlog_server"

def storeEvent (path : Text) : LogEvent := ⟨"store opened".toList, [("path", path)]⟩

/-- An optional number in a log line. -/
def optionalNumber : Option Nat → Text
  | some n => "Some(".toList ++ Numeral.print n ++ [')']
  | none => "None".toList

def tuningEvent (o : Tuning) : LogEvent where
  message := "codec configured".toList
  values :=
    [("patch_margin", Numeral.print o.patchMargin),
      ("match_distance", Numeral.print o.matchDistance),
      ("semantic_cleanup", (toString o.semanticCleanup).toList),
      ("diff_timeout_ms", optionalNumber o.diffTimeout)]

def addressEvent (address : Text) : LogEvent := ⟨"Listening on http://".toList ++ address, []⟩

/-! ## The start -/

/-- How a start ended, and what was logged on the way. -/
structure Report where
  log : List LogEvent
  /-- The settings of the service, which listens now. -/
  result : Except Failure ServiceSettings

/-- A variable of the environment. -/
def valueOf? (environment : List (Text × Text)) (name : String) : Option Text :=
  (environment.find? (·.1 == name.toList)).map (·.2)

/-- Opens the store of a service with given settings, and listens. -/
def startWith {m : Type → Type} [Monad m] (host : Host m) (home : Option Text)
    (s : ServiceSettings) : m Report := do
  let path := Path.expandHome home s.storePath
  let folder := (Path.parent? path).getD []
  let isThere ← if folder.isEmpty then pure true else host.makeFolder folder
  if !isThere then return ⟨[], .error (.folder folder)⟩
  let isOpen ← match StoreName.read? path with
    | none => pure false
    | some name => host.openStore name
  if !isOpen then return ⟨[], .error (.store path)⟩
  let log := [storeEvent path, tuningEvent s.tuning, addressEvent s.address]
  if ← host.listen s.address then return ⟨log, .ok s⟩
  else return ⟨log, .error (.address s.address)⟩

/-- The text that says which log lines are shown. -/
def filterText (environment : List (Text × Text)) : Text :=
  (valueOf? environment "RUST_LOG").getD []

/-- Starts the service. What is logged is all that happened, shown or not. -/
def start {m : Type → Type} [Monad m] (host : Host m) (environment : List (Text × Text))
    (arguments : List Text) : m Report := do
  if LogFilter.isBroken (filterText environment) then return ⟨[], .error .filter⟩
  match settingsPath arguments with
  | .error stop => return ⟨[], .error (.stopped stop)⟩
  | .ok path =>
    let file ← readSettings host path
    let file := file.map fun (format, t) => (format, withoutMark t)
    match loadSettings file environment with
    | .error failure => return ⟨[], .error failure⟩
    | .ok s => startWith host (valueOf? environment "HOME") s

/-- The log lines that are shown, in order. -/
def logLines (environment : List (Text × Text)) (r : Report) : List Text :=
  let filter := LogFilter.read (filterText environment)
  (r.log.filter (filter.shows logName)).map (LogEvent.line logName)

/-- The lines for people that a failed start prints, in order. -/
def complaints (environment : List (Text × Text)) (failure : Failure) : List Text :=
  let notes := (LogFilter.ignored (filterText environment)).map fun (piece, fault) =>
    "ignoring `".toList ++ piece ++ "`: ".toList ++ fault.message.toList
  notes ++ (failure.message?.map ("Error: ".toList ++ ·)).toList

end TextHistory.Service
