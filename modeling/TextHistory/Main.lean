import TextHistory.Client.Run
import TextHistory.Http.Address
import TextHistory.Http.Wire
import TextHistory.Service.Start
import TextHistory.Store.Snapshot
import Std.Async
import Std.Sync.Mutex
import Std.Time

/-!
# The programs

The client and the service as programs of a machine with files, a network and a clock. They are one
program that goes by two names: under a name that ends in `server` it is the service, and under any
other name the client. Nothing is decided here; this module does what the client and the service
ask of their hosts.
-/

set_option autoImplicit false

namespace TextHistory.Programs

open Std.Async.TCP (Socket.Client Socket.Server)

/-- The result of an action that may fail. -/
def attempt {α : Type} (action : IO α) : IO (Option α) := do
  try return some (← action) catch _ => return none

/-! ## Files and the clock -/

/-- The text of a file, if there is one and it is UTF-8. -/
def fileText (path : Text) : IO (Option Text) := do
  let bytes ← attempt (IO.FS.readBinFile (String.ofList path))
  return bytes.bind fun b => (Utf8.decode b.toList).toOption

/-- The text of a file, if there is one, with a replacement for every byte that is no text. -/
def looseFileText (path : Text) : IO (Option Text) := do
  let bytes ← attempt (IO.FS.readBinFile (String.ofList path))
  return bytes.map fun b => Utf8.decodeLossy b.toList

/-- All that is typed, if it is UTF-8. -/
def readInput : IO (Option Text) := do
  let bytes ← attempt do (← IO.getStdin).readBinToEnd
  return bytes.bind fun b => (Utf8.decode b.toList).toOption

/-- Writes a file as a whole: the file has either its former text or the new one. -/
def replaceFile (path content : Text) : IO Bool := do
  let path := String.ofList path
  let done ← attempt do
    IO.FS.writeFile (path ++ ".new") (String.ofList content)
    IO.FS.rename (path ++ ".new") path
  return done.isSome

/-- The time now. -/
def clock : IO Instant := do
  let t := Std.Time.DateTime.ofTimestampWithZone (← Std.Time.Timestamp.now) .UTC
  return ⟨t.year.toInt, t.month.val.toNat, t.day.val.toNat, t.hour.val.toNat, t.minute.val.toNat,
    t.second.val.toNat, t.nanosecond.val.toNat⟩

/-! ## The network -/

/-- The places on the network that the name of a machine and a port stand for. -/
def resolve (machine : Text) (port : Nat) : IO (List Std.Net.SocketAddress) := do
  let found ← (Std.Async.DNS.getAddrInfo (String.ofList machine) (toString port)).block
  return found.toList.map fun
    | .v4 a => .v4 ⟨a, port.toUInt16⟩
    | .v6 a => .v6 ⟨a, port.toUInt16⟩

/-- The first of some actions that does not fail. -/
def firstOf {α β : Type} (action : α → IO β) : List α → IO (Option β)
  | [] => return none
  | a :: rest => do
    match ← attempt (action a) with
    | some b => return some b
    | none => firstOf action rest

/-- Reads from a connection until what was read is whole or the other side has ended it. -/
partial def receive {α : Type} (c : Socket.Client) (read? : List UInt8 → Bool → Option α)
    (seen : ByteArray) : IO (Option α) := do
  match read? seen.toList false with
  | some a => return some a
  | none =>
    match ← (c.recv? 65536).block with
    | some more => receive c read? (seen ++ more)
    | none => return read? seen.toList true

/-- Writes a message to a connection. -/
def transmit (c : Socket.Client) (m : WireMessage) : IO Unit := (c.send ⟨m.print.toArray⟩).block

/-- Sends a request to the service with the given address, and waits for the response. -/
def send (url : Text) (q : Request) : IO (Option Response) := do
  match Address.read? (url ++ q.target) with
  | none => return none
  | some a =>
    let response ← attempt do
      let connection ← firstOf (fun place => do
        let c ← Socket.Client.mk
        (c.connect place).block
        return c) (← resolve a.machine a.port)
      match connection with
      | none => return none
      | some c =>
        transmit c ({ q with target := a.target }.toWire a.place)
        receive c Response.ofWire? .empty
    return response.join

/-! ## The client -/

def clientHost : Client.Host IO where
  fileText := fileText
  readInput := readInput
  send := send

/-- Shows why the arguments stop a program. -/
def explain (usage : String) : CommandLine.Stop → IO Unit
  | .asked "version" => IO.println "revlog-server 0.1.0"
  | .asked _ => IO.println usage
  | .wrong => IO.eprintln usage

def clientUsage : String :=
  "\n".intercalate
    ["Usage: revlog [--config FILE] [--url URL] COMMAND", "", "Commands:", "  ls",
     "  cat PATH [--version VERSION]",
     "  save PATH [--file FILE] [--author NAME [--email EMAIL]] [--expect COUNT]",
     "  log PATH", "  diff PATH FROM TO"]

/-- Runs the client, and gives the exit status. -/
def runClient (arguments : List Text) : IO UInt32 := do
  let fromEnvironment := (← IO.getEnv "REVLOG_URL").map String.toList
  match ← Client.run clientHost fromEnvironment arguments with
  | .ok shown =>
    IO.print (String.ofList shown)
    return 0
  | .error failure =>
    match failure with
    | .stopped stop => explain clientUsage stop
    | _ => IO.eprintln ("Error: " ++ String.ofList (failure.message?.getD []))
    return failure.status.toUInt32

/-! ## The service -/

/-- What the service has opened. A store without a path is kept in memory alone. -/
structure Opened where
  path : Option Text := none
  store : Store := {}
  server : Option Socket.Server := none

/-- Opens a store, whose file is made if it is not there and may be made. -/
def openStore (name : Service.StoreName) : StateT Opened IO Bool := do
  match name.path with
  | none => return name.mayWrite
  | some path =>
    let mode := if name.mayCreate then IO.FS.Mode.append else .readWrite
    let file ← attempt (IO.FS.Handle.mk (String.ofList path) mode)
    match file, (← fileText path).bind Store.read? with
    | some _, some store =>
      modify ({ · with path := some path, store := store })
      return name.mayWrite
    | _, _ => return false

/-- Begins to listen at a machine and a port. -/
def listen (address : Text) : StateT Opened IO Bool := do
  let server ← attempt do
    match Address.readPlace? address with
    | some (machine, some port) =>
      firstOf (fun place => do
        let s ← Socket.Server.mk
        s.bind place
        s.listen 128
        return s) (← resolve machine port)
    | _ => return none
  modify ({ · with server := server.join })
  return server.join.isSome

def serviceHost : Service.Host (StateT Opened IO) where
  fileText path := looseFileText path
  makeFolder path := do return (← attempt (IO.FS.createDirAll (String.ofList path))).isSome
  openStore := openStore
  listen := listen

/-- Answers a request, and does not change the store unless its file could be written. -/
def respond (config : Api.Config) (o : Opened) (now : Clock) (q : Request) :
    IO (Opened × Response) := do
  let (store, response) := Api.answer config o.store now q
  if q.method = .post then
    if let some path := o.path then
      if !(← replaceFile path store.print) then
        return (o, Api.failure 500 "persistence error: the store cannot be written")
  return ({ o with store := store }, response)

/-- Serves a connection, which carries one request. -/
def serveConnection (config : Api.Config) (opened : Std.Mutex Opened) (c : Socket.Client) :
    IO Unit := do
  match ← receive c (fun bytes _ => Request.ofWire? bytes) .empty with
  | none => return
  | some q =>
    let response ← opened.atomically do
      let (o, response) ← respond config (← get) ⟨← clock, ← clock⟩ q
      set o
      return response
    transmit c response.toWire
    c.shutdown.block

/-- Serves every connection, side by side. -/
partial def serve (config : Api.Config) (opened : Std.Mutex Opened) (server : Socket.Server) :
    IO Unit := do
  let c ← server.accept.block
  let _ ← IO.asTask (serveConnection config opened c)
  serve config opened server

def serviceUsage : String := "Usage: revlog-server [--config FILE]"

/-- Runs the service, and gives the exit status if it ends. -/
def runService (arguments : List Text) : IO UInt32 := do
  let environment ← Std.Internal.UV.System.osEnviron
  let environment := environment.toList.map fun (name, value) => (name.toList, value.toList)
  let (report, opened) ← (Service.start serviceHost environment arguments).run {}
  for line in Service.logLines environment report do
    IO.println (String.ofList ((← clock).printZulu ++ "  ".toList ++ line))
  match report.result, opened.server with
  | .ok settings, some server =>
    serve { tuning := settings.tuning } (← Std.Mutex.new opened) server
    return 0
  | .ok _, none => return 1
  | .error failure, _ =>
    if let .stopped stop := failure then
      explain serviceUsage stop
    else
      for line in Service.complaints environment failure do
        IO.eprintln (String.ofList line)
    return failure.status.toUInt32

end TextHistory.Programs

def main (arguments : List String) : IO UInt32 := do
  let arguments := arguments.map String.toList
  let name := (← IO.appPath).fileStem.getD ""
  if name.endsWith "server" then TextHistory.Programs.runService arguments
  else TextHistory.Programs.runClient arguments
