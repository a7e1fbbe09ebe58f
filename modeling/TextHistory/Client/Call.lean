import TextHistory.Api
import TextHistory.Client.Invocation
import TextHistory.Http.Status

/-!
# Calls of the client

Every command is one request to the service and a way to show its response. A response that is no
success says why in its body, and a success must hold what the route answers.
-/

set_option autoImplicit false

namespace TextHistory.Client

/-! ## Failures -/

/-- Why the client did not do what it was asked for. -/
inductive Failure where
  /-- The arguments stop it. -/
  | stopped (s : CommandLine.Stop)
  /-- The file of settings cannot be read. -/
  | missingSettings (path : Text)
  /-- The file of settings is not what it should be. -/
  | settings
  /-- The file to be saved cannot be read. -/
  | missingFile (path : Text)
  /-- What is typed cannot be read. -/
  | input
  /-- There is no response to a request. -/
  | noResponse (request : Text)
  /-- The response to a request is no success. -/
  | refused (request : Text) (status : Nat) (message : Text)
  /-- The response to a request holds something else than expected. -/
  | unfitResponse (request : Text)
  deriving DecidableEq, Repr

/-- The wording of a failure, if it has one. -/
def Failure.message? : Failure → Option Text
  | .stopped _ => none
  | .missingSettings path => some ("reading config file ".toList ++ path)
  | .settings => some "parsing config file".toList
  | .missingFile path => some ("reading ".toList ++ path)
  | .input => some "reading stdin".toList
  | .noResponse request => some (request ++ " failed".toList)
  | .refused request status message =>
    some (request ++ " → ".toList ++ Status.print status ++ ": ".toList ++ message)
  | .unfitResponse request =>
    some ("deserialising ".toList ++ request ++ " response".toList)

/-- The exit status of a failure. -/
def Failure.status : Failure → Nat
  | .stopped (.asked _) => 0
  | .stopped .wrong => 2
  | _ => 1

/-! ## Requests -/

/-- A request to a route, which reads. -/
def getRequest (r : Api.Route) (q : Query) : Request :=
  { method := .get, target := if q.isEmpty then r.path else r.path ++ '?' :: q.print }

/-- A request to a route, which writes. -/
def postRequest (r : Api.Route) (j : Json) : Request :=
  { method := .post
    target := r.path
    headers := [("content-type".toList, "application/json".toList)]
    body := j.print }

/-- The route that a command uses. -/
def Command.route : Command → Api.Route
  | .list => .list
  | .text _ none => .latest
  | .text _ (some _) => .version
  | .save .. => .save
  | .log _ => .history
  | .difference .. => .difference

/-- The request of a command; a save takes the text that is to be saved. -/
def Command.request (c : Command) (content : Text) : Request :=
  match c with
  | .list => getRequest .list []
  | .text name none => getRequest .latest [("path".toList, name)]
  | .text name (some version) =>
    getRequest .version [("path".toList, name), ("version".toList, version)]
  | .save name _ author email expected =>
    let q : Submission := ⟨name, content, author.map fun a => ⟨a, email⟩, expected⟩
    postRequest .save q.toJson
  | .log name => getRequest .history [("path".toList, name)]
  | .difference name old new =>
    getRequest .difference [("path".toList, name), ("from".toList, old), ("to".toList, new)]

/-- How messages name the request of a command. -/
def Command.label (c : Command) : Text :=
  (c.request []).method.print ++ ' ' :: c.route.address.toList

/-! ## Responses -/

/-- The reason in the body of a response that is no success; without one, the status. -/
def reason (r : Response) : Text :=
  match (Json.parse? r.body).bind (Json.get? · "error") with
  | some (.string message) => message
  | _ => Status.print r.status

/-- What a response holds. -/
def receive {α : Type} (d : Json.Decoder α) (label : Text) (r : Response) : Except Failure α :=
  if r.isSuccess then
    match Json.decode d r.body with
    | .ok a => .ok a
    | .error _ => .error (.unfitResponse label)
  else .error (.refused label r.status (reason r))

/-! ## What is shown -/

/-- A text filled up with spaces at its end. -/
def padEnd (width : Nat) (t : Text) : Text := t ++ List.replicate (width - t.length) ' '

/-- A text filled up with spaces in front. -/
def padStart (width : Nat) (t : Text) : Text := List.replicate (width - t.length) ' ' ++ t

/-- A date and a time of day to the minute. -/
def minute (t : Instant) : Text :=
  t.printDate ++ ' ' :: Instant.padded 2 t.hour ++ ':' :: Instant.padded 2 t.minute

/-- A date and a time of day to the second, where a leap second shows as second 60. -/
def second (t : Instant) : Text :=
  let leap := if 1000000000 ≤ t.nano then 1 else 0
  minute t ++ ':' :: Instant.padded 2 (t.second + leap)

/-- The line of a tracked file. -/
def fileLine (s : Summary) : Text :=
  padEnd 40 s.name ++ ' ' :: padStart 5 (Numeral.print s.versionCount)
    ++ " versions  updated ".toList ++ minute s.updatedAt ++ ['\n']

/-- The line of an entry of a chain. -/
def entryLine (e : EntrySummary) : Text :=
  let author := match e.author with
    | none => []
    | some ⟨name, none⟩ => "  ".toList ++ name
    | some ⟨name, some email⟩ => "  ".toList ++ name ++ " <".toList ++ email ++ ['>']
  padStart 4 (Numeral.print e.index) ++ "  ".toList ++ second e.timestamp ++ author ++ ['\n']

/-- The line of a save. -/
def savedLine (name : Text) (o : Receipt) : Text :=
  let version := match o.version with
    | some v => " (version ".toList ++ Numeral.print v ++ [')']
    | none => []
  name ++ ": ".toList ++ o.effect.name.toList ++ version ++ ['\n']

/-- What a command shows of the response to its request. -/
def Command.present (c : Command) (r : Response) : Except Failure Text :=
  match c with
  | .list => (receive (Json.listOf Summary.decode) c.label r).map fun rows => rows.flatMap fileLine
  | .text _ none => (receive Latest.decode c.label r).map Latest.content
  | .text _ (some _) => (receive VersionText.decode c.label r).map VersionText.content
  | .save name .. => (receive Receipt.decode c.label r).map (savedLine name)
  | .log _ =>
    (receive (Json.listOf EntrySummary.decode) c.label r).map fun rows => rows.flatMap entryLine
  | .difference .. => (receive VersionDifference.decode c.label r).map VersionDifference.text

end TextHistory.Client
