import TextHistory.History
import TextHistory.Http.EntityTag
import TextHistory.Http.MediaType
import TextHistory.Http.Message

/-!
# The service

The history behind addresses: every operation has a route, which takes its arguments from the query
or from a JSON body and answers in JSON. The two routes that show the text of a version tag their
answers, and answer a client that holds the tag already with the tag alone.
-/

set_option autoImplicit false

namespace TextHistory.Api

/-- How the service works. -/
structure Config where
  tuning : Tuning := {}
  /-- The digest that tags are made with. -/
  hash : EntityTag.Hash := Sha256.digest

/-! ## Refusals -/

/-- Why a request was not fulfilled. -/
inductive Refusal where
  /-- A parameter of the query occurs twice. -/
  | repeatedParameter
  /-- A parameter of the query is missing or empty. -/
  | missingParameter (name : String)
  /-- The body is not said to be JSON. -/
  | untypedBody
  /-- The body is too long. -/
  | longBody
  /-- The body is not JSON. -/
  | malformedBody
  /-- The body is JSON, but not what the route takes. -/
  | unfitBody
  /-- The name of the file is empty. -/
  | emptyName
  /-- The history refused. -/
  | history (e : Error)
  deriving DecidableEq, Repr

/-- The status that stands for an error of the history. -/
def errorStatus : Error → Nat
  | .notFound _ => 404
  | .invalidVersion _ => 400
  | .invalidPatch _ => 400
  | .conflict .. => 409
  | .alreadyExists _ => 409
  | .contentMismatch _ => 409
  | .patchApplication .. => 500
  | .persistence _ => 500
  | .unbuildable => 500

/-- A response that holds nothing but a message. -/
def failure (status : Nat) (message : String) : Response :=
  .json status (.record [("error", .word message)])

/-- The response to a refused request. -/
def Refusal.response : Refusal → Response
  | .repeatedParameter => .plain 400 "Failed to deserialize query string"
  | .missingParameter name =>
    failure 400 ("missing query parameter " ++ "`" ++ name ++ "`")
  | .untypedBody => .plain 415 "Expected request with `Content-Type: application/json`"
  | .longBody => .plain 413 "Failed to buffer the request body: length limit exceeded"
  | .malformedBody => .plain 400 "Failed to parse the request body as JSON"
  | .unfitBody => .plain 422 "Failed to deserialize the JSON body into the target type"
  | .emptyName => failure 400 "`path` must not be empty"
  | .history e => failure (errorStatus e) e.message

/-- An answer of the history, or its refusal. -/
def ofHistory {α : Type} (r : Except Error α) : Except Refusal α := r.mapError .history

/-- The response of a handler. -/
def settle : Except Refusal Response → Response
  | .ok r => r
  | .error e => e.response

/-! ## Arguments -/

/-- The query of a request, in which the parameters of the route must not repeat. -/
def parameters (names : List String) (q : Request) : Except Refusal Query :=
  if names.any q.query.repeats then .error .repeatedParameter else .ok q.query

/-- A parameter that must be given and not empty. -/
def given (ps : Query) (name : String) : Except Refusal Text :=
  match ps.get? name with
  | some (c :: rest) => .ok (c :: rest)
  | _ => .error (.missingParameter name)

/-- A parameter that names a version. -/
def namedVersion (ps : Query) (name : String) : Except Refusal VersionName := do
  let raw ← given ps name
  match VersionName.read raw with
  | .ok t => .ok t
  | .error t => .error (.history (.invalidVersion t))

/-- The longest body that is taken, in bytes. -/
def bodyLimit : Nat := 2 * 1024 * 1024

/-- The number of bytes of a text. -/
def byteSize (t : Text) : Nat := t.foldl (fun n c => n + c.utf8Size) 0

/-- The value in the body of a request. -/
def readBody {α : Type} (d : Json.Decoder α) (q : Request) : Except Refusal α :=
  if !((q.header? "content-type").bind MediaType.read?).any MediaType.isJson then
    .error .untypedBody
  else if bodyLimit < byteSize q.body then .error .longBody
  else
    match Json.decode d q.body with
    | .ok a => .ok a
    | .error .syntaxError => .error .malformedBody
    | .error .dataError => .error .unfitBody

/-! ## Handlers -/

/-- Answers with a tag, and without the body if the client holds the tag already. -/
def tagged (q : Request) (tag : Text) (j : Json) : Response :=
  if (q.header? "if-none-match").any (EntityTag.listed tag) then
    { status := 304, etag := some tag }
  else { Response.json 200 j with etag := some tag }

/-- Every tracked file. -/
def list (s : Store) : Except Refusal Response := do
  let rows ← ofHistory s.list
  return .json 200 (.array (rows.map Summary.toJson))

/-- The latest text of a file. -/
def latest (c : Config) (s : Store) (q : Request) : Except Refusal Response := do
  let ps ← parameters ["path"] q
  let name ← given ps "path"
  let l ← ofHistory (History.latest c.tuning s name)
  let version := if l.versionCount = 0 then none else some (l.versionCount - 1)
  return tagged q (EntityTag.of c.hash l.name version l.content) l.toJson

/-- A version of a file. -/
def version (c : Config) (s : Store) (q : Request) : Except Refusal Response := do
  let ps ← parameters ["path", "version"] q
  let name ← given ps "path"
  let t ← namedVersion ps "version"
  let r ← ofHistory (History.version c.tuning s name t)
  return tagged q (EntityTag.of c.hash name r.version r.content) r.toJson

/-- The chain of a file. -/
def history (s : Store) (q : Request) : Except Refusal Response := do
  let ps ← parameters ["path"] q
  let name ← given ps "path"
  let rows ← ofHistory (History.log s name)
  return .json 200 (.array (rows.map EntrySummary.toJson))

/-- The difference of two versions of a file. -/
def difference (c : Config) (s : Store) (q : Request) : Except Refusal Response := do
  let ps ← parameters ["path", "from", "to"] q
  let name ← given ps "path"
  let old ← namedVersion ps "from"
  let new ← namedVersion ps "to"
  let d ← ofHistory (History.difference c.tuning s name old new)
  return .json 200 d.toJson

/-- The response to a write. -/
def receipt (o : Receipt) : Response :=
  .json (if o.effect = .baseCreated then 201 else 200) o.toJson

/-- The request in the body, whose file must have a name. -/
def writeRequest {α : Type} (d : Json.Decoder α) (name : α → Text) (q : Request) :
    Except Refusal α := do
  let a ← readBody d q
  if (name a).isEmpty then .error .emptyName else .ok a

/-- Saves a new text for a file. -/
def save (c : Config) (s : Store) (now : Clock) (q : Request) :
    Store × Except Refusal Response :=
  match writeRequest Submission.decode Submission.name q with
  | .error e => (s, .error e)
  | .ok a =>
    let (s, r) := History.save c.tuning s now a
    (s, (ofHistory r).map receipt)

/-- Saves a patch for a file. -/
def savePatch (c : Config) (s : Store) (now : Clock) (q : Request) :
    Store × Except Refusal Response :=
  match writeRequest PatchSubmission.decode PatchSubmission.name q with
  | .error e => (s, .error e)
  | .ok a =>
    let (s, r) := History.savePatch c.tuning s now a
    (s, (ofHistory r).map receipt)

/-! ## Routes -/

/-- The operations that have an address. -/
inductive Route where
  | list
  | latest
  | version
  | history
  | difference
  | save
  | patch
  deriving DecidableEq, Repr

namespace Route

def all : List Route := [.list, .latest, .version, .history, .difference, .save, .patch]

/-- The address of a route below that of the service. -/
def address : Route → String
  | .list => "/files"
  | .latest => "/files/latest"
  | .version => "/files/version"
  | .history => "/files/history"
  | .difference => "/files/diff"
  | .save => "/files/save"
  | .patch => "/files/patch"

/-- The path of a route. -/
def path (r : Route) : Text := ("/api" ++ r.address).toList

/-- The route with a path. -/
def ofPath? (t : Text) : Option Route := all.find? (·.path == t)

/-- The route changes the history. -/
def writes : Route → Bool
  | .save | .patch => true
  | _ => false

/-- The methods of a route. -/
def methods (r : Route) : List Method := if r.writes then [.post] else [.get, .head]

end Route

/-- Does what a route is for. -/
def handle (c : Config) (s : Store) (now : Clock) (q : Request) :
    Route → Store × Except Refusal Response
  | .list => (s, list s)
  | .latest => (s, latest c s q)
  | .version => (s, version c s q)
  | .history => (s, history s q)
  | .difference => (s, difference c s q)
  | .save => save c s now q
  | .patch => savePatch c s now q

/-- Answers a request. -/
def answer (c : Config) (s : Store) (now : Clock) (q : Request) : Store × Response :=
  match Route.ofPath? q.path with
  | none => (s, { status := 404 })
  | some r =>
    if r.methods.contains q.method then
      let (s, result) := handle c s now q r
      let response := settle result
      (s, if q.method = .head then response.withoutBody else response)
    else (s, { status := 405, allow := r.methods })

/-- Answers requests in their order, each at its own times. -/
def answerAll (c : Config) : Store → List (Clock × Request) → Store × List Response
  | s, [] => (s, [])
  | s, (now, q) :: rest =>
    let (s, response) := answer c s now q
    let (s, responses) := answerAll c s rest
    (s, response :: responses)

end TextHistory.Api
