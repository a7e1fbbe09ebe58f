import TextHistory.Http.Query
import TextHistory.Json.Value

/-!
# Requests and responses

What travels between a client and the service. The address of a request is a path and a query; a
fragment behind them is not looked at. Names of headers are written in either case.
-/

set_option autoImplicit false

namespace TextHistory

/-- What a request asks for. -/
inductive Method where
  | get
  | head
  | post
  | other (name : Text)
  deriving DecidableEq, Repr

namespace Method

/-- The method with a name; names are written in capitals. -/
def read (t : Text) : Method :=
  if t = "GET".toList then .get
  else if t = "HEAD".toList then .head
  else if t = "POST".toList then .post
  else .other t

def print : Method → Text
  | .get => "GET".toList
  | .head => "HEAD".toList
  | .post => "POST".toList
  | .other name => name

end Method

/-! ## Requests -/

structure Request where
  method : Method
  /-- A path, and a query behind a question mark. -/
  target : Text
  headers : List (Text × Text) := []
  body : Text := []
  deriving DecidableEq, Repr

namespace Request

/-- The path of the address. -/
def path (q : Request) : Text := q.target.takeWhile fun c => c != '?' && c != '#'

/-- The query of the address. -/
def query (q : Request) : Query :=
  match q.target.dropWhile fun c => c != '?' && c != '#' with
  | '?' :: rest => Query.read (rest.takeWhile (· != '#'))
  | _ => []

/-- The first header with a name, given in small letters. A value with other characters than
visible ASCII, spaces and tabs counts as missing. -/
def header? (q : Request) (name : String) : Option Text :=
  let value := (q.headers.find? fun h => Text.isWord name h.1).map (·.2)
  value.filter fun v => v.all fun c => c == '\t' || (0x20 ≤ c.toNat && c.toNat < 0x7F)

end Request

/-! ## Responses -/

structure Response where
  status : Nat
  /-- The media type of the body. -/
  type : Option String := none
  etag : Option Text := none
  /-- The methods that are allowed, where another one was asked for. -/
  allow : List Method := []
  body : Text := []
  deriving DecidableEq, Repr

namespace Response

/-- A response with a JSON body. -/
def json (status : Nat) (j : Json) : Response :=
  { status := status, type := some "application/json", body := j.print }

/-- A response with a text for people. -/
def plain (status : Nat) (t : String) : Response :=
  { status := status, type := some "text/plain; charset=utf-8", body := t.toList }

/-- What is answered when only the head of a response is wanted. -/
def withoutBody (r : Response) : Response := { r with body := [] }

/-- The request was fulfilled. -/
def isSuccess (r : Response) : Bool := 200 ≤ r.status && r.status < 300

end Response

end TextHistory
