import TextHistory.Http.Message
import TextHistory.Http.Status
import TextHistory.Text.Blank

/-!
# Messages on the wire

A request or a response as bytes: a start line, one line for every header, an empty line, and the
body. A header gives the length of the body; a response without it ends where the connection ends.
Every connection carries one request and its response.
-/

set_option autoImplicit false

namespace TextHistory

/-- A message whose start line is not looked into. -/
structure WireMessage where
  start : Text
  headers : List (Text × Text)
  body : List UInt8
  deriving DecidableEq, Repr

namespace WireMessage

/-! ## Writing -/

def lineEnd : Text := ['\r', '\n']

/-- The line of a header. -/
def headerLine : Text × Text → Text
  | (name, value) => name ++ ": ".toList ++ value ++ lineEnd

/-- The bytes of a message. -/
def print (m : WireMessage) : List UInt8 :=
  Utf8.encode (m.start ++ lineEnd ++ m.headers.flatMap headerLine ++ lineEnd) ++ m.body

/-! ## Reading -/

/-- The bytes before and after the first empty line, which ends the head of a message. -/
def splitHead? : List UInt8 → Option (List UInt8 × List UInt8)
  | 13 :: 10 :: 13 :: 10 :: rest => some ([], rest)
  | b :: rest => (splitHead? rest).map fun (head, body) => (b :: head, body)
  | [] => none

/-- The name and the value in the line of a header. -/
def readHeader? (line : Text) : Option (Text × Text) :=
  (Text.splitFirst? [':'] line).map fun (name, value) => (name, Text.trim value)

/-- The message that bytes begin with, if its head is whole; everything behind the head counts as
its body. -/
def read? (bytes : List UInt8) : Option WireMessage := do
  let (head, body) ← splitHead? bytes
  match (Utf8.decodeLossy head).splitOn '\n' with
  | [] => none
  | start :: lines => return ⟨Text.trim start, lines.filterMap readHeader?, body⟩

/-- The value of a header, whose name is given in small letters. -/
def header? (m : WireMessage) (name : String) : Option Text :=
  (m.headers.find? fun h => Text.isWord name h.1).map (·.2)

/-- The length of the body by the headers. -/
def length? (m : WireMessage) : Option Nat := (m.header? "content-length").bind Numeral.read

/-- The message with its body cut to its length, if that much of it is there. -/
def whole? (m : WireMessage) (length : Nat) : Option WireMessage :=
  if length ≤ m.body.length then some { m with body := m.body.take length } else none

end WireMessage

/-! ## Requests -/

namespace Request

/-- A request as it is sent to a service on a machine. -/
def toWire (q : Request) (machine : Text) : WireMessage :=
  let body := Utf8.encode q.body
  let length := if body.isEmpty then [] else
    [("content-length".toList, Numeral.print body.length)]
  { start := q.method.print ++ ' ' :: (q.target ++ " HTTP/1.1".toList)
    headers := [("host".toList, machine), ("connection".toList, "close".toList)]
      ++ q.headers ++ length
    body := body }

/-- The request in bytes, once all of them are there; without a length the body is empty. -/
def ofWire? (bytes : List UInt8) : Option Request := do
  let m ← WireMessage.read? bytes
  let m ← m.whole? (m.length?.getD 0)
  match m.start.splitOn ' ' with
  | [method, target, _] =>
    return ⟨Method.read method, target, m.headers, Utf8.decodeLossy m.body⟩
  | _ => none

end Request

/-! ## Responses -/

namespace Response

/-- The headers that say what is in a response. -/
def headers (r : Response) : List (Text × Text) :=
  (r.type.map fun t => ("content-type".toList, t.toList)).toList
    ++ (r.etag.map fun t => ("etag".toList, t)).toList
    ++ if r.allow.isEmpty then [] else
      [("allow".toList, ((r.allow.map Method.print).intersperse [',']).flatten)]

/-- A response as it is sent. -/
def toWire (r : Response) : WireMessage :=
  let body := Utf8.encode r.body
  let length := if body.isEmpty then [] else
    [("content-length".toList, Numeral.print body.length)]
  { start := "HTTP/1.1 ".toList ++ Status.print r.status
    headers := r.headers ++ length ++ [("connection".toList, "close".toList)]
    body := body }

/-- The response in bytes, once all of them are there. -/
def ofWire? (bytes : List UInt8) (closed : Bool) : Option Response := do
  let m ← WireMessage.read? bytes
  let m ← match m.length? with
    | some n => m.whole? n
    | none => if closed then some m else none
  match m.start.splitOn ' ' with
  | _ :: code :: _ =>
    return {
      status := ← Numeral.read code
      type := (m.header? "content-type").map String.ofList
      etag := m.header? "etag"
      body := Utf8.decodeLossy m.body }
  | _ => none

end Response

end TextHistory
