import Ldap.Metrics.Render
import Ldap.Text.Blank
import Ldap.Text.Utf8

/-! The endpoint where operators ask whether a server is alive, whether it is ready, and what it has
counted. A request is known by its first line alone. -/

namespace Ldap

/-- What the endpoint tells of a server besides its metrics. -/
structure ServerStatus where
  ready : Bool
  entries : Nat
  /-- The names of the listeners. -/
  listeners : List String
deriving DecidableEq, Repr

namespace Endpoint

structure Response where
  status : String
  contentType : String
  body : String
deriving DecidableEq, Repr

/-- The most bytes of a request that are looked at. -/
def requestLimit : Nat := 2048

def isSpace (c : Char) : Bool :=
  c = ' ' || c = '\t' || c = '\n' || c = '\x0c' || c = '\r'

/-- The words of a line that follow a word under way, which is kept in reverse. -/
def wordsFrom (word : List Char) : List Char → List String
  | [] => if word.isEmpty then [] else [String.ofList word.reverse]
  | c :: rest =>
    if isSpace c then
      if word.isEmpty then wordsFrom [] rest
      else String.ofList word.reverse :: wordsFrom [] rest
    else wordsFrom (c :: word) rest

/-- The path that a request asks for, or the empty text if its first line names none. -/
def requestPath (request : List UInt8) : String :=
  let text := (Text.ofBytesLossy (request.take requestLimit)).toList
  match wordsFrom [] (Text.trimChars (text.takeWhile (· != '\n'))) with
  | _ :: path :: _ => if path.startsWith "/" then path else ""
  | _ => ""

/-- The state of the server as a JSON object. -/
def readiness (s : ServerStatus) (m : Metrics) : String :=
  "\x7b\"ready\":" ++ (if s.ready then "true" else "false") ++ ",\"entries\":" ++ toString s.entries
    ++ ",\"listeners\":[" ++ ",".intercalate (s.listeners.map Text.jsonString)
    ++ "],\"connections_active\":" ++ toString m.active ++ "\x7d"

def plainText : String := "text/plain; charset=utf-8"

def respond (path : String) (s : ServerStatus) (m : Metrics) : Response :=
  if path = "/health" then ⟨"200 OK", plainText, "ok"⟩
  else if path = "/ready" then
    ⟨if s.ready then "200 OK" else "503 Service Unavailable", "application/json", readiness s m⟩
  else if path = "/metrics" then ⟨"200 OK", plainText, m.render s.entries⟩
  else ⟨"404 Not Found", plainText,
    "Not found. Supported: GET /metrics, GET /health, GET /ready.\n"⟩

/-- A response as it is sent. -/
def Response.text (r : Response) : String :=
  "HTTP/1.1 " ++ r.status ++ "\r\nContent-Type: " ++ r.contentType
    ++ "\r\nConnection: close\r\nContent-Length: " ++ toString r.body.utf8ByteSize
    ++ "\r\n\r\n" ++ r.body

/-- The answer to a request. -/
def answer (request : List UInt8) (s : ServerStatus) (m : Metrics) : String :=
  (respond (requestPath request) s m).text

end Endpoint

end Ldap
