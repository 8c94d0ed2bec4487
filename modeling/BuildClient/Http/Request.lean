import BuildClient.Http.Headers
import BuildClient.Http.Payload
import BuildClient.Number.Number
import BuildClient.Text.Capital
import BuildClient.Url.Credentials
import BuildClient.Url.Target

/-!
Requests, from what the client asks for to what is sent.
-/

namespace BuildClient.Http

open Text

inductive Body where
  | none
  | text (s : String)
  | stream (p : Payload)
deriving DecidableEq, Repr

/-- What the client asks for. -/
structure Draft where
  method : String
  url : String
  params : Dictionary String
  headers : Headers
  body : Body

/-- A request as it is sent. -/
structure Request where
  method : String
  url : String
  headers : Headers
  body : Body
deriving DecidableEq, Repr

/-- What the machine that requests are sent from says about hosts. -/
structure Surroundings where
  names : Url.Names
  /-- The user name and the password that are listed for the location of an address. A list may be
  unreadable. -/
  credentials : List Char → Except Foreign (Option Url.Credentials)

/-- Nothing is said. -/
def Surroundings.bare : Surroundings := ⟨.ascii, fun _ => .ok none⟩

/-- Whom requests are sent for, and how long an answer may take; without a limit it may take for
ever. -/
structure Executor where
  token : Option String
  verifyTls : Bool
  timeout : Option Number
  connectTimeout : Option Number
  surroundings : Surroundings

namespace Executor

/-- Ten seconds. -/
def defaultTimeout : Number := .real (Binary64.ofNat 10)

def withTimeout (e : Executor) (seconds : Option Number) : Executor := { e with timeout := seconds }

/-- An empty token is none. -/
def authorization (e : Executor) : Option String :=
  e.token.bind fun t => if t.isEmpty then none else some ("Bearer " ++ t)

def userAgent : String := "buildconfig-operations"

/-- The lines that every request has unless it sets its own. -/
def headers (e : Executor) : Headers :=
  [("User-Agent", userAgent), ("Accept", "application/json"), ("Connection", "keep-alive")] ++
    e.authorization.toList.map fun a => ("Authorization", a)

end Executor

/-- A request of these methods says nothing about a length if it has no body. -/
def lengthFree (method : String) : Bool := method == "GET" || method == "HEAD"

/-- An empty text is no body. -/
def Body.settle : Body → Body
  | .text s => if s.isEmpty then .none else .text s
  | b => b

/-- The line that tells where the body ends. The length of a stream is not known. -/
def frame (method : String) (hs : Headers) : Body → Headers
  | .stream _ => hs.set "Transfer-Encoding" "chunked"
  | .text s => hs.set "Content-Length" (toString (Utf8.size s))
  | .none =>
    if lengthFree method || hs.has "Content-Length" then hs else hs.set "Content-Length" "0"

/-- User name and password take precedence over every other authorization; those that are listed
take precedence over those in the address. -/
def authorize (listed : Option Url.Credentials) (url : String) (hs : Headers) :
    Except Foreign Headers := do
  match listed.or (← Url.Credentials.read url) with
  | none => pure hs
  | some c => pure (hs.set "Authorization" (← c.authorization))

/-- What is listed for an address is looked up before anything is made of the address. -/
def Executor.prepare (e : Executor) (d : Draft) : Except Foreign Request := do
  let listed ← e.surroundings.credentials (Url.Credentials.location d.url.toList)
  let method := upper d.method
  let url ← Url.prepare e.surroundings.names d.url d.params
  let lines := Headers.setAll d.headers e.headers
  lines.check
  let body := d.body.settle
  let lines ← authorize listed url (frame method lines body)
  pure ⟨method, url, lines, body⟩

/-- The request with its length declared instead of being sent in chunks. -/
def Request.declareLength (r : Request) (length : Int) : Request :=
  { r with
    headers := (r.headers.remove "Transfer-Encoding").set "Content-Length" (toString length) }

end BuildClient.Http
