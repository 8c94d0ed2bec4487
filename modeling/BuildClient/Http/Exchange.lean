import BuildClient.Http.Request

/-!
What goes over the wire: a request, how the service takes it in, and what comes back.
-/

namespace BuildClient.Http

open Text

structure Response where
  status : Int
  reason : Option String
  content : List UInt8
  /-- How many calls the stack still holds inside each other where the body is read. -/
  room : Nat
deriving DecidableEq, Repr

def Response.success (r : Response) : Bool := 200 ≤ r.status && r.status < 300

def Response.text (r : Response) : String := Utf8.decodeLossy r.content

inductive Outcome where
  | answer (r : Response)
  | fault (f : NetworkFault)
  | foreign (f : Foreign)

/-- What the service does with a request: it takes in the body, then there is an outcome. -/
structure Reply where
  demand : Demand
  outcome : Outcome

/-- What became of the body on its way. -/
inductive SentBody where
  | none
  | text (s : String)
  | stream (chunks : List (List UInt8)) (bytesRead : Nat)
deriving DecidableEq, Repr

/-- A request that went out, with its limits of time. -/
structure Sent where
  method : String
  url : String
  headers : Headers
  body : SentBody
  connectTimeout : Option Number
  timeout : Option Number
deriving DecidableEq, Repr

/-- A body being taken in: what of it was sent, and whether its source failed. -/
def Body.deliver (b : Body) (demand : Demand) : SentBody × Bool :=
  match b with
  | .none => (.none, false)
  | .text s => (.text s, false)
  | .stream p =>
    let r := p.consume demand
    (.stream r.chunks r.left.bytesRead, r.failed)

/-- The service, by what it does with the first request, the second and so on. -/
abbrev Service := Nat → Reply

end BuildClient.Http
