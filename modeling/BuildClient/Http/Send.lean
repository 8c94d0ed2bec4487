import BuildClient.Run

/-!
Sending requests and judging the answers.
-/

namespace BuildClient.Http

open Json Text

/-- A limit of time as a reported value. -/
def limitValue (limit : Option Number) : Value := limit.elim .null .number

/-- What comes of a request whose body was taken in. -/
def settle {σ : Type} (r : Request) : Outcome → Run σ Response
  | .answer a => pure a
  | .fault f => Run.throw (.undelivered r.method r.url f)
  | .foreign f => Run.fail (.foreign f)

/-- Sends a request once. A body whose source fails ends it, whatever the service would answer. -/
def Executor.send {σ : Type} (e : Executor) (r : Request) : Run σ Response := do
  Run.note Log.debug .transport "Sending request"
    [("method", .string r.method), ("url", .string r.url), ("timeout", limitValue e.timeout)]
  let reply ← Run.nextReply
  let delivery := r.body.deliver reply.demand
  Run.record ⟨r.method, r.url, r.headers, delivery.1, e.connectTimeout, e.timeout⟩
  if delivery.2 then Run.throw (.brokenStream .source) else settle r reply.outcome

namespace Response

/-- The message of a status document in the body, unless it is blank. A body that is no document has
none; one that is nested too deeply for the stack ends the reading. -/
def statusMessage (r : Response) : Except Foreign (Option CodePoints) :=
  match Outline.read r.room r.text with
  | .ok v => .ok (v.filledText? "message")
  | .error .malformed => .ok none
  | .error (.exhausted during) => .error (.stackExhausted during)

/-- What the service says about a failure: its message, else the reason. -/
def detail (r : Response) : Except Foreign CodePoints :=
  r.statusMessage.map fun m => m.getD (.ofString (r.reason.getD ""))

/-- A failure in words: what failed and, unless it is empty, what the service says about it. -/
def complaint (method : String) (url : Option String) (detail : CodePoints) : CodePoints :=
  let base := CodePoints.ofString (method ++ " " ++ url.getD "None" ++ " failed")
  if detail.isEmpty then base else base ++ .ofString ": " ++ detail

def refusal (r : Response) (method : String) (url : Option String) : Except Foreign ClientError :=
  r.detail.map fun d => .refused (complaint method url d) r.status r.text

/-- The failure of an answer that is no success: a refusal, if its body can be read at all. -/
def failure (r : Response) (method : String) (url : Option String) : Failure :=
  match r.refusal method url with
  | .ok e => .client e
  | .error f => .foreign f

/-- Everything but a success is a failure. What the service says is read before anything is
noted. -/
def accept {σ : Type} (r : Response) (method : String) (url : Option String) : Run σ Unit :=
  if r.success then pure ()
  else do
    let refusal ← Run.ofForeign (r.refusal method url)
    Run.note Log.warning .transport "Request failed"
      [("method", .string method), ("url", url.elim .null .string), ("status", .int r.status)]
    Run.throw refusal

def decode {σ α : Type} (r : Response) (m : Model α) : Run σ α :=
  Run.ofClient ((m.decodeBytes r.content).mapError (.undecodable m.title))

/-- Judges an answer and reads the document in it, if one is asked for. What was requested may not
be known. -/
def handle {σ α : Type} (r : Response) (method url : Option String) (m : Option (Model α)) :
    Run σ (Option α) := do
  r.accept (method.getD "?") url
  match m with
  | none => pure none
  | some m => some <$> r.decode m

end Response

/-- Sends what is asked for; the answer is a success. -/
def Executor.call {σ : Type} (e : Executor) (d : Draft) : Run σ Response := do
  let r ← Run.ofForeign (e.prepare d)
  let answer ← e.send r
  answer.accept r.method (some r.url)
  pure answer

/-- Sends what is asked for and reads the document in the answer. -/
def Executor.fetch {σ α : Type} (e : Executor) (m : Model α) (d : Draft) : Run σ α := do
  let answer ← e.call d
  answer.decode m

end BuildClient.Http
