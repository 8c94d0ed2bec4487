import BuildClient.Http.Send
import BuildClient.Parameters
import BuildClient.Url.Join

/-!
Firing the webhook of a build configuration.
-/

namespace BuildClient.Trigger

open Http

/-- A setting that is there and not empty. -/
def required (value : Option String) (reason : Misuse) : Except ClientError String :=
  match value with
  | some s => if s.isEmpty then .error (.configuration reason) else .ok s
  | none => .error (.configuration reason)

/-- The address of the hook: behind the resource stand the secret and the type. -/
def url (resource : String) (p : Parameters) : Except ClientError String := do
  let secret ← required p.secret .secretMissing
  let type ← required p.triggerType .triggerTypeMissing
  pure (Url.join resource ["webhooks", secret, type])

/-- The service looks at the kind of event for some types of hooks only; it is sent to all. -/
def headers : Headers := [("Content-Type", "application/json"), ("X-Github-Event", "push")]

def serialize {σ α : Type} (m : Model α) (a : α) : Run σ String :=
  Run.ofClient ((m.encode a).mapError (.unencodable m.title))

def fire {σ : Type} (e : Executor) (resource : String) (p : Parameters) (trigger : WebHookTrigger) :
    Run σ Unit := do
  let url ← Run.ofClient (url resource p)
  Run.note Log.info .trigger "Triggering build"
    [("trigger_type", p.triggerType.elim .null .string)]
  let body ← serialize Model.webHookTrigger trigger
  let _ ← e.call ⟨"POST", url, [], headers, .text body⟩

end BuildClient.Trigger
