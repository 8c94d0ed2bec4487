import BuildClient.Http.Exchange
import BuildClient.Log.Event

/-!
Computations of the client. They send requests to a service, report events and may use a store with
a state of its own; they end with a value or a failure.
-/

namespace BuildClient

/-- What was sent and what was reported, oldest first, and the state of the store. -/
structure World (σ : Type) where
  sent : List Http.Sent
  log : List Log.Event
  store : σ

def World.start {σ : Type} (store : σ) : World σ := ⟨[], [], store⟩

def Run (σ α : Type) : Type := Http.Service → World σ → Except Failure α × World σ

namespace Run

variable {σ α β : Type}

def value (a : α) : Run σ α := fun _ w => (.ok a, w)

def andThen (m : Run σ α) (f : α → Run σ β) : Run σ β := fun service w =>
  match m service w with
  | (.ok a, w) => f a service w
  | (.error e, w) => (.error e, w)

instance : Monad (Run σ) where
  pure := value
  bind := andThen

theorem id_map (m : Run σ α) : id <$> m = m := by
  funext service w
  change andThen m value service w = m service w
  unfold andThen value
  split <;> rename_i h <;> exact h.symm

theorem bind_assoc {γ : Type} (m : Run σ α) (f : α → Run σ β) (g : β → Run σ γ) :
    m >>= f >>= g = m >>= fun a => f a >>= g := by
  funext service w
  change andThen (andThen m f) g service w = andThen m (fun a => andThen (f a) g) service w
  unfold andThen
  cases m service w with
  | mk r w => cases r <;> rfl

instance : LawfulMonad (Run σ) := LawfulMonad.mk' (Run σ) id_map (fun _ _ => rfl) bind_assoc

def fail (e : Failure) : Run σ α := fun _ w => (.error e, w)

def throw (e : ClientError) : Run σ α := fail (.client e)

/-- Goes on after a failure. What was done until then stays done. -/
def recover (m : Run σ α) (handler : Failure → Run σ α) : Run σ α := fun service w =>
  match m service w with
  | (.error e, w) => handler e service w
  | r => r

/-- Goes on after one of the client's own failures. -/
def recoverClient (m : Run σ α) (handler : ClientError → Run σ α) : Run σ α :=
  m.recover fun
    | .client e => handler e
    | e => fail e

def ofExcept (r : Except Failure α) : Run σ α := fun _ w => (r, w)

/-- Lifts a check that fails with the client's own failures. -/
def ofClient (r : Except ClientError α) : Run σ α := ofExcept (r.mapError .client)

def ofForeign (r : Except Foreign α) : Run σ α := ofExcept (r.mapError .foreign)

def report (e : Log.Event) : Run σ Unit := fun _ w => (.ok (), { w with log := w.log ++ [e] })

/-- An event without a failure. -/
def note (severity : Log.Severity) (source : Log.Source) (message : String)
    (details : Dictionary Json.Value) : Run σ Unit :=
  report ⟨severity, source, message, details, none⟩

/-- The next reply of the service. -/
def nextReply : Run σ Http.Reply := fun service w => (.ok (service w.sent.length), w)

def record (s : Http.Sent) : Run σ Unit := fun _ w => (.ok (), { w with sent := w.sent ++ [s] })

end Run

end BuildClient
