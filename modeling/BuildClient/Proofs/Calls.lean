import BuildClient.Proofs.Run
import BuildClient.Store

/-! A store whose calls are written down. Nothing else about it changes. -/
namespace BuildClient

variable {σ α β : Type}

/-- One call of a store, with its answer. -/
inductive BuildStore.Call where
  | list (ns : String) (labels : Dictionary String) (answer : Except Failure (List Build))
  | delete (ns name : String) (answer : Except Failure Bool)

/-- The same world with a record of calls beside the store's state. -/
def World.beside (w : World σ) (calls : List BuildStore.Call) : World (σ × List BuildStore.Call) :=
  ⟨w.sent, w.log, (w.store, calls)⟩

/-- The run itself, with one more call in the record. -/
def Run.recorded (m : Run σ α) (entry : Except Failure α → BuildStore.Call) :
    Run (σ × List BuildStore.Call) α := fun service w =>
  match m service ⟨w.sent, w.log, w.store.1⟩ with
  | (answer, w') => (answer, w'.beside (w.store.2 ++ [entry answer]))

/-- The store itself, with every call written down beside its state. -/
def BuildStore.recorded (store : BuildStore σ) : BuildStore (σ × List BuildStore.Call) where
  list ns labels := (store.list ns labels).recorded (.list ns labels)
  delete ns name := (store.delete ns name).recorded (.delete ns name)

namespace Run

theorem recorded_calls (m : Run σ α) (entry : Except Failure α → BuildStore.Call)
    (service : Http.Service) (w : World (σ × List BuildStore.Call)) :
    (m.recorded entry service w).2.store.2 =
      w.store.2 ++ [entry (m.recorded entry service w).1] := rfl

/-- The second run does what the first one does, and may add calls to the record. -/
def Mirrors (m : Run σ α) (m' : Run (σ × List BuildStore.Call) α) : Prop :=
  ∀ service w calls, ∃ more, m' service (w.beside calls) =
    ((m service w).1, (m service w).2.beside (calls ++ more))

variable {m : Run σ α} {m' : Run (σ × List BuildStore.Call) α} {f : α → Run σ β}
  {f' : α → Run (σ × List BuildStore.Call) β}

theorem Mirrors.pure (a : α) : Mirrors (pure a : Run σ α) (Pure.pure a) :=
  fun _ _ _ => ⟨[], by simp [pure_apply]⟩

theorem Mirrors.throw (e : ClientError) : Mirrors (throw e : Run σ α) (Run.throw e) :=
  fun _ _ _ => ⟨[], by simp [throw_apply]⟩

theorem Mirrors.note (severity : Log.Severity) (source : Log.Source) (message : String)
    (details : Dictionary Json.Value) :
    Mirrors (note severity source message details : Run σ Unit)
      (Run.note severity source message details) :=
  fun _ _ _ => ⟨[], by rw [List.append_nil]; rfl⟩

theorem Mirrors.recorded (m : Run σ α) (entry : Except Failure α → BuildStore.Call) :
    Mirrors m (m.recorded entry) :=
  fun service w _ => ⟨[entry (m service w).1], rfl⟩

theorem Mirrors.bind (hm : Mirrors m m') (hf : ∀ a, Mirrors (f a) (f' a)) :
    Mirrors (m >>= f) (m' >>= f') := by
  intro service w calls
  obtain ⟨more, h'⟩ := hm service w calls
  cases h : m service w with | mk answer w₁ =>
  rw [h] at h'
  cases answer with
  | error x => exact ⟨more, by rw [bind_of_error h, bind_of_error h']⟩
  | ok a =>
    obtain ⟨others, hr⟩ := hf a service w₁ (calls ++ more)
    refine ⟨more ++ others, ?_⟩
    rw [bind_of_ok h, bind_of_ok h', hr, List.append_assoc]

theorem Mirrors.recoverClient {handler : ClientError → Run σ α}
    {handler' : ClientError → Run (σ × List BuildStore.Call) α} (hm : Mirrors m m')
    (hh : ∀ e, Mirrors (handler e) (handler' e)) :
    Mirrors (m.recoverClient handler) (m'.recoverClient handler') := by
  intro service w calls
  obtain ⟨more, h'⟩ := hm service w calls
  cases h : m service w with | mk answer w₁ =>
  rw [h] at h'
  rcases answer with (e | x) | a
  · obtain ⟨others, hr⟩ := hh e service w₁ (calls ++ more)
    refine ⟨more ++ others, ?_⟩
    rw [recoverClient_of_client h, recoverClient_of_client h', hr, List.append_assoc]
  · exact ⟨more, by rw [recoverClient_of_foreign h, recoverClient_of_foreign h']⟩
  · exact ⟨more, by rw [recoverClient_of_ok h, recoverClient_of_ok h']⟩

end Run

end BuildClient
