import BuildClient.Proofs.Bearer
import BuildClient.Proofs.Places
import BuildClient.Proofs.Remote
import BuildClient.Proofs.Upload

/-! Two runs that differ in a token only: neither their results nor their records tell them apart,
and what they send differs in the authorization only. -/
namespace BuildClient

open Http

variable {σ α β : Type} {t₁ t₂ : Option String} {l₁ l₂ : Headers}

/-- What two runs have left behind so far. -/
structure World.Twins (l₁ l₂ : Headers) (w₁ w₂ : World σ) : Prop where
  sent : List.Forall₂ (Sent.Twins l₁ l₂) w₁.sent w₂.sent
  log : w₁.log = w₂.log
  store : w₁.store = w₂.store

/-- From worlds that are alike the runs come to the same result and to worlds that are alike. -/
def Run.Twins (l₁ l₂ : Headers) (m₁ m₂ : Run σ α) : Prop :=
  ∀ service w₁ w₂, World.Twins l₁ l₂ w₁ w₂ →
    (m₁ service w₁).1 = (m₂ service w₂).1 ∧
      World.Twins l₁ l₂ (m₁ service w₁).2 (m₂ service w₂).2

/-- Nothing is sent, and nothing is looked at but the store. -/
def Run.Aside (m : Run σ α) : Prop :=
  ∃ step : σ → Except Failure α × List Log.Event × σ, ∀ service w, m service w =
    ((step w.store).1, ⟨w.sent, w.log ++ (step w.store).2.1, (step w.store).2.2⟩)

namespace Run

/-- Goes on whatever the run comes to, and tells it. -/
def attempt (m : Run σ α) : Run σ (Except Failure α) :=
  fun service w => (.ok (m service w).1, (m service w).2)

theorem Aside.ofExcept (r : Except Failure α) : Aside (Run.ofExcept r : Run σ α) :=
  ⟨fun store => (r, [], store), fun _ w => by rw [List.append_nil]; rfl⟩

theorem Aside.report (e : Log.Event) : Aside (Run.report e : Run σ Unit) :=
  ⟨fun store => (.ok (), [e], store), fun _ _ => rfl⟩

namespace Twins

variable {m₁ m₂ : Run σ α} {f₁ f₂ : α → Run σ β}

theorem of_aside {m : Run σ α} (h : m.Aside) : Run.Twins l₁ l₂ m m := by
  obtain ⟨step, hstep⟩ := h
  intro service w₁ w₂ hw
  rw [hstep, hstep, hw.store]
  exact ⟨rfl, hw.sent, by rw [hw.log], rfl⟩

theorem pure (a : α) : Run.Twins l₁ l₂ (Pure.pure a : Run σ α) (Pure.pure a) :=
  of_aside (.ofExcept (.ok a))

theorem fail (x : Failure) : Run.Twins l₁ l₂ (Run.fail x : Run σ α) (Run.fail x) :=
  of_aside (.ofExcept (.error x))

theorem throw (x : ClientError) : Run.Twins l₁ l₂ (Run.throw x : Run σ α) (Run.throw x) := fail _

theorem ofClient (r : Except ClientError α) :
    Run.Twins l₁ l₂ (Run.ofClient r : Run σ α) (Run.ofClient r) :=
  of_aside (.ofExcept _)

theorem ofForeign (r : Except Foreign α) :
    Run.Twins l₁ l₂ (Run.ofForeign r : Run σ α) (Run.ofForeign r) :=
  of_aside (.ofExcept _)

theorem note (severity : Log.Severity) (source : Log.Source) (message : String)
    (details : Dictionary Json.Value) :
    Run.Twins l₁ l₂ (Run.note severity source message details : Run σ Unit)
      (Run.note severity source message details) :=
  of_aside (.report _)

theorem bind (hm : Run.Twins l₁ l₂ m₁ m₂) (hf : ∀ a, Run.Twins l₁ l₂ (f₁ a) (f₂ a)) :
    Run.Twins l₁ l₂ (m₁ >>= f₁) (m₂ >>= f₂) := by
  intro service w₁ w₂ hw
  obtain ⟨hresult, hworld⟩ := hm service w₁ w₂ hw
  cases h₁ : m₁ service w₁ with | mk r₁ v₁ =>
  cases h₂ : m₂ service w₂ with | mk r₂ v₂ =>
  rw [h₁, h₂] at hresult hworld
  obtain rfl : r₁ = r₂ := hresult
  cases r₁ with
  | error x =>
    rw [bind_of_error h₁, bind_of_error h₂]
    exact ⟨rfl, hworld⟩
  | ok a =>
    rw [bind_of_ok h₁, bind_of_ok h₂]
    exact hf a service v₁ v₂ hworld

theorem recoverClient {handler₁ handler₂ : ClientError → Run σ α} (hm : Run.Twins l₁ l₂ m₁ m₂)
    (hh : ∀ x, Run.Twins l₁ l₂ (handler₁ x) (handler₂ x)) :
    Run.Twins l₁ l₂ (m₁.recoverClient handler₁) (m₂.recoverClient handler₂) := by
  intro service w₁ w₂ hw
  obtain ⟨hresult, hworld⟩ := hm service w₁ w₂ hw
  cases h₁ : m₁ service w₁ with | mk r₁ v₁ =>
  cases h₂ : m₂ service w₂ with | mk r₂ v₂ =>
  rw [h₁, h₂] at hresult hworld
  obtain rfl : r₁ = r₂ := hresult
  rcases r₁ with (x | y) | a
  · rw [recoverClient_of_client h₁, recoverClient_of_client h₂]
    exact hh x service v₁ v₂ hworld
  · rw [recoverClient_of_foreign h₁, recoverClient_of_foreign h₂]
    exact ⟨rfl, hworld⟩
  · rw [recoverClient_of_ok h₁, recoverClient_of_ok h₂]
    exact ⟨rfl, hworld⟩

/-- What a check gives is known behind it. -/
theorem ofClient_bind {γ : Type} {x : Except ClientError γ} {g₁ g₂ : γ → Run σ β}
    (hg : ∀ a, x = .ok a → Run.Twins l₁ l₂ (g₁ a) (g₂ a)) :
    Run.Twins l₁ l₂ (Run.ofClient x >>= g₁) (Run.ofClient x >>= g₂) := by
  cases x with
  | error x => exact fun service w₁ w₂ hw => ⟨rfl, hw⟩
  | ok a => exact fun service w₁ w₂ hw => hg a rfl service w₁ w₂ hw

/-- What two checks give may differ, if only what comes after them does not. -/
theorem ofForeign_bind {γ : Type} {R : γ → γ → Prop} {x₁ x₂ : Except Foreign γ}
    {g₁ g₂ : γ → Run σ β} (hx : Paired R x₁ x₂)
    (hg : ∀ a b, R a b → Run.Twins l₁ l₂ (g₁ a) (g₂ b)) :
    Run.Twins l₁ l₂ (Run.ofForeign x₁ >>= g₁) (Run.ofForeign x₂ >>= g₂) := by
  cases hx with
  | error x => exact fun service w₁ w₂ hw => ⟨rfl, hw⟩
  | ok h => exact fun service w₁ w₂ hw => hg _ _ h service w₁ w₂ hw

theorem map (f : α → β) (hm : Run.Twins l₁ l₂ m₁ m₂) : Run.Twins l₁ l₂ (f <$> m₁) (f <$> m₂) := by
  rw [map_eq_pure_bind, map_eq_pure_bind]
  exact bind hm fun a => pure (f a)

theorem attempt (hm : Run.Twins l₁ l₂ m₁ m₂) : Run.Twins l₁ l₂ m₁.attempt m₂.attempt := by
  intro service w₁ w₂ hw
  obtain ⟨hresult, hworld⟩ := hm service w₁ w₂ hw
  exact ⟨congrArg Except.ok hresult, hworld⟩

theorem nextReply : Run.Twins l₁ l₂ (Run.nextReply : Run σ Reply) Run.nextReply := by
  intro service w₁ w₂ hw
  rw [nextReply_apply, nextReply_apply, hw.sent.length_eq]
  exact ⟨rfl, hw⟩

theorem record {s₁ s₂ : Sent} (h : Sent.Twins l₁ l₂ s₁ s₂) :
    Run.Twins l₁ l₂ (Run.record s₁ : Run σ Unit) (Run.record s₂) := by
  intro service w₁ w₂ hw
  rw [record_apply, record_apply]
  exact ⟨rfl, List.rel_append hw.sent (.cons h .nil), hw.log, hw.store⟩

end Twins

end Run

namespace Http

variable {e : Executor} {d : Draft} {r₁ r₂ : Request} {api : String}

theorem send_twins (h : Request.Twins l₁ l₂ r₁ r₂) :
    Run.Twins l₁ l₂ ((e.withToken t₁).send r₁ : Run σ Response) ((e.withToken t₂).send r₂) := by
  obtain ⟨method, url, lines₁, body⟩ := r₁
  obtain ⟨_, _, lines₂, _⟩ := r₂
  obtain ⟨rfl, rfl, hlines, rfl⟩ := h
  refine .bind (.note _ _ _ _) fun _ => .bind .nextReply fun reply => ?_
  refine .bind (.record ⟨rfl, rfl, hlines, rfl, rfl, rfl⟩) fun _ => ?_
  split
  · exact .throw _
  · cases reply.outcome with
    | answer a => exact .pure a
    | fault f => exact .throw _
    | foreign x => exact .fail _

theorem accept_twins (a : Response) (method : String) (url : Option String) :
    Run.Twins l₁ l₂ (a.accept method url : Run σ Unit) (a.accept method url) := by
  rw [Response.accept]
  split
  · exact .pure ()
  · exact .bind (.ofForeign _) fun _ => .bind (.note _ _ _ _) fun _ => .throw _

theorem call_twins (h : e.surroundings.Authorizes api t₁ t₂ l₁ l₂) (hd : d.Discreet api) :
    Run.Twins l₁ l₂ ((e.withToken t₁).call d : Run σ Response) ((e.withToken t₂).call d) := by
  refine .ofForeign_bind (prepare_twins h hd) fun r₁ r₂ hr => .bind (send_twins hr) fun a => ?_
  rw [hr.method, hr.url]
  exact .bind (accept_twins a _ _) fun _ => .pure a

theorem fetch_twins (model : Model α) (h : e.surroundings.Authorizes api t₁ t₂ l₁ l₂)
    (hd : d.Discreet api) :
    Run.Twins l₁ l₂ ((e.withToken t₁).fetch model d : Run σ α) ((e.withToken t₂).fetch model d) :=
  .bind (call_twins h hd) fun _ => .ofClient _

end Http

/-- Two stores do alike. -/
structure BuildStore.Twins (l₁ l₂ : Headers) (s₁ s₂ : BuildStore σ) : Prop where
  list : ∀ ns labels, Run.Twins l₁ l₂ (s₁.list ns labels) (s₂.list ns labels)
  delete : ∀ ns name, Run.Twins l₁ l₂ (s₁.delete ns name) (s₂.delete ns name)

/-- A store of one's own: it sends nothing and looks at nothing but its state. -/
structure BuildStore.Aside (s : BuildStore σ) : Prop where
  list : ∀ ns labels, (s.list ns labels).Aside
  delete : ∀ ns name, (s.delete ns name).Aside

theorem BuildStore.Aside.twins {s : BuildStore σ} (h : s.Aside) : s.Twins l₁ l₂ s where
  list ns labels := .of_aside (h.list ns labels)
  delete ns name := .of_aside (h.delete ns name)

theorem alreadyGone_twins (ns name : String) (x : ClientError) :
    Run.Twins l₁ l₂ (BuildStore.alreadyGone ns name x : Run σ Bool)
      (BuildStore.alreadyGone ns name x) := by
  rw [BuildStore.alreadyGone]
  split
  · exact .bind (.note _ _ _ _) fun _ => .pure false
  · exact .throw x

theorem remote_twins {e : Executor} {api : String}
    (h : e.surroundings.Authorizes api t₁ t₂ l₁ l₂) :
    BuildStore.Twins l₁ l₂ (BuildStore.remote (e.withToken t₁) api : BuildStore σ)
      (BuildStore.remote (e.withToken t₂) api) where
  list ns labels := by
    have hd : (BuildStore.listDraft api ns labels).Discreet api :=
      ⟨Url.Place.beneath_service api (.builds ns), nofun⟩
    rw [remote_list, remote_list]
    exact .bind (fetch_twins _ h hd) fun _ => .pure _
  delete ns name := by
    have hd : (deletion api ns "builds" name).Discreet api :=
      ⟨Url.Place.beneath_service api (.build ns name), nofun⟩
    rw [remote_delete, remote_delete]
    exact .recoverClient (.bind (call_twins h hd) fun _ => .pure true) (alreadyGone_twins ns name)

namespace Reaper

variable {s₁ s₂ : BuildStore σ}

theorem attempt_twins (hs : s₁.Twins l₁ l₂ s₂) (t : Tally) (address : String × String) :
    Run.Twins l₁ l₂ (attempt s₁ t address) (attempt s₂ t address) :=
  .recoverClient (.bind (hs.delete address.1 address.2) fun _ => .pure _)
    fun _ => .bind (.note _ _ _ _) fun _ => .pure _

theorem attemptAll_twins (hs : s₁.Twins l₁ l₂ s₂) (addresses : List (String × String)) (t : Tally) :
    Run.Twins l₁ l₂ (attemptAll s₁ addresses t) (attemptAll s₂ addresses t) := by
  induction addresses generalizing t with
  | nil => exact .pure t
  | cons address addresses ih => exact .bind (attempt_twins hs t address) ih

theorem reap_twins (hs : s₁.Twins l₁ l₂ s₂) (ns name : String) :
    Run.Twins l₁ l₂ (reap s₁ ns name) (reap s₂ ns name) := by
  refine .bind (.bind (hs.list ns _) fun _ => .pure _) fun builds => ?_
  refine .bind (attemptAll_twins hs _ _) fun t => .bind (.note _ _ _ _) fun _ => ?_
  rw [conclude]
  split
  · exact .pure _
  · exact .throw _

theorem deleteBuilds_twins (hs : s₁.Twins l₁ l₂ s₂) (ns : String) (name : Option String) :
    Run.Twins l₁ l₂ (deleteBuilds s₁ ns name) (deleteBuilds s₂ ns name) := by
  rw [deleteBuilds, deleteBuilds]
  split
  · exact .pure []
  · exact reap_twins hs ns _

end Reaper

end BuildClient
