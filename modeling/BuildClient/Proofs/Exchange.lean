import BuildClient.Proofs.Remote
import BuildClient.Proofs.Upload

/-! One exchange: what is done before a request goes out, and what can come of it afterwards. -/
namespace BuildClient

open Http

variable {σ α β : Type} {service : Service} {w : World σ}

/-- Found wrong on this side: something was misused, or a body cannot be encoded. -/
inductive ClientError.Local : ClientError → Prop
  | configuration (reason : Misuse) : Local (.configuration reason)
  | unencodable (title : String) (fault : Text.Utf8.Error) : Local (.unencodable title fault)

/-- What a run fails with after a request with this outcome. Nothing on this side is wrong then, and
what is no failure of the client was reported by the network, or the answer cannot be read. -/
inductive Failure.After (outcome : Outcome) : Failure → Prop
  | client {e : ClientError} (h : ¬ e.Local) : After outcome (.client e)
  | foreign {x : Foreign} (h : outcome = .foreign x) : After outcome (.foreign x)
  | overwhelmed {during : Json.Activity} (h : Overwhelms outcome during) :
      After outcome (.foreign (.stackExhausted during))

/-- The run that a request belongs to lets through what is no failure of the client, and adds
nothing of the kind. -/
def Http.Request.Leaks (r : Request) (reply : Reply) (result : Except Failure α) : Prop :=
  ∀ x, result = .error (.foreign x) ↔ r.verdict reply = .error (.foreign x)

/-- A run ends before it sends anything, or with the one request that it was made ready for. -/
inductive Settled (before : Except Failure (Executor × Request)) (service : Service) (w : World σ) :
    Except Failure α × World σ → Prop
  | stopped {x : Failure} (log : List Log.Event) (h : before = .error x) :
      Settled before service w (.error x, { w with log := log })
  | sent {e : Executor} {r : Request} {result : Except Failure α} (log : List Log.Event)
      (h : before = .ok (e, r))
      (after : ∀ x, result = .error x → x.After (service w.sent.length).outcome)
      (leaks : r.Leaks (service w.sent.length) result) :
      Settled before service w
        (result, ⟨w.sent ++ [e.entry r (service w.sent.length).demand], log, w.store⟩)

def Run.Settles (m : Run σ α) (before : Except Failure (Executor × Request)) : Prop :=
  ∀ service w, Settled before service w (m service w)

/-- The run sends nothing, and finds nothing wrong on this side. -/
def Run.Quiet (m : Run σ α) : Prop :=
  ∀ service w, ∃ result log, m service w = (result, { w with log := log }) ∧
    ∀ x, result = .error x → ∃ e, x = .client e ∧ ¬ e.Local

namespace Run

theorem Quiet.pure (a : α) : Quiet (Pure.pure a : Run σ α) :=
  fun _ w => ⟨.ok a, w.log, rfl, nofun⟩

theorem Quiet.throw {e : ClientError} (h : ¬ e.Local) : Quiet (Run.throw e : Run σ α) := by
  refine fun _ w => ⟨_, w.log, rfl, ?_⟩
  rintro x ⟨⟩
  exact ⟨e, rfl, h⟩

theorem Quiet.note_bind {severity : Log.Severity} {source : Log.Source} {message : String}
    {details : Dictionary Json.Value} {f : Unit → Run σ α} (h : Quiet (f ())) :
    Quiet (note severity source message details >>= f) :=
  fun service w => h service ⟨w.sent, _, w.store⟩

theorem Quiet.decode (a : Response) (m : Model α) : Quiet (a.decode m : Run σ α) := by
  intro service w
  refine ⟨_, w.log, Response.decode_apply a m service w, fun x hx => ?_⟩
  rw [Response.document] at hx
  cases hd : m.decodeBytes a.content with
  | error y =>
    rw [hd] at hx
    cases hx
    exact ⟨_, rfl, by rintro ⟨⟩⟩
  | ok b =>
    rw [hd] at hx
    cases hx

end Run

namespace Http

variable {e : Executor} {d : Draft} {r : Request} {reply : Reply}

/-- The request of a draft, and whom it is sent for. -/
def Executor.ready (e : Executor) (d : Draft) : Except Failure (Executor × Request) :=
  ((e.prepare d).mapError .foreign).map fun r => (e, r)

/-- Only the preparation of a draft can fail. -/
theorem ready_eq_error_iff {x : Failure} :
    e.ready d = .error x ↔ ∃ y, e.prepare d = .error y ∧ .foreign y = x := by
  rw [Executor.ready, map_eq_error, mapError_eq_error]

theorem Request.leaks_verdict (r : Request) (reply : Reply) : r.Leaks reply (r.verdict reply) :=
  fun _ => .rfl

/-- What is done with what an exchange gives may fail, but only in the client's own ways. -/
theorem Request.Leaks.of_client {result : Except Failure α} {result' : Except Failure β}
    (h : r.Leaks reply result) (hne : ∀ x, result ≠ .error (.foreign x))
    (hne' : ∀ x, result' ≠ .error (.foreign x)) : r.Leaks reply result' :=
  fun x => iff_of_false (hne' x) fun hx => hne x ((h x).2 hx)

theorem after_settled {x : Failure} (h : r.settled reply = .error x) : x.After reply.outcome := by
  rw [Request.settled] at h
  split at h
  · cases h
    exact .client (by rintro ⟨⟩)
  · cases ho : reply.outcome with
    | answer a =>
      rw [ho] at h
      cases h
    | fault f =>
      rw [ho] at h
      cases h
      exact .client (by rintro ⟨⟩)
    | foreign y =>
      rw [ho] at h
      cases h
      exact .foreign rfl

theorem outcome_of_settled {a : Response} (h : r.settled reply = .ok a) :
    reply.outcome = .answer a := by
  rw [Request.settled] at h
  split at h
  · cases h
  · cases ho : reply.outcome with
    | answer b =>
      rw [ho] at h
      cases h
      rfl
    | fault f =>
      rw [ho] at h
      cases h
    | foreign y =>
      rw [ho] at h
      cases h

/-- An answer that is no success is refused, unless it cannot be read. -/
theorem after_failure {a : Response} {outcome : Outcome} (hbad : a.success = false)
    (ho : outcome = .answer a) (method : String) (url : Option String) :
    (a.failure method url).After outcome := by
  rw [Response.failure]
  cases hr : a.refusal method url with
  | ok e =>
    obtain ⟨d, -, rfl⟩ := map_eq_ok.1 hr
    exact .client (by rintro ⟨⟩)
  | error x =>
    obtain ⟨during, hdeep, rfl⟩ := Response.refusal_eq_error.1 hr
    rw [ho]
    exact .overwhelmed (.answer hbad hdeep)

theorem after_verdict {x : Failure} (h : r.verdict reply = .error x) : x.After reply.outcome := by
  rw [Request.verdict] at h
  cases hr : r.settled reply with
  | error y =>
    rw [hr] at h
    cases h
    exact after_settled hr
  | ok a =>
    rw [hr] at h
    change (if a.success = true then _ else _) = _ at h
    split at h
    · cases h
    · rename_i hbad
      cases h
      exact after_failure (Bool.eq_false_of_not_eq_true hbad) (outcome_of_settled hr) _ _

end Http

namespace Run.Settles

variable {e : Executor} {d : Draft} {m : Run σ α} {f : α → Run σ β}
  {before : Except Failure (Executor × Request)}

theorem call : Settles (e.call d : Run σ Response) (e.ready d) := by
  intro service w
  cases hr : e.prepare d with
  | error x =>
    rw [call_of_unprepared hr]
    exact .stopped w.log (by rw [Executor.ready, hr]; rfl)
  | ok r =>
    obtain ⟨log, hc⟩ := call_apply hr service w
    rw [hc]
    exact .sent log (by rw [Executor.ready, hr]; rfl) (fun _ hx => after_verdict hx)
      (r.leaks_verdict _)

theorem bind (hm : Settles m before) (hf : ∀ a, Quiet (f a)) : Settles (m >>= f) before := by
  intro service w
  have h := hm service w
  cases hrun : m service w with | mk result w' =>
  rw [hrun] at h
  cases result with
  | error x =>
    rw [bind_of_error hrun]
    cases h with
    | stopped log hb => exact .stopped log hb
    | sent log hb after leaks =>
      refine .sent log hb (fun y hy => ?_) fun y => ?_
      · cases hy
        exact after x rfl
      · rw [← leaks y]
        simp
  | ok a =>
    obtain ⟨result, log, hfa, hfail⟩ := hf a service w'
    rw [bind_of_ok hrun, hfa]
    cases h with
    | sent _ hb _ leaks =>
      refine .sent log hb (fun y hy => ?_) (leaks.of_client nofun fun y hy => ?_)
      · obtain ⟨x, rfl, hx⟩ := hfail y hy
        exact .client hx
      · obtain ⟨x, hx, -⟩ := hfail _ hy
        cases hx

theorem fetch (model : Model α) : Settles (e.fetch model d : Run σ α) (e.ready d) :=
  bind call fun a => .decode a model

/-- A handler lets what stopped the run through. -/
theorem recoverClient {handler : ClientError → Run σ α} (hm : Settles m before)
    (hstop : ∀ x, before = .error (.client x) → handler x = Run.throw x)
    (hquiet : ∀ x, ¬ x.Local → Quiet (handler x)) :
    Settles (m.recoverClient handler) before := by
  intro service w
  have h := hm service w
  cases hrun : m service w with | mk result w' =>
  rw [hrun] at h
  rcases result with (x | x) | a
  · rw [recoverClient_of_client hrun]
    cases h with
    | stopped log hb =>
      rw [hstop x hb]
      exact .stopped log hb
    | sent log hb after leaks =>
      cases after _ rfl with
      | client hx =>
        obtain ⟨result, log', hrun', hfail⟩ := hquiet x hx service
          ⟨w.sent ++ [_], log, w.store⟩
        rw [hrun']
        refine .sent log' hb (fun y hy => ?_) (leaks.of_client nofun fun y hy => ?_)
        · obtain ⟨z, rfl, hz⟩ := hfail y hy
          exact .client hz
        · obtain ⟨z, hz, -⟩ := hfail _ hy
          cases hz
  · rw [recoverClient_of_foreign hrun]
    exact h
  · rw [recoverClient_of_ok hrun]
    exact h

/-- A handler that ends what the client's own failures ended, one way or another. -/
theorem call_recover {handler : ClientError → Run σ α} {a : α}
    (hquiet : ∀ x, ¬ x.Local → Quiet (handler x)) :
    Settles ((e.call d >>= fun _ => Pure.pure a).recoverClient handler) (e.ready d) := by
  refine recoverClient (bind call fun _ => .pure a) (fun x hx => ?_) hquiet
  obtain ⟨y, -, hy⟩ := ready_eq_error_iff.1 hx
  cases hy

theorem ofClient_bind {x : Except ClientError α} {g : α → Except Failure (Executor × Request)}
    (h : ∀ a, Settles (f a) (g a)) : Settles (ofClient x >>= f) (x.mapError .client >>= g) := by
  intro service w
  cases x with
  | error y =>
    rw [bind_of_error (ofClient_of_error rfl)]
    exact .stopped w.log rfl
  | ok a =>
    rw [bind_of_ok (ofClient_of_ok rfl)]
    exact h a service w

theorem ofForeign_bind {x : Except Foreign α} {g : α → Except Failure (Executor × Request)}
    (h : ∀ a, Settles (f a) (g a)) : Settles (ofForeign x >>= f) (x.mapError .foreign >>= g) := by
  intro service w
  cases x with
  | error y =>
    rw [bind_of_error (ofForeign_of_error rfl)]
    exact .stopped w.log rfl
  | ok a =>
    rw [bind_of_ok (ofForeign_of_ok rfl)]
    exact h a service w

theorem note_bind {severity : Log.Severity} {source : Log.Source} {message : String}
    {details : Dictionary Json.Value} {f : Unit → Run σ α} (h : Settles (f ()) before) :
    Settles (note severity source message details >>= f) before := by
  intro service w
  obtain ⟨log, hn⟩ := note_apply severity source message details service w
  rw [bind_of_ok hn]
  have hrest := h service { w with log := log }
  generalize f () service { w with log := log } = ended at hrest
  cases hrest with
  | stopped log' hb => exact .stopped log' hb
  | sent log' hb after leaks => exact .sent log' hb after leaks

end Run.Settles

/-- Whatever the run fails with at this service has the property. -/
def Run.Ends (service : Service) (P : Failure → Prop) (m : Run σ α) : Prop :=
  ∀ w x, (m service w).1 = .error x → P x

namespace Run.Ends

variable {P : Failure → Prop} {m : Run σ α} {f : α → Run σ β}
  {before : Except Failure (Executor × Request)}

theorem pure (a : α) : Ends service P (Pure.pure a : Run σ α) := nofun

theorem throw {e : ClientError} (h : P (.client e)) : Ends service P (Run.throw e : Run σ α) := by
  rintro w x ⟨⟩
  exact h

theorem bind (hm : Ends service P m) (hf : ∀ a, Ends service P (f a)) :
    Ends service P (m >>= f) := by
  intro w x hx
  rcases bind_eq_error_iff.1 hx with h | ⟨a, w', -, h⟩
  · exact hm w x h
  · exact hf a w' x h

theorem map (g : α → β) (hm : Ends service P m) : Ends service P (g <$> m) := by
  rw [map_eq_pure_bind]
  exact .bind hm fun _ => .pure _

theorem note_bind {severity : Log.Severity} {source : Log.Source} {message : String}
    {details : Dictionary Json.Value} {f : Unit → Run σ α} (h : Ends service P (f ())) :
    Ends service P (note severity source message details >>= f) :=
  bind nofun fun _ => h

theorem recoverClient {handler : ClientError → Run σ α} (hm : Ends service P m)
    (hh : ∀ x, P (.client x) → Ends service P (handler x)) :
    Ends service P (m.recoverClient handler) := by
  intro w x hx
  cases hrun : m service w with | mk result w' =>
  have hresult : ∀ y, result = .error y → P y := fun y hy => hm w y (by rw [hrun, hy])
  rcases result with (y | y) | a
  · rw [recoverClient_of_client hrun] at hx
    exact hh y (hresult _ rfl) w' x hx
  · rw [recoverClient_of_foreign hrun] at hx
    exact hresult x hx
  · rw [recoverClient_of_ok hrun] at hx
    cases hx

theorem of_settles (hP : ∀ n x, x.After (service n).outcome → P x) (h : m.Settles before)
    (hb : ∀ x, before = .error x → P x) : Ends service P m := by
  intro w x hx
  have hs := h service w
  generalize m service w = ended at hs hx
  cases hs with
  | stopped log hstop =>
    cases hx
    exact hb _ hstop
  | sent log hr after _ => exact hP _ x (after x hx)

end Run.Ends

/-- Reaping fails with what the store fails with, or tells which builds are left. -/
theorem Reaper.ends_deleteBuilds {P : Failure → Prop} {store : BuildStore σ}
    (hleft : ∀ failures, P (.client (.unreaped failures)))
    (hlist : ∀ ns labels, (store.list ns labels).Ends service P)
    (hdelete : ∀ ns name, (store.delete ns name).Ends service P) (ns : String)
    (name : Option String) : (deleteBuilds store ns name).Ends service P := by
  have hall : ∀ (addresses : List (String × String)) (t : Tally),
      (attemptAll store addresses t).Ends service P := by
    intro addresses
    induction addresses with
    | nil => exact .pure
    | cons address rest ih =>
      intro t
      refine .bind (.recoverClient (.bind (hdelete _ _) fun _ => .pure _) fun x _ => ?_) ih
      exact .note_bind (.pure _)
  rw [deleteBuilds]
  split
  · exact .pure _
  · refine .bind (.bind (hlist _ _) fun _ => .pure _) fun builds => ?_
    refine .bind (hall _ _) fun t => .note_bind ?_
    rw [conclude]
    split
    · exact .pure _
    · exact .throw (hleft _)

namespace Upload

variable {e : Executor} {resource : String} {p : Parameters} {source : Source} {length : ℤ}
  {r : Request} {reply : Reply}

theorem local_of_blame {x : ClientError} (h : (blame x).Local) : x.Local := by
  cases x with
  | undelivered method url f =>
    rw [blame] at h
    split at h <;> cases h
  | _ => exact h

theorem after_verdict {x : Failure} (h : verdict r reply = .error x) : x.After reply.outcome := by
  rw [verdict] at h
  cases hr : r.settled reply with
  | error y =>
    rw [hr] at h
    cases h
    cases after_settled hr with
    | client hz => exact .client fun hlocal => hz (local_of_blame hlocal)
    | foreign hy => exact .foreign hy
    | overwhelmed hdeep => exact .overwhelmed hdeep
  | ok a =>
    rw [hr] at h
    change received r a = _ at h
    rw [received] at h
    split at h
    · rw [Response.document] at h
      cases hd : Model.build.decodeBytes a.content with
      | error y =>
        rw [hd] at h
        cases h
        exact .client (by rintro ⟨⟩)
      | ok b =>
        rw [hd] at h
        cases h
    · rename_i hbad
      cases h
      exact after_failure (Bool.eq_false_of_not_eq_true hbad) (outcome_of_settled hr) _ _

theorem received_eq_foreign_iff {a : Response} {x : Foreign} :
    received r a = .error (.foreign x) ↔
      (if a.success then .ok a else .error (a.failure r.method (some r.url))) =
        (.error (.foreign x) : Except Failure Response) := by
  rw [received]
  split
  · rw [Response.document, mapError_eq_error]
    simp
  · simp

/-- Blaming the stream makes one failure of the client another one. -/
theorem leaks_verdict (r : Request) (reply : Reply) : r.Leaks reply (verdict r reply) := by
  intro x
  rw [verdict, Request.verdict]
  rcases r.settled reply with (y | y) | a
  · simp [Except.mapError, Except.bind, told]
  · simp [Except.mapError, Except.bind, told]
  · exact received_eq_foreign_iff

theorem settles : Run.Settles (upload e resource p source length : Run σ Build)
    ((request e resource p source length).mapError .foreign) := by
  intro service w
  cases hr : request e resource p source length with
  | error x =>
    rw [upload_of_unrequested hr]
    exact .stopped w.log rfl
  | ok q =>
    obtain ⟨e', r⟩ := q
    obtain ⟨log, hu⟩ := upload_apply hr service w
    rw [hu]
    exact .sent log rfl (fun _ hx => after_verdict hx) (leaks_verdict r _)

end Upload

namespace BuildStore

variable {e : Executor} {api : String}

theorem remote_list_settles (ns : String) (labels : Dictionary String) :
    ((remote e api : BuildStore σ).list ns labels).Settles (e.ready (listDraft api ns labels)) := by
  rw [remote_list]
  exact .bind (.fetch _) fun _ => .pure _

theorem remote_delete_settles (ns name : String) :
    ((remote e api : BuildStore σ).delete ns name).Settles
      (e.ready (deletion api ns "builds" name)) := by
  rw [remote_delete]
  refine .call_recover fun x hx => ?_
  rw [alreadyGone]
  split
  · exact .note_bind (.pure _)
  · exact .throw hx

end BuildStore

namespace Operations

variable {o : Operations σ}

theorem deleteSelf_settles (url : String) :
    (o.deleteSelf url).Settles (o.executor.ready ⟨"DELETE", url, [], [], .none⟩) := by
  refine .call_recover fun x hx => ?_
  split
  · exact .note_bind (.pure _)
  · exact .throw hx

/-- All that is done before the request for the configuration goes out, in order; and the same for
the other operations. -/
def readyToGet (o : Operations σ) : Except Failure (Executor × Request) := do
  let url ← o.resourceUrl.mapError .client
  o.executor.ready ⟨"GET", url, [], [], .none⟩

def readyToInstantiate (o : Operations σ) (q : BuildRequest) :
    Except Failure (Executor × Request) := do
  let resource ← o.resourceUrl.mapError .client
  let body ← ((Model.buildRequest.encode q.withApiVersion).mapError
    (.unencodable "BuildRequest")).mapError .client
  o.executor.ready ⟨"POST", Url.join resource ["instantiate"], [],
    [("Content-Type", "application/json")], .text body⟩

def readyToTrigger (o : Operations σ) (t : WebHookTrigger) :
    Except Failure (Executor × Request) := do
  let resource ← o.resourceUrl.mapError .client
  let url ← (Trigger.url resource o.parameters).mapError .client
  let body ← ((Model.webHookTrigger.encode t).mapError
    (.unencodable "WebHookTrigger")).mapError .client
  o.executor.ready ⟨"POST", url, [], Trigger.headers, .text body⟩

def readyToStream (o : Operations σ) (source : Source) : Except Failure (Executor × Request) := do
  let resource ← o.resourceUrl.mapError .client
  (Upload.request o.executor resource o.parameters source Upload.unknownLength).mapError .foreign

def readyToSendFile (o : Operations σ) (files : Files) (path : Path) :
    Except Failure (Executor × Request) := do
  let resource ← o.resourceUrl.mapError .client
  match ← (files path).mapError .foreign with
  | none => .error (.client (.configuration (.fileMissing path.write)))
  | some file =>
    (Upload.request o.executor resource o.parameters file.source file.content.length).mapError
      .foreign

theorem misuse_of_resourceUrl {x : ClientError} (h : o.resourceUrl = .error x) :
    ∃ reason, x = .configuration reason := by
  rcases o.address_cases with ⟨reason, ha⟩ | ⟨ns, name, -, -, ha⟩
  · rw [resourceUrl_of_error ha] at h
    exact ⟨reason, (Except.error.inj h).symm⟩
  · rw [resourceUrl_of_ok ha] at h
    cases h

theorem misuse_of_readyToGet {x : ClientError} (h : o.readyToGet = .error (.client x)) :
    ∃ reason, x = .configuration reason := by
  rw [readyToGet] at h
  cases hu : o.resourceUrl with
  | error y =>
    rw [hu] at h
    cases h
    exact misuse_of_resourceUrl hu
  | ok url =>
    rw [hu] at h
    obtain ⟨y, -, hy⟩ := ready_eq_error_iff.1 h
    cases hy

theorem get_settles (o : Operations σ) : o.get.Settles o.readyToGet := by
  refine .recoverClient (.ofClient_bind fun url => .bind (.fetch _) fun _ => .pure _) ?_ ?_
  · intro x hx
    obtain ⟨reason, rfl⟩ := misuse_of_readyToGet hx
    rfl
  · intro x hx
    split
    · exact .pure _
    · exact .throw hx

theorem instantiate_settles (q : BuildRequest) :
    (o.instantiate q).Settles (o.readyToInstantiate q) :=
  .ofClient_bind fun _ => .ofClient_bind fun _ => .bind (.fetch _) fun _ => .note_bind (.pure _)

theorem trigger_settles (t : WebHookTrigger) : (o.trigger t).Settles (o.readyToTrigger t) :=
  .ofClient_bind fun _ => .ofClient_bind fun _ => .note_bind <| .ofClient_bind fun _ =>
    .bind .call fun _ => .pure _

theorem fromStream_settles (source : Source) :
    (o.fromStream source).Settles (o.readyToStream source) :=
  .ofClient_bind fun _ => Upload.settles

theorem fromFile_settles (files : Files) (path : Path) :
    (o.fromFile files path).Settles (o.readyToSendFile files path) := by
  refine .ofClient_bind fun _ => .ofForeign_bind fun found => ?_
  cases found with
  | none => exact fun _ w => .stopped w.log rfl
  | some file => exact Upload.settles

end Operations

end BuildClient
