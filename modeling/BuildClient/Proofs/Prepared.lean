import BuildClient.Proofs.Run
import BuildClient.Proofs.Url.Prepare

/-! Requests without a body. Of those that go to one place, either every one can be sent or none;
and one that is sent is answered with a success or fails. -/
namespace BuildClient.Http

open Url

variable {σ α : Type} {e : Executor} {d d' : Draft} {r : Request} {scheme authority : List Char}

/-- Neither lines of its own nor a body, and a method in capitals. -/
structure Draft.Plain (d : Draft) : Prop where
  headers : d.headers = []
  body : d.body = .none
  method : Text.upper d.method = d.method

/-- Addresses of one location carry the same credentials. -/
theorem read_of_location {url url' : String}
    (h : Credentials.location url'.toList = Credentials.location url.toList) :
    Credentials.read url' = Credentials.read url := by
  rw [Credentials.read, h, ← Credentials.read]

theorem authorize_of_location {listed : Option Credentials} {url url' : String} {hs lines : Headers}
    (h : Credentials.location url'.toList = Credentials.location url.toList)
    (ha : authorize listed url hs = .ok lines) (hs' : Headers) :
    ∃ lines', authorize listed url' hs' = .ok lines' := by
  rw [authorize] at ha ⊢
  rw [read_of_location h]
  obtain ⟨carried, hcarried, ha⟩ := bind_eq_ok.1 ha
  simp only [bind_eq_ok, hcarried, Except.ok.injEq, exists_eq_left']
  cases hfound : listed.or carried with
  | none => exact ⟨hs', rfl⟩
  | some c =>
    rw [hfound] at ha
    obtain ⟨value, hvalue, -⟩ := bind_eq_ok.1 ha
    exact ⟨_, bind_eq_ok.2 ⟨value, hvalue, rfl⟩⟩

/-- Requests to one location that differ in their address are the same but for it. -/
theorem prepare_elsewhere (d d' : Draft) {sent sent' : String}
    (hu : Url.prepare e.surroundings.names d.url d.params = .ok sent)
    (hu' : Url.prepare e.surroundings.names d'.url d'.params = .ok sent')
    (hmethod : d'.method = d.method) (hheaders : d'.headers = d.headers) (hbody : d'.body = d.body)
    (hlisted : Credentials.location d'.url.toList = Credentials.location d.url.toList)
    (h : Credentials.location sent'.toList = Credentials.location sent.toList) :
    e.prepare d' = (e.prepare d).map fun r => { r with url := sent' } := by
  rw [Executor.prepare, Executor.prepare, hu, hu', hmethod, hheaders, hbody, hlisted]
  cases e.surroundings.credentials (Credentials.location d.url.toList) with
  | error x => rfl
  | ok listed =>
    cases hc : Headers.check (Headers.setAll d.headers e.headers) with
    | error x => simp [bind, Except.bind, hc, Except.map]
    | ok _ =>
      simp only [bind, Except.bind, hc, authorize, read_of_location h]
      cases Credentials.read sent with
      | error x => rfl
      | ok carried =>
        dsimp only
        cases listed.or carried with
        | none => rfl
        | some c => cases hb : c.authorization <;> simp [hb] <;> rfl

theorem prepare_ok_iff (hd : d.Plain) :
    (∃ r, e.prepare d = .ok r) ↔ ∃ listed sent lines,
      e.surroundings.credentials (Credentials.location d.url.toList) = .ok listed ∧
      Url.prepare e.surroundings.names d.url d.params = .ok sent ∧
      Headers.check e.headers = .ok () ∧
      authorize listed sent (frame (Text.upper d.method) e.headers .none) = .ok lines := by
  have hs : Headers.setAll [] e.headers = e.headers := rfl
  have hb : Body.none.settle = .none := rfl
  rw [Executor.prepare, hd.headers, hd.body, hs, hb]
  constructor
  · rintro ⟨r, h⟩
    obtain ⟨listed, hlisted, h⟩ := bind_eq_ok.1 h
    obtain ⟨sent, hsent, h⟩ := bind_eq_ok.1 h
    obtain ⟨⟨⟩, hcheck, h⟩ := bind_eq_ok.1 h
    obtain ⟨lines, hlines, -⟩ := bind_eq_ok.1 h
    exact ⟨listed, sent, lines, hlisted, hsent, hcheck, hlines⟩
  · rintro ⟨listed, sent, lines, hlisted, hsent, hcheck, hlines⟩
    exact ⟨_, bind_eq_ok.2 ⟨listed, hlisted, bind_eq_ok.2 ⟨sent, hsent,
      bind_eq_ok.2 ⟨(), hcheck, bind_eq_ok.2 ⟨lines, hlines, rfl⟩⟩⟩⟩⟩

/-- If one plain request can be sent, every plain request to the same place can. -/
theorem prepare_of_prepared (ho : WebOrigin scheme authority) (hd : d.Plain) (hd' : d'.Plain)
    (hu : Under scheme authority d.url) (hu' : Under scheme authority d'.url)
    (hlocation : Credentials.location d'.url.toList = Credentials.location d.url.toList)
    (h : e.prepare d = .ok r) : ∃ r', e.prepare d' = .ok r' := by
  obtain ⟨listed, sent, lines, hlisted, hsent, hcheck, hauth⟩ := (prepare_ok_iff hd).1 ⟨r, h⟩
  rcases @WebOrigin.prepare_under e.surroundings.names _ _ ho with hbad | ⟨location, hgood⟩
  · obtain ⟨x, hx⟩ := hbad d.url d.params hu
    rw [hx] at hsent
    cases hsent
  · obtain ⟨s, hs, hl⟩ := hgood d.url d.params hu
    obtain ⟨s', hs', hl'⟩ := hgood d'.url d'.params hu'
    rw [hs] at hsent
    cases hsent
    obtain ⟨lines', hl''⟩ := authorize_of_location (hl'.trans hl.symm) hauth
      (frame (Text.upper d'.method) e.headers .none)
    exact (prepare_ok_iff hd').2 ⟨listed, s', lines', by rw [hlocation, hlisted], hs', hcheck, hl''⟩

theorem prepare_plain (hd : d.Plain) (h : e.prepare d = .ok r) :
    r.method = d.method ∧ r.body = .none ∧
      Url.prepare e.surroundings.names d.url d.params = .ok r.url := by
  rw [Executor.prepare, hd.body] at h
  obtain ⟨listed, -, h⟩ := bind_eq_ok.1 h
  obtain ⟨sent, hsent, h⟩ := bind_eq_ok.1 h
  obtain ⟨-, -, h⟩ := bind_eq_ok.1 h
  obtain ⟨lines, -, h⟩ := bind_eq_ok.1 h
  obtain rfl := Except.ok.inj h
  exact ⟨hd.method, rfl, hsent⟩

/-- The draft, prepared and sent with the executor's limits of time and without a body. -/
structure Issued (e : Executor) (d : Draft) (s : Sent) : Prop where
  prepared : e.prepare d = .ok ⟨s.method, s.url, s.headers, .none⟩
  method : s.method = d.method
  bare : s.body = .none
  connectTimeout : s.connectTimeout = e.connectTimeout
  timeout : s.timeout = e.timeout

/-- What comes of a request that only a success ends well. -/
def Sent.verdict (s : Sent) : Outcome → Except Failure Response
  | .answer a => if a.success then .ok a else .error (a.failure s.method (some s.url))
  | .fault f => .error (.client (.undelivered s.method s.url f))
  | .foreign x => .error (.foreign x)

theorem issued_entry (hd : d.Plain) (h : e.prepare d = .ok r)
    (demand : Demand) : Issued e d (e.entry r demand) := by
  obtain ⟨hmethod, hbody, -⟩ := prepare_plain hd h
  obtain ⟨method, url, headers, body⟩ := r
  obtain rfl : body = .none := hbody
  exact ⟨h, hmethod, rfl, rfl, rfl⟩

theorem verdict_entry (hd : d.Plain) (h : e.prepare d = .ok r) (reply : Reply) :
    r.verdict reply = (e.entry r reply.demand).verdict reply.outcome := by
  have hbody := (prepare_plain hd h).2.1
  rw [Request.verdict, Request.settled, hbody]
  cases reply.outcome <;> rfl

/-- A request without a body goes out once, and its outcome decides. -/
theorem call_plain (hd : d.Plain) (h : e.prepare d = .ok r)
    (service : Service) (w : World σ) :
    ∃ s log, Issued e d s ∧ e.call d service w =
      (s.verdict (service w.sent.length).outcome, ⟨w.sent ++ [s], log, w.store⟩) := by
  obtain ⟨log, hc⟩ := call_apply h service w
  rw [verdict_entry hd h] at hc
  exact ⟨_, log, issued_entry hd h _, hc⟩

theorem fetch_plain (m : Model α) (hd : d.Plain) (h : e.prepare d = .ok r)
    (service : Service) (w : World σ) :
    ∃ s log, Issued e d s ∧ e.fetch m d service w =
      ((s.verdict (service w.sent.length).outcome).bind fun a => a.document m,
        ⟨w.sent ++ [s], log, w.store⟩) := by
  obtain ⟨log, hf⟩ := fetch_apply m h service w
  rw [verdict_entry hd h] at hf
  exact ⟨_, log, issued_entry hd h _, hf⟩

theorem isNotFound_of_refusal {a : Response} {method : String} {url : Option String}
    {x : ClientError} (h : a.refusal method url = .ok x) : x.isNotFound = (a.status == 404) := by
  rw [Response.refusal] at h
  cases hd : a.detail with
  | error f =>
    rw [hd] at h
    cases h
  | ok detail =>
    rw [hd] at h
    cases h
    rfl

/-- What an answer is that is no success, to a request for something that may be absent. -/
def Response.orAbsent {β : Type} (a : Response) (method url : String) (absent : β) :
    Except Failure β :=
  match a.refusal method (some url) with
  | .ok x => if a.status == 404 then .ok absent else .error (.client x)
  | .error x => .error (.foreign x)

/-- Whether the object of a deletion was there; another failure than that is no answer to it. -/
def Sent.found (s : Sent) : Outcome → Except Failure Bool
  | .answer a => if a.success then .ok true else a.orAbsent s.method s.url false
  | .fault f => .error (.client (.undelivered s.method s.url f))
  | .foreign x => .error (.foreign x)

/-- What comes of a request for something that may be absent: what a success gives, or that it
is. -/
def Sent.orAbsent {β : Type} (s : Sent) (absent : β) (f : Response → Except Failure β) :
    Outcome → Except Failure β
  | .answer a => if a.success then f a else a.orAbsent s.method s.url absent
  | .fault f => .error (.client (.undelivered s.method s.url f))
  | .foreign x => .error (.foreign x)

theorem found_eq_orAbsent (s : Sent) : s.found = s.orAbsent false fun _ => .ok true := by
  funext outcome
  cases outcome <;> rfl

/-- A run that takes up nothing but an absence, after what it may have to report. -/
theorem recover_absent {β : Type} {m : Run σ β} {s : Sent} {log : List Log.Event}
    {outcome : Outcome} {absent : β} {f : Response → Except Failure β} {report : Run σ β}
    {service : Service} {w : World σ}
    (hm : m service w = ((s.verdict outcome).bind f, ⟨w.sent ++ [s], log, w.store⟩))
    (hf : ∀ a x, f a = .error (.client x) → x.isNotFound = false)
    (hreport : ∀ w', ∃ log', report service w' = (.ok absent, { w' with log := log' })) :
    ∃ log', m.recoverClient (fun x => if x.isNotFound then report else Run.throw x) service w =
      (s.orAbsent absent f outcome, ⟨w.sent ++ [s], log', w.store⟩) := by
  cases outcome with
  | fault f => exact ⟨log, Run.recoverClient_of_client hm⟩
  | foreign x => exact ⟨log, Run.recoverClient_of_foreign hm⟩
  | answer a =>
    rw [Sent.verdict] at hm
    rw [Sent.orAbsent]
    cases hok : a.success with
    | true =>
      rw [hok, if_pos rfl, Except.bind] at hm
      rw [if_pos rfl]
      rcases hx : f a with (x | x) | b
      · rw [hx] at hm
        rw [Run.recoverClient_of_client hm, hf a x hx]
        exact ⟨log, rfl⟩
      · rw [hx] at hm
        exact ⟨log, Run.recoverClient_of_foreign hm⟩
      · rw [hx] at hm
        exact ⟨log, Run.recoverClient_of_ok hm⟩
    | false =>
      rw [hok, if_neg Bool.false_ne_true, Response.failure] at hm
      rw [if_neg Bool.false_ne_true, Response.orAbsent]
      cases hr : a.refusal s.method (some s.url) with
      | error x =>
        rw [hr] at hm
        exact ⟨log, Run.recoverClient_of_foreign hm⟩
      | ok x =>
        rw [hr] at hm
        rw [Run.recoverClient_of_client hm, isNotFound_of_refusal hr]
        cases a.status == 404 with
        | true => exact hreport _
        | false => exact ⟨log, rfl⟩

/-- A deletion that forgives the object's absence, after a report of it. -/
theorem found_plain (hd : d.Plain) (h : e.prepare d = .ok r) (severity : Log.Severity)
    (source : Log.Source) (message : String) (details : Dictionary Json.Value) (service : Service)
    (w : World σ) :
    ∃ s log, Issued e d s ∧
      ((do
        let _ ← e.call d
        pure true : Run σ Bool).recoverClient fun x =>
          if x.isNotFound then do
            Run.note severity source message details
            pure false
          else Run.throw x) service w =
        (s.found (service w.sent.length).outcome, ⟨w.sent ++ [s], log, w.store⟩) := by
  obtain ⟨s, log, hs, hc⟩ := call_plain hd h service w
  have hcall : (do
        let _ ← e.call d
        pure true : Run σ Bool) service w =
      ((s.verdict (service w.sent.length).outcome).bind fun _ => .ok true,
        ⟨w.sent ++ [s], log, w.store⟩) := by
    cases hv : s.verdict (service w.sent.length).outcome with
    | error x =>
      rw [hv] at hc
      exact Run.bind_of_error hc
    | ok a =>
      rw [hv] at hc
      exact Run.bind_of_ok hc
  have hreport : ∀ w' : World σ, ∃ log', (do
        Run.note severity source message details
        pure false : Run σ Bool) service w' = (.ok false, { w' with log := log' }) := by
    intro w'
    obtain ⟨log', hnote⟩ := Run.note_apply severity source message details service w'
    exact ⟨log', Run.bind_of_ok hnote⟩
  obtain ⟨log', hrun⟩ := recover_absent hcall (fun _ _ hx => by cases hx) hreport
  refine ⟨s, log', hs, ?_⟩
  rw [found_eq_orAbsent]
  exact hrun

theorem upper_delete : Text.upper "DELETE" = "DELETE" := by decide +kernel

theorem upper_get : Text.upper "GET" = "GET" := by decide +kernel

end BuildClient.Http
