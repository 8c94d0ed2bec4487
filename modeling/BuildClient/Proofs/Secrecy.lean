import BuildClient.Proofs.Exchange
import BuildClient.Proofs.Faults

/-! What the operational records of a webhook tell about its secret. -/
namespace BuildClient

open Http

/-- The records of weight info and above. -/
def Log.operational (events : List Log.Event) : List Log.Event :=
  events.filter fun e => Log.info ≤ e.severity

namespace Http

variable {σ : Type} {e : Executor} {d : Draft} {r : Request}

/-- What is recorded of an answer that is no success, if it can be read. -/
def Response.complaints (a : Response) (method url : String) : List Log.Event :=
  if a.success then []
  else match a.detail with
    | .ok _ => [⟨Log.warning, .transport, "Request failed",
        [("method", .string method), ("url", .string url), ("status", .int a.status)], none⟩]
    | .error _ => []

def Request.complaints (r : Request) (reply : Reply) : List Log.Event :=
  match r.settled reply with
  | .ok a => a.complaints r.method r.url
  | .error _ => []

theorem accept_log {σ : Type} (a : Response) (method url : String) (service : Service)
    (w : World σ) :
    (a.accept method (some url) service w).2.log = w.log ++ a.complaints method url := by
  rw [Response.accept, Response.complaints]
  split
  · exact (List.append_nil _).symm
  · rw [Response.refusal]
    cases a.detail with
    | error x => exact (List.append_nil _).symm
    | ok d => rfl

theorem Response.complaints_eq_nil_iff {a : Response} {method url : String} :
    a.complaints method url = [] ↔ a.success = true ∨ ¬ a.Readable := by
  rw [complaints]
  cases a.success with
  | true => simp
  | false =>
    cases hd : a.detail with
    | ok d => simp [(readable_iff_detail).2 ⟨d, hd⟩]
    | error x =>
      have hdeep : ¬ a.Readable := fun h => by
        obtain ⟨d, hok⟩ := readable_iff_detail.1 h
        rw [hd] at hok
        cases hok
      simp [hdeep]

/-- A record tells the address that it is about. -/
theorem Response.complaints_inj {a : Response} {method url url' : String}
    (h : a.complaints method url = a.complaints method url')
    (hne : a.complaints method url ≠ []) : url = url' := by
  rw [complaints] at h hne
  rw [complaints] at h
  by_cases hbad : a.success = true
  · rw [if_pos hbad] at hne
    exact absurd rfl hne
  · rw [if_neg hbad, if_neg hbad] at h
    cases hd : a.detail with
    | ok d =>
      rw [hd] at h
      simpa using h
    | error x =>
      rw [hd, if_neg hbad] at hne
      exact absurd rfl hne

theorem send_log (e : Executor) (r : Request) (service : Service) (w : World σ) :
    (e.send r service w).2.log = w.log ++ [⟨Log.debug, .transport, "Sending request",
      [("method", .string r.method), ("url", .string r.url), ("timeout", limitValue e.timeout)],
      none⟩] := by
  rw [Executor.send, Run.bind_of_ok rfl, Run.bind_of_ok (Run.nextReply_apply service _),
    Run.bind_of_ok (Run.record_apply _ service _)]
  split
  · rfl
  · cases (service w.sent.length).outcome <;> rfl

/-- A text is taken in whole. -/
theorem settle_text_delivered (s : String) (demand : Demand) :
    ¬ ((Body.text s).settle.deliver demand).2 = true := by
  rw [Body.settle]
  split <;> exact Bool.false_ne_true

theorem call_log (h : e.prepare d = .ok r) (service : Service) (w : World σ) :
    (e.call d service w).2.log = w.log ++ ⟨Log.debug, .transport, "Sending request",
      [("method", .string r.method), ("url", .string r.url), ("timeout", limitValue e.timeout)],
      none⟩ :: r.complaints (service w.sent.length) := by
  obtain ⟨log, hs⟩ := send_apply e r service w
  have hlog := send_log e r service w
  rw [hs] at hlog
  rw [Executor.call, Run.bind_of_ok (Run.ofForeign_of_ok h), Request.complaints]
  cases ha : r.settled (service w.sent.length) with
  | error x =>
    rw [ha] at hs
    rw [Run.bind_of_error hs]
    exact hlog
  | ok a =>
    rw [ha] at hs
    have haccept := accept_log a r.method r.url service
      (⟨w.sent ++ [e.entry r (service w.sent.length).demand], log, w.store⟩ : World σ)
    rw [Run.bind_of_ok hs]
    dsimp only at hlog
    subst hlog
    rw [Run.bind_pure_log, haccept, List.append_assoc]
    rfl

end Http

theorem Log.operational_append (l l' : List Log.Event) :
    operational (l ++ l') = operational l ++ operational l' :=
  List.filter_append ..

theorem Http.operational_complaints (r : Request) (reply : Reply) :
    Log.operational (r.complaints reply) = r.complaints reply := by
  rw [Request.complaints]
  split
  · rw [Response.complaints]
    split
    · rfl
    · split <;> rfl
  · rfl

namespace Operations

variable {σ : Type} {o : Operations σ} {t : WebHookTrigger} {service : Service} {w : World σ}

def withSecret (o : Operations σ) (secret : String) : Operations σ :=
  o.apply (.parameter (.text .secret (some secret)))

/-- The address of the webhook, before it is prepared. -/
def hookUrl (o : Operations σ) : Except ClientError String :=
  o.resourceUrl >>= fun resource => Trigger.url resource o.parameters

/-- The record that a webhook is about to be fired. -/
def announcement (o : Operations σ) : List Log.Event :=
  match o.hookUrl with
  | .ok _ => [⟨Log.info, .trigger, "Triggering build",
      [("trigger_type", o.parameters.triggerType.elim .null .string)], none⟩]
  | .error _ => []

/-- What is recorded of the answer to the webhook, if its request goes out. -/
def complaints (o : Operations σ) (t : WebHookTrigger) (reply : Reply) : List Log.Event :=
  match o.readyToTrigger t with
  | .ok (_, r) => r.complaints reply
  | .error _ => []

/-- The address that the webhook's request goes to, if it goes out. -/
def hook? (o : Operations σ) (t : WebHookTrigger) : Option String :=
  (o.readyToTrigger t).toOption.map fun ready => ready.2.url

theorem trigger_eq (o : Operations σ) (t : WebHookTrigger) :
    o.trigger t = (do
      let url ← Run.ofClient o.hookUrl
      Run.note Log.info .trigger "Triggering build"
        [("trigger_type", o.parameters.triggerType.elim .null .string)]
      let body ← Trigger.serialize Model.webHookTrigger t
      let _ ← o.executor.call ⟨"POST", url, [], Trigger.headers, .text body⟩) := by
  rw [trigger, hookUrl]
  cases o.resourceUrl <;> rfl

theorem readyToTrigger_eq (o : Operations σ) (t : WebHookTrigger) :
    o.readyToTrigger t = (do
      let url ← o.hookUrl.mapError .client
      let body ← ((Model.webHookTrigger.encode t).mapError
        (.unencodable "WebHookTrigger")).mapError .client
      o.executor.ready ⟨"POST", url, [], Trigger.headers, .text body⟩) := by
  rw [readyToTrigger, hookUrl]
  cases o.resourceUrl <;> rfl

/-- What is recorded of a request that is sent if a body can be written for it. -/
theorem serialize_call_operational (e : Executor) (url : String) (t : WebHookTrigger)
    (service : Service) (w : World σ) :
    Log.operational ((Trigger.serialize Model.webHookTrigger t >>= fun body =>
        (e.call ⟨"POST", url, [], Trigger.headers, .text body⟩ >>= fun _ => pure () : Run σ Unit))
          service w).2.log =
      Log.operational w.log ++
        match (((Model.webHookTrigger.encode t).mapError
          (.unencodable "WebHookTrigger")).mapError .client >>= fun body =>
            e.ready ⟨"POST", url, [], Trigger.headers, .text body⟩) with
        | .ok (_, r) => r.complaints (service w.sent.length)
        | .error _ => [] := by
  cases hb : Model.webHookTrigger.encode t with
  | error x =>
    have hs : Trigger.serialize Model.webHookTrigger t service w =
        (.error (.client (.unencodable "WebHookTrigger" x)), w) := by
      rw [Trigger.serialize, hb]
      rfl
    rw [Run.bind_of_error hs]
    exact (List.append_nil _).symm
  | ok body =>
    have hs : Trigger.serialize Model.webHookTrigger t service w = (.ok body, w) := by
      rw [Trigger.serialize, hb]
      rfl
    rw [Run.bind_of_ok hs]
    have hready : ∀ ready : String → Except Failure (Executor × Request),
        (((Except.ok body : Except Text.Utf8.Error String).mapError
          (ClientError.unencodable "WebHookTrigger")).mapError Failure.client >>= ready) =
          ready body := fun _ => rfl
    rw [hready]
    cases hr : e.prepare ⟨"POST", url, [], Trigger.headers, .text body⟩ with
    | error x =>
      rw [Run.bind_of_error (call_of_unprepared hr service w), Executor.ready, hr]
      exact (List.append_nil _).symm
    | ok r =>
      have hlog := call_log hr service w
      rw [Run.bind_pure_apply, Executor.ready, hr]
      change Log.operational _ = _ ++ r.complaints _
      rw [hlog, Log.operational_append]
      exact congrArg (_ ++ ·) (operational_complaints r _)

/-- All that is recorded of a webhook for whoever operates the client. -/
theorem trigger_operational (o : Operations σ) (t : WebHookTrigger) (service : Service)
    (w : World σ) : Log.operational (o.trigger t service w).2.log =
      Log.operational w.log ++ o.announcement ++ o.complaints t (service w.sent.length) := by
  rw [trigger_eq, announcement, complaints, readyToTrigger_eq]
  cases hu : o.hookUrl with
  | error x =>
    rw [Run.bind_of_error (Run.ofClient_of_error rfl)]
    exact ((List.append_nil _).trans (List.append_nil _)).symm
  | ok url =>
    rw [Run.bind_of_ok (Run.ofClient_of_ok rfl), Run.bind_of_ok rfl, serialize_call_operational,
      Log.operational_append]
    rfl

/-- A webhook is fired or not whatever its secret is. -/
theorem announcement_withSecret (o : Operations σ) {s₁ s₂ : String} (h₁ : s₁ ≠ "") (h₂ : s₂ ≠ "") :
    (o.withSecret s₁).announcement = (o.withSecret s₂).announcement := by
  have hurl : ∀ s ≠ "", (o.withSecret s).hookUrl = (do
      let resource ← o.resourceUrl
      let type ← Trigger.required o.parameters.triggerType .triggerTypeMissing
      pure (Url.join resource ["webhooks", s, type])) := by
    intro s hs
    rw [hookUrl]
    refine congrArg _ (funext fun resource => ?_)
    rw [Trigger.url, show (o.withSecret s).parameters.secret = some s from rfl,
      Trigger.required_of_ne hs]
    rfl
  rw [announcement, announcement, hurl s₁ h₁, hurl s₂ h₂]
  cases o.resourceUrl with
  | error x => rfl
  | ok resource => cases Trigger.required o.parameters.triggerType .triggerTypeMissing <;> rfl

/-- What is recorded of the answer to the webhook is told by its address and the answer alone: its
body is a text, which the service takes in whole. -/
theorem complaints_eq (o : Operations σ) (t : WebHookTrigger) (reply : Reply) :
    o.complaints t reply = match o.hook? t, reply.outcome with
      | some url, .answer a => a.complaints "POST" url
      | _, _ => [] := by
  rw [complaints, hook?]
  cases hr : o.readyToTrigger t with
  | error x => rfl
  | ok ready =>
    obtain ⟨e, r⟩ := ready
    rw [readyToTrigger_eq] at hr
    obtain ⟨url, -, hr⟩ := bind_eq_ok.1 hr
    obtain ⟨body, -, hr⟩ := bind_eq_ok.1 hr
    obtain ⟨r, hprepared, hready⟩ := map_eq_ok.1 hr
    obtain ⟨rfl, rfl⟩ := Prod.mk.inj hready
    obtain ⟨hmethod, hbody, -⟩ := Http.prepare_eq_ok (mapError_eq_ok.1 hprepared)
    change r.complaints reply = _
    rw [Request.complaints, Request.settled,
      if_neg (by rw [hbody]; exact settle_text_delivered body _), hmethod, Upload.upper_post]
    cases reply.outcome <;> rfl

/-- The operational records of a webhook are the same for two secrets unless its requests go to
different addresses and are refused in a way that can be read. -/
theorem trigger_records_eq_iff (o : Operations σ) (t : WebHookTrigger) (service : Service)
    (w : World σ) {s₁ s₂ : String} (h₁ : s₁ ≠ "") (h₂ : s₂ ≠ "") :
    Log.operational ((o.withSecret s₁).trigger t service w).2.log =
        Log.operational ((o.withSecret s₂).trigger t service w).2.log ↔
      ∀ a, (service w.sent.length).outcome = .answer a → a.success = false → a.Readable →
        (o.withSecret s₁).hook? t = (o.withSecret s₂).hook? t := by
  rw [trigger_operational, trigger_operational, announcement_withSecret o h₁ h₂,
    List.append_cancel_left_eq, complaints_eq, complaints_eq]
  generalize (o.withSecret s₁).hook? t = hook₁
  generalize (o.withSecret s₂).hook? t = hook₂
  cases (service w.sent.length).outcome with
  | answer a =>
    by_cases hquiet : a.success = true ∨ ¬ a.Readable
    · have hnil : ∀ url, a.complaints "POST" url = [] :=
        fun url => Response.complaints_eq_nil_iff.2 hquiet
      refine iff_of_true ?_ ?_
      · cases hook₁ <;> cases hook₂ <;> simp [hnil]
      · rintro _ ⟨⟩ hrefused hread
        exact absurd hquiet (by simp [hrefused, hread])
    · have hone : ∀ url, a.complaints "POST" url ≠ [] :=
        fun url => (not_congr Response.complaints_eq_nil_iff).2 hquiet
      have hall : (∀ b, Outcome.answer a = .answer b → b.success = false → b.Readable →
          hook₁ = hook₂) ↔ hook₁ = hook₂ := by
        push Not at hquiet
        constructor
        · exact fun h => h a rfl (by simpa using hquiet.1) hquiet.2
        · exact fun h _ _ _ _ => h
      rw [hall]
      cases hook₁ with
      | none =>
        cases hook₂ with
        | none => simp
        | some url' => exact iff_of_false (fun h => hone url' h.symm) nofun
      | some url =>
        cases hook₂ with
        | none => exact iff_of_false (hone url) nofun
        | some url' =>
          exact ⟨fun h => congrArg some (Response.complaints_inj h (hone url)),
            fun h => by rw [Option.some.inj h]⟩
  | fault f => exact iff_of_true (by cases hook₁ <;> cases hook₂ <;> rfl) nofun
  | foreign x => exact iff_of_true (by cases hook₁ <;> cases hook₂ <;> rfl) nofun

/-- Operations that lack only the secret of their webhook. -/
def unsealed : Operations Unit :=
  ⟨⟨none, true, none, none, .bare⟩, "http://h", some "ns", some "app",
    { Parameters.empty with triggerType := some "generic" }, none⟩

/-- A service that refuses everything. -/
def forbidding : Service := fun _ => ⟨.all, .answer ⟨403, none, [], 990⟩⟩

def fireRecords (secret : String) (service : Service) : List Log.Event :=
  Log.operational ((unsealed.withSecret secret).trigger ⟨none, none, []⟩ service (.start ())).2.log

/-- A service that answers with success leaves no trace of the secret. -/
theorem trigger_records_eq_iff_obliging :
    "a" ≠ "" ∧ "b" ≠ "" ∧ fireRecords "a" obliging = fireRecords "b" obliging := by
  refine ⟨by decide, by decide, ?_⟩
  refine (trigger_records_eq_iff unsealed _ obliging _ (by decide) (by decide)).2 ?_
  rintro _ ⟨⟩ ⟨⟩

/-- The address that a record tells. -/
def addressOf (e : Log.Event) : Option String :=
  match e.details.lookup "url" with
  | some (.string url) => some url
  | _ => none

/-- A refused webhook is recorded with its address, and the secret is a step of it. -/
theorem refusal_tells_secret :
    (fireRecords "a" forbidding).map addressOf = [none,
      some ("http://h/apis/build.openshift.io/v1/" ++
        "namespaces/ns/buildconfigs/app/webhooks/a/generic")] ∧
      fireRecords "a" forbidding ≠ fireRecords "b" forbidding := by
  have ha : (fireRecords "a" forbidding).map addressOf = [none, some
      ("http://h/apis/build.openshift.io/v1/" ++
        "namespaces/ns/buildconfigs/app/webhooks/a/generic")] := by
    decide +kernel
  refine ⟨ha, fun he => ?_⟩
  rw [he] at ha
  exact absurd ha (by decide +kernel)

end Operations

end BuildClient
