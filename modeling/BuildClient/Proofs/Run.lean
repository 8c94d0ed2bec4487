import BuildClient.Http.Send
import BuildClient.Proofs.Except
import BuildClient.Proofs.Json.Outline
import BuildClient.Proofs.Text.Utf8

/-! How runs compose, and what one exchange with the service leaves behind. -/
namespace BuildClient

namespace Run

variable {σ α β : Type} {m : Run σ α} {f : α → Run σ β} {handler : ClientError → Run σ α}
  {service : Http.Service} {w w' : World σ} {a : α} {e : ClientError} {x : Failure}

theorem pure_apply (a : α) (service : Http.Service) (w : World σ) :
    (pure a : Run σ α) service w = (.ok a, w) := rfl

theorem throw_apply (e : ClientError) (service : Http.Service) (w : World σ) :
    (throw e : Run σ α) service w = (.error (.client e), w) := rfl

theorem bind_of_ok (h : m service w = (.ok a, w')) :
    (m >>= f) service w = f a service w' := by
  change andThen m f service w = _
  simp only [andThen, h]

theorem bind_of_error (h : m service w = (.error x, w')) :
    (m >>= f) service w = (.error x, w') := by
  change andThen m f service w = _
  simp only [andThen, h]

theorem map_apply (f : α → β) (m : Run σ α) (service : Http.Service) (w : World σ) :
    (f <$> m) service w = ((m service w).1.map f, (m service w).2) := by
  rw [map_eq_pure_bind]
  cases h : m service w with | mk result w' =>
  cases result with
  | error x => exact bind_of_error h
  | ok a => exact bind_of_ok h

/-- A bind fails in its first part or in its second. -/
theorem bind_eq_error_iff : ((m >>= f) service w).1 = .error x ↔ (m service w).1 = .error x ∨
    ∃ a w', m service w = (.ok a, w') ∧ (f a service w').1 = .error x := by
  cases h : m service w with | mk result w' =>
  cases result with
  | error y =>
    rw [bind_of_error h]
    simp
  | ok a =>
    rw [bind_of_ok h]
    constructor
    · exact fun hx => .inr ⟨a, w', rfl, hx⟩
    · rintro (hx | ⟨_, _, ⟨⟩, hx⟩)
      · cases hx
      · exact hx

theorem recoverClient_of_ok (h : m service w = (.ok a, w')) :
    m.recoverClient handler service w = (.ok a, w') := by
  simp only [recoverClient, recover, h]

theorem recoverClient_of_client (h : m service w = (.error (.client e), w')) :
    m.recoverClient handler service w = handler e service w' := by
  simp only [recoverClient, recover, h]

theorem recoverClient_of_foreign {y : Foreign}
    (h : m service w = (.error (.foreign y), w')) :
    m.recoverClient handler service w = (.error (.foreign y), w') := by
  simp only [recoverClient, recover, h, fail]

/-- A report changes the log and nothing else. -/
theorem note_apply (severity : Log.Severity) (source : Log.Source) (message : String)
    (details : Dictionary Json.Value) (service : Http.Service) (w : World σ) :
    ∃ log, note severity source message details service w = (.ok (), { w with log := log }) :=
  ⟨_, rfl⟩

theorem bind_pure_log (m : Run σ α) (b : β) (service : Http.Service) (w : World σ) :
    ((m >>= fun _ => pure b) service w).2.log = (m service w).2.log := by
  cases h : m service w with | mk result w' =>
  cases result with
  | error x => rw [bind_of_error h]
  | ok a => rw [bind_of_ok h, pure_apply]

theorem nextReply_apply (service : Http.Service) (w : World σ) :
    (nextReply : Run σ Http.Reply) service w = (.ok (service w.sent.length), w) := rfl

theorem record_apply (s : Http.Sent) (service : Http.Service) (w : World σ) :
    record s service w = (.ok (), { w with sent := w.sent ++ [s] }) := rfl

end Run

namespace Http

variable {σ α : Type} {e : Executor} {d : Draft} {r : Request} {service : Service} {w : World σ}

namespace Response

variable {a : Response} {method : String} {url : Option String} {x : Foreign}
  {during : Json.Activity}

/-- The stack has no room for the containers that stand around each other in the body. -/
def Deep (a : Response) (during : Json.Activity) : Prop :=
  Json.Outline.read a.room a.text = .error (.exhausted during)

/-- The body can be read for a message, whether there is one or not. -/
def Readable (a : Response) : Prop := ∀ during, ¬ a.Deep during

theorem statusMessage_eq_error :
    a.statusMessage = .error x ↔ ∃ during, a.Deep during ∧ x = .stackExhausted during := by
  rw [statusMessage]
  simp only [Deep]
  cases Json.Outline.read a.room a.text with
  | ok v => simp
  | error fault => cases fault <;> simp [eq_comm]

theorem refusal_eq_error :
    a.refusal method url = .error x ↔ ∃ during, a.Deep during ∧ x = .stackExhausted during := by
  rw [refusal, map_eq_error, detail, map_eq_error, statusMessage_eq_error]

theorem readable_iff_detail : a.Readable ↔ ∃ d, a.detail = .ok d := by
  cases hd : a.detail with
  | ok d =>
    refine iff_of_true (fun during hdeep => ?_) ⟨d, rfl⟩
    have hs : a.statusMessage = .error (.stackExhausted during) :=
      statusMessage_eq_error.2 ⟨during, hdeep, rfl⟩
    rw [detail, hs] at hd
    cases hd
  | error x =>
    refine iff_of_false (fun hread => ?_) (by simp)
    obtain ⟨during, hdeep, -⟩ := statusMessage_eq_error.1 (map_eq_error.1 hd)
    exact hread during hdeep

theorem readable_of_refusal {e : ClientError} (h : a.refusal method url = .ok e) : a.Readable := by
  intro during hdeep
  rw [refusal_eq_error.2 ⟨during, hdeep, rfl⟩] at h
  cases h

theorem failure_eq_foreign_iff :
    a.failure method url = .foreign x ↔ ∃ during, a.Deep during ∧ x = .stackExhausted during := by
  rw [← refusal_eq_error, failure]
  cases a.refusal method url <;> simp

theorem Deep.refusal (h : a.Deep during) (method : String) (url : Option String) :
    a.refusal method url = .error (.stackExhausted during) := refusal_eq_error.2 ⟨during, h, rfl⟩

/-- The brackets need not even be closed. -/
theorem deep_of_opened {n : ℕ} {s : List Char} (h : a.room < n)
    (hc : a.content = Text.Utf8.encode (String.ofList (List.replicate n '[' ++ s))) :
    a.Deep .array := by
  rw [Deep, text, hc, Text.Utf8.decodeLossy_encode]
  exact Json.Outline.read_opened s h

/-- So many arrays inside each other. -/
def nested (n : ℕ) : List UInt8 :=
  Text.Utf8.encode (String.ofList (List.replicate n '[' ++ List.replicate n ']'))

theorem deep_nested {status : ℤ} {reason : Option String} {room n : ℕ} (h : room < n) :
    Deep ⟨status, reason, nested n, room⟩ .array := deep_of_opened h rfl

end Response

/-- An answer that is no success and whose body is nested too deeply to be read. -/
inductive Overwhelms : Outcome → Json.Activity → Prop
  | answer {a : Response} {during : Json.Activity} (h : a.success = false) (deep : a.Deep during) :
      Overwhelms (.answer a) during

theorem Overwhelms.unique {o : Outcome} {during during' : Json.Activity}
    (h : Overwhelms o during) (h' : Overwhelms o during') : during = during' := by
  cases h with
  | answer _ hdeep =>
    cases h' with
    | answer _ hdeep' => simpa using hdeep.symm.trans hdeep'

theorem overwhelms_iff {o : Outcome} {during : Json.Activity} :
    Overwhelms o during ↔ ∃ a, o = .answer a ∧ a.success = false ∧ a.Deep during := by
  constructor
  · rintro ⟨h, hdeep⟩
    exact ⟨_, rfl, h, hdeep⟩
  · rintro ⟨a, rfl, h, hdeep⟩
    exact .answer h hdeep

/-- What the record of sent requests shows of a request, by how its body was taken in. -/
def Executor.entry (e : Executor) (r : Request) (demand : Demand) : Sent :=
  ⟨r.method, r.url, r.headers, (r.body.deliver demand).1, e.connectTimeout, e.timeout⟩

/-- What comes of a request, by what the service does with it. -/
def Request.settled (r : Request) (reply : Reply) : Except Failure Response :=
  if (r.body.deliver reply.demand).2 then .error (.client (.brokenStream .source))
  else match reply.outcome with
    | .answer a => .ok a
    | .fault f => .error (.client (.undelivered r.method r.url f))
    | .foreign f => .error (.foreign f)

/-- What comes of a request of which only a success is taken. -/
def Request.verdict (r : Request) (reply : Reply) : Except Failure Response :=
  (r.settled reply).bind fun a =>
    if a.success then .ok a else .error (a.failure r.method (some r.url))

theorem send_apply (e : Executor) (r : Request) (service : Service) (w : World σ) :
    ∃ log, e.send r service w = (r.settled (service w.sent.length),
      ⟨w.sent ++ [e.entry r (service w.sent.length).demand], log, w.store⟩) := by
  obtain ⟨log, hn⟩ := Run.note_apply Log.debug .transport "Sending request"
    [("method", .string r.method), ("url", .string r.url), ("timeout", limitValue e.timeout)]
    service w
  refine ⟨log, ?_⟩
  rw [Executor.send, Run.bind_of_ok hn, Run.bind_of_ok (Run.nextReply_apply service _),
    Run.bind_of_ok (Run.record_apply _ service _), Request.settled]
  split
  · exact Run.throw_apply _ service _
  · cases (service w.sent.length).outcome <;> rfl

theorem accept_apply (a : Response) (method : String) (url : Option String) (service : Service)
    (w : World σ) :
    ∃ log, a.accept method url service w =
      (if a.success then .ok () else .error (a.failure method url), { w with log := log }) := by
  rw [Response.accept, Response.failure]
  split
  · exact ⟨w.log, rfl⟩
  · cases a.refusal method url <;> exact ⟨_, rfl⟩

/-- One request goes out, whatever comes of it. -/
theorem call_apply (h : e.prepare d = .ok r) (service : Service) (w : World σ) :
    ∃ log, e.call d service w = (r.verdict (service w.sent.length),
      ⟨w.sent ++ [e.entry r (service w.sent.length).demand], log, w.store⟩) := by
  obtain ⟨log, hs⟩ := send_apply e r service w
  have hp : (Run.ofForeign (e.prepare d) : Run σ Request) service w = (.ok r, w) := by
    rw [h]
    rfl
  rw [Executor.call, Run.bind_of_ok hp, Request.verdict]
  cases ha : r.settled (service w.sent.length) with
  | error x =>
    rw [ha] at hs
    exact ⟨log, Run.bind_of_error hs⟩
  | ok a =>
    rw [ha] at hs
    rw [Run.bind_of_ok hs]
    obtain ⟨log', hc⟩ := accept_apply a r.method (some r.url) service
      (⟨w.sent ++ [e.entry r (service w.sent.length).demand], log, w.store⟩ : World σ)
    refine ⟨log', ?_⟩
    cases hok : a.success with
    | true =>
      rw [hok] at hc
      rw [Run.bind_of_ok hc]
      simp [Except.bind, hok, Run.pure_apply]
    | false =>
      rw [hok] at hc
      rw [Run.bind_of_error hc]
      simp [Except.bind, hok]

/-- What is no failure of the client comes from the network, or from an answer that is too deep. -/
theorem verdict_eq_foreign_iff {reply : Reply} {x : Foreign} :
    r.verdict reply = .error (.foreign x) ↔ (r.body.deliver reply.demand).2 = false ∧
      (reply.outcome = .foreign x ∨
        ∃ during, Overwhelms reply.outcome during ∧ x = .stackExhausted during) := by
  rw [Request.verdict, Request.settled]
  cases (r.body.deliver reply.demand).2 with
  | true => simp [Except.bind]
  | false =>
    cases reply.outcome with
    | fault f => simp [Except.bind, overwhelms_iff]
    | foreign y => simp [Except.bind, overwhelms_iff]
    | answer a =>
      cases hok : a.success with
      | true => simp [Except.bind, overwhelms_iff, hok]
      | false => simp [Except.bind, overwhelms_iff, hok, Response.failure_eq_foreign_iff]

theorem call_of_unprepared {x : Foreign} (h : e.prepare d = .error x) (service : Service)
    (w : World σ) : e.call d service w = (.error (.foreign x), w) := by
  have hp : (Run.ofForeign (e.prepare d) : Run σ Request) service w = (.error (.foreign x), w) := by
    rw [h]
    rfl
  rw [Executor.call, Run.bind_of_error hp]

/-- What a document in a successful answer gives. -/
def Response.document (a : Response) (m : Model α) : Except Failure α :=
  (m.decodeBytes a.content).mapError fun x => .client (.undecodable m.title x)

theorem fetch_apply (m : Model α) (h : e.prepare d = .ok r) (service : Service) (w : World σ) :
    ∃ log, e.fetch m d service w =
      ((r.verdict (service w.sent.length)).bind fun a => a.document m,
        ⟨w.sent ++ [e.entry r (service w.sent.length).demand], log, w.store⟩) := by
  obtain ⟨log, hc⟩ := call_apply h service w
  refine ⟨log, ?_⟩
  rw [Executor.fetch]
  cases ha : r.verdict (service w.sent.length) with
  | error x =>
    rw [ha] at hc
    exact Run.bind_of_error hc
  | ok a =>
    rw [ha] at hc
    rw [Run.bind_of_ok hc]
    simp only [Except.bind, Response.document, Response.decode, Run.ofClient, Run.ofExcept]
    cases m.decodeBytes a.content <;> rfl

end Http

/-- Whatever the run sends has the property. -/
def Run.Sends {σ α : Type} (P : Http.Sent → Prop) (m : Run σ α) : Prop :=
  ∀ service w, ∃ trace, (m service w).2.sent = w.sent ++ trace ∧ ∀ s ∈ trace, P s

namespace Run.Sends

variable {σ α β : Type} {P : Http.Sent → Prop} {m : Run σ α} {f : α → Run σ β}

theorem of_silent (h : ∀ service w, (m service w).2.sent = w.sent) : Sends P m :=
  fun service w => ⟨[], by simp [h], by simp⟩

theorem bind (hm : Sends P m) (hf : ∀ a, Sends P (f a)) : Sends P (m >>= f) := by
  intro service w
  obtain ⟨trace, ht, hp⟩ := hm service w
  cases h : m service w with | mk answer w₁ =>
  rw [h] at ht
  cases answer with
  | error x =>
    rw [bind_of_error h]
    exact ⟨trace, ht, hp⟩
  | ok a =>
    obtain ⟨more, hr, hq⟩ := hf a service w₁
    rw [bind_of_ok h]
    refine ⟨trace ++ more, by rw [hr, ht, List.append_assoc], fun s hs => ?_⟩
    exact (List.mem_append.1 hs).elim (hp s) (hq s)

theorem map (g : α → β) (hm : Sends P m) : Sends P (g <$> m) := by
  rw [map_eq_pure_bind]
  exact .bind hm fun _ => .of_silent fun _ _ => rfl

theorem recoverClient {handler : ClientError → Run σ α} (hm : Sends P m)
    (hh : ∀ x, Sends P (handler x)) : Sends P (m.recoverClient handler) := by
  intro service w
  obtain ⟨trace, ht, hp⟩ := hm service w
  cases h : m service w with | mk answer w₁ =>
  rw [h] at ht
  rcases answer with (x | y) | a
  · obtain ⟨more, hr, hq⟩ := hh x service w₁
    rw [recoverClient_of_client h]
    refine ⟨trace ++ more, by rw [hr, ht, List.append_assoc], fun s hs => ?_⟩
    exact (List.mem_append.1 hs).elim (hp s) (hq s)
  · rw [recoverClient_of_foreign h]
    exact ⟨trace, ht, hp⟩
  · rw [recoverClient_of_ok h]
    exact ⟨trace, ht, hp⟩

theorem call {e : Http.Executor} {d : Http.Draft}
    (h : ∀ r demand, e.prepare d = .ok r → P (e.entry r demand)) :
    Sends P (e.call d : Run σ Http.Response) := by
  intro service w
  cases hr : e.prepare d with
  | error x =>
    rw [Http.call_of_unprepared hr]
    exact ⟨[], by simp, by simp⟩
  | ok r =>
    obtain ⟨log, hc⟩ := Http.call_apply hr service w
    rw [hc]
    exact ⟨_, rfl, by simpa using h r _ hr⟩

theorem fetch {e : Http.Executor} {d : Http.Draft} (model : Model α)
    (h : ∀ r demand, e.prepare d = .ok r → P (e.entry r demand)) :
    Sends P (e.fetch model d : Run σ α) :=
  (call h).bind fun _ => of_silent fun _ _ => rfl

end Run.Sends

end BuildClient
