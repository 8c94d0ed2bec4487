import BuildClient.Operations
import BuildClient.Proofs.Framing
import BuildClient.Proofs.Prepared

/-! An upload is one request, or none: which one it is, and what becomes of it. -/
namespace BuildClient

open Http

variable {σ α : Type} {service : Service} {w : World σ}

namespace Run

theorem ofForeign_of_ok {r : Except Foreign α} {a : α} (h : r = .ok a) :
    (ofForeign r : Run σ α) service w = (.ok a, w) := by
  rw [h]
  rfl

theorem ofForeign_of_error {r : Except Foreign α} {x : Foreign} (h : r = .error x) :
    (ofForeign r : Run σ α) service w = (.error (.foreign x), w) := by
  rw [h]
  rfl

theorem ofClient_of_ok {r : Except ClientError α} {a : α} (h : r = .ok a) :
    (ofClient r : Run σ α) service w = (.ok a, w) := by
  rw [h]
  rfl

theorem ofClient_of_error {r : Except ClientError α} {x : ClientError} (h : r = .error x) :
    (ofClient r : Run σ α) service w = (.error (.client x), w) := by
  rw [h]
  rfl

end Run

namespace Http.Response

theorem decode_apply (a : Response) (m : Model α) (service : Service) (w : World σ) :
    a.decode m service w = (a.document m, w) := by
  rw [decode, document]
  cases m.decodeBytes a.content <;> rfl

end Http.Response

namespace Upload

variable {e e' : Executor} {resource : String} {p : Parameters} {source : Source} {length : ℤ}
  {r : Request} {x : Foreign}

/-- Whom an upload is sent for, and its request. -/
def request (e : Executor) (resource : String) (p : Parameters) (source : Source) (length : ℤ) :
    Except Foreign (Executor × Request) := do
  let e ← executorFor e p
  let r ← prepare e resource p source length
  pure (e, r)

theorem request_eq_ok_iff : request e resource p source length = .ok (e', r) ↔
    executorFor e p = .ok e' ∧ prepare e' resource p source length = .ok r := by
  rw [request]
  constructor
  · intro h
    obtain ⟨e₁, he, h⟩ := bind_eq_ok.1 h
    obtain ⟨r₁, hr, h⟩ := bind_eq_ok.1 h
    obtain ⟨rfl, rfl⟩ := Prod.mk.inj (Except.ok.inj h)
    exact ⟨he, hr⟩
  · rintro ⟨he, hr⟩
    exact bind_eq_ok.2 ⟨e', he, bind_eq_ok.2 ⟨r, hr, rfl⟩⟩

theorem prepare_eq_error_iff : prepare e resource p source length = .error x ↔
    e.prepare ⟨"POST", Query.instantiateUrl resource p, [], headers,
      .stream (.ofSource source)⟩ = .error x := by
  rw [prepare]
  constructor
  · intro h
    rcases bind_eq_error.1 h with hr | ⟨r, -, h⟩
    · exact hr
    · cases h
  · exact fun hr => bind_eq_error.2 (.inl hr)

/-- Either the timeout is too large, or the request cannot be prepared. -/
theorem request_eq_error_iff : request e resource p source length = .error x ↔
    executorFor e p = .error x ∨ ∃ e', executorFor e p = .ok e' ∧
      e'.prepare ⟨"POST", Query.instantiateUrl resource p, [], headers,
        .stream (.ofSource source)⟩ = .error x := by
  rw [request]
  constructor
  · intro h
    rcases bind_eq_error.1 h with he | ⟨e', he, h⟩
    · exact .inl he
    · rcases bind_eq_error.1 h with hr | ⟨r, -, h⟩
      · exact .inr ⟨e', he, prepare_eq_error_iff.1 hr⟩
      · cases h
  · rintro (he | ⟨e', he, hr⟩)
    · exact bind_eq_error.2 (.inl he)
    · exact bind_eq_error.2 (.inr ⟨e', he, bind_eq_error.2 (.inl (prepare_eq_error_iff.2 hr))⟩)

/-- The time that an upload may take is all that its parameters change. -/
theorem surroundings_of_executorFor (h : executorFor e p = .ok e') :
    e'.surroundings = e.surroundings := by
  rw [executorFor] at h
  split at h
  · cases h
    rfl
  · split at h
    · cases h
      rfl
    · cases h

/-- The request is a draft's with a stream for its body, and the length, if known, declared. -/
theorem prepare_eq_ok (h : prepare e resource p source length = .ok r) :
    ∃ r₀, e.prepare ⟨"POST", Query.instantiateUrl resource p, [], headers,
        .stream (.ofSource source)⟩ = .ok r₀ ∧
      r = if length = unknownLength then r₀ else r₀.declareLength length := by
  rw [prepare] at h
  obtain ⟨r₀, hr, h⟩ := bind_eq_ok.1 h
  exact ⟨r₀, hr, (Except.ok.inj h).symm⟩

theorem upper_post : Text.upper "POST" = "POST" := by decide +kernel

/-- The request is sent in chunks until its length is declared. -/
theorem request_chunked (h : request e resource p source length = .ok (e', r)) :
    ∃ r₀, r₀.method = "POST" ∧ r₀.body = .stream (.ofSource source) ∧ Framed .chunked r₀.headers ∧
      r = if length = unknownLength then r₀ else r₀.declareLength length := by
  obtain ⟨r₀, hr₀, hr⟩ := prepare_eq_ok (request_eq_ok_iff.1 h).2
  obtain ⟨hmethod, hbody, -⟩ := Http.prepare_eq_ok hr₀
  have hlines : Headers.Unframed headers := by decide
  have hf := framed_of_prepare hlines hr₀
  rw [hbody] at hf
  exact ⟨r₀, hmethod.trans upper_post, hbody, hf, hr⟩

theorem body_of_request (h : request e resource p source length = .ok (e', r)) :
    r.body = .stream (.ofSource source) := by
  obtain ⟨r₀, -, hbody, -, rfl⟩ := request_chunked h
  split <;> exact hbody

/-- A failure of the request as the upload tells it. -/
def told : Failure → Failure
  | .client x => .client (blame x)
  | .foreign x => .foreign x

/-- What the answer to an upload gives. -/
def received (r : Request) (a : Response) : Except Failure Build :=
  if a.success then a.document Model.build
  else .error (a.failure r.method (some r.url))

/-- What becomes of an upload, by what the service does with its request. -/
def verdict (r : Request) (reply : Reply) : Except Failure Build :=
  ((r.settled reply).mapError told).bind (received r)

theorem send_apply (e : Executor) (r : Request) (service : Service) (w : World σ) :
    ∃ log, ((e.send r).recoverClient fun x => Run.throw (blame x)) service w =
      ((r.settled (service w.sent.length)).mapError told,
        ⟨w.sent ++ [e.entry r (service w.sent.length).demand], log, w.store⟩) := by
  obtain ⟨log, hs⟩ := Http.send_apply e r service w
  refine ⟨log, ?_⟩
  rcases hr : r.settled (service w.sent.length) with (x | x) | a
  · rw [hr] at hs
    exact Run.recoverClient_of_client hs
  · rw [hr] at hs
    exact Run.recoverClient_of_foreign hs
  · rw [hr] at hs
    exact Run.recoverClient_of_ok hs

/-- Reading an answer changes nothing but the log. -/
theorem received_apply (r : Request) (a : Response) (service : Service) (w : World σ) :
    ∃ log, (do
      a.accept r.method (some r.url)
      let build ← a.decode Model.build
      Run.note Log.info .uploader "Binary build instantiated"
        [("build", text build.metadata.name), ("namespace", text build.metadata.ns)]
      pure build : Run σ Build) service w = (received r a, { w with log := log }) := by
  obtain ⟨log, ha⟩ := accept_apply a r.method (some r.url) service w
  rw [received]
  cases hok : a.success with
  | false =>
    rw [hok] at ha
    exact ⟨log, Run.bind_of_error ha⟩
  | true =>
    rw [hok] at ha
    rw [Run.bind_of_ok ha, if_pos rfl]
    have hd := Response.decode_apply a Model.build service { w with log := log }
    cases hb : a.document Model.build with
    | error x =>
      rw [hb] at hd
      exact ⟨log, Run.bind_of_error hd⟩
    | ok build =>
      rw [hb] at hd
      rw [Run.bind_of_ok hd]
      exact ⟨_, rfl⟩

/-- One request goes out, whatever comes of it. -/
theorem upload_apply (h : request e resource p source length = .ok (e', r)) (service : Service)
    (w : World σ) :
    ∃ log, upload e resource p source length service w = (verdict r (service w.sent.length),
      ⟨w.sent ++ [e'.entry r (service w.sent.length).demand], log, w.store⟩) := by
  obtain ⟨he, hr⟩ := request_eq_ok_iff.1 h
  obtain ⟨log₀, hn⟩ := Run.note_apply Log.info .uploader "Uploading binary build input"
    [("url", .string r.url), ("content_length", .int length), ("timeout", limitValue e'.timeout)]
    service w
  obtain ⟨log₁, hs⟩ := send_apply e' r service (⟨w.sent, log₀, w.store⟩ : World σ)
  rw [upload, Run.bind_of_ok (Run.ofForeign_of_ok he), Run.bind_of_ok (Run.ofForeign_of_ok hr),
    Run.bind_of_ok hn, verdict]
  cases hv : (r.settled (service w.sent.length)).mapError told with
  | error x =>
    rw [hv] at hs
    exact ⟨log₁, Run.bind_of_error hs⟩
  | ok a =>
    rw [hv] at hs
    rw [Run.bind_of_ok hs]
    exact received_apply r a service _

theorem upload_of_unrequested (h : request e resource p source length = .error x)
    (service : Service) (w : World σ) :
    upload e resource p source length service w = (.error (.foreign x), w) := by
  rcases request_eq_error_iff.1 h with he | ⟨e', he, hr⟩
  · rw [upload, Run.bind_of_error (Run.ofForeign_of_error he)]
  · have hp : prepare e' resource p source length = .error x := prepare_eq_error_iff.2 hr
    rw [upload, Run.bind_of_ok (Run.ofForeign_of_ok he),
      Run.bind_of_error (Run.ofForeign_of_error hp)]

end Upload

namespace Operations

variable {o : Operations σ} {resource : String} {x : Foreign} {e : Executor} {r : Request}

/-- An upload that sends nothing, or one request that decides it. -/
inductive Uploading (o : Operations σ) (source : Source) (length : ℤ) (service : Service)
    (w : World σ) : Except Failure Build × World σ → Prop
  | unsent (x : Failure) : Uploading o source length service w (.error x, w)
  | sent {resource : String} {e : Executor} {r : Request} (log : List Log.Event)
      (located : o.resourceUrl = .ok resource)
      (requested : Upload.request o.executor resource o.parameters source length = .ok (e, r)) :
      Uploading o source length service w (Upload.verdict r (service w.sent.length),
        ⟨w.sent ++ [e.entry r (service w.sent.length).demand], log, w.store⟩)

theorem uploading (source : Source) (length : ℤ) (service : Service) (w : World σ)
    (h : o.resourceUrl = .ok resource) :
    Uploading o source length service w
      (Upload.upload o.executor resource o.parameters source length service w) := by
  cases hr : Upload.request o.executor resource o.parameters source length with
  | error x =>
    rw [Upload.upload_of_unrequested hr]
    exact .unsent _
  | ok q =>
    obtain ⟨e, r⟩ := q
    obtain ⟨log, hu⟩ := Upload.upload_apply hr service w
    rw [hu]
    exact .sent log h hr

theorem fromStream_uploading (o : Operations σ) (source : Source) (service : Service)
    (w : World σ) :
    Uploading o source Upload.unknownLength service w (o.fromStream source service w) := by
  rw [fromStream]
  cases hu : o.resourceUrl with
  | error x =>
    rw [Run.bind_of_error (Run.ofClient_of_error rfl)]
    exact .unsent _
  | ok resource =>
    rw [Run.bind_of_ok (Run.ofClient_of_ok rfl)]
    exact uploading source _ service w hu

/-- Without a file nothing is sent; a file is uploaded with its length. -/
theorem fromFile_uploading (o : Operations σ) (files : Files) (path : Path) (service : Service)
    (w : World σ) :
    (∃ x, o.fromFile files path service w = (.error x, w)) ∨
      ∃ file, files path = .ok (some file) ∧
        Uploading o file.source file.content.length service w
          (o.fromFile files path service w) := by
  rw [fromFile]
  cases hu : o.resourceUrl with
  | error x => exact .inl ⟨_, Run.bind_of_error (Run.ofClient_of_error rfl)⟩
  | ok resource =>
    rw [Run.bind_of_ok (Run.ofClient_of_ok rfl), Upload.fromFile]
    cases hf : files path with
    | error x => exact .inl ⟨_, Run.bind_of_error (Run.ofForeign_of_error rfl)⟩
    | ok found =>
      rw [Run.bind_of_ok (Run.ofForeign_of_ok rfl)]
      cases found with
      | none => exact .inl ⟨_, rfl⟩
      | some file => exact .inr ⟨file, rfl, uploading _ _ service w hu⟩

end Operations

end BuildClient
