import BuildClient.Proofs.Framing
import BuildClient.Proofs.Naming
import BuildClient.Proofs.Payload
import BuildClient.Proofs.RoundTrip

/-! How each operation tells the end of what it sends, and that as much is sent as it tells. -/
namespace BuildClient

open Http

variable {σ : Type} {e : Executor} {d : Draft} {r : Request}

/-- The text of a record has its braces at least. -/
theorem Wire.Record.text_ne_empty {fs : List Wire.Field} {rec : Wire.Record fs} {v : Json.Value}
    (h : (codec fs).write rec = .ok v) : Model.style.print v ≠ "" := by
  obtain ⟨ms, rfl⟩ : ∃ ms, v = .object ms := by
    obtain ⟨ms, -, h⟩ := bind_eq_ok.1 h
    obtain ⟨es, -, h⟩ := bind_eq_ok.1 h
    exact ⟨ms ++ es, (Except.ok.inj h).symm⟩
  simp [Json.Style.print, Json.Style.chars]

/-- Nothing keeps the file from being read to its end. -/
def File.Readable (f : File) : Prop := ∀ limit ∈ f.failAt, (f.content.length : ℤ) < limit

namespace Http

/-- Sent without a body, with its end told in this way. -/
structure Sent.Bare (method : String) (f : Framing) (s : Sent) : Prop where
  method : s.method = method
  body : s.body = .none
  framed : Framed f s.headers

/-- Sent with the text for its body, and the number of its bytes declared. -/
structure Sent.Posts (text : String) (s : Sent) : Prop where
  method : s.method = "POST"
  body : s.body = .text text
  framed : Framed (.length (Text.Utf8.size text)) s.headers

/-- Sent with the bytes for its body, or with the first of them if no more were taken in. -/
structure Sent.Streams (f : Framing) (bytes : List UInt8) (s : Sent) : Prop where
  method : s.method = "POST"
  framed : Framed f s.headers
  body : ∃ chunks, s.body = .stream chunks chunks.flatten.length ∧ chunks.flatten <+: bytes

theorem bare_entry (hd : d.Plain) (h : e.prepare d = .ok r) (demand : Demand) :
    (e.entry r demand).Bare d.method (.ofBody d.method .none) := by
  obtain ⟨hmethod, hbody, -⟩ := prepare_plain hd h
  have hf := framed_of_prepare (by simp [hd.headers, Headers.Unframed]) h
  rw [hmethod, hbody] at hf
  refine ⟨hmethod, ?_, hf⟩
  rw [Executor.entry, hbody]
  rfl

theorem posts_entry {text : String} (h : e.prepare d = .ok r) (hm : Text.upper d.method = "POST")
    (hd : d.headers.Unframed) (hb : d.body = .text text) (ht : text ≠ "") (demand : Demand) :
    (e.entry r demand).Posts text := by
  obtain ⟨hmethod, hbody, -⟩ := prepare_eq_ok h
  have hsettled : r.body = .text text := by rw [hbody, hb, Body.settle, if_neg (by simpa using ht)]
  have hf := framed_of_prepare hd h
  rw [hsettled] at hf
  refine ⟨hmethod.trans hm, ?_, hf⟩
  rw [Executor.entry, hsettled]
  rfl

/-- What was taken in of a stream is the first of its bytes, and they are counted. -/
theorem stream_entry {source : Source} (h : r.body = .stream (.ofSource source)) (demand : Demand) :
    ∃ chunks, (e.entry r demand).body = .stream chunks chunks.flatten.length ∧
      chunks.flatten <+: source.rest := by
  have hadv := (Payload.consume_of (.ofSource source) demand).advances
  refine ⟨((Payload.ofSource source).consume demand).chunks, ?_, _, hadv.bytes⟩
  have hread : ((Payload.ofSource source).consume demand).left.bytesRead = _ :=
    hadv.bytesRead.trans (Nat.zero_add _)
  rw [Executor.entry, h, Body.deliver, hread]

/-- A file that can be read to its end is sent as a whole if the service takes in all of it. -/
theorem whole_entry {f : File} (hf : f.Readable) (h : r.body = .stream (.ofSource f.source)) :
    ∃ chunks, (e.entry r .all).body = .stream chunks f.content.length ∧
      chunks.flatten = f.content := by
  have hwhole : (Payload.ofSource f.source).drain.chunks.flatten = f.content := by
    refine Payload.drain_whole ⟨show (1 : ℤ) ≤ 65536 by decide, nofun⟩ fun limit hlimit => ?_
    simpa [Payload.ofSource, File.source] using hf limit hlimit
  have hadv := (Payload.consume_of (.ofSource f.source) .all).advances
  have hcount : (Payload.ofSource f.source).drain.left.bytesRead = f.content.length := by
    have hread := hadv.bytesRead.trans (Nat.zero_add _)
    rw [← hwhole]
    exact hread
  refine ⟨_, ?_, hwhole⟩
  rw [Executor.entry, h, Body.deliver, ← hcount, Payload.consume]

end Http

namespace Upload

variable {e' : Executor} {resource : String} {p : Parameters} {source : Source} {length : ℤ}

theorem streams_of_unknown (h : request e resource p source unknownLength = .ok (e', r))
    (demand : Demand) : (e'.entry r demand).Streams .chunked source.rest := by
  obtain ⟨r₀, hmethod, hbody, hf, hr⟩ := request_chunked h
  obtain rfl : r = r₀ := by simpa using hr
  exact ⟨hmethod, hf, stream_entry hbody demand⟩

theorem request_declared {n : ℕ} (h : request e resource p source n = .ok (e', r)) :
    r.method = "POST" ∧ r.body = .stream (.ofSource source) ∧ Framed (.length n) r.headers := by
  obtain ⟨r₀, hmethod, hbody, hf, hr⟩ := request_chunked h
  have hn : (n : ℤ) ≠ unknownLength := by rw [unknownLength]; omega
  rw [if_neg hn] at hr
  subst hr
  exact ⟨hmethod, hbody, hf.declareLength n⟩

end Upload

/-- A store that is the service's, or does its work without a service. -/
inductive BuildStore.Known : BuildStore σ → Prop
  | remote (e : Executor) (api : String) : Known (.remote e api)
  | silent {store : BuildStore σ}
      (list : ∀ ns labels, Run.Sends (fun _ => False) (store.list ns labels))
      (delete : ∀ ns name, Run.Sends (fun _ => False) (store.delete ns name)) : Known store

namespace Operations

/-- How every request of the operations tells the end of its body. -/
structure FramesAll (o : Operations σ) : Prop where
  get : Run.Sends (Sent.Bare "GET" .unframed) o.get
  list : ∀ ns labels, Run.Sends (Sent.Bare "GET" .unframed)
    ((BuildStore.remote o.executor o.apiUrl : BuildStore σ).list ns labels)
  deleteBuild : ∀ ns name, Run.Sends (Sent.Bare "DELETE" (.length 0))
    ((BuildStore.remote o.executor o.apiUrl : BuildStore σ).delete ns name)
  deleteBuilds : ∀ ns name,
    Run.Sends (fun s => s.Bare "GET" .unframed ∨ s.Bare "DELETE" (.length 0))
      (Reaper.deleteBuilds o.store ns name)
  delete : Run.Sends (fun s => s.Bare "GET" .unframed ∨ s.Bare "DELETE" (.length 0)) o.delete
  instantiate : ∀ q : BuildRequest, Run.Sends
    (fun s => ∃ text, Model.buildRequest.encode q.withApiVersion = .ok text ∧ s.Posts text)
    (o.instantiate q)
  trigger : ∀ t : WebHookTrigger, Run.Sends
    (fun s => ∃ text, Model.webHookTrigger.encode t = .ok text ∧ s.Posts text) (o.trigger t)
  fromStream : ∀ source, Run.Sends (Sent.Streams .chunked source.rest) (o.fromStream source)
  /-- A file is sent with its length, and as a whole unless it cannot be read to its end or the
  service takes in less. -/
  fromFile : ∀ files path service w,
    (o.fromFile files path service w).2.sent = w.sent ∨
      ∃ file s, files path = .ok (some file) ∧
        (o.fromFile files path service w).2.sent = w.sent ++ [s] ∧
        s.Streams (.length file.content.length) file.content ∧
        (file.Readable → (service w.sent.length).demand = .all →
          ∃ chunks, s.body = .stream chunks file.content.length ∧ chunks.flatten = file.content)

variable {o : Operations σ}

theorem sends_plain_bare {f : Framing} (hd : d.Plain) (hf : Framing.ofBody d.method .none = f) :
    e.Enters (Sent.Bare d.method f) d :=
  fun _ demand hr => hf ▸ bare_entry hd hr demand

theorem sends_get (o : Operations σ) : Run.Sends (Sent.Bare "GET" .unframed) o.get :=
  get_sends fun _ _ => sends_plain_bare ⟨rfl, rfl, upper_get⟩ rfl

theorem sends_list (ns : String) (labels : Dictionary String) :
    Run.Sends (Sent.Bare "GET" .unframed)
      ((BuildStore.remote e api : BuildStore σ).list ns labels) :=
  BuildStore.remote_list_sends (sends_plain_bare (listDraft_plain _ _ _) rfl)

theorem sends_deleteBuild (ns name : String) :
    Run.Sends (Sent.Bare "DELETE" (.length 0))
      ((BuildStore.remote e api : BuildStore σ).delete ns name) :=
  BuildStore.remote_delete_sends (sends_plain_bare (deletion_plain _ _ _ _) rfl)

theorem known_store (hb : ∀ store ∈ o.builds, store.Known) : o.store.Known := by
  rw [store]
  cases h : o.builds with
  | none => exact .remote o.executor o.apiUrl
  | some store => exact hb store h

theorem sends_reaping {store : BuildStore σ} (h : store.Known) (ns : String)
    (name : Option String) :
    Run.Sends (fun s => s.Bare "GET" .unframed ∨ s.Bare "DELETE" (.length 0))
      (Reaper.deleteBuilds store ns name) := by
  cases h with
  | remote e api =>
    refine BuildStore.remote_reaping_sends (fun labels r demand hr => .inl ?_)
      (fun ns' name' _ _ r demand hr => .inr ?_) name
    · exact sends_plain_bare (listDraft_plain api ns labels) rfl r demand hr
    · exact sends_plain_bare (deletion_plain api ns' "builds" name') rfl r demand hr
  | silent hlist hdelete => exact BuildStore.silent_reaping_sends hlist hdelete ns name

theorem sends_deletion (hb : ∀ store ∈ o.builds, store.Known) :
    Run.Sends (fun s => s.Bare "GET" .unframed ∨ s.Bare "DELETE" (.length 0)) o.delete := by
  refine delete_sends (fun resource _ r demand hr => .inr ?_) (sends_reaping (known_store hb) _ _)
  exact sends_plain_bare ⟨rfl, rfl, upper_delete⟩ rfl r demand hr

theorem sends_instantiate (q : BuildRequest) :
    Run.Sends
      (fun s => ∃ text, Model.buildRequest.encode q.withApiVersion = .ok text ∧ s.Posts text)
      (o.instantiate q) := by
  refine instantiate_sends fun resource text _ ht r demand hr => ⟨text, ht, ?_⟩
  have hlines : Headers.Unframed [("Content-Type", "application/json")] := by decide
  obtain ⟨w, hw, rfl⟩ := Model.encode_eq_ok.1 ht
  exact posts_entry hr Upload.upper_post hlines rfl (Wire.Record.text_ne_empty hw) demand

theorem sends_trigger (t : WebHookTrigger) :
    Run.Sends (fun s => ∃ text, Model.webHookTrigger.encode t = .ok text ∧ s.Posts text)
      (o.trigger t) := by
  refine trigger_sends fun resource url text _ _ ht r demand hr => ⟨text, ht, ?_⟩
  have hlines : Headers.Unframed Trigger.headers := by decide
  obtain ⟨w, hw, rfl⟩ := Model.encode_eq_ok.1 ht
  exact posts_entry hr Upload.upper_post hlines rfl (Wire.Record.text_ne_empty hw) demand

theorem sends_fromStream (source : Source) :
    Run.Sends (Sent.Streams .chunked source.rest) (o.fromStream source) :=
  fromStream_sends fun _ _ _ demand _ requested => Upload.streams_of_unknown requested demand

theorem fromFile_sent (files : Files) (path : Path) (service : Service) (w : World σ) :
    (o.fromFile files path service w).2.sent = w.sent ∨
      ∃ file s, files path = .ok (some file) ∧
        (o.fromFile files path service w).2.sent = w.sent ++ [s] ∧
        s.Streams (.length file.content.length) file.content ∧
        (file.Readable → (service w.sent.length).demand = .all →
          ∃ chunks, s.body = .stream chunks file.content.length ∧
            chunks.flatten = file.content) := by
  rcases fromFile_uploading o files path service w with ⟨x, hx⟩ | ⟨file, hfile, hu⟩
  · exact .inl (by rw [hx])
  · cases hrun : o.fromFile files path service w with | mk result w' =>
    rw [hrun] at hu
    cases hu with
    | unsent x => exact .inl rfl
    | @sent _ e r log located requested =>
      obtain ⟨hmethod, hbody, hf⟩ := Upload.request_declared requested
      refine .inr ⟨file, _, hfile, rfl, ⟨hmethod, hf, stream_entry hbody _⟩, fun hread hall => ?_⟩
      rw [hall]
      exact whole_entry hread hbody

/-- Whatever is asked of the operations, every request tells the end of its body in one way: none
at all, a length, or chunks. A declared length is that of the body. -/
theorem requests_framed (o : Operations σ) (hb : ∀ store ∈ o.builds, store.Known) :
    o.FramesAll where
  get := sends_get o
  list := sends_list
  deleteBuild := sends_deleteBuild
  deleteBuilds := sends_reaping (known_store hb)
  delete := sends_deletion hb
  instantiate := sends_instantiate
  trigger := sends_trigger
  fromStream := sends_fromStream
  fromFile := fromFile_sent

/-- Operations with a store that holds no builds. -/
def vacant : Operations Unit :=
  ⟨⟨none, true, none, none, .bare⟩, "http://h", some "ns", some "app", .empty,
    some ⟨fun _ _ => pure [], fun _ _ => pure false⟩⟩

theorem vacant_known : ∀ store ∈ vacant.builds, store.Known := by
  rintro store ⟨⟩
  exact .silent (fun _ _ => .of_silent fun _ _ => rfl) fun _ _ => .of_silent fun _ _ => rfl

theorem requests_framed_vacant :
    (∀ store ∈ vacant.builds, store.Known) ∧ vacant.FramesAll ∧
      (vacant.fromFile (fun _ => .ok (some (.sound []))) (.read "void") obliging
          (.start ())).2.sent.map (fun s => (s.headers.values "Content-Length",
            s.headers.values "Transfer-Encoding", s.body)) = [(["0"], [], .stream [] 0)] :=
  ⟨vacant_known, requests_framed vacant vacant_known, by decide +kernel⟩

end Operations

end BuildClient
