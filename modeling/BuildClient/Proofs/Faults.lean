import BuildClient.Proofs.Lengths

/-! What callers are told when a request gets no answer, or when its body cannot be read. -/
namespace BuildClient

open Http

variable {σ α β : Type} {e : Executor} {d : Draft} {r : Request} {api ns name : String}

/-- Time ran out: for the connection, for the answer, or for both. -/
def NetworkFault.Late (f : NetworkFault) : Prop :=
  f.kind = .timeout ∨ f.kind = .readTimeout ∨ f.kind = .connectTimeout

theorem NetworkFault.isTimeout_iff {f : NetworkFault} : f.isTimeout = true ↔ f.Late := by
  obtain ⟨kind, text⟩ := f
  cases kind <;> simp [isTimeout, Late]

namespace Upload

/-- How an upload ends whose source could be read, by what came of its request. -/
inductive Decided (s : Sent) : Outcome → Except Failure Build → Prop
  | late {f : NetworkFault} (h : f.Late) :
      Decided s (.fault f) (.error (.client (.undelivered s.method s.url f)))
  | cut {f : NetworkFault} (h : ¬ f.Late) :
      Decided s (.fault f) (.error (.client (.brokenStream (.network f))))
  | foreign (x : Foreign) : Decided s (.foreign x) (.error (.foreign x))
  | refused {a : Response} (h : a.success = false) :
      Decided s (.answer a) (.error (a.failure s.method (some s.url)))
  | unreadable {a : Response} {x : Model.Fault} (h : a.success = true)
      (decoded : Model.build.decodeBytes a.content = .error x) :
      Decided s (.answer a) (.error (.client (.undecodable "Build" x)))
  | built {a : Response} {b : Build} (h : a.success = true)
      (decoded : Model.build.decodeBytes a.content = .ok b) : Decided s (.answer a) (.ok b)

/-- How an upload ends: a source that cannot be read comes before whatever became of the request. -/
inductive Ending (source : Source) (reply : Reply) (s : Sent) : Except Failure Build → Prop
  | unread (h : ((Payload.ofSource source).consume reply.demand).failed = true) :
      Ending source reply s (.error (.client (.brokenStream .source)))
  | read {result : Except Failure Build}
      (h : ((Payload.ofSource source).consume reply.demand).failed = false)
      (decided : Decided s reply.outcome result) : Ending source reply s result

theorem decided_fault (s : Sent) (f : NetworkFault) :
    Decided s (.fault f) (.error (.client (blame (.undelivered s.method s.url f)))) := by
  rw [blame]
  split
  · rename_i h
    exact .late (NetworkFault.isTimeout_iff.1 h)
  · rename_i h
    exact .cut fun hlate => h (NetworkFault.isTimeout_iff.2 hlate)

theorem decided_answer (s : Sent) (a : Response) (hm : s.method = r.method) (hu : s.url = r.url) :
    Decided s (.answer a) (received r a) := by
  rw [received, ← hm, ← hu]
  cases hok : a.success with
  | false => exact .refused hok
  | true =>
    rw [if_pos rfl, Response.document]
    cases hd : Model.build.decodeBytes a.content with
    | error x => exact .unreadable hok hd
    | ok b => exact .built hok hd

theorem ending_verdict {source : Source} (h : r.body = .stream (.ofSource source)) (reply : Reply) :
    Ending source reply (e.entry r reply.demand) (verdict r reply) := by
  have hd : (r.body.deliver reply.demand).2 =
      ((Payload.ofSource source).consume reply.demand).failed := by rw [h, Body.deliver]
  rw [verdict, Request.settled, hd]
  cases hread : ((Payload.ofSource source).consume reply.demand).failed with
  | true => exact .unread hread
  | false =>
    refine .read hread ?_
    rw [if_neg (by decide)]
    cases reply.outcome with
    | foreign x => exact .foreign x
    | fault f => exact decided_fault _ f
    | answer a => exact decided_answer _ a rfl rfl

end Upload

theorem Run.bind_pure_apply (m : Run σ α) (b : β) (service : Service) (w : World σ) :
    (m >>= fun _ => pure b) service w = ((m service w).1.map fun _ => b, (m service w).2) := by
  cases h : m service w with | mk result w' =>
  cases result with
  | error x => exact Run.bind_of_error h
  | ok a => exact Run.bind_of_ok h

/-- At most one request was sent, and if it got no answer, the result is that. -/
def Asked (answer : Outcome) (before after : List Sent) (result : Except Failure α) : Prop :=
  after = before ∨ ∃ s, after = before ++ [s] ∧
    ∀ f, answer = .fault f → result = .error (.client (.undelivered s.method s.url f))

namespace Asked

variable {answer : Outcome} {before after : List Sent} {a : α} {x : Failure}

/-- Where a request was answered, anything may come of it. -/
theorem of_ok (h : Asked answer before after (.ok a)) (result : Except Failure β) :
    Asked answer before after result := by
  refine h.imp_right ?_
  rintro ⟨s, hs, hfault⟩
  exact ⟨s, hs, fun f hf => (by cases hfault f hf)⟩

theorem of_error (h : Asked answer before after (.error x : Except Failure α)) :
    Asked answer before after (.error x : Except Failure β) := by
  refine h.imp_right ?_
  rintro ⟨s, hs, hfault⟩
  exact ⟨s, hs, fun f hf => by rw [Except.error.inj (hfault f hf)]⟩

end Asked

/-- The run sends at most one request, and if it gets no answer, the run ends with that. -/
def Run.Asks (m : Run σ α) : Prop :=
  ∀ service w, Asked (service w.sent.length).outcome w.sent (m service w).2.sent (m service w).1

namespace Run.Asks

variable {m : Run σ α} {f : α → Run σ β}

theorem call (hb : ∀ p, d.body ≠ .stream p) : Asks (e.call d : Run σ Response) := by
  intro service w
  cases hr : e.prepare d with
  | error x =>
    rw [call_of_unprepared hr]
    exact .inl rfl
  | ok r =>
    obtain ⟨log, hc⟩ := call_apply hr service w
    have hbody := (prepare_eq_ok hr).2.1
    have hdelivered : (r.body.deliver (service w.sent.length).demand).2 = false := by
      rw [hbody]
      cases hd : d.body with
      | none => rfl
      | text t =>
        rw [Body.settle]
        split <;> rfl
      | stream p => exact absurd hd (hb p)
    rw [hc]
    refine .inr ⟨_, rfl, fun fault hf => ?_⟩
    rw [Request.verdict, Request.settled, hdelivered, hf]
    rfl

theorem bind (hm : Asks m) (hf : ∀ a service w, (f a service w).2.sent = w.sent) :
    Asks (m >>= f) := by
  intro service w
  have h := hm service w
  cases hrun : m service w with | mk result w' =>
  rw [hrun] at h
  cases result with
  | error x =>
    rw [Run.bind_of_error hrun]
    exact h.of_error
  | ok a =>
    rw [Run.bind_of_ok hrun, hf]
    exact h.of_ok _

theorem ofClient_bind {x : Except ClientError α} (h : ∀ a, Asks (f a)) :
    Asks (Run.ofClient x >>= f) := by
  intro service w
  cases x with
  | error y =>
    rw [Run.bind_of_error (Run.ofClient_of_error rfl)]
    exact .inl rfl
  | ok a =>
    rw [Run.bind_of_ok (Run.ofClient_of_ok rfl)]
    exact h a service w

/-- A handler that sends nothing and does not take up missing answers lets them through. -/
theorem recoverClient {handler : ClientError → Run σ α} (hm : Asks m)
    (hsilent : ∀ x service w, (handler x service w).2.sent = w.sent)
    (hthrow : ∀ method url y, handler (.undelivered method url y) =
      Run.throw (.undelivered method url y)) : Asks (m.recoverClient handler) := by
  intro service w
  have h := hm service w
  cases hrun : m service w with | mk result w' =>
  rw [hrun] at h
  rcases result with (x | x) | a
  · rw [Run.recoverClient_of_client hrun, hsilent]
    refine h.imp_right ?_
    rintro ⟨s, hs, hfault⟩
    refine ⟨s, hs, fun y hy => ?_⟩
    obtain rfl : x = .undelivered s.method s.url y :=
      Failure.client.inj (Except.error.inj (hfault y hy))
    rw [hthrow]
    rfl
  · rw [Run.recoverClient_of_foreign hrun]
    exact h
  · rw [Run.recoverClient_of_ok hrun]
    exact h

theorem fetch (model : Model α) (hb : ∀ p, d.body ≠ .stream p) :
    Asks (e.fetch model d : Run σ α) :=
  (call hb).bind fun _ _ _ => rfl

theorem note_bind {severity : Log.Severity} {source : Log.Source} {message : String}
    {details : Dictionary Json.Value} {f : Unit → Run σ α} (h : Asks (f ())) :
    Asks (Run.note severity source message details >>= f) := by
  intro service w
  obtain ⟨log, hn⟩ := Run.note_apply severity source message details service w
  rw [Run.bind_of_ok hn]
  exact h service { w with log := log }

end Run.Asks

/-- If the first of these requests gets no answer, it is the only one, and the result is that. -/
def Heeds (answer : Outcome) (trace : List Sent) (result : Except Failure α) : Prop :=
  ∀ s rest f, trace = s :: rest → answer = .fault f →
    rest = [] ∧ result = .error (.client (.undelivered s.method s.url f))

theorem Heeds.nil {answer : Outcome} {result : Except Failure α} : Heeds answer [] result :=
  fun _ _ _ h => (by cases h)

namespace Operations

variable {o : Operations σ} {service : Service}

theorem asks_get (o : Operations σ) : o.get.Asks := by
  refine .recoverClient (.ofClient_bind fun url => .bind (.fetch _ nofun) fun _ _ _ => rfl) ?_ ?_
  · intro x service w
    split <;> rfl
  · exact fun _ _ _ => rfl

theorem asks_list (ns : String) (labels : Dictionary String) :
    ((BuildStore.remote e api : BuildStore σ).list ns labels).Asks := by
  rw [remote_list]
  exact .bind (.fetch _ nofun) fun _ _ _ => rfl

theorem asks_deleteBuild (ns name : String) :
    ((BuildStore.remote e api : BuildStore σ).delete ns name).Asks := by
  rw [remote_delete]
  refine .recoverClient (.bind (.call nofun) fun _ _ _ => rfl) ?_ ?_
  · intro x service w
    rw [BuildStore.alreadyGone]
    split <;> rfl
  · exact fun _ _ _ => rfl

theorem asks_instantiate (q : BuildRequest) : (o.instantiate q).Asks :=
  .ofClient_bind fun _ => .ofClient_bind fun _ => .bind (.fetch _ nofun) fun _ _ _ => rfl

theorem asks_trigger (t : WebHookTrigger) : (o.trigger t).Asks :=
  .ofClient_bind fun _ => .ofClient_bind fun _ => .note_bind <| .ofClient_bind fun _ =>
    .bind (.call nofun) fun _ _ _ => rfl

/-- Without a request no builds are listed. -/
theorem list_unsent {labels : Dictionary String} {w : World σ}
    (h : ((BuildStore.remote e api).list ns labels service w).2.sent = w.sent) :
    ∃ x, (BuildStore.remote e api).list ns labels service w = (.error x, w) := by
  rw [remote_list] at h ⊢
  cases hr : e.prepare (BuildStore.listDraft api ns labels) with
  | error x =>
    have hfetch : (e.fetch Model.buildList (BuildStore.listDraft api ns labels) : Run σ BuildList)
        service w = (.error (.foreign x), w) := Run.bind_of_error (call_of_unprepared hr service w)
    exact ⟨_, Run.bind_of_error hfetch⟩
  | ok r =>
    obtain ⟨log, hf⟩ := fetch_apply Model.buildList hr service w
    generalize (r.verdict (service w.sent.length)).bind (fun a => a.document Model.buildList) =
      found at hf
    cases found with
    | error x =>
      rw [Run.bind_of_error hf] at h
      simp at h
    | ok l =>
      rw [Run.bind_of_ok hf] at h
      simp [Run.pure_apply] at h

/-- When the listing gets no answer, no build is deleted. -/
theorem heeds_reap {name : Option String} {trace : List Sent} {w : World σ}
    (ht : (Reaper.deleteBuilds (BuildStore.remote e api) ns name service w).2.sent =
      w.sent ++ trace) :
    Heeds (service w.sent.length).outcome trace
      (Reaper.deleteBuilds (BuildStore.remote e api) ns name service w).1 := by
  rintro s rest f rfl hf
  rw [Reaper.deleteBuilds] at ht ⊢
  cases hname : Reaper.filled? name with
  | none => simp [hname, Run.pure_apply] at ht
  | some own =>
    rw [hname] at ht
    have hasks : ((BuildStore.remote e api : BuildStore σ).list ns
        [(Reaper.ownerKey, Labels.value own)]).Asks := asks_list ns _
    have hlist := hasks service w
    cases hrun : (BuildStore.remote e api).list ns [(Reaper.ownerKey, Labels.value own)] service w
      with | mk found w₁ =>
    rw [hrun] at hlist
    rcases hlist with hsilent | ⟨s', hsent, hfault⟩
    · obtain ⟨x, hx⟩ := list_unsent (by rw [hrun]; exact hsilent)
      simp [Reaper.reap_of_unlisted hx] at ht
    · obtain rfl : found = _ := hfault f hf
      have hreap := Reaper.reap_of_unlisted hrun
      simp only [hreap] at ht ⊢
      rw [hsent] at ht
      obtain ⟨rfl, rfl⟩ : s' = s ∧ [] = rest := List.cons.inj (List.append_cancel_left ht)
      exact ⟨rfl, rfl⟩

/-- A store without a service sends nothing that could get no answer. -/
theorem heeds_store {store : BuildStore σ} (h : store.Known) (ns : String) (name : Option String)
    (service : Service) (w : World σ) :
    ∃ trace, (Reaper.deleteBuilds store ns name service w).2.sent = w.sent ++ trace ∧
      Heeds (service w.sent.length).outcome trace
        (Reaper.deleteBuilds store ns name service w).1 := by
  cases h with
  | remote e api =>
    obtain ⟨trace, ht, -⟩ := sends_reaping (.remote e api) ns name service w
    exact ⟨trace, ht, heeds_reap ht⟩
  | silent hlist hdelete =>
    obtain ⟨trace, ht, hp⟩ :=
      BuildStore.silent_reaping_sends (P := fun _ => False) hlist hdelete ns name service w
    refine ⟨trace, ht, ?_⟩
    rw [List.eq_nil_iff_forall_not_mem.2 hp]
    exact .nil

theorem deleteSelf_sent (url : String) (service : Service) (w : World σ) :
    (∃ x, o.deleteSelf url service w = (.error x, w)) ∨
      ∃ s log, Issued o.executor ⟨"DELETE", url, [], [], .none⟩ s ∧ o.deleteSelf url service w =
        (s.found (service w.sent.length).outcome, ⟨w.sent ++ [s], log, w.store⟩) := by
  have hd : (⟨"DELETE", url, [], [], .none⟩ : Draft).Plain := ⟨rfl, rfl, upper_delete⟩
  cases hr : o.executor.prepare ⟨"DELETE", url, [], [], .none⟩ with
  | error x =>
    exact .inl ⟨_, Run.recoverClient_of_foreign (Run.bind_of_error
      (call_of_unprepared hr service w))⟩
  | ok r =>
    exact .inr (found_plain hd hr Log.info .operations "Build config not found"
      [("namespace", Upload.text o.ns), ("build_config", Upload.text o.name)] service w)

/-- Neither deleting the configuration nor listing its builds goes on without an answer. -/
theorem heeds_delete (hb : ∀ store ∈ o.builds, store.Known) (service : Service) (w : World σ) :
    ∃ trace, (o.delete service w).2.sent = w.sent ++ trace ∧
      Heeds (service w.sent.length).outcome trace (o.delete service w).1 ∧
      Heeds (service (w.sent.length + 1)).outcome trace.tail (o.delete service w).1 := by
  rw [delete]
  cases hu : o.resourceUrl with
  | error x =>
    rw [Run.bind_of_error (Run.ofClient_of_error rfl)]
    exact ⟨[], by simp, .nil, .nil⟩
  | ok url =>
    rw [Run.bind_of_ok (Run.ofClient_of_ok rfl)]
    rcases deleteSelf_sent (o := o) url service w with ⟨x, hx⟩ | ⟨s, log, -, hself⟩
    · rw [Run.bind_of_error hx]
      exact ⟨[], by simp, .nil, .nil⟩
    · cases hfound : s.found (service w.sent.length).outcome with
      | error x =>
        rw [hfound] at hself
        rw [Run.bind_of_error hself]
        refine ⟨[s], rfl, ?_, .nil⟩
        rintro s' rest f ⟨⟩ hf
        rw [hf] at hfound
        exact ⟨rfl, hfound.symm⟩
      | ok found =>
        rw [hfound] at hself
        rw [Run.bind_of_ok hself]
        have hfirst : ∀ f, (service w.sent.length).outcome ≠ .fault f := by
          intro f hf
          rw [hf] at hfound
          cases hfound
        cases found with
        | false => exact ⟨[s], rfl, fun _ _ f _ hf => absurd hf (hfirst f), .nil⟩
        | true =>
          obtain ⟨trace, ht, hheeds⟩ := heeds_store (known_store hb) (o.ns.getD "") o.name
            service
            (⟨w.sent ++ [s], log, w.store⟩ : World σ)
          rw [List.length_append, List.length_singleton] at hheeds
          rw [if_pos rfl, Run.bind_pure_apply]
          refine ⟨s :: trace, ?_, fun _ _ f _ hf => absurd hf (hfirst f), ?_⟩
          · rw [ht, List.append_assoc, List.singleton_append]
          · rintro s' rest f hs hf
            obtain ⟨hrest, hresult⟩ := hheeds s' rest f hs hf
            exact ⟨hrest, by rw [hresult]; rfl⟩

theorem ending_of_uploading {source : Source} {length : ℤ} {w : World σ}
    {ended : Except Failure Build × World σ} (h : Uploading o source length service w ended) :
    ended.2.sent = w.sent ∨ ∃ s, ended.2.sent = w.sent ++ [s] ∧
      Upload.Ending source (service w.sent.length) s ended.1 := by
  cases h with
  | unsent x => exact .inl rfl
  | sent log located requested =>
    exact .inr ⟨_, rfl, Upload.ending_verdict (Upload.body_of_request requested) _⟩

/-- What every operation tells of requests without an answer, and uploads of sources that cannot be
read. -/
structure TellsFaults (o : Operations σ) : Prop where
  /-- An upload either sends nothing or one request, whose ending is decided in this order: its
  source, the network, the answer. -/
  fromStream : ∀ source service w, (o.fromStream source service w).2.sent = w.sent ∨
    ∃ s, (o.fromStream source service w).2.sent = w.sent ++ [s] ∧
      Upload.Ending source (service w.sent.length) s (o.fromStream source service w).1
  fromFile : ∀ files path service w, (o.fromFile files path service w).2.sent = w.sent ∨
    ∃ file s, files path = .ok (some file) ∧
      (o.fromFile files path service w).2.sent = w.sent ++ [s] ∧
      Upload.Ending file.source (service w.sent.length) s (o.fromFile files path service w).1
  get : o.get.Asks
  instantiate : ∀ q, (o.instantiate q).Asks
  trigger : ∀ t, (o.trigger t).Asks
  list : ∀ ns labels, ((BuildStore.remote o.executor o.apiUrl : BuildStore σ).list ns labels).Asks
  deleteBuild : ∀ ns name,
    ((BuildStore.remote o.executor o.apiUrl : BuildStore σ).delete ns name).Asks
  /-- The configuration comes first, then the listing of its builds. After that each build is
  deleted as by itself. -/
  delete : ∀ service w, ∃ trace, (o.delete service w).2.sent = w.sent ++ trace ∧
    Heeds (service w.sent.length).outcome trace (o.delete service w).1 ∧
    Heeds (service (w.sent.length + 1)).outcome trace.tail (o.delete service w).1
  /-- A request without an answer is a failure of the transport, and none of an upload … -/
  transport : ∀ method url f,
    (ClientError.undelivered method url f).family.lineage = [.transport, .client]
  /-- … while a broken stream is both. -/
  broken : ∀ cause, (ClientError.brokenStream cause).family.lineage = [.upload, .transport, .client]

/-- Whatever becomes of a request, callers are told by the kind of failure where it broke off. -/
theorem faults_told (o : Operations σ) (hb : ∀ store ∈ o.builds, store.Known) : o.TellsFaults where
  fromStream source service w := ending_of_uploading (fromStream_uploading o source service w)
  fromFile files path service w := by
    rcases fromFile_uploading o files path service w with ⟨x, hx⟩ | ⟨file, hfile, hu⟩
    · exact .inl (by rw [hx])
    · refine (ending_of_uploading hu).imp_right ?_
      rintro ⟨s, hsent, hending⟩
      exact ⟨file, s, hfile, hsent, hending⟩
  get := asks_get o
  instantiate := asks_instantiate
  trigger := asks_trigger
  list := asks_list
  deleteBuild := asks_deleteBuild
  delete := heeds_delete hb
  transport _ _ _ := rfl
  broken _ := rfl

theorem faults_told_vacant :
    (∀ store ∈ vacant.builds, store.Known) ∧ vacant.TellsFaults :=
  ⟨vacant_known, faults_told vacant vacant_known⟩

end Operations

end BuildClient
