import BuildClient.Proofs.Exchange
import BuildClient.Proofs.Reaper

/-!
Failures that are none of the client's own. Where the service reports none, these are what an
operation may still end with: before each request goes out, its preparation can be refused, and
behind it the answer may be nested too deeply to be read.
-/
namespace BuildClient

open Http

variable {σ α β : Type} {service : Service} {w : World σ} {e : Executor} {x : Foreign}

/-- Nothing comes from the service but answers and the faults of the network. -/
def Http.Service.Tame (service : Service) : Prop := ∀ n x, (service n).outcome ≠ .foreign x

namespace Run

theorem bind_pure_eq_error_iff {m : Run σ α} {b : β} {x : Failure} :
    ((m >>= fun _ => pure b) service w).1 = .error x ↔ (m service w).1 = .error x := by
  rw [bind_eq_error_iff]
  refine or_iff_left ?_
  rintro ⟨a, w', -, h⟩
  cases h

/-- What is no failure of the client stops a run before it sends its request, or comes of that. -/
def Leaking (before : Except Failure (Executor × Request)) (reply : Reply) (x : Foreign) : Prop :=
  before = .error (.foreign x) ∨ ∃ e r, before = .ok (e, r) ∧ r.verdict reply = .error (.foreign x)

theorem Settles.leaks_iff {m : Run σ α} {before : Except Failure (Executor × Request)}
    (h : m.Settles before) (service : Service) (w : World σ) :
    (m service w).1 = .error (.foreign x) ↔ Leaking before (service w.sent.length) x := by
  have hrun := h service w
  generalize m service w = ended at hrun
  cases hrun with
  | stopped log hb => simp [Leaking, hb]
  | @sent e r result log hb after leaks =>
    rw [leaks x, Leaking, hb]
    constructor
    · exact fun hx => .inr ⟨e, r, rfl, hx⟩
    · rintro (⟨⟨⟩⟩ | ⟨_, _, ⟨⟩, hx⟩)
      exact hx

end Run

namespace Http

/-- Why an exchange comes to no end of the client's own: its request cannot be prepared, or it is
taken whole and answered in a way that cannot be read. -/
inductive Executor.Balks (e : Executor) (d : Draft) (reply : Reply) : Foreign → Prop
  | unprepared {x : Foreign} (h : e.prepare d = .error x) : Balks e d reply x
  | overwhelmed {r : Request} {during : Json.Activity} (prepared : e.prepare d = .ok r)
      (taken : (r.body.deliver reply.demand).2 = false) (deep : Overwhelms reply.outcome during) :
      Balks e d reply (.stackExhausted during)

theorem balks_iff {d : Draft} {reply : Reply} (h : ∀ x, reply.outcome ≠ .foreign x) :
    e.Balks d reply x ↔ e.prepare d = .error x ∨
      ∃ r, e.prepare d = .ok r ∧ r.verdict reply = .error (.foreign x) := by
  constructor
  · intro hb
    cases hb with
    | unprepared hp => exact .inl hp
    | overwhelmed hp ht hd => exact .inr ⟨_, hp, verdict_eq_foreign_iff.2 ⟨ht, .inr ⟨_, hd, rfl⟩⟩⟩
  · rintro (hp | ⟨r, hp, hv⟩)
    · exact .unprepared hp
    · obtain ⟨ht, ho | ⟨during, hd, rfl⟩⟩ := verdict_eq_foreign_iff.1 hv
      · exact absurd ho (h x)
      · exact .overwhelmed hp ht hd

theorem Executor.Balks.unique {d : Draft} {reply : Reply} {y : Foreign}
    (h : ∀ x, reply.outcome ≠ .foreign x) (hx : e.Balks d reply x) (hy : e.Balks d reply y) :
    x = y := by
  rcases (balks_iff h).1 hx with hx | ⟨r, hr, hx⟩ <;>
    rcases (balks_iff h).1 hy with hy | ⟨r', hr', hy⟩ <;> simp_all

end Http

namespace Run

variable {reply : Reply}

theorem leaking_ready {d : Draft} (h : ∀ x, reply.outcome ≠ .foreign x) :
    Leaking (e.ready d) reply x ↔ e.Balks d reply x := by
  rw [balks_iff h, Leaking, ready_eq_error_iff]
  refine or_congr (by simp) ⟨?_, ?_⟩
  · rintro ⟨e', r, hr, hv⟩
    obtain ⟨r', hr', he⟩ := map_eq_ok.1 hr
    cases he
    exact ⟨r, mapError_eq_ok.1 hr', hv⟩
  · rintro ⟨r, hr, hv⟩
    exact ⟨e, r, by rw [Executor.ready, hr]; rfl, hv⟩

/-- A failure of the client's own before the request is no leak. -/
theorem leaking_client_bind {y : Except ClientError β}
    {g : β → Except Failure (Executor × Request)} :
    Leaking (y.mapError .client >>= g) reply x ↔ ∃ b, y = .ok b ∧ Leaking (g b) reply x := by
  cases y with
  | error z => simp [Leaking, bind, Except.bind, Except.mapError]
  | ok b => simp [bind, Except.bind, Except.mapError]

theorem leaking_foreign_bind {y : Except Foreign β} {g : β → Except Failure (Executor × Request)} :
    Leaking (y.mapError .foreign >>= g) reply x ↔
      y = .error x ∨ ∃ b, y = .ok b ∧ Leaking (g b) reply x := by
  cases y with
  | error z => simp [Leaking, bind, Except.bind, Except.mapError]
  | ok b => simp [bind, Except.bind, Except.mapError]

theorem Settles.leaks_iff_balks {m : Run σ α} {d : Draft} (hs : service.Tame)
    (h : m.Settles (e.ready d)) (w : World σ) :
    (m service w).1 = .error (.foreign x) ↔ e.Balks d (service w.sent.length) x := by
  rw [h.leaks_iff, leaking_ready (hs _)]

/-- An exchange that comes to an end of the client's own has sent its request. -/
theorem Settles.length_of_own {m : Run σ α} {d : Draft} (h : m.Settles (e.ready d))
    (hown : ∀ x, (m service w).1 ≠ .error (.foreign x)) :
    (m service w).2.sent.length = w.sent.length + 1 := by
  have hrun := h service w
  generalize m service w = ended at hrun hown
  cases hrun with
  | stopped log hb =>
    obtain ⟨y, -, rfl⟩ := ready_eq_error_iff.1 hb
    exact absurd rfl (hown y)
  | sent log hb after leaks => simp

end Run

/-- One of the client's own failures. -/
def Failure.Own (x : Failure) : Prop := ∀ y, x ≠ .foreign y

theorem Failure.own_client (e : ClientError) : Own (.client e) := by
  rintro y ⟨⟩

namespace Upload

/-- Why an upload comes to no end of the client's own: its timeout is too large, or its exchange
comes to none. -/
inductive Blocked (e : Executor) (resource : String) (p : Parameters) (source : Source)
    (reply : Reply) : Foreign → Prop
  | timeout {value : Number} (set : p.timeout = some value)
      (large : Parameters.seconds? value p.timeoutUnit = none) :
      Blocked e resource p source reply .durationTooLarge
  | request {e' : Executor} {x : Foreign} (timed : executorFor e p = .ok e')
      (balks : e'.Balks ⟨"POST", Query.instantiateUrl resource p, [], headers,
        .stream (.ofSource source)⟩ reply x) :
      Blocked e resource p source reply x

variable {resource : String} {p : Parameters} {source : Source} {length : ℤ}

theorem executorFor_eq_error_iff : executorFor e p = .error x ↔ ∃ value, p.timeout = some value ∧
    Parameters.seconds? value p.timeoutUnit = none ∧ .durationTooLarge = x := by
  rw [executorFor]
  cases p.timeout with
  | none => simp
  | some value =>
    cases h : Parameters.seconds? value p.timeoutUnit with
    | none => simp [h]
    | some seconds => simp [h]

/-- Declaring a length changes neither the body nor what comes of it. -/
theorem leaking_request_iff {reply : Reply} (h : ∀ x, reply.outcome ≠ .foreign x) :
    Run.Leaking ((request e resource p source length).mapError .foreign) reply x ↔
      Blocked e resource p source reply x := by
  have hbody : ∀ r : Request, (if length = unknownLength then r else r.declareLength length).body =
      r.body := by
    intro r
    split <;> rfl
  rw [Run.Leaking, mapError_eq_error]
  simp only [mapError_eq_ok, Failure.foreign.injEq, exists_eq_right, request_eq_error_iff,
    request_eq_ok_iff, executorFor_eq_error_iff]
  constructor
  · rintro ((⟨value, hset, hlarge, rfl⟩ | ⟨e', he, hr⟩) | ⟨e', r, ⟨he, hr⟩, hv⟩)
    · exact .timeout hset hlarge
    · exact .request he (.unprepared hr)
    · obtain ⟨r₀, hr₀, rfl⟩ := prepare_eq_ok hr
      rw [verdict_eq_foreign_iff, hbody, ← verdict_eq_foreign_iff] at hv
      exact .request he ((balks_iff h).2 (.inr ⟨r₀, hr₀, hv⟩))
  · intro hb
    cases hb with
    | timeout hset hlarge => exact .inl (.inl ⟨_, hset, hlarge, rfl⟩)
    | @request e' _ he hb =>
      rcases (balks_iff h).1 hb with hr | ⟨r, hr, hv⟩
      · exact .inl (.inr ⟨e', he, hr⟩)
      · refine .inr ⟨e', _, ⟨he, by rw [prepare, hr]; rfl⟩, ?_⟩
        rw [verdict_eq_foreign_iff, hbody, ← verdict_eq_foreign_iff]
        exact hv

end Upload

namespace Reaper

variable {store : BuildStore σ} {api : String}

/-- Builds are deleted in turn, each by the next request, until the exchange for one of them comes
to no end of the client's own. -/
inductive Halts (e : Executor) (api : String) (service : Service) (x : Foreign) :
    ℕ → List (String × String) → Prop
  | here {n : ℕ} {target : String × String} {rest : List (String × String)}
      (h : e.Balks (deletion api target.1 "builds" target.2) (service n) x) :
      Halts e api service x n (target :: rest)
  | later {n : ℕ} {target : String × String} {rest : List (String × String)}
      (h : ∀ y, ¬ e.Balks (deletion api target.1 "builds" target.2) (service n) y)
      (others : Halts e api service x (n + 1) rest) : Halts e api service x n (target :: rest)

theorem halts_cons_iff {target : String × String} {rest : List (String × String)} {n : ℕ} :
    Halts e api service x n (target :: rest) ↔
      e.Balks (deletion api target.1 "builds" target.2) (service n) x ∨
        (∀ y, ¬ e.Balks (deletion api target.1 "builds" target.2) (service n) y) ∧
          Halts e api service x (n + 1) rest := by
  constructor
  · intro h
    cases h with
    | here h => exact .inl h
    | later h others => exact .inr ⟨h, others⟩
  · rintro (h | ⟨h, others⟩)
    · exact .here h
    · exact .later h others

theorem attemptAll_leaks_iff (hs : service.Tame) (targets : List (String × String)) (t : Tally)
    (w : World σ) :
    (attemptAll (BuildStore.remote e api) targets t service w).1 = .error (.foreign x) ↔
      Halts e api service x w.sent.length targets := by
  induction targets generalizing t w with
  | nil => exact iff_of_false nofun nofun
  | cons target rest ih =>
    obtain ⟨ns, name⟩ := target
    have hsettles : ((BuildStore.remote e api : BuildStore σ).delete ns name).Settles
        (e.ready (deletion api ns "builds" name)) := BuildStore.remote_delete_settles ns name
    have hleaks := fun y => hsettles.leaks_iff_balks (x := y) hs w
    rw [halts_cons_iff]
    cases h : (BuildStore.remote e api).delete ns name service w with | mk answer w₁ =>
    by_cases hf : Attempt.Fatal ⟨ns, name, answer⟩
    · obtain ⟨y, rfl⟩ := hf
      have hy : e.Balks (deletion api ns "builds" name) (service w.sent.length) y :=
        (hleaks y).1 (by rw [h])
      rw [attemptAll, Run.bind_of_error (attempt_of_fatal t h)]
      constructor
      · rintro ⟨⟩
        exact .inl hy
      · rintro (hx | ⟨hnone, -⟩)
        · rw [hx.unique (hs _) hy]
        · exact absurd hy (hnone y)
    · have hnone : ∀ y, ¬ e.Balks (deletion api ns "builds" name) (service w.sent.length) y := by
        intro y hy
        have hanswer := (hleaks y).2 hy
        rw [h] at hanswer
        exact hf ⟨y, hanswer⟩
      have hlength : ((BuildStore.remote e api).delete ns name service w).2.sent.length =
          w.sent.length + 1 := hsettles.length_of_own fun y hy => hnone y ((hleaks y).1 hy)
      rw [h] at hlength
      obtain ⟨log, ha⟩ := attempt_of_not_fatal t h hf
      rw [attemptAll, Run.bind_of_ok ha, ih, hlength]
      exact ⟨fun hrest => .inr ⟨hnone, hrest⟩, fun hx => (hx.resolve_left (hnone x)).2⟩

theorem conclude_own (t : Tally) :
    (conclude t : Run σ (List String)).Ends service Failure.Own := by
  rw [conclude]
  split
  · exact .pure _
  · exact .throw (Failure.own_client _)

/-- Why reaping at the service comes to no end of the client's own: the exchange for the list does
not, or the one for a build that is listed. -/
inductive Blocked (e : Executor) (api ns name : String) (service : Service) (w : World σ)
    (x : Foreign) : Prop
  | listing (h : e.Balks (listing api ns name) (service w.sent.length) x)
  | build {builds : List Build} {w' : World σ}
      (listed : (BuildStore.remote e api).list ns [(ownerKey, Labels.value name)] service w =
        (.ok builds, w'))
      (h : Halts e api service x w'.sent.length (builds.filterMap (target? ns name)))

theorem reap_leaks_iff (hs : service.Tame) (ns name : String) (w : World σ) :
    (reap (BuildStore.remote e api) ns name service w).1 = .error (.foreign x) ↔
      Blocked e api ns name service w x := by
  have hlist : ((BuildStore.remote e api : BuildStore σ).list ns [(ownerKey, Labels.value name)]
      service w).1 = .error (.foreign x) ↔
        e.Balks (listing api ns name) (service w.sent.length) x := by
    rw [← listDraft_owner]
    exact (BuildStore.remote_list_settles ns _).leaks_iff_balks hs w
  cases hl : (BuildStore.remote e api).list ns [(ownerKey, Labels.value name)] service w with
  | mk answer w₁ =>
  rw [hl] at hlist
  cases answer with
  | error y =>
    rw [reap_of_unlisted hl]
    constructor
    · exact fun h => .listing (hlist.1 (congrArg _ (Except.error.inj h)))
    · intro h
      cases h with
      | listing h => exact congrArg _ (Except.error.inj (hlist.2 h))
      | build listed _ =>
        rw [hl] at listed
        cases listed
  | ok builds =>
    have hm : matching (BuildStore.remote e api) ns name service w =
        (.ok (builds.filter (ownedBy name)), w₁) := Run.bind_of_ok hl
    rw [reap, Run.bind_of_ok hm, Run.bind_eq_error_iff, attemptAll_leaks_iff hs, targets_eq]
    constructor
    · rintro (h | ⟨t, w', -, h⟩)
      · exact .build hl h
      · exact absurd rfl (Run.Ends.note_bind (conclude_own t) w' _ h x)
    · intro h
      cases h with
      | listing h =>
        have hbad := hlist.2 h
        cases hbad
      | build listed h =>
        rw [hl] at listed
        cases listed
        exact .inl h

end Reaper

namespace Operations

variable {o : Operations σ} {ns name : String}

/-- Why a deletion comes to no end of the client's own: its exchange does not, or, when the
configuration is deleted, one for its builds. -/
inductive DeletionBlocked (o : Operations σ) (ns name : String) (service : Service) (w : World σ)
    (x : Foreign) : Prop
  | itself (h : o.executor.Balks (deletion o.apiUrl ns "buildconfigs" name)
      (service w.sent.length) x)
  | builds {w' : World σ}
      (deleted : o.deleteSelf (Url.namespaced o.apiUrl ns "buildconfigs" name) service w =
        (.ok true, w'))
      (h : Reaper.Blocked o.executor o.apiUrl ns name service w' x)

theorem delete_leaks_iff (hs : service.Tame) (w : World σ) (x : Foreign) :
    (o.delete service w).1 = .error (.foreign x) ↔ ∃ ns name, o.address = .ok (ns, name) ∧
      (o.executor.Balks (deletion o.apiUrl ns "buildconfigs" name) (service w.sent.length) x ∨
        ∃ w', o.deleteSelf (Url.namespaced o.apiUrl ns "buildconfigs" name) service w =
            (.ok true, w') ∧
          (Reaper.deleteBuilds o.store ns (some name) service w').1 = .error (.foreign x)) := by
  rcases o.address_cases with ⟨reason, ha⟩ | ⟨ns, name, ⟨hns, -⟩, ⟨hname, -⟩, ha⟩
  · rw [delete, Run.bind_of_error (Run.ofClient_of_error (resourceUrl_of_error ha)), ha]
    simp
  · have hself := (o.deleteSelf_settles
      (Url.namespaced o.apiUrl ns "buildconfigs" name)).leaks_iff_balks (x := x) hs w
    rw [delete, Run.bind_of_ok (Run.ofClient_of_ok (resourceUrl_of_ok ha)),
      Run.bind_eq_error_iff, hself, hns, hname, ha]
    constructor
    · rintro (h | ⟨deleted, w', hdel, h⟩)
      · exact ⟨ns, name, rfl, .inl h⟩
      · cases deleted with
        | false => cases h
        | true => exact ⟨ns, name, rfl, .inr ⟨w', hdel, Run.bind_pure_eq_error_iff.1 h⟩⟩
    · rintro ⟨ns, name, ⟨⟩, h | ⟨w', hdel, h⟩⟩
      · exact .inl h
      · exact .inr ⟨true, w', hdel, Run.bind_pure_eq_error_iff.2 h⟩

theorem name_ne_of_address (h : o.address = .ok (ns, name)) : name ≠ "" := by
  rcases o.address_cases with ⟨reason, ha⟩ | ⟨ns', name', -, ⟨-, hname⟩, ha⟩
  · rw [h] at ha
    cases ha
  · rw [h] at ha
    cases ha
    exact hname

theorem delete_blocked_iff (hs : service.Tame) (hb : o.builds = none) (w : World σ) (x : Foreign) :
    (o.delete service w).1 = .error (.foreign x) ↔
      ∃ ns name, o.address = .ok (ns, name) ∧ o.DeletionBlocked ns name service w x := by
  rw [delete_leaks_iff hs]
  refine exists_congr fun ns => exists_congr fun name => and_congr_right fun ha => ?_
  rw [store, hb, Option.getD_none, Reaper.deleteBuilds_of_ne (name_ne_of_address ha)]
  constructor
  · rintro (h | ⟨w', hdel, h⟩)
    · exact .itself h
    · exact .builds hdel ((Reaper.reap_leaks_iff hs ns name w').1 h)
  · intro h
    cases h with
    | itself h => exact .inl h
    | builds deleted h => exact .inr ⟨_, deleted, (Reaper.reap_leaks_iff hs ns name _).2 h⟩

/-- A store that fails in the client's own ways leaves only the first request. -/
theorem delete_elsewhere_iff {store : BuildStore σ} (hs : service.Tame) (hb : o.builds = some store)
    (hlist : ∀ ns labels, (store.list ns labels).Ends service Failure.Own)
    (hdelete : ∀ ns name, (store.delete ns name).Ends service Failure.Own) (w : World σ)
    (x : Foreign) :
    (o.delete service w).1 = .error (.foreign x) ↔ ∃ ns name, o.address = .ok (ns, name) ∧
      o.executor.Balks (deletion o.apiUrl ns "buildconfigs" name) (service w.sent.length) x := by
  have hreap : ∀ ns name, (Reaper.deleteBuilds o.store ns name).Ends service Failure.Own := by
    rw [Operations.store, hb]
    exact Reaper.ends_deleteBuilds (fun _ => Failure.own_client _) hlist hdelete
  rw [delete_leaks_iff hs]
  refine exists_congr fun ns => exists_congr fun name => and_congr_right fun _ => or_iff_left ?_
  rintro ⟨w', -, h⟩
  exact hreap ns (some name) w' _ h x rfl

theorem get_leaks_iff (hs : service.Tame) (w : World σ) (x : Foreign) :
    (o.get service w).1 = .error (.foreign x) ↔ ∃ url, o.resourceUrl = .ok url ∧
      o.executor.Balks ⟨"GET", url, [], [], .none⟩ (service w.sent.length) x := by
  rw [o.get_settles.leaks_iff, readyToGet, Run.leaking_client_bind]
  simp only [Run.leaking_ready (hs _)]

theorem instantiate_leaks_iff (hs : service.Tame) (q : BuildRequest) (w : World σ) (x : Foreign) :
    (o.instantiate q service w).1 = .error (.foreign x) ↔ ∃ resource, o.resourceUrl = .ok resource ∧
      ∃ body, Model.buildRequest.encode q.withApiVersion = .ok body ∧
        o.executor.Balks ⟨"POST", Url.join resource ["instantiate"], [],
          [("Content-Type", "application/json")], .text body⟩ (service w.sent.length) x := by
  rw [(o.instantiate_settles q).leaks_iff, readyToInstantiate]
  simp only [Run.leaking_client_bind, Run.leaking_ready (hs _), mapError_eq_ok]

theorem trigger_leaks_iff (hs : service.Tame) (t : WebHookTrigger) (w : World σ) (x : Foreign) :
    (o.trigger t service w).1 = .error (.foreign x) ↔ ∃ resource, o.resourceUrl = .ok resource ∧
      ∃ url, Trigger.url resource o.parameters = .ok url ∧
        ∃ body, Model.webHookTrigger.encode t = .ok body ∧
          o.executor.Balks ⟨"POST", url, [], Trigger.headers, .text body⟩
            (service w.sent.length) x := by
  rw [(o.trigger_settles t).leaks_iff, readyToTrigger]
  simp only [Run.leaking_client_bind, Run.leaking_ready (hs _), mapError_eq_ok]

theorem fromStream_leaks_iff (hs : service.Tame) (source : Source) (w : World σ) (x : Foreign) :
    (o.fromStream source service w).1 = .error (.foreign x) ↔
      ∃ resource, o.resourceUrl = .ok resource ∧
        Upload.Blocked o.executor resource o.parameters source (service w.sent.length) x := by
  rw [(o.fromStream_settles source).leaks_iff, readyToStream, Run.leaking_client_bind]
  simp only [Upload.leaking_request_iff (hs _)]

theorem fromFile_leaks_iff (hs : service.Tame) (files : Files) (path : Path) (w : World σ)
    (x : Foreign) :
    (o.fromFile files path service w).1 = .error (.foreign x) ↔
      ∃ resource, o.resourceUrl = .ok resource ∧ (files path = .error x ∨
        ∃ file, files path = .ok (some file) ∧
          Upload.Blocked o.executor resource o.parameters file.source
            (service w.sent.length) x) := by
  have hmissing : ∀ y, ¬ Run.Leaking (.error (.client y)) (service w.sent.length) x := by
    rintro y (⟨⟨⟩⟩ | ⟨_, _, ⟨⟩, _⟩)
  rw [(o.fromFile_settles files path).leaks_iff, readyToSendFile]
  simp only [Run.leaking_client_bind, Run.leaking_foreign_bind, Option.exists, hmissing, and_false,
    false_or, Upload.leaking_request_iff (hs _)]

/-- Just when an operation ends with a failure that is none of the client's own. -/
structure Leaks (o : Operations σ) (service : Service) (w : World σ) : Prop where
  get : ∀ x, (o.get service w).1 = .error (.foreign x) ↔ ∃ url, o.resourceUrl = .ok url ∧
    o.executor.Balks ⟨"GET", url, [], [], .none⟩ (service w.sent.length) x
  instantiate : ∀ q x, (o.instantiate q service w).1 = .error (.foreign x) ↔
    ∃ resource, o.resourceUrl = .ok resource ∧
      ∃ body, Model.buildRequest.encode q.withApiVersion = .ok body ∧
        o.executor.Balks ⟨"POST", Url.join resource ["instantiate"], [],
          [("Content-Type", "application/json")], .text body⟩ (service w.sent.length) x
  trigger : ∀ t x, (o.trigger t service w).1 = .error (.foreign x) ↔
    ∃ resource, o.resourceUrl = .ok resource ∧
      ∃ url, Trigger.url resource o.parameters = .ok url ∧
        ∃ body, Model.webHookTrigger.encode t = .ok body ∧
          o.executor.Balks ⟨"POST", url, [], Trigger.headers, .text body⟩ (service w.sent.length) x
  fromStream : ∀ source x, (o.fromStream source service w).1 = .error (.foreign x) ↔
    ∃ resource, o.resourceUrl = .ok resource ∧
      Upload.Blocked o.executor resource o.parameters source (service w.sent.length) x
  fromFile : ∀ files path x, (o.fromFile files path service w).1 = .error (.foreign x) ↔
    ∃ resource, o.resourceUrl = .ok resource ∧ (files path = .error x ∨
      ∃ file, files path = .ok (some file) ∧
        Upload.Blocked o.executor resource o.parameters file.source (service w.sent.length) x)
  delete : o.builds = none → ∀ x, (o.delete service w).1 = .error (.foreign x) ↔
    ∃ ns name, o.address = .ok (ns, name) ∧ o.DeletionBlocked ns name service w x
  deleteElsewhere : ∀ store, o.builds = some store →
    (∀ ns labels, (store.list ns labels).Ends service Failure.Own) →
    (∀ ns name, (store.delete ns name).Ends service Failure.Own) →
    ∀ x, (o.delete service w).1 = .error (.foreign x) ↔ ∃ ns name, o.address = .ok (ns, name) ∧
      o.executor.Balks (deletion o.apiUrl ns "buildconfigs" name) (service w.sent.length) x

/-- The service gives nothing but answers and faults of the network; all the same an operation may
end with a failure that is none of the client's own. It does just when a request of it cannot be
prepared or is answered in a way that cannot be read, a timeout is too large or a file cannot be
looked up. -/
theorem failures_leak (hs : service.Tame) (w : World σ) : o.Leaks service w where
  get := get_leaks_iff hs w
  instantiate q := instantiate_leaks_iff hs q w
  trigger t := trigger_leaks_iff hs t w
  fromStream source := fromStream_leaks_iff hs source w
  fromFile files path := fromFile_leaks_iff hs files path w
  delete hb := delete_blocked_iff hs hb w
  deleteElsewhere _ hb hlist hdelete := delete_elsewhere_iff hs hb hlist hdelete w

/-- Operations at a service whose address has no scheme. -/
def schemeless : Operations Unit :=
  ⟨⟨none, true, none, none, .bare⟩, "host", some "ns", some "app", .empty, none⟩

/-- A service that cannot be reached. -/
def unreachable : Service := fun _ => ⟨.all, .fault ⟨.connection, "refused"⟩⟩

theorem unreachable_tame : unreachable.Tame := fun _ _ => nofun

theorem failures_leak_schemeless : unreachable.Tame ∧ schemeless.Leaks unreachable (.start ()) :=
  ⟨unreachable_tame, failures_leak unreachable_tame (.start ())⟩

theorem schemeless_get_leaks :
    unreachable.Tame ∧ (schemeless.get unreachable (.start ())).1 = .error (.foreign
      (.missingScheme "host/apis/build.openshift.io/v1/namespaces/ns/buildconfigs/app")) :=
  ⟨unreachable_tame,
    (get_leaks_iff unreachable_tame _ _).2 ⟨_, rfl, .unprepared (by decide +kernel)⟩⟩

end Operations

end BuildClient
