import BuildClient.Proofs.Exchange

/-! What is wrong on this side is found before anything is sent, and nothing is sent twice. -/
namespace BuildClient

open Http

variable {σ α : Type} {service : Service} {w : World σ} {e : Executor}

/-- Nothing is sent until all is ready, and then one request, whatever becomes of it. -/
structure Run.Once (m : Run σ α) (before : Except Failure (Executor × Request)) : Prop where
  stopped : ∀ x, before = .error x → ∀ service w, ∃ log,
    m service w = (.error x, { w with log := log })
  sent : ∀ e r, before = .ok (e, r) → ∀ service w,
    (m service w).2.sent = w.sent ++ [e.entry r (service w.sent.length).demand]
  early : ∀ service w x, x.Local → (m service w).1 = .error (.client x) →
    (m service w).2.sent = w.sent

theorem Run.Settles.once {m : Run σ α} {before : Except Failure (Executor × Request)}
    (h : m.Settles before) : m.Once before where
  stopped x hx service w := by
    have hs := h service w
    generalize m service w = ended at hs
    cases hs with
    | stopped log hb =>
      obtain rfl : _ = x := Except.error.inj (hb.symm.trans hx)
      exact ⟨log, rfl⟩
    | sent log hb after =>
      rw [hx] at hb
      cases hb
  sent e r hr service w := by
    have hs := h service w
    generalize m service w = ended at hs
    cases hs with
    | stopped log hb =>
      rw [hr] at hb
      cases hb
    | sent log hb after =>
      rw [hr] at hb
      cases hb
      rfl
  early service w x hlocal hx := by
    have hs := h service w
    generalize m service w = ended at hs hx
    cases hs with
    | stopped log hb => rfl
    | sent log hb after leaks =>
      cases after _ hx with
      | client hfar => exact absurd hlocal hfar

/-- Nothing on this side is wrong. -/
def Failure.Afar (x : Failure) : Prop := ∀ e, x = .client e → ¬ e.Local

theorem Failure.After.afar {outcome : Outcome} {x : Failure} (h : x.After outcome) : x.Afar := by
  rintro e rfl
  cases h with
  | client hfar => exact hfar

/-- A run that nothing but the network can stop. -/
theorem Run.Ends.afar_of_settles {m : Run σ α} {d : Draft} (h : m.Settles (e.ready d)) :
    m.Ends service Failure.Afar := by
  refine .of_settles (fun _ _ hx => hx.afar) h fun x hx => ?_
  obtain ⟨y, -, rfl⟩ := ready_eq_error_iff.1 hx
  rintro e ⟨⟩

namespace Http

/-- Whether a stream can be sent does not hang on what it holds. -/
theorem prepare_stream {method url : String} {params : Dictionary String} {hs : Headers}
    (p q : Payload) :
    e.prepare ⟨method, url, params, hs, .stream q⟩ =
      (e.prepare ⟨method, url, params, hs, .stream p⟩).map fun r =>
        { r with body := .stream q } := by
  unfold Executor.prepare
  dsimp only [Body.settle, frame]
  generalize Text.upper method = method
  cases e.surroundings.credentials (Url.Credentials.location url.toList) with
  | error x => rfl
  | ok listed =>
    cases Url.prepare e.surroundings.names url params with
    | error x => rfl
    | ok sent =>
      generalize Headers.setAll hs e.headers = lines
      cases lines.check with
      | error x => rfl
      | ok _ =>
        change (authorize listed sent _ >>= _) = Except.map _ (authorize listed sent _ >>= _)
        cases authorize listed sent (lines.set "Transfer-Encoding" "chunked") <;> rfl

end Http

theorem Upload.request_error {resource : String} {p : Parameters} {source : Source} {length : ℤ}
    {x : Foreign} (h : request e resource p source length = .error x) (source' : Source)
    (length' : ℤ) : request e resource p source' length' = .error x := by
  refine request_eq_error_iff.2 ((request_eq_error_iff.1 h).imp_right ?_)
  rintro ⟨e', he, hr⟩
  refine ⟨e', he, ?_⟩
  rw [prepare_stream (.ofSource source), hr]
  rfl

/-- An upload that is not sent is the same for any source. -/
theorem Upload.upload_unread {resource : String} {p : Parameters} {source : Source} {length : ℤ}
    (h : (upload e resource p source length service w).2.sent = w.sent) (source' : Source)
    (length' : ℤ) :
    upload e resource p source' length' service w =
      upload e resource p source length service w := by
  cases hr : request e resource p source length with
  | error x =>
    have hr' := request_error hr source' length'
    rw [upload_of_unrequested hr, upload_of_unrequested hr']
  | ok q =>
    obtain ⟨log, hu⟩ := upload_apply hr service w
    rw [hu] at h
    simp at h

theorem Upload.fromFile_unread {resource : String} {p : Parameters} {files files' : Files}
    {path : Path} (hfiles : (files path).map Option.isSome = (files' path).map Option.isSome)
    (h : (fromFile e resource p files path service w).2.sent = w.sent) :
    fromFile e resource p files' path service w = fromFile e resource p files path service w := by
  rw [fromFile] at h
  rw [fromFile, fromFile]
  cases hf : files path with
  | error x =>
    have hf' : files' path = .error x := map_eq_error.1 (hfiles ▸ map_eq_error.2 hf)
    rw [Run.bind_of_error (Run.ofForeign_of_error hf'),
      Run.bind_of_error (Run.ofForeign_of_error rfl)]
  | ok found =>
    obtain ⟨found', hf', hsome⟩ := map_eq_ok.1 (hfiles ▸ map_eq_ok.2 ⟨found, hf, rfl⟩)
    rw [Run.bind_of_ok (Run.ofForeign_of_ok hf)] at h
    rw [Run.bind_of_ok (Run.ofForeign_of_ok hf'), Run.bind_of_ok (Run.ofForeign_of_ok rfl)]
    cases found with
    | none =>
      obtain rfl : found' = none := Option.isNone_iff_eq_none.1 (by simpa using hsome)
      rfl
    | some file =>
      obtain ⟨file', rfl⟩ := Option.isSome_iff_exists.1 hsome
      exact upload_unread h _ _

namespace Operations

variable {o : Operations σ}

/-- Deleting finds nothing wrong on this side once the configuration is located. -/
theorem delete_early (hb : o.builds = none) {x : ClientError} (hlocal : x.Local)
    (hx : (o.delete service w).1 = .error (.client x)) : (o.delete service w).2.sent = w.sent := by
  rw [delete] at hx ⊢
  cases hu : o.resourceUrl with
  | error y => rw [Run.bind_of_error (Run.ofClient_of_error rfl)]
  | ok url =>
    rw [hu, Run.bind_of_ok (Run.ofClient_of_ok rfl)] at hx
    have hreap : (Reaper.deleteBuilds o.store (o.ns.getD "") o.name).Ends service
        Failure.Afar := by
      rw [store, hb]
      refine Reaper.ends_deleteBuilds (fun _ => ?_) (fun _ _ => ?_) (fun _ _ => ?_) _ _
      · rintro y ⟨⟩ ⟨⟩
      · exact .afar_of_settles (BuildStore.remote_list_settles _ _)
      · exact .afar_of_settles (BuildStore.remote_delete_settles _ _)
    have hrest : ∀ deleted : Bool, (if deleted then do
          let _ ← Reaper.deleteBuilds o.store (o.ns.getD "") o.name
          pure true
        else pure false : Run σ Bool).Ends service Failure.Afar := by
      intro deleted
      split
      · exact .bind hreap fun _ => .pure _
      · exact .pure _
    have hends := Run.Ends.bind (.afar_of_settles (o.deleteSelf_settles url)) hrest
    exact absurd hlocal (hends w _ hx x rfl)

/-- What is not sent is not read: another source would have made no difference. -/
theorem fromStream_unread {source : Source} (h : (o.fromStream source service w).2.sent = w.sent)
    (source' : Source) : o.fromStream source' service w = o.fromStream source service w := by
  cases hu : o.resourceUrl with
  | error x =>
    have hstop : ∀ s, o.fromStream s service w = (.error (.client x), w) :=
      fun s => Run.bind_of_error (Run.ofClient_of_error hu)
    rw [hstop, hstop]
  | ok resource =>
    have hrun : ∀ s, o.fromStream s service w =
        Upload.upload o.executor resource o.parameters s Upload.unknownLength service w :=
      fun s => Run.bind_of_ok (Run.ofClient_of_ok hu)
    rw [hrun] at h
    rw [hrun, hrun]
    exact Upload.upload_unread h _ _

/-- And so it is with a file, as long as there is one or there is none. -/
theorem fromFile_unread {files files' : Files} {path : Path}
    (hfiles : (files path).map Option.isSome = (files' path).map Option.isSome)
    (h : (o.fromFile files path service w).2.sent = w.sent) :
    o.fromFile files' path service w = o.fromFile files path service w := by
  cases hu : o.resourceUrl with
  | error x =>
    have hstop : ∀ fs, o.fromFile fs path service w = (.error (.client x), w) :=
      fun fs => Run.bind_of_error (Run.ofClient_of_error hu)
    rw [hstop, hstop]
  | ok resource =>
    have hrun : ∀ fs, o.fromFile fs path service w =
        Upload.fromFile o.executor resource o.parameters fs path service w :=
      fun fs => Run.bind_of_ok (Run.ofClient_of_ok hu)
    rw [hrun] at h
    rw [hrun, hrun]
    exact Upload.fromFile_unread hfiles h

/-- What the operations do at most once, and what they leave alone before that. -/
structure ActsOnce (o : Operations σ) : Prop where
  get : o.get.Once o.readyToGet
  instantiate : ∀ q, (o.instantiate q).Once (o.readyToInstantiate q)
  trigger : ∀ t, (o.trigger t).Once (o.readyToTrigger t)
  fromStream : ∀ source, (o.fromStream source).Once (o.readyToStream source)
  fromFile : ∀ files path, (o.fromFile files path).Once (o.readyToSendFile files path)
  delete : ∀ service w x, x.Local → (o.delete service w).1 = .error (.client x) →
    (o.delete service w).2.sent = w.sent
  streamUnread : ∀ source source' service w, (o.fromStream source service w).2.sent = w.sent →
    o.fromStream source' service w = o.fromStream source service w
  fileUnread : ∀ (files files' : Files) path service w,
    (files path).map Option.isSome = (files' path).map Option.isSome →
      (o.fromFile files path service w).2.sent = w.sent →
        o.fromFile files' path service w = o.fromFile files path service w

/-- An operation whose own failure is on this side has sent nothing and read nothing of what it was
to send. Once an operation is ready it sends one request, and no other whatever the service does. -/
theorem acts_once (hb : o.builds = none) : o.ActsOnce where
  get := o.get_settles.once
  instantiate q := (o.instantiate_settles q).once
  trigger t := (o.trigger_settles t).once
  fromStream source := (o.fromStream_settles source).once
  fromFile files path := (o.fromFile_settles files path).once
  delete _ _ _ hlocal hx := delete_early hb hlocal hx
  streamUnread _ source' _ _ h := fromStream_unread h source'
  fileUnread _ _ _ _ _ hfiles h := fromFile_unread hfiles h

/-- Operations on a configuration whose webhook has no secret. -/
def unhooked : Operations Unit :=
  ⟨⟨none, true, none, none, .bare⟩, "http://h", some "ns", some "app", .empty, none⟩

theorem acts_once_unhooked :
    unhooked.builds = none ∧ unhooked.readyToGet.isOk = true ∧
      ∀ (t : WebHookTrigger) (service : Service) (w : World Unit),
        (∃ s, (unhooked.get service w).2.sent = w.sent ++ [s]) ∧
          (unhooked.trigger t service w).2.sent = w.sent := by
  have honce : unhooked.ActsOnce := acts_once rfl
  have hok : unhooked.readyToGet.isOk = true := by decide +kernel
  refine ⟨rfl, hok, fun t service w => ⟨?_, ?_⟩⟩
  · cases hready : unhooked.readyToGet with
    | error x =>
      rw [hready] at hok
      cases hok
    | ok ready => exact ⟨_, honce.get.sent ready.1 ready.2 hready service w⟩
  · obtain ⟨log, h⟩ := (honce.trigger t).stopped _ rfl service w
    rw [h]

end Operations

end BuildClient
