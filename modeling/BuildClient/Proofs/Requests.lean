import BuildClient.Proofs.Reaper
import BuildClient.Proofs.Remote
import BuildClient.Proofs.Upload

/-! What each operation sends, by the requests that it drafts. -/
namespace BuildClient

open Http

variable {σ α β : Type} {P Q : Sent → Prop} {e : Executor} {d : Draft} {api ns name : String}

/-- Whatever is sent for the draft has the property. -/
def Http.Executor.Enters (e : Executor) (P : Sent → Prop) (d : Draft) : Prop :=
  ∀ r demand, e.prepare d = .ok r → P (e.entry r demand)

namespace Run.Sends

theorem mono (hm : ∀ s, P s → Q s) {m : Run σ α} (h : Sends P m) : Sends Q m := by
  intro service w
  obtain ⟨trace, ht, hp⟩ := h service w
  exact ⟨trace, ht, fun s hs => hm s (hp s hs)⟩

/-- What follows a check is known to have passed it. -/
theorem ofClient_bind {x : Except ClientError α} {f : α → Run σ β}
    (h : ∀ a, x = .ok a → Sends P (f a)) : Sends P (Run.ofClient x >>= f) := by
  cases x with
  | error y =>
    refine of_silent fun service w => ?_
    rw [Run.bind_of_error (Run.ofClient_of_error rfl)]
  | ok a =>
    intro service w
    rw [Run.bind_of_ok (Run.ofClient_of_ok rfl)]
    exact h a rfl service w

end Run.Sends

namespace Reaper

theorem sends_attemptAll {store : BuildStore σ} {addresses : List (String × String)}
    (h : ∀ a ∈ addresses, Run.Sends P (store.delete a.1 a.2)) (t : Tally) :
    Run.Sends P (attemptAll store addresses t) := by
  induction addresses generalizing t with
  | nil => exact .of_silent fun _ _ => rfl
  | cons a rest ih =>
    refine .bind (.recoverClient (.bind (h a List.mem_cons_self) fun _ => ?_) fun _ => ?_) ?_
    · exact .of_silent fun _ _ => rfl
    · exact .of_silent fun _ _ => rfl
    · exact ih fun b hb => h b (List.mem_cons_of_mem a hb)

/-- Builds are deleted under names that are not empty, and in namespaces that are not if the given
one is not. -/
theorem sends_deleteBuilds {store : BuildStore σ}
    (hlist : ∀ labels, Run.Sends P (store.list ns labels))
    (hdelete : ∀ ns' name, (ns ≠ "" → ns' ≠ "") → name ≠ "" → Run.Sends P (store.delete ns' name))
    (name : Option String) : Run.Sends P (deleteBuilds store ns name) := by
  rw [deleteBuilds]
  split
  · exact .of_silent fun _ _ => rfl
  · refine .bind (.bind (hlist _) fun _ => .of_silent fun _ _ => rfl) fun builds => ?_
    refine .bind (sends_attemptAll ?_ _) fun t =>
      .bind (.of_silent fun _ _ => rfl) fun _ => .of_silent fun _ _ => ?_
    · intro a ha
      obtain ⟨b, -, hb⟩ := List.mem_filterMap.1 ha
      obtain ⟨own, hown, rfl⟩ := Option.map_eq_some_iff.1 hb
      refine hdelete _ _ (fun hns => ?_) (eq_of_filled? hown).2
      rw [getD_filled?, ownNamespace]
      split
      · split
        · exact hns
        · assumption
      · exact hns
    · rw [conclude]
      split <;> rfl

end Reaper

namespace BuildStore

theorem remote_list_sends {labels : Dictionary String} (h : e.Enters P (listDraft api ns labels)) :
    Run.Sends P ((remote e api : BuildStore σ).list ns labels) := by
  rw [remote_list]
  exact .bind (.fetch _ h) fun _ => .of_silent fun _ _ => rfl

theorem remote_delete_sends (h : e.Enters P (deletion api ns "builds" name)) :
    Run.Sends P ((remote e api : BuildStore σ).delete ns name) := by
  rw [remote_delete]
  refine .recoverClient (.bind (.call h) fun _ => .of_silent fun _ _ => rfl) fun x => ?_
  rw [alreadyGone]
  split <;> exact .of_silent fun _ _ => rfl

/-- Builds are listed once, and then deleted, each by itself. -/
theorem remote_reaping_sends (hlist : ∀ labels, e.Enters P (listDraft api ns labels))
    (hdelete : ∀ ns' name, (ns ≠ "" → ns' ≠ "") → name ≠ "" →
      e.Enters P (deletion api ns' "builds" name)) (name : Option String) :
    Run.Sends P (Reaper.deleteBuilds (remote e api : BuildStore σ) ns name) :=
  Reaper.sends_deleteBuilds (fun labels => remote_list_sends (hlist labels))
    (fun ns' name' h h' => remote_delete_sends (hdelete ns' name' h h')) name

theorem silent_reaping_sends {store : BuildStore σ}
    (hlist : ∀ ns labels, Run.Sends (fun _ => False) (store.list ns labels))
    (hdelete : ∀ ns name, Run.Sends (fun _ => False) (store.delete ns name)) (ns : String)
    (name : Option String) : Run.Sends P (Reaper.deleteBuilds store ns name) :=
  Reaper.sends_deleteBuilds (fun labels => (hlist ns labels).mono fun _ => False.elim)
    (fun ns' name' _ _ => (hdelete ns' name').mono fun _ => False.elim) name

end BuildStore

namespace Operations

variable {o : Operations σ}

theorem serialize_bind {m : Model α} {a : α} {f : String → Run σ β}
    (h : ∀ text, m.encode a = .ok text → Run.Sends P (f text)) :
    Run.Sends P (Trigger.serialize m a >>= f) := by
  refine .ofClient_bind fun text ht => h text ?_
  cases he : m.encode a with
  | error x => simp [he, Except.mapError] at ht
  | ok t => simpa [he, Except.mapError] using ht

theorem get_sends (h : ∀ resource, o.resourceUrl = .ok resource →
      o.executor.Enters P ⟨"GET", resource, [], [], .none⟩) : Run.Sends P o.get := by
  refine .recoverClient (.ofClient_bind fun resource hr => .bind ?_ fun _ => ?_) fun x => ?_
  · exact .fetch _ (h resource hr)
  · exact .of_silent fun _ _ => rfl
  · split <;> exact .of_silent fun _ _ => rfl

theorem instantiate_sends {q : BuildRequest} (h : ∀ resource text, o.resourceUrl = .ok resource →
      Model.buildRequest.encode q.withApiVersion = .ok text → o.executor.Enters P
        ⟨"POST", Url.join resource ["instantiate"], [], [("Content-Type", "application/json")],
          .text text⟩) : Run.Sends P (o.instantiate q) := by
  refine .ofClient_bind fun resource hr => serialize_bind fun text ht => .bind ?_ fun _ => ?_
  · exact .fetch _ (h resource text hr ht)
  · exact .of_silent fun _ _ => rfl

theorem trigger_sends {t : WebHookTrigger} (h : ∀ resource url text, o.resourceUrl = .ok resource →
      Trigger.url resource o.parameters = .ok url → Model.webHookTrigger.encode t = .ok text →
      o.executor.Enters P ⟨"POST", url, [], Trigger.headers, .text text⟩) :
    Run.Sends P (o.trigger t) := by
  refine .ofClient_bind fun resource hr => .ofClient_bind fun url hu => ?_
  refine .bind (.of_silent fun _ _ => rfl) fun _ => serialize_bind fun text ht => ?_
  exact .bind (.call (h resource url text hr hu ht)) fun _ => .of_silent fun _ _ => rfl

theorem delete_sends (hself : ∀ resource, o.resourceUrl = .ok resource →
      o.executor.Enters P ⟨"DELETE", resource, [], [], .none⟩)
    (hreap : Run.Sends P (Reaper.deleteBuilds o.store (o.ns.getD "") o.name)) :
    Run.Sends P o.delete := by
  refine .ofClient_bind fun resource hr => .bind ?_ fun deleted => ?_
  · refine .recoverClient (.bind (.call (hself resource hr)) fun _ => ?_) fun x => ?_
    · exact .of_silent fun _ _ => rfl
    · split <;> exact .of_silent fun _ _ => rfl
  · split
    · exact .bind hreap fun _ => .of_silent fun _ _ => rfl
    · exact .of_silent fun _ _ => rfl

/-- Whatever is sent for an upload has the property. -/
def UploadEnters (o : Operations σ) (P : Sent → Prop) (source : Source) (length : ℤ) : Prop :=
  ∀ resource e r demand, o.resourceUrl = .ok resource →
    Upload.request o.executor resource o.parameters source length = .ok (e, r) →
    P (e.entry r demand)

theorem Uploading.sends {source : Source} {length : ℤ} {service : Service} {w : World σ}
    {out : Except Failure Build × World σ} (h : o.UploadEnters P source length)
    (hu : Uploading o source length service w out) :
    ∃ trace, out.2.sent = w.sent ++ trace ∧ ∀ s ∈ trace, P s := by
  cases hu with
  | unsent x => exact ⟨[], by simp, by simp⟩
  | sent log located requested =>
    exact ⟨_, rfl, List.forall_mem_singleton.2 (h _ _ _ _ located requested)⟩

theorem fromStream_sends {source : Source}
    (h : o.UploadEnters P source Upload.unknownLength) : Run.Sends P (o.fromStream source) :=
  fun service w => (fromStream_uploading o source service w).sends h

theorem fromFile_sends {files : Files} {path : Path} (h : ∀ file, files path = .ok (some file) →
      o.UploadEnters P file.source file.content.length) :
    Run.Sends P (o.fromFile files path) := by
  intro service w
  rcases fromFile_uploading o files path service w with ⟨x, hx⟩ | ⟨file, hfile, hu⟩
  · exact ⟨[], by simp [hx], by simp⟩
  · exact hu.sends (h file hfile)

end Operations

end BuildClient
