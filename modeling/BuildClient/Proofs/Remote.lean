import BuildClient.Operations
import BuildClient.Proofs.Prepared

/-! The requests for deleting a configuration and its builds at the service. -/
namespace BuildClient

open Http

variable {σ : Type} {e : Executor} {api ns name : String}

/-- A request to delete the object of the name in a collection. -/
def deletion (api ns plural name : String) : Draft :=
  ⟨"DELETE", Url.namespaced api ns plural name, [], [], .none⟩

/-- A request for the builds that bear the name as far as a label holds it. -/
def listing (api ns name : String) : Draft :=
  ⟨"GET", Url.collection api ns "builds",
    [("labelSelector", "openshift.io/build-config.name=" ++ String.ofList (name.toList.take 63))],
    [], .none⟩

theorem deletion_plain (api ns plural name : String) : (deletion api ns plural name).Plain :=
  ⟨rfl, rfl, upper_delete⟩

theorem listing_plain (api ns name : String) : (listing api ns name).Plain := ⟨rfl, rfl, upper_get⟩

theorem listDraft_plain (api ns : String) (labels : Dictionary String) :
    (BuildStore.listDraft api ns labels).Plain := ⟨rfl, rfl, upper_get⟩

theorem deleteDraft_eq : BuildStore.deleteDraft api ns name = deletion api ns "builds" name := by
  rw [BuildStore.deleteDraft, deletion, Url.builds]

theorem remote_delete : (BuildStore.remote e api).delete ns name =
    ((do
      let _ ← e.call (deletion api ns "builds" name)
      pure true : Run σ Bool).recoverClient (BuildStore.alreadyGone ns name)) := by
  rw [← deleteDraft_eq]
  unfold BuildStore.remote
  dsimp only

theorem remote_list (labels : Dictionary String) : (BuildStore.remote e api).list ns labels =
    (do
      let found ← e.fetch Model.buildList (BuildStore.listDraft api ns labels)
      pure (found.items.getD []) : Run σ (List Build)) := by
  unfold BuildStore.remote
  dsimp only

theorem selector_owner (name : String) :
    Labels.selector [(Reaper.ownerKey, Labels.value name)] =
      "openshift.io/build-config.name=" ++ String.ofList (name.toList.take 63) := by
  apply String.toList_inj.1
  simp [Labels.selector, Text.joinWith, Labels.value, Labels.maxLength, Reaper.ownerKey]

theorem listDraft_owner :
    BuildStore.listDraft api ns [(Reaper.ownerKey, Labels.value name)] = listing api ns name := by
  rw [BuildStore.listDraft, selector_owner, Url.builds, listing]

namespace Trigger

theorem required_of_ne {s : String} {reason : Misuse} (h : s ≠ "") :
    required (some s) reason = .ok s := by
  simp [required, h]

theorem required_cases (value : Option String) (reason : Misuse) :
    required value reason = .error (.configuration reason) ∨
      ∃ s, value = some s ∧ s ≠ "" ∧ required value reason = .ok s := by
  cases value with
  | none => exact .inl rfl
  | some s =>
    by_cases hs : s = ""
    · exact .inl (by rw [hs]; rfl)
    · exact .inr ⟨s, rfl, hs, required_of_ne hs⟩

theorem required_eq_ok {value : Option String} {reason : Misuse} {s : String}
    (h : required value reason = .ok s) : value = some s := by
  rcases required_cases value reason with hr | ⟨s', hs, -, hr⟩
  · rw [hr] at h
    cases h
  · rw [hr] at h
    rw [hs, Except.ok.inj h]

theorem url_eq_ok {resource url : String} {p : Parameters} (h : Trigger.url resource p = .ok url) :
    ∃ secret type, p.secret = some secret ∧ p.triggerType = some type ∧
      url = Url.join resource ["webhooks", secret, type] := by
  obtain ⟨secret, hs, h⟩ := bind_eq_ok.1 h
  obtain ⟨type, ht, h⟩ := bind_eq_ok.1 h
  exact ⟨secret, type, required_eq_ok hs, required_eq_ok ht, (Except.ok.inj h).symm⟩

end Trigger

namespace Operations

variable {o : Operations σ}

/-- Either something is missing, or the configuration is located. -/
theorem address_cases (o : Operations σ) :
    (∃ reason, o.address = .error (.configuration reason)) ∨
      ∃ ns name, (o.ns = some ns ∧ ns ≠ "") ∧ (o.name = some name ∧ name ≠ "") ∧
        o.address = .ok (ns, name) := by
  rw [address]
  rcases Trigger.required_cases o.ns .namespaceMissing with hr | ⟨ns, hns, hns', hr⟩
  · exact .inl ⟨_, by rw [hr]; rfl⟩
  · rcases Trigger.required_cases o.name .nameMissing with hr' | ⟨name, hname, hname', hr'⟩
    · exact .inl ⟨_, by rw [hr, hr']; rfl⟩
    · exact .inr ⟨ns, name, ⟨hns, hns'⟩, ⟨hname, hname'⟩, by rw [hr, hr']; rfl⟩

theorem resourceUrl_of_error {x : ClientError} (h : o.address = .error x) :
    o.resourceUrl = .error x := by
  rw [resourceUrl, h]
  rfl

theorem resourceUrl_of_ok (h : o.address = .ok (ns, name)) :
    o.resourceUrl = .ok (Url.namespaced o.apiUrl ns "buildconfigs" name) := by
  rw [resourceUrl, h, Url.buildConfigs]
  rfl

theorem resourceUrl_eq (hns : o.ns = some ns) (hname : o.name = some name) (hns' : ns ≠ "")
    (hname' : name ≠ "") :
    o.resourceUrl = .ok (Url.namespaced o.apiUrl ns "buildconfigs" name) := by
  apply resourceUrl_of_ok
  rw [address, hns, hname, Trigger.required_of_ne hns', Trigger.required_of_ne hname']
  rfl

theorem delete_apply (hb : o.builds = none) (hns : o.ns = some ns) (hname : o.name = some name)
    (hns' : ns ≠ "") (hname' : name ≠ "") (service : Service) (w : World σ) :
    o.delete service w = (o.deleteSelf (Url.namespaced o.apiUrl ns "buildconfigs" name) >>=
      fun deleted => if deleted then do
          let _ ← Reaper.deleteBuilds (BuildStore.remote o.executor o.apiUrl) ns (some name)
          pure true
        else pure false) service w := by
  have hurl : (Run.ofClient o.resourceUrl : Run σ String) service w =
      (.ok (Url.namespaced o.apiUrl ns "buildconfigs" name), w) := by
    rw [resourceUrl_eq hns hname hns' hname']
    rfl
  rw [delete, Run.bind_of_ok hurl, store, hb, hns, hname]
  rfl

end Operations

end BuildClient
