import Mathlib.Data.List.Pairwise
import BuildClient.Proofs.Reaper

/-!
Builds are listed by a label that may be cut short, and confirmed by an annotation that never is.
Both tests together pick the builds of a configuration and no others.
-/
namespace BuildClient

variable {σ : Type} {store : BuildStore σ} {service service' : Http.Service} {w w' : World σ}
  {ns name name' : String} {builds builds' : List Build} {b : Build} {object : String × String}

namespace ManagedObject

/-- The name of the configuration that the annotation tells. -/
def owner? (b : Build) : Option String :=
  Dictionary.get? "openshift.io/build-config.name" b.metadata.annotations

/-- The name of the configuration that the label tells. -/
def label? (b : Build) : Option String :=
  Dictionary.get? "openshift.io/build-config.name" b.metadata.labels

/-- The label is the start of the annotation, as much as a label holds. -/
def Labelled (b : Build) : Prop :=
  ∀ owner ∈ b.owner?, b.label? = some (String.ofList (owner.toList.take 63))

/-- The build by its effective namespace and its name, if it has one. -/
def object? (ns : String) (b : Build) : Option (String × String) :=
  b.metadata.name.map fun own => (Reaper.ownNamespace ns b, own)

end ManagedObject

/-- Of these builds the store lists those with the label that is asked for, in their order. -/
def BuildStore.Selects (store : BuildStore σ) (service : Http.Service) (w : World σ) (ns : String)
    (builds : List Build) : Prop :=
  ∀ value, ∃ w', store.list ns [("openshift.io/build-config.name", value)] service w =
    (.ok (builds.filter fun b => b.label? = some value), w')

/-- What a call asks the store to delete. -/
def BuildStore.Call.object? : BuildStore.Call → Option (String × String)
  | .list .. => none
  | .delete ns name _ => some (ns, name)

theorem Run.recorded_apply {α : Type} {m : Run σ α} {answer : Except Failure α} {w₁ : World σ}
    {entry : Except Failure α → BuildStore.Call} (h : m service w = (answer, w₁))
    (calls : List BuildStore.Call) :
    m.recorded entry service (w.beside calls) = (answer, w₁.beside (calls ++ [entry answer])) := by
  change ((m service w).1, (m service w).2.beside (calls ++ [entry (m service w).1])) = _
  rw [h]

namespace Reaper

/-- The objects that reaping a configuration's builds asks the store to delete, in order. -/
def objects (store : BuildStore σ) (ns name : String) (service : Http.Service) (w : World σ) :
    List (String × String) :=
  (deleteBuilds store.recorded ns (some name) service (w.beside [])).2.store.2.filterMap
    BuildStore.Call.object?

theorem ownedBy_iff : ownedBy name b = true ↔ b.owner? = some name := by
  rw [ownedBy, ManagedObject.owner?, ownerKey, beq_iff_eq]

/-- Whatever the annotation confirms, the label has let through. -/
theorem label_of_owner (hb : b.Labelled) (h : b.owner? = some name) :
    b.label? = some (Labels.value name) := hb name h

theorem confirmed_eq (hb : ∀ b ∈ builds, b.Labelled) (name : String) :
    (builds.filter fun b => b.label? = some (Labels.value name)).filter (ownedBy name) =
      builds.filter fun b => b.owner? = some name := by
  rw [List.filter_filter]
  refine List.filter_congr fun b h => ?_
  rw [Bool.eq_iff_iff, Bool.and_eq_true, decide_eq_true_eq, decide_eq_true_eq, ownedBy_iff]
  exact ⟨And.left, fun ho => ⟨ho, label_of_owner (hb b h) ho⟩⟩

theorem matching_of_selects (hb : ∀ b ∈ builds, b.Labelled)
    (hs : store.Selects service w ns builds) (name : String) :
    (matching store ns name service w).1 = .ok (builds.filter fun b => b.owner? = some name) := by
  obtain ⟨w₁, hlist⟩ := hs (Labels.value name)
  rw [matching, ownerKey, Run.bind_of_ok hlist, Run.pure_apply, confirmed_eq hb]

theorem owner_of_target (h : target? ns name b = some object) :
    b.owner? = some name ∧ b.object? ns = some object := by
  rw [target?] at h
  rw [ManagedObject.owner?, ManagedObject.object?]
  cases hown : b.metadata.name with
  | none => simp [hown] at h
  | some own =>
    rw [hown] at h
    simp only [Option.ite_none_right_eq_some] at h
    obtain ⟨⟨howner, -⟩, he⟩ := h
    exact ⟨howner, he⟩

theorem targets_of_selected (hb : ∀ b ∈ builds, b.Labelled) :
    (builds.filter fun b => b.label? = some (Labels.value name)).filterMap (target? ns name) =
      builds.filterMap (target? ns name) := by
  rw [List.filterMap_filter]
  refine List.filterMap_congr fun b h => ?_
  split
  · rfl
  · rename_i hlabel
    cases ht : target? ns name b with
    | none => rfl
    | some object =>
      have howner := label_of_owner (hb b h) (owner_of_target ht).1
      simp [howner] at hlabel

theorem object?_of_attempts (attempts : List Attempt) :
    (attempts.map Attempt.call).filterMap BuildStore.Call.object? =
      attempts.map Attempt.address := by
  rw [List.filterMap_map, ← List.filterMap_eq_map]
  rfl

/-- The objects of the configuration's builds are asked for in the order of the listing, up to an
answer that ends the work. -/
theorem objects_prefix (hb : ∀ b ∈ builds, b.Labelled) (hs : store.Selects service w ns builds)
    (name : String) : objects store ns name service w <+: builds.filterMap (target? ns name) := by
  by_cases hname : name = ""
  · rw [objects, deleteBuilds, hname, filled?_empty]
    exact List.nil_prefix
  · obtain ⟨w₁, hlist⟩ := hs (Labels.value name)
    have hrecorded : store.recorded.list ns [(ownerKey, Labels.value name)] service (w.beside []) =
        (.ok (builds.filter fun b => b.label? = some (Labels.value name)), w₁.beside
          [.list ns [(ownerKey, Labels.value name)]
            (.ok (builds.filter fun b => b.label? = some (Labels.value name)))]) :=
      Run.recorded_apply hlist []
    obtain ⟨attempts, w₂, log, hrun, hcase⟩ := reap_of_listed hrecorded
    have hobjects : w₂.store.2.filterMap BuildStore.Call.object? =
        attempts.map Attempt.address := by
      rw [attempts_calls hrun, ← object?_of_attempts]
      rfl
    rw [objects, deleteBuilds_of_ne hname, ← targets_of_selected hb]
    rcases hcase with ⟨haddr, -, hreap⟩ | ⟨done, last, x, -, haddr, -, -, hreap⟩
    · rw [hreap]
      exact (hobjects.trans haddr) ▸ List.prefix_refl _
    · rw [hreap]
      exact hobjects ▸ haddr

/-- An object is that of one build only. -/
theorem eq_of_object? (hd : (builds.filterMap (ManagedObject.object? ns)).Nodup) {b b' : Build}
    (hb : b ∈ builds) (hb' : b' ∈ builds) (h : b.object? ns = some object)
    (h' : b'.object? ns = some object) : b = b' := by
  by_contra hne
  have hpair := List.pairwise_filterMap.1 hd
  have hsymm : Std.Symm fun b b' : Build => ∀ o, b.object? ns = some o →
      ∀ o', b'.object? ns = some o' → o ≠ o' :=
    ⟨fun _ _ hr o ho o' ho' => (hr o' ho' o ho).symm⟩
  exact hpair.forall hb hb' hne object h object h' rfl

theorem targets_disjoint (hd : (builds.filterMap (ManagedObject.object? ns)).Nodup)
    (hsub : builds' ⊆ builds) (hne : name ≠ name') :
    (builds.filterMap (target? ns name)).Disjoint (builds'.filterMap (target? ns name')) := by
  intro object h h'
  obtain ⟨b, hb, ht⟩ := List.mem_filterMap.1 h
  obtain ⟨b', hb', ht'⟩ := List.mem_filterMap.1 h'
  obtain ⟨howner, hobject⟩ := owner_of_target ht
  obtain ⟨howner', hobject'⟩ := owner_of_target ht'
  obtain rfl := eq_of_object? hd hb (hsub hb') hobject hobject'
  exact hne (Option.some.inj (howner.symm.trans howner'))

/-- Of labelled builds, exactly those of the configuration are found, whatever the length of its
name. So no build is found for two configurations, and where builds are told apart by namespace and
name, no object is deleted for two of them, even if some builds are gone by the second time. -/
theorem found_by_owner (hb : ∀ b ∈ builds, b.Labelled) (hsub : builds'.Sublist builds)
    (hs : store.Selects service w ns builds) (hs' : store.Selects service' w' ns builds') :
    (∀ name, (matching store ns name service w).1 =
        .ok (builds.filter fun b => b.owner? = some name)) ∧
      ∀ name name', name ≠ name' →
        (∀ found found', (matching store ns name service w).1 = .ok found →
          (matching store ns name' service' w').1 = .ok found' → found.Disjoint found') ∧
        ((builds.filterMap (ManagedObject.object? ns)).Nodup →
          (objects store ns name service w).Disjoint (objects store ns name' service' w')) := by
  have hb' : ∀ b ∈ builds', b.Labelled := fun b h => hb b (hsub.subset h)
  refine ⟨matching_of_selects hb hs, fun name name' hne => ⟨?_, fun hd => ?_⟩⟩
  · intro found found' h h' b hfound hfound'
    rw [matching_of_selects hb hs] at h
    rw [matching_of_selects hb' hs'] at h'
    cases h
    cases h'
    have howner := of_decide_eq_true (List.mem_filter.1 hfound).2
    have howner' := of_decide_eq_true (List.mem_filter.1 hfound').2
    exact hne (Option.some.inj (howner.symm.trans howner'))
  · have hdis := targets_disjoint hd hsub.subset hne
    have hpre := objects_prefix hb hs name
    have hpre' := objects_prefix hb' hs' name'
    exact fun object h h' => hdis (hpre.subset h) (hpre'.subset h')

/-- As long as a label may be. -/
def lengthy : String := "aaaaaaaaaaaaaaaaaaaaaaaaaaaaaaaaaaaaaaaaaaaaaaaaaaaaaaaaaaaaaaa"

/-- A build of a configuration whose name goes on where the label ends. -/
def twin (ending own : String) : Build :=
  ⟨none, none,
    { ObjectMeta.named own with
      labels := [("openshift.io/build-config.name", lengthy)]
      annotations := [("openshift.io/build-config.name", lengthy ++ ending)] }, [], [], []⟩

/-- A store of the builds in its state. -/
def shelf : BuildStore (List Build) where
  list _ labels := fun _ w => (.ok (w.store.filter fun b =>
    b.label? = Dictionary.get? "openshift.io/build-config.name" labels), w)
  delete _ name := fun _ w => (.ok (w.store.any fun b => b.metadata.name = some name),
    { w with store := w.store.filter fun b => b.metadata.name ≠ some name })

theorem shelf_selects (service : Http.Service) (w : World (List Build)) (ns : String) :
    shelf.Selects service w ns w.store := fun value =>
  ⟨w, by simp [shelf, Dictionary.get?_cons]⟩

theorem twin_labelled {ending : String} (h : (lengthy ++ ending).toList.take 63 = lengthy.toList)
    (own : String) : (twin ending own).Labelled := by
  rintro owner ⟨⟩
  rw [h, String.ofList_toList]
  rfl

def twins : List Build := [twin "-x" "x-1", twin "-y" "y-1", twin "-x" "x-2"]

theorem twins_labelled : ∀ b ∈ twins, b.Labelled := by
  intro b hb
  simp only [twins, List.mem_cons, List.not_mem_nil, or_false] at hb
  rcases hb with rfl | rfl | rfl <;> exact twin_labelled (by decide +kernel) _

/-- A service that never answers. -/
def mute : Http.Service := fun _ => ⟨.all, .fault ⟨.timeout, ""⟩⟩

theorem found_by_owner_twins :
    (∀ b ∈ twins, b.Labelled) ∧ [twin "-y" "y-1"].Sublist twins ∧
      shelf.Selects mute (.start twins) "ns" twins ∧
      shelf.Selects mute (.start [twin "-y" "y-1"]) "ns" [twin "-y" "y-1"] ∧
      (matching shelf "ns" (lengthy ++ "-x") mute (.start twins)).1 =
        .ok [twin "-x" "x-1", twin "-x" "x-2"] ∧
      (twins.filterMap (ManagedObject.object? "ns")).Nodup ∧
      (objects shelf "ns" (lengthy ++ "-x") mute (.start twins)).Disjoint
        (objects shelf "ns" (lengthy ++ "-y") mute (.start [twin "-y" "y-1"])) := by
  have hsub : [twin "-y" "y-1"].Sublist twins := by simp [twins]
  have hne : lengthy ++ "-x" ≠ lengthy ++ "-y" := by decide +kernel
  have hd : (twins.filterMap (ManagedObject.object? "ns")).Nodup := by decide +kernel
  have hfound := found_by_owner twins_labelled hsub (shelf_selects mute (.start twins) "ns")
    (shelf_selects mute (.start [twin "-y" "y-1"]) "ns")
  have howned : twins.filter (fun b => b.owner? = some (lengthy ++ "-x")) =
      [twin "-x" "x-1", twin "-x" "x-2"] := by
    have howner : ∀ ending own, (twin ending own).owner? = some (lengthy ++ ending) :=
      fun _ _ => rfl
    simp [twins, howner, hne.symm]
  exact ⟨twins_labelled, hsub, shelf_selects _ _ _, shelf_selects _ _ _,
    (hfound.1 _).trans (congrArg _ howned), hd, (hfound.2 _ _ hne).2 hd⟩

end Reaper

end BuildClient
