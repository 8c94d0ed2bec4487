import BuildClient.Proofs.Url.Service

/-!
What a deletion hits, once it is sent. A name that leads on is never left out on the way; other
names may lead to a whole collection.
-/
namespace BuildClient.Url

variable {names : Names} {api ns plural name sent : String}

/-- What was sent is the address of the collection, as that is sent. -/
def Hits (names : Names) (sent api ns plural : String) : Prop :=
  ∃ c, prepare names (collection api ns plural) [] = .ok c ∧ SameAddress sent c

theorem not_hits_of_depth_lt (h : depth (service api [ns, plural]) < stepCount sent.toList) :
    ¬ Hits names sent api ns plural := by
  rintro ⟨c, hc, hsame⟩
  rw [← service_collection, ← stepCount_of_prepare hc] at h
  exact h.ne' (stepCount_of_sameAddress hsame)

/-- What a request for the object of a name in a collection hits. -/
structure Aims (names : Names) (api ns plural name sent : String) : Prop where
  /-- A name of slashes is left out. -/
  slashes : SlashesOnly name → Hits names sent api ns plural
  /-- A name that leads on leads deeper than the collections of its namespace. -/
  below : Upright (bare name).toList → ∀ kind, Word kind → ¬ Hits names sent api ns kind
  /-- Nor does it lead to a collection of any other namespace. -/
  apart : Upright (bare name).toList → Word ns →
    ∀ ns' kind, Word ns' → Word kind → ¬ Hits names sent api ns' kind
  /-- A regular name hits a collection just if it leads back to it. -/
  regular : RegularService api → Regular ns → Regular name →
    ∀ ns' kind, Regular ns' → Regular kind →
      (Hits names sent api ns' kind ↔
        landing (namespaced api ns plural name) = landing (collection api ns' kind))

theorem hits_of_slashesOnly (hs : SlashesOnly name)
    (h : prepare names (namespaced api ns plural name) [] = .ok sent) :
    Hits names sent api ns plural := by
  have hsame : namespaced api ns plural name = collection api ns plural := by
    rw [← String.toList_inj, toList_namespaced, segment_eq_nil_iff.2 hs, List.append_nil]
  exact ⟨sent, hsame ▸ h, rfl⟩

theorem not_hits_of_upright {ns' kind : String} (hup : Upright (bare name).toList)
    (h : prepare names (namespaced api ns plural name) [] = .ok sent)
    (hdepth : depth (service api [ns', kind]) = depth (service api [ns, plural])) :
    ¬ Hits names sent api ns' kind := by
  refine not_hits_of_depth_lt ?_
  rw [hdepth, stepCount_of_prepare h, service_namespaced]
  exact depth_service_lt [ns, plural] hup

theorem hits_iff_landing {ns' kind : String} (hapi : RegularService api) (hns : Regular ns)
    (hplural : Regular plural) (hname : Regular name) (hns' : Regular ns') (hkind : Regular kind)
    (h : prepare names (namespaced api ns plural name) [] = .ok sent) :
    Hits names sent api ns' kind ↔
      landing (namespaced api ns plural name) = landing (collection api ns' kind) := by
  obtain ⟨scheme, authority, path, ho, hplain⟩ := hapi
  obtain ⟨_, hobject⟩ := plain_namespaced ho hplain hns hplural hname
  obtain ⟨_, hcollection⟩ := plain_collection ho hplain hns' hkind
  obtain ⟨c, hc⟩ := (ho.served_iff hcollection.under []).2
    ((ho.served_iff hobject.under []).1 ⟨sent, h⟩)
  rw [← sameAddress_iff_landing ho hobject hcollection h hc]
  refine ⟨?_, fun hsame => ⟨c, hc, hsame⟩⟩
  rintro ⟨c', hc', hsame⟩
  exact Except.ok.inj (hc.symm.trans hc') ▸ hsame

theorem aims (hplural : Word plural) (hregular : Regular plural)
    (h : prepare names (namespaced api ns plural name) [] = .ok sent) :
    Aims names api ns plural name sent where
  slashes hs := hits_of_slashesOnly hs h
  below hup kind hkind := not_hits_of_upright hup h <|
    depth_service_eq (List.cons_ne_nil kind []) (by simpa using hkind) [ns] (by simpa using hplural)
      rfl
  apart hup hns ns' kind hns' hkind := not_hits_of_upright hup h <|
    depth_service_eq (List.cons_ne_nil ns' [kind]) (by simpa using ⟨hns', hkind⟩) []
      (by simpa using ⟨hns, hplural⟩) rfl
  regular hapi hns hname _ _ hns' hkind :=
    hits_iff_landing hapi hns hregular hname hns' hkind h

/-- Names that stay where they are, or go back. -/
example : landing (namespaced "http://h" "ns" "buildconfigs" ".") =
      landing (collection "http://h" "ns" "buildconfigs") ∧
    landing (namespaced "http://h" "ns" "buildconfigs" "../builds") =
      landing (collection "http://h" "ns" "builds") := by
  decide +kernel

end BuildClient.Url
