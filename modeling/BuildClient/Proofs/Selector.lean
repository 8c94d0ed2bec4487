import BuildClient.Proofs.Exchange
import BuildClient.Proofs.Text.Split
import BuildClient.Proofs.Url.Form
import BuildClient.Proofs.Url.Sent

/-!
The selector of a listing. The service reads the labels that were meant, in their order, unless its
host has a zone that strays; even there different labels are asked for at different addresses.
-/
namespace BuildClient

open Text Url Http

namespace Labels

variable {labels : Dictionary String}

/-- There are labels, and none holds a sign where a selector is cut. -/
structure Selectable (labels : Dictionary String) : Prop where
  nonempty : labels ≠ []
  keys : ∀ p ∈ labels, '=' ∉ p.1.toList ∧ ',' ∉ p.1.toList
  values : ∀ p ∈ labels, ',' ∉ p.2.toList

/-- A selector is read as the labels that it was made of. -/
theorem readSelector_selector (h : Selectable labels) :
    readSelector (selector labels) = labels.map fun p => (p.1, some p.2) := by
  rw [readSelector, selector, String.toList_ofList]
  exact splitAt_pairs h.nonempty h.keys h.values (by decide)

theorem selector_injective {labels' : Dictionary String} (h : Selectable labels)
    (h' : Selectable labels') (he : selector labels' = selector labels) : labels' = labels := by
  have hread : labels'.map (fun p => (p.1, some p.2)) = labels.map fun p => (p.1, some p.2) := by
    rw [← readSelector_selector h, ← readSelector_selector h', he]
  exact pairs_injective hread

end Labels

namespace BuildStore

variable {σ : Type} {names : Names} {e : Executor} {scheme authority path : List Char}
  {api ns url : String}
  {labels : Dictionary String} {a : Authority}

/-- The address that a listing is sent to. -/
def listUrl (names : Names) (api ns : String) (labels : Dictionary String) :
    Except Foreign String :=
  Url.prepare names (listDraft api ns labels).url (listDraft api ns labels).params

theorem plain_collection (ho : WebOrigin scheme authority)
    (hapi : Plain scheme authority path api)
    (hns : ∀ c ∈ ns.toList, Percent.isUnreserved c = true) :
    ∃ path', Plain scheme authority path' (collection api ns builds) := by
  refine hapi.join ho ?_
  intro part hpart c hc
  by_cases hp : part = ns
  · rw [hp] at hc
    exact .inl (hns c hc)
  · have hfixed : part ∈ ["apis", buildApiVersion, "namespaces", builds, ""] := by
      simpa [hp] using hpart
    have hwords : ∀ word ∈ ["apis", buildApiVersion, "namespaces", builds, ""],
        word.toList.all (fun c => Percent.isUnreserved c || c == '/') = true := by
      decide
    simpa using List.all_eq_true.1 (hwords part hfixed) c hc

/-- What is read from the address of a listing. -/
theorem listUrl_read (ho : WebOrigin scheme authority) (hapi : Plain scheme authority path api)
    (hns : ∀ c ∈ ns.toList, Percent.isUnreserved c = true)
    (ha : Authority.read? names.spell authority = some a)
    (hh : Reachable (Target.normalizeAuthority a).host)
    (labels : Dictionary String) :
    ∃ sent query, listUrl names api ns labels = .ok sent ∧
      fragmentOf sent = none ∧ queryOf sent = some query ∧
      (¬ Stray (Target.normalizeAuthority a).host →
        Form.read query = [("labelSelector", Labels.selector labels)]) ∧
      (Stray (Target.normalizeAuthority a).host →
        Form.read query = [("labelSelector", Form.asWritten (Labels.selector labels))]) := by
  obtain ⟨path', hplain⟩ := plain_collection ho hapi hns
  have hform : ∀ value, Form.encode [("labelSelector", value)] ≠ [] := fun value h => by
    simp [Form.encode, joinWith, Form.encodePair] at h
  have hwire : wire none [("labelSelector", Labels.selector labels)] =
      Form.encode [("labelSelector", Labels.selector labels)] := wire_of_params (hform _)
  have hurl : (collection api ns builds).toList =
      (collection api ns builds).toList ++ (none : Option (List Char)).elim [] ('?' :: ·) := by
    rw [Option.elim_none, List.append_nil]
  obtain ⟨sent, query, hsent, hfragment, hquery, hnot, hstray⟩ :=
    ho.prepare_plain ha hh hplain (fun q hq => by cases hq) hurl
      (hwire ▸ Form.written_encode _) (hwire ▸ hform _)
  refine ⟨sent, query, hsent, hfragment, hquery, fun hs => ?_, fun hs => ?_⟩
  · rw [hnot hs, hwire, Form.read_encode (by simp)]
  · have hname : Form.asWritten "labelSelector" = "labelSelector" := by decide +kernel
    rw [hstray hs, hwire, Form.read_reescaped (by simp), List.map_singleton, hname]

/-- A listing is one request, or none if nothing can be sent to the service at all. -/
theorem list_sends (ho : WebOrigin scheme authority) (hapi : Plain scheme authority path api)
    (hns : ∀ c ∈ ns.toList, Percent.isUnreserved c = true)
    {e : Executor} (hurl : listUrl e.surroundings.names api ns labels = .ok url)
    (service : Service) (w : World σ) :
    ((∃ r, e.prepare ⟨"GET", api, [], [], .none⟩ = .ok r) ∧
      ∃ s, ((remote e api).list ns labels service w).2.sent = w.sent ++ [s] ∧
        s.method = "GET" ∧ s.url = url ∧ s.body = .none) ∨
    ((∃ x, e.prepare ⟨"GET", api, [], [], .none⟩ = .error x) ∧
      ((remote e api).list ns labels service w).2.sent = w.sent) := by
  have hget : Draft.Plain ⟨"GET", api, [], [], .none⟩ := ⟨rfl, rfl, upper_get⟩
  have hlist := listDraft_plain api ns labels
  have hunder₀ := hapi.under
  have hunder : Under scheme authority (listDraft api ns labels).url := ho.under_join hunder₀ _
  have hlocation : Credentials.location (listDraft api ns labels).url.toList =
      Credentials.location api.toList := by
    obtain ⟨path', hplain⟩ := plain_collection ho hapi hns
    exact (hplain.location_eq ho).trans (hapi.location_eq ho).symm
  have hrun : Settled _ service w ((remote e api).list ns labels service w) :=
    remote_list_settles ns labels service w
  generalize (remote e api).list ns labels service w = out at hrun
  cases hr : e.prepare ⟨"GET", api, [], [], .none⟩ with
  | ok r =>
    obtain ⟨r', hr'⟩ := prepare_of_prepared ho hget hlist hunder₀ hunder hlocation hr
    have hsent := (prepare_plain hlist hr').2.2
    rw [Executor.ready, hr'] at hrun
    cases hrun with
    | stopped log h => cases h
    | sent log h after =>
      cases h
      have hissued := issued_entry hlist hr' (service w.sent.length).demand
      exact .inl ⟨⟨r, rfl⟩, _, rfl, hissued.method, Except.ok.inj (hsent.symm.trans hurl),
        hissued.bare⟩
  | error x =>
    cases hr' : e.prepare (listDraft api ns labels) with
    | ok r' =>
      obtain ⟨r, h⟩ := prepare_of_prepared ho hlist hget hunder hunder₀ hlocation.symm hr'
      rw [hr] at h
      cases h
    | error y =>
      rw [Executor.ready, hr'] at hrun
      cases hrun with
      | stopped log h => exact .inr ⟨⟨x, rfl⟩, rfl⟩
      | sent log h after => cases h

/-- A listing is one request, if the service can be reached at all. Its address has no fragment and
one parameter, the selector, which is read as the labels in their order. Where the host has a zone
that strays, the parameter is read as the selector was written. Either way the address tells which
labels were asked for. -/
theorem selector_arrives (names : Names) (ho : WebOrigin scheme authority)
    (hapi : Plain scheme authority path api)
    (hns : ∀ c ∈ ns.toList, Percent.isUnreserved c = true) (hl : Labels.Selectable labels) :
    ((∃ sent, listUrl names api ns labels = .ok sent) ↔ Served names authority) ∧
      Labels.readSelector (Labels.selector labels) = labels.map (fun p => (p.1, some p.2)) ∧
      ∀ a, Authority.read? names.spell authority = some a →
        Reachable (Target.normalizeAuthority a).host →
        ∃ sent query, listUrl names api ns labels = .ok sent ∧
          fragmentOf sent = none ∧ queryOf sent = some query ∧
          (¬ Stray (Target.normalizeAuthority a).host →
            Form.read query = [("labelSelector", Labels.selector labels)]) ∧
          (Stray (Target.normalizeAuthority a).host →
            Form.read query = [("labelSelector", Form.asWritten (Labels.selector labels))]) ∧
          (∀ labels', Labels.Selectable labels' → listUrl names api ns labels' = .ok sent →
            labels' = labels) ∧
          ∀ e : Executor, e.surroundings.names = names → ∀ (service : Service) (w : World σ),
            ((∃ r, e.prepare ⟨"GET", api, [], [], .none⟩ = .ok r) ∧
              ∃ s, ((remote e api).list ns labels service w).2.sent = w.sent ++ [s] ∧
                s.method = "GET" ∧ s.url = sent ∧ s.body = .none) ∨
            ((∃ x, e.prepare ⟨"GET", api, [], [], .none⟩ = .error x) ∧
              ((remote e api).list ns labels service w).2.sent = w.sent) := by
  have hunder : Under scheme authority (listDraft api ns labels).url := ho.under_join hapi.under _
  refine ⟨ho.served_iff hunder _, Labels.readSelector_selector hl, fun a ha hh => ?_⟩
  obtain ⟨sent, query, hsent, hfragment, hquery, hnot, hstray⟩ :=
    listUrl_read ho hapi hns ha hh labels
  refine ⟨sent, query, hsent, hfragment, hquery, hnot, hstray, fun labels' hl' hsent' => ?_, ?_⟩
  swap
  · rintro e rfl service w
    exact list_sends ho hapi hns hsent service w
  obtain ⟨sent', query', hs, -, hq, hnot', hstray'⟩ := listUrl_read ho hapi hns ha hh labels'
  obtain rfl := Except.ok.inj (hs.symm.trans hsent')
  obtain rfl := Option.some.inj (hq.symm.trans hquery)
  refine Labels.selector_injective hl hl' ?_
  -- A zone that strays changes how the selector is written, but not what was written.
  by_cases hzone : Stray (Target.normalizeAuthority a).host
  · have hsame := (hstray' hzone).symm.trans (hstray hzone)
    simp only [List.cons.injEq, Prod.mk.injEq, and_true, true_and] at hsame
    rw [← Form.decode_asWritten (Labels.selector labels'), hsame, Form.decode_asWritten]
  · have hsame := (hnot' hzone).symm.trans (hnot hzone)
    simpa using hsame

/-- Two labels with signs, a space and a letter of two bytes. -/
def signs : Dictionary String := [("app/ü", "x=%+ &"), ("b", "")]

theorem selector_arrives_signs :
    Labels.Selectable signs ∧ ∃ sent query,
      listUrl .ascii "https://h:6443/k8s/" "a.b" signs = .ok sent ∧
      fragmentOf sent = none ∧ queryOf sent = some query ∧
      Form.read query = [("labelSelector", "app/ü=x=%+ &,b=")] ∧
      Labels.readSelector "app/ü=x=%+ &,b=" =
        [("app/ü", some "x=%+ &"), ("b", some "")] := by
  have ho : WebOrigin "https".toList "h:6443".toList :=
    ⟨by decide, by decide, List.all_iff_forall_prop.1 (by decide)⟩
  have hapi : Plain "https".toList "h:6443".toList "/k8s/".toList "https://h:6443/k8s/" :=
    ⟨by decide +kernel, List.all_iff_forall_prop.1 (by decide), by rintro c ⟨⟩; rfl⟩
  have hl : Labels.Selectable signs := by
    refine ⟨by decide, ?_, ?_⟩
    · exact List.all_iff_forall_prop.1 (by decide +kernel)
    · exact List.all_iff_forall_prop.1 (by decide +kernel)
  have ha :
      Authority.read? Names.ascii.spell "h:6443".toList = some ⟨none, "h".toList, some 6443⟩ := by
    decide +kernel
  have hhost : (Target.normalizeAuthority ⟨none, "h".toList, some 6443⟩).host = "h".toList := by
    decide +kernel
  have hh : Reachable (Target.normalizeAuthority ⟨none, "h".toList, some 6443⟩).host := by
    rw [hhost]
    exact ⟨by decide, by decide, by decide⟩
  have hstray : ¬ Stray (Target.normalizeAuthority ⟨none, "h".toList, some 6443⟩).host := by
    rw [hhost]
    exact not_stray_of_head (by decide)
  have hselector : Labels.selector signs = "app/ü=x=%+ &,b=" := by decide +kernel
  have hns : ∀ c ∈ "a.b".toList, Percent.isUnreserved c = true := List.all_eq_true.1 (by decide)
  obtain ⟨-, hread, hgood⟩ := @selector_arrives Unit _ _ _ _ _ _ .ascii ho hapi hns hl
  obtain ⟨sent, query, hsent, hfragment, hquery, hnot, -⟩ := hgood _ ha hh
  rw [hselector] at hread hnot
  exact ⟨hl, sent, query, hsent, hfragment, hquery, hnot hstray, hread⟩

/-- A zone gets the selector of a listing escaped twice. -/
theorem zone_reescapes_selector :
    listUrl .ascii "http://[fe80::1%25eth0]" "ns" [("a", "b c")] =
        .ok ("http://[fe80::1%25eth0]/apis/build.openshift.io/v1/namespaces/ns/builds" ++
          "?labelSelector=a%253Db+c") ∧
      (queryOf ("http://[fe80::1%25eth0]/apis/build.openshift.io/v1/namespaces/ns/builds" ++
          "?labelSelector=a%253Db+c")).map Form.read = some [("labelSelector", "a%3Db c")] ∧
      Labels.selector [("a", "b c")] = "a=b c" := by
  decide +kernel

end BuildStore

end BuildClient
