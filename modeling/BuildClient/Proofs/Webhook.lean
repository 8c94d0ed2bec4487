import BuildClient.Proofs.Places
import BuildClient.Proofs.Requests
import BuildClient.Proofs.Secrecy
import BuildClient.Proofs.Url.Service

/-! The address of a webhook: what it is made of, and when the secret and the type are in it. -/
namespace BuildClient

open Http

namespace Trigger

variable {names : Url.Names} {api ns name resource secret type sent : String} {p : Parameters}

/-- Behind the resource stand the secret and the type, and neither of them is empty. -/
structure Keeps (resource secret type url : String) : Prop where
  secret_ne : Url.bare secret ≠ ""
  type_ne : Url.bare type ≠ ""
  url_eq : url.toList = Text.dropEndWhile Url.isSlash resource.toList ++ "/webhooks/".toList ++
    (Url.bare secret).toList ++ "/".toList ++ (Url.bare type).toList

theorem toList_hook (resource secret type : String) :
    (Url.join resource ["webhooks", secret, type]).toList =
      Text.dropEndWhile Url.isSlash resource.toList ++ "/webhooks".toList ++
        Url.segment secret.toList ++ Url.segment type.toList := by
  have hname : Url.segment "webhooks".toList = "/webhooks".toList := by decide
  rw [Url.join, String.toList_ofList, Url.joinChars]
  simp only [List.map_cons, List.map_nil, List.flatMap_cons, List.flatMap_nil, hname,
    List.append_assoc, List.append_nil]

/-- A secret or a type of nothing but slashes is lost; all others are kept. -/
theorem keeps_hook_iff : Keeps resource secret type (Url.join resource ["webhooks", secret, type]) ↔
    ¬ Url.SlashesOnly secret ∧ ¬ Url.SlashesOnly type := by
  constructor
  · exact fun h => ⟨mt Url.bare_eq_empty_iff.2 h.secret_ne, mt Url.bare_eq_empty_iff.2 h.type_ne⟩
  · rintro ⟨hs, ht⟩
    refine ⟨mt Url.bare_eq_empty_iff.1 hs, mt Url.bare_eq_empty_iff.1 ht, ?_⟩
    rw [toList_hook, Url.segment_of_bare hs, Url.segment_of_bare ht]
    have hslash : "/webhooks/".toList = "/webhooks".toList ++ ['/'] := by decide
    simp [hslash]

/-- What comes of asking for the address of the hook. -/
inductive Addressed (resource : String) (p : Parameters) : Except ClientError String → Prop
  | secretMissing (hs : ∀ secret ∈ p.secret, secret = "") :
      Addressed resource p (.error (.configuration .secretMissing))
  | typeMissing {secret : String} (hs : p.secret = some secret) (hs' : secret ≠ "")
      (ht : ∀ type ∈ p.triggerType, type = "") :
      Addressed resource p (.error (.configuration .triggerTypeMissing))
  | found {secret type url : String} (hs : p.secret = some secret) (hs' : secret ≠ "")
      (ht : p.triggerType = some type) (ht' : type ≠ "")
      (segments : url.toList = Text.dropEndWhile Url.isSlash resource.toList ++
        "/webhooks".toList ++ Url.segment secret.toList ++ Url.segment type.toList)
      (keeps : Keeps resource secret type url ↔ ¬ Url.SlashesOnly secret ∧ ¬ Url.SlashesOnly type) :
      Addressed resource p (.ok url)

theorem required_of_missing {value : Option String} (reason : Misuse) (h : ∀ s ∈ value, s = "") :
    required value reason = .error (.configuration reason) := by
  rcases required_cases value reason with hr | ⟨s, hs, hne, -⟩
  · exact hr
  · exact absurd (h s hs) hne

theorem url_addressed (resource : String) (p : Parameters) :
    Addressed resource p (Trigger.url resource p) := by
  rw [Trigger.url]
  by_cases hs : ∀ secret ∈ p.secret, secret = ""
  · rw [required_of_missing _ hs]
    exact .secretMissing hs
  · push Not at hs
    obtain ⟨secret, hsecret, hs⟩ := hs
    rw [Option.mem_def.1 hsecret, required_of_ne hs]
    by_cases ht : ∀ type ∈ p.triggerType, type = ""
    · rw [required_of_missing _ ht]
      exact .typeMissing hsecret hs ht
    · push Not at ht
      obtain ⟨type, htype, ht⟩ := ht
      rw [Option.mem_def.1 htype, required_of_ne ht]
      exact .found hsecret hs htype ht (toList_hook ..) keeps_hook_iff

/-- Where a post to the hook of a resource leads, once it is sent. -/
structure Hooked (names : Url.Names) (resource secret type sent : String) : Prop where
  /-- A secret and a type that lead on lead two steps deeper than all hooks of the resource. -/
  deeper : Url.Upright (Url.bare secret).toList → Url.Upright (Url.bare type).toList →
    ∀ hooks, Url.prepare names (Url.join resource ["webhooks"]) [] = .ok hooks →
      Url.stepCount hooks.toList + 2 ≤ Url.stepCount sent.toList
  /-- Regular words are the last two steps, behind what is sent for the resource itself. -/
  last : Url.RegularService resource → (∀ w ∈ [secret, type], Url.Word w ∧ Url.Regular w) →
    ∃ before, (Url.prepare names resource [] = .ok (String.ofList before) ∨
        Url.prepare names resource [] = .ok (String.ofList (before ++ ['/']))) ∧
      sent.toList = before ++ "/webhooks/".toList ++ secret.toList ++ '/' :: type.toList

theorem hooked (h : Url.prepare names
      (Url.join (Url.namespaced api ns "buildconfigs" name) ["webhooks", secret, type]) [] =
        .ok sent) :
    Hooked names (Url.namespaced api ns "buildconfigs" name) secret type sent where
  deeper hs ht hooks hh := by
    have hsent := Url.stepCount_of_prepare h
    have hhooks := Url.stepCount_of_prepare hh
    rw [Url.namespaced, Url.join_join] at hsent hhooks
    have hsecret : Url.depth (Url.service api [ns, "buildconfigs", name, "webhooks"]) <
        Url.depth (Url.service api [ns, "buildconfigs", name, "webhooks", secret]) :=
      Url.depth_service_lt [ns, "buildconfigs", name, "webhooks"] hs
    have htype : Url.depth (Url.service api [ns, "buildconfigs", name, "webhooks", secret]) <
        Url.depth (Url.service api [ns, "buildconfigs", name, "webhooks", secret, type]) :=
      Url.depth_service_lt [ns, "buildconfigs", name, "webhooks", secret] ht
    calc
      Url.stepCount hooks.toList + 2
      _ = Url.depth (Url.service api [ns, "buildconfigs", name, "webhooks"]) + 2 := by
        rw [hhooks]
        rfl
      _ ≤ Url.depth (Url.service api [ns, "buildconfigs", name, "webhooks", secret, type]) := by
        omega
      _ = Url.stepCount sent.toList := hsent.symm
  last hresource hwords := by
    have hfixed : Url.Word "webhooks" ∧ Url.Regular "webhooks" := by decide +kernel
    have hall : ∀ w ∈ ["webhooks", secret, type], Url.Word w ∧ Url.Regular w :=
      List.forall_mem_cons.2 ⟨hfixed, hwords⟩
    obtain ⟨before, hbefore, hsent⟩ := Url.words_last hresource (Url.dropEndWhile_join _ _)
      (List.cons_ne_nil _ _) (fun w hw => (hall w hw).1) (fun w hw => (hall w hw).2) h
    have hslashes : "/webhooks/".toList = '/' :: ("webhooks".toList ++ ['/']) := by decide
    exact ⟨before, hbefore, by rw [hsent, hslashes]; simp [Text.joinWith]⟩

/-- Secrets that stay where they are, lead back, or end the path. -/
example : [".", "..", "#s"].map (fun secret => (Url.prepare Surroundings.bare.names
      (Url.join "http://h/x" ["webhooks", secret, "t"]) []).toOption) =
    [some "http://h/x/webhooks/t", some "http://h/x/t", some "http://h/x/webhooks/#s/t"] := by
  decide +kernel

end Trigger

namespace Operations

variable {σ : Type} {o : Operations σ}

/-- Something that the hook's address is made of is missing: the secret or the type. -/
def Unhooked (o : Operations σ) : Prop :=
  (∀ secret ∈ o.parameters.secret, secret = "") ∨ ∀ type ∈ o.parameters.triggerType, type = ""

theorem hookUrl_of_unhooked (h : o.Unhooked) :
    ∃ reason, o.hookUrl = .error (.configuration reason) := by
  rw [hookUrl]
  rcases o.address_cases with ⟨reason, ha⟩ | ⟨ns, name, -, -, ha⟩
  · exact ⟨reason, by rw [resourceUrl_of_error ha]; rfl⟩
  · rw [resourceUrl_of_ok ha]
    change ∃ reason, Trigger.url _ o.parameters = _
    have ha := Trigger.url_addressed (Url.namespaced o.apiUrl ns "buildconfigs" name) o.parameters
    generalize Trigger.url _ o.parameters = result at ha ⊢
    cases ha with
    | secretMissing hs => exact ⟨_, rfl⟩
    | typeMissing hs hs' ht => exact ⟨_, rfl⟩
    | found hs hs' ht ht' segments keeps =>
      rcases h with h | h
      · exact absurd (h _ hs) hs'
      · exact absurd (h _ ht) ht'

/-- The request posts to the hook of the operations. -/
def PostsToHook (o : Operations σ) (s : Sent) : Prop :=
  s.method = "POST" ∧ ∃ resource url, o.resourceUrl = .ok resource ∧
    Trigger.url resource o.parameters = .ok url ∧
      Url.prepare o.executor.surroundings.names url [] = .ok s.url ∧
        ∀ secret ∈ o.parameters.secret, ∀ type ∈ o.parameters.triggerType,
          Trigger.Hooked o.executor.surroundings.names resource secret type s.url

theorem trigger_posts (o : Operations σ) (t : WebHookTrigger) :
    Run.Sends o.PostsToHook (o.trigger t) := by
  refine trigger_sends fun resource url text hr hu _ r demand hp => ?_
  have hmethod := (prepare_eq_ok hp).1
  have hurl := url_of_prepare hp
  refine ⟨hmethod.trans Upload.upper_post, resource, url, hr, hu, hurl, fun secret hs type ht => ?_⟩
  obtain ⟨ns, name, -, -, rfl⟩ := place_of_resourceUrl hr
  obtain ⟨_, _, hs', ht', rfl⟩ := Trigger.url_eq_ok hu
  cases hs.symm.trans hs'
  cases ht.symm.trans ht'
  exact Trigger.hooked hurl

/-- Whatever comes of the address of a hook, it keeps secret and type just if neither is nothing but
slashes. If one is missing, that is told and nothing is sent; all else that is sent is posted to the
hook. -/
theorem hook_addressed (o : Operations σ) (t : WebHookTrigger) (service : Service) (w : World σ) :
    (∀ resource, Trigger.Addressed resource o.parameters (Trigger.url resource o.parameters)) ∧
      (o.Unhooked →
        ∃ reason, o.trigger t service w = (.error (.client (.configuration reason)), w)) ∧
      ∃ trace, (o.trigger t service w).2.sent = w.sent ++ trace ∧ ∀ s ∈ trace, o.PostsToHook s := by
  refine ⟨fun resource => Trigger.url_addressed resource _, fun h => ?_,
    trigger_posts o t service w⟩
  obtain ⟨reason, hu⟩ := hookUrl_of_unhooked h
  exact ⟨reason, by rw [trigger_eq, Run.bind_of_error (Run.ofClient_of_error hu)]⟩

/-- A hook without a secret. -/
def secretless : Operations Unit :=
  ⟨⟨none, true, none, none, .bare⟩, "http://h", some "ns", some "app",
    { Parameters.empty with triggerType := some "generic" }, none⟩

theorem hook_addressed_secretless :
    secretless.Unhooked ∧
      (∀ resource, Trigger.Addressed resource secretless.parameters
        (Trigger.url resource secretless.parameters)) ∧
      ∃ reason, secretless.trigger ⟨none, none, []⟩ obliging (.start ()) =
        (.error (.client (.configuration reason)), .start ()) := by
  have hmissing : secretless.Unhooked := .inl nofun
  obtain ⟨haddressed, hrefused, -⟩ :=
    hook_addressed secretless ⟨none, none, []⟩ obliging (.start ())
  exact ⟨hmissing, haddressed, hrefused hmissing⟩

/-- A hook whose secret is a slash. -/
def slashed : Operations Unit := secretless.withSecret "/"

/-- No secret is missing, and none is in the address that is posted to. -/
theorem slashed_loses_secret :
    Trigger.url "http://h/x" slashed.parameters = .ok "http://h/x/webhooks/generic" ∧
      ¬ Trigger.Keeps "http://h/x" "/" "generic" "http://h/x/webhooks/generic" ∧
      (slashed.trigger ⟨none, none, []⟩ obliging (.start ())).2.sent.map
          (fun s => (s.method, s.url)) =
        [("POST", "http://h/apis/build.openshift.io/v1/namespaces/ns/buildconfigs/app" ++
          "/webhooks/generic")] := by
  have hjoin :
      Url.join "http://h/x" ["webhooks", "/", "generic"] = "http://h/x/webhooks/generic" := by
    decide +kernel
  have hbare : Url.bare "/" = "" := by decide
  exact ⟨congrArg Except.ok hjoin, fun h => h.secret_ne hbare, by decide +kernel⟩

end Operations

end BuildClient
