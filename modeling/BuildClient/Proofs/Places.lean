import BuildClient.Proofs.Exchange
import BuildClient.Proofs.Lengths
import BuildClient.Proofs.Url.Beneath

/-!
The places that requests lead to. The steps of an address tell its place, so no two places share an
address, whatever the words in them are.
-/
namespace BuildClient

open Text Http

namespace Url

variable {api base : String} {s : List Char}

/-- What is joined adds the steps of its parts. -/
theorem splitAt_segments (s : List Char) (parts : List String) :
    splitAt '/' (s ++ (parts.map String.toList).flatMap segment) =
      splitAt '/' s ++ parts.flatMap fun part => steps part.toList := by
  induction parts generalizing s with
  | nil => simp
  | cons part parts ih =>
    rw [List.map_cons, List.flatMap_cons, ← List.append_assoc, ih, splitAt_append_segment,
      List.flatMap_cons, List.append_assoc]

/-- A configuration, the ways to start a build of it, a build and the builds of a namespace. -/
inductive Place where
  | config (ns name : String)
  | start (ns name : String)
  | upload (ns name : String)
  | hook (ns name secret type : String)
  | build (ns name : String)
  | builds (ns : String)
deriving DecidableEq, Repr

namespace Place

def url (api : String) : Place → String
  | config ns name => namespaced api ns buildConfigs name
  | start ns name => join (namespaced api ns buildConfigs name) ["instantiate"]
  | upload ns name => join (namespaced api ns buildConfigs name) [Query.instantiateBinary]
  | hook ns name secret type =>
    join (namespaced api ns buildConfigs name) ["webhooks", secret, type]
  | build ns name => namespaced api ns Url.builds name
  | builds ns => collection api ns Url.builds

/-- The words of a place that are free. -/
def words : Place → List String
  | config ns name | start ns name | upload ns name | build ns name => [ns, name]
  | hook ns name secret type => [ns, name, secret, type]
  | builds ns => [ns]

/-- The free words are there, and each is one step of a path. -/
def Proper (p : Place) : Prop := ∀ word ∈ p.words, word ≠ "" ∧ '/' ∉ word.toList

instance (p : Place) : Decidable p.Proper := inferInstanceAs (Decidable (∀ word ∈ p.words, _))

/-- The way to a place from a namespace on. -/
def way : Place → List String
  | config ns name => [ns, "buildconfigs", name]
  | start ns name => [ns, "buildconfigs", name, "instantiate"]
  | upload ns name => [ns, "buildconfigs", name, "instantiatebinary"]
  | hook ns name secret type => [ns, "buildconfigs", name, "webhooks", secret, type]
  | build ns name => [ns, "builds", name]
  | builds ns => [ns, "builds"]

/-- The steps of a place, from the address of the service. -/
def steps (p : Place) : List String :=
  ["apis", "build.openshift.io", "v1", "namespaces"] ++ p.way

theorem url_eq (api : String) (p : Place) :
    p.url api = join api (["apis", buildApiVersion, "namespaces"] ++ p.way) := by
  cases p with
  | builds ns =>
    simp [url, way, collection, namespaced, join, joinChars, segment, dropOuter_nil, Url.builds]
  | _ =>
    simp only [url, namespaced, join_join]
    rfl

theorem way_injective {p q : Place} (h : p.way = q.way) : p = q := by
  cases p <;> cases q <;> simp_all [way]

/-- The words that are not free are words too. -/
theorem word_of_mem_way {p : Place} (h : p.Proper) {word : String} (hw : word ∈ p.way) :
    word ≠ "" ∧ '/' ∉ word.toList := by
  have hfixed : ∀ word ∈ ["buildconfigs", "builds", "instantiate", "instantiatebinary", "webhooks"],
      word ≠ "" ∧ '/' ∉ word.toList := by
    decide
  have hcases : word ∈ p.words ∨
      word ∈ ["buildconfigs", "builds", "instantiate", "instantiatebinary", "webhooks"] := by
    cases p <;> simp only [way, words, List.mem_cons, List.not_mem_nil, or_false] at hw ⊢ <;> tauto
  exact hcases.elim (h word) (hfixed word)

theorem splitAt_url (api : String) {p : Place} (h : p.Proper) :
    ∃ rest, (p.url api).toList = dropEndWhile isSlash api.toList ++ rest ∧
      splitAt '/' rest = [] :: p.steps.map String.toList := by
  have hway : (p.way.flatMap fun word => Url.steps word.toList) = p.way.map String.toList := by
    rw [List.map_eq_flatMap]
    exact List.flatMap_congr fun word hw =>
      steps_of_not_mem (word_of_mem_way h hw).2 (word_of_mem_way h hw).1
  -- The version is one part of an address and two steps of it.
  have hfixed :
      ["apis", buildApiVersion, "namespaces"].flatMap (fun word => Url.steps word.toList) =
        ["apis", "build.openshift.io", "v1", "namespaces"].map String.toList := by
    decide
  refine ⟨_, by rw [url_eq, join, String.toList_ofList, joinChars], ?_⟩
  rw [← List.nil_append (List.flatMap _ _), splitAt_segments, List.flatMap_append, hway, hfixed,
    steps, List.map_append]
  rfl

/-- The steps of an address tell its place. -/
theorem url_injective {p q : Place} (hp : p.Proper) (hq : q.Proper) (h : p.url api = q.url api) :
    p = q := by
  obtain ⟨rest, hrest, hsplit⟩ := splitAt_url api hp
  obtain ⟨rest', hrest', hsplit'⟩ := splitAt_url api hq
  rw [h, hrest'] at hrest
  obtain rfl := List.append_cancel_left hrest
  rw [hsplit'] at hsplit
  have hsteps := List.map_injective_iff.2 (fun _ _ => String.toList_inj.1) (List.cons.inj hsplit).2
  exact (way_injective (List.append_cancel_left hsteps)).symm

end Place

/-- The address of all that is in a namespace. -/
def namespaceUrl (api ns : String) : String := join api ["apis", buildApiVersion, "namespaces", ns]

def Place.ns : Place → String
  | config ns _ | start ns _ | upload ns _ | hook ns _ _ _ | build ns _ | builds ns => ns

theorem Place.beneath (api : String) (p : Place) : Beneath (namespaceUrl api p.ns) (p.url api) := by
  have hway : ∃ plural more, p.way = p.ns :: plural :: more ∧
      dropOuter isSlash plural.toList ≠ [] := by
    cases p
    case build | builds => exact ⟨"builds", _, rfl, by decide⟩
    all_goals exact ⟨"buildconfigs", _, rfl, by decide⟩
  obtain ⟨plural, more, hway, hplural⟩ := hway
  rw [url_eq, hway, namespaceUrl]
  exact @beneath_join api plural ["apis", buildApiVersion, "namespaces", p.ns] hplural more

/-- Every place is beneath the first step that the service has of its own. -/
theorem Place.beneath_service (api : String) (p : Place) :
    Beneath (join api ["apis"]) (p.url api) :=
  .of_append (p.beneath api)

end Url

/-- A request goes to the address of its draft. -/
theorem Http.url_of_prepare {e : Executor} {d : Draft} {r : Request} (h : e.prepare d = .ok r) :
    Url.prepare e.surroundings.names d.url d.params = .ok r.url := by
  rw [Executor.prepare] at h
  obtain ⟨listed, -, h⟩ := bind_eq_ok.1 h
  obtain ⟨url, hu, h⟩ := bind_eq_ok.1 h
  obtain ⟨-, -, h⟩ := bind_eq_ok.1 h
  obtain ⟨lines, -, h⟩ := bind_eq_ok.1 h
  obtain rfl := Except.ok.inj h
  exact hu

namespace Operations

open Url

variable {σ : Type} {o : Operations σ} {ns name : String}

/-- Where the operations on a configuration lead. -/
structure Leads (o : Operations σ) (ns name : String) : Prop where
  resource : o.resourceUrl = .ok ((Place.config ns name).url o.apiUrl)
  start : ∀ request : BuildRequest, Run.Sends
    (fun s => Url.prepare o.executor.surroundings.names ((Place.start ns name).url o.apiUrl) [] =
      .ok s.url)
    (o.instantiate request)
  upload : ∀ p, Query.instantiateUrl ((Place.config ns name).url o.apiUrl) p =
    (Place.upload ns name).url o.apiUrl ++ "?" ++ Query.write p
  hook : ∀ (p : Parameters) (secret type : String), p.secret = some secret →
    p.triggerType = some type → secret ≠ "" → type ≠ "" →
    Trigger.url ((Place.config ns name).url o.apiUrl) p =
      .ok ((Place.hook ns name secret type).url o.apiUrl)
  build : ∀ ns name, (BuildStore.deleteDraft o.apiUrl ns name).url =
    (Place.build ns name).url o.apiUrl
  builds : ∀ ns labels, (BuildStore.listDraft o.apiUrl ns labels).url =
    (Place.builds ns).url o.apiUrl

theorem leads (hns : o.ns = some ns) (hname : o.name = some name) (hns' : ns ≠ "")
    (hname' : name ≠ "") : o.Leads ns name := by
  have hresource := resourceUrl_eq hns hname hns' hname'
  refine ⟨hresource, fun request => ?_, fun _ => rfl, ?_, fun _ _ => rfl, fun _ _ => rfl⟩
  · refine .ofClient_bind fun resource hr => serialize_bind fun text _ => ?_
    obtain rfl := Except.ok.inj (hresource.symm.trans hr)
    refine .bind (.fetch _ fun r demand hp => ?_) fun _ => .of_silent fun _ _ => rfl
    have hu := url_of_prepare hp
    rwa [Place.url, buildConfigs, Executor.entry]
  · intro p secret type hsecret htype hsecret' htype'
    rw [Trigger.url, hsecret, htype, Trigger.required_of_ne hsecret', Trigger.required_of_ne htype']
    rfl

/-- The address of a configuration is that of its place. -/
theorem place_of_resourceUrl {url : String} (h : o.resourceUrl = .ok url) :
    ∃ ns name, o.ns = some ns ∧ o.name = some name ∧
      url = (Url.Place.config ns name).url o.apiUrl := by
  rcases o.address_cases with ⟨reason, ha⟩ | ⟨ns, name, ⟨hns, -⟩, ⟨hname, -⟩, ha⟩
  · rw [resourceUrl_of_error ha] at h
    cases h
  · rw [resourceUrl_of_ok ha] at h
    exact ⟨ns, name, hns, hname, (Except.ok.inj h).symm⟩

/-- The address of a webhook is that of a place beside its configuration. -/
theorem place_of_hookUrl {api url : String} {p : Parameters}
    (h : Trigger.url ((Url.Place.config ns name).url api) p = .ok url) :
    ∃ secret type, url = (Url.Place.hook ns name secret type).url api := by
  obtain ⟨secret, type, -, -, hurl⟩ := Trigger.url_eq_ok h
  exact ⟨secret, type, hurl⟩

/-- The address of an upload is that of a place, with a query behind it. -/
theorem beneath_instantiateUrl (api ns name : String) (p : Parameters) :
    Url.Beneath (Url.namespaceUrl api ns)
      (Query.instantiateUrl ((Url.Place.config ns name).url api) p) := by
  have hplace := (Url.Place.beneath api (.upload ns name)).append ("?" ++ Query.write p)
  rw [← String.append_assoc] at hplace
  exact hplace

/-- An address, cut at the slashes behind that of the service, gives the steps of its place. So the
places of a service never share an address, and this is where the operations on a configuration
lead. -/
theorem addresses_apart (api : String) :
    (∀ p : Place, p.Proper → ∃ rest, (p.url api).toList = dropEndWhile isSlash api.toList ++ rest ∧
        splitAt '/' rest = [] :: p.steps.map String.toList) ∧
      (∀ p q : Place, p.Proper → q.Proper → (p.url api = q.url api ↔ p = q)) ∧
      ∀ (o : Operations σ) ns name, o.apiUrl = api → o.ns = some ns → o.name = some name →
        (Place.config ns name).Proper → o.Leads ns name := by
  refine ⟨fun p => Place.splitAt_url api, fun p q hp hq => ?_, ?_⟩
  · exact ⟨Place.url_injective hp hq, congrArg _⟩
  · rintro o ns name - hns hname hproper
    exact leads hns hname (hproper ns (by simp [Place.words])).1
      (hproper name (by simp [Place.words])).1

/-- A webhook with words for its names, at an address with slashes at its end. -/
theorem addresses_apart_words :
    (∃ rest, (Place.url "http://h//" (.hook "builds" "instantiate" "webhooks" "apis")).toList =
        dropEndWhile isSlash "http://h//".toList ++ rest ∧
      splitAt '/' rest = [] :: ["apis", "build.openshift.io", "v1", "namespaces", "builds",
        "buildconfigs", "instantiate", "webhooks", "webhooks", "apis"].map String.toList) ∧
    Place.url "http://h//" (.start "a" "builds") ≠ Place.url "http://h//" (.upload "a" "builds") ∧
    Leads ⟨⟨none, true, none, none, .bare⟩, "http://h//", some "a", some "builds", .empty,
      (none : Option (BuildStore Unit))⟩ "a" "builds" := by
  obtain ⟨hsplit, hapart, hleads⟩ := @addresses_apart Unit "http://h//"
  exact ⟨hsplit (.hook "builds" "instantiate" "webhooks" "apis") (by decide),
    mt (hapart _ _ (by decide) (by decide)).1 (by decide), hleads _ _ _ rfl rfl rfl (by decide)⟩

end Operations

end BuildClient
