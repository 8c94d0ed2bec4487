import BuildClient.Proofs.Naming
import BuildClient.Proofs.Twins

/-! The token of the operations: it is on every request that they send, and nothing that they tell
or record depends on it. -/
namespace BuildClient

open Http

variable {σ : Type} {t₁ t₂ : Option String} {l₁ l₂ : Headers}

namespace Upload

variable {e : Executor} {api resource : String} {p : Parameters} {source : Source} {length : ℤ}

theorem executorFor_twins (e : Executor) (p : Parameters) :
    Paired (fun e₁ e₂ => ∃ e' : Executor, e'.surroundings = e.surroundings ∧
        e₁ = e'.withToken t₁ ∧ e₂ = e'.withToken t₂)
      (executorFor (e.withToken t₁) p) (executorFor (e.withToken t₂) p) := by
  rw [executorFor, executorFor]
  split
  · exact .ok ⟨e, rfl, rfl, rfl⟩
  · split
    · exact .ok ⟨e.withTimeout (some (.real _)), rfl, rfl, rfl⟩
    · exact .error _

theorem prepare_twins (h : e.surroundings.Authorizes api t₁ t₂ l₁ l₂)
    (hu : Url.Beneath (Url.join api ["apis"]) (Query.instantiateUrl resource p)) :
    Paired (Request.Twins l₁ l₂) (prepare (e.withToken t₁) resource p source length)
      (prepare (e.withToken t₂) resource p source length) := by
  have hfree : Headers.Free headers := by decide
  have hd : (⟨"POST", Query.instantiateUrl resource p, [], headers,
      .stream (.ofSource source)⟩ : Draft).Discreet api := ⟨hu, hfree⟩
  have hp := Http.prepare_twins h hd
  rw [prepare, prepare]
  generalize (e.withToken t₁).prepare _ = x₁ at hp
  generalize (e.withToken t₂).prepare _ = x₂ at hp
  cases hp with
  | error x => exact .error x
  | ok h =>
    refine .ok ?_
    split
    · exact h
    · exact h.declareLength length

theorem upload_twins (h : e.surroundings.Authorizes api t₁ t₂ l₁ l₂)
    (hu : Url.Beneath (Url.join api ["apis"]) (Query.instantiateUrl resource p)) :
    Run.Twins l₁ l₂ (upload (e.withToken t₁) resource p source length : Run σ Build)
      (upload (e.withToken t₂) resource p source length) := by
  refine .ofForeign_bind (executorFor_twins e p) ?_
  rintro _ _ ⟨e', he, rfl, rfl⟩
  refine .ofForeign_bind (prepare_twins (he ▸ h) hu) fun r₁ r₂ hr => ?_
  rw [hr.url, hr.method]
  refine .bind (.note _ _ _ _) fun _ => ?_
  refine .bind (.recoverClient (send_twins hr) fun _ => .throw _) fun answer => ?_
  refine .bind (accept_twins answer _ _) fun _ => .bind (.ofClient _) fun build => ?_
  exact .bind (.note _ _ _ _) fun _ => .pure build

end Upload

namespace Operations

variable {o : Operations σ} {url : String}

def withToken (o : Operations σ) (token : Option String) : Operations σ :=
  { o with executor := o.executor.withToken token }

/-- The address of the configuration is found without the token. -/
theorem resourceUrl_bind_twins {α : Type} {f₁ f₂ : String → Run σ α}
    (hf : ∀ ns name, Run.Twins l₁ l₂ (f₁ ((Url.Place.config ns name).url o.apiUrl))
      (f₂ ((Url.Place.config ns name).url o.apiUrl))) :
    Run.Twins l₁ l₂ (Run.ofClient (o.withToken t₁).resourceUrl >>= f₁)
      (Run.ofClient (o.withToken t₂).resourceUrl >>= f₂) := by
  refine .ofClient_bind fun url hu => ?_
  obtain ⟨ns, name, -, -, rfl⟩ := place_of_resourceUrl hu
  exact hf ns name

theorem discreet_of_place (p : Url.Place) {d : Draft} (hu : d.url = p.url o.apiUrl)
    (hfree : Headers.Free d.headers) : d.Discreet o.apiUrl :=
  ⟨hu ▸ p.beneath_service o.apiUrl, hfree⟩

section Twins

variable (h : o.executor.surroundings.Authorizes o.apiUrl t₁ t₂ l₁ l₂)
include h

theorem get_twins : Run.Twins l₁ l₂ (o.withToken t₁).get (o.withToken t₂).get := by
  refine .recoverClient (resourceUrl_bind_twins fun ns name => ?_) fun x => ?_
  · exact .bind (fetch_twins _ h (discreet_of_place (.config ns name) rfl nofun)) fun _ => .pure _
  · split
    · exact .pure none
    · exact .throw x

theorem instantiate_twins (q : BuildRequest) :
    Run.Twins l₁ l₂ ((o.withToken t₁).instantiate q) ((o.withToken t₂).instantiate q) := by
  refine resourceUrl_bind_twins fun ns name => .bind (.ofClient _) fun body => ?_
  have hfree : Headers.Free [("Content-Type", "application/json")] := by decide
  refine .bind (fetch_twins _ h (discreet_of_place (.start ns name) rfl hfree)) fun build => ?_
  exact .bind (.note _ _ _ _) fun _ => .pure build

theorem trigger_twins (t : WebHookTrigger) :
    Run.Twins l₁ l₂ ((o.withToken t₁).trigger t) ((o.withToken t₂).trigger t) := by
  refine resourceUrl_bind_twins fun ns name => ?_
  have hfree : Headers.Free Trigger.headers := by decide
  refine .ofClient_bind fun hook hu => .bind (.note _ _ _ _) fun _ => ?_
  obtain ⟨secret, type, rfl⟩ := place_of_hookUrl hu
  refine .bind (.ofClient _) fun body => .bind (call_twins h ?_) fun _ => .pure ()
  exact discreet_of_place (.hook ns name secret type) rfl hfree

theorem fromStream_twins (source : Source) :
    Run.Twins l₁ l₂ ((o.withToken t₁).fromStream source) ((o.withToken t₂).fromStream source) :=
  resourceUrl_bind_twins fun ns name => Upload.upload_twins h
    (.of_append (beneath_instantiateUrl o.apiUrl ns name o.parameters))

theorem fromFile_twins (files : Files) (path : Path) :
    Run.Twins l₁ l₂ ((o.withToken t₁).fromFile files path)
      ((o.withToken t₂).fromFile files path) := by
  refine resourceUrl_bind_twins fun ns name => .bind (.ofForeign _) fun found => ?_
  cases found with
  | none => exact .throw _
  | some file =>
    exact Upload.upload_twins h
      (.of_append (beneath_instantiateUrl o.apiUrl ns name o.parameters))

theorem deleteSelf_twins (ns name : String) :
    Run.Twins l₁ l₂ ((o.withToken t₁).deleteSelf ((Url.Place.config ns name).url o.apiUrl))
      ((o.withToken t₂).deleteSelf ((Url.Place.config ns name).url o.apiUrl)) := by
  have hd := @discreet_of_place σ o (.config ns name) (deletion o.apiUrl ns "buildconfigs" name) rfl
    nofun
  refine .recoverClient (.bind (call_twins h hd) fun _ => .pure true) fun x => ?_
  split
  · exact .bind (.note _ _ _ _) fun _ => .pure false
  · exact .throw x

variable (hb : ∀ store ∈ o.builds, store.Aside)
include hb

theorem store_twins : BuildStore.Twins l₁ l₂ (o.withToken t₁).store (o.withToken t₂).store := by
  change BuildStore.Twins l₁ l₂ (o.builds.getD (.remote (o.executor.withToken t₁) o.apiUrl))
    (o.builds.getD (.remote (o.executor.withToken t₂) o.apiUrl))
  cases hs : o.builds with
  | none => exact remote_twins h
  | some store => exact (hb store hs).twins

theorem delete_twins : Run.Twins l₁ l₂ (o.withToken t₁).delete (o.withToken t₂).delete := by
  refine resourceUrl_bind_twins fun ns name => ?_
  refine .bind (deleteSelf_twins h ns name) fun deleted => ?_
  split
  · exact .bind (Reaper.deleteBuilds_twins (store_twins h hb) _ _) fun _ => .pure true
  · exact .pure false

end Twins

/-- What can be asked of operations. -/
inductive Call where
  | get
  | instantiate (request : BuildRequest)
  | trigger (hook : WebHookTrigger)
  | fromStream (source : Source)
  | fromFile (files : Files) (path : Path)
  | delete
  | deleteBuilds (ns : String) (name : Option String)

/-- What operations tell if they do not fail. -/
inductive Answer where
  | found (config : Option BuildConfig)
  | started (build : Build)
  | fired
  | deleted (found : Bool)
  | reaped (keys : List String)

def ask (o : Operations σ) : Call → Run σ Answer
  | .get => Answer.found <$> o.get
  | .instantiate request => Answer.started <$> o.instantiate request
  | .trigger hook => (fun _ => Answer.fired) <$> o.trigger hook
  | .fromStream source => Answer.started <$> o.fromStream source
  | .fromFile files path => Answer.started <$> o.fromFile files path
  | .delete => Answer.deleted <$> o.delete
  | .deleteBuilds ns name => Answer.reaped <$> Reaper.deleteBuilds o.store ns name

/-- What is asked in turn, each time of operations that were changed. What is asked next may depend
on all that was told so far, failures too. -/
inductive Script where
  | stop
  | step (changes : List Change) (call : Call) (next : Except Failure Answer → Script)

def Script.run (o : Operations σ) : Script → Run σ (List (Except Failure Answer))
  | stop => pure []
  | step changes call next => do
    let told ← Run.attempt ((o.applyAll changes).ask call)
    let others ← (next told).run o
    pure (told :: others)

theorem withToken_applyAll (o : Operations σ) (token : Option String) (changes : List Change) :
    (o.withToken token).applyAll changes = (o.applyAll changes).withToken token := by
  induction changes generalizing o with
  | nil => rfl
  | cons change changes ih =>
    have hstep : (o.withToken token).apply change = (o.apply change).withToken token := by
      cases change <;> rfl
    change ((o.withToken token).apply change).applyAll changes = _
    rw [hstep, ih]
    rfl

/-- A change touches neither the address of the service nor the store. -/
theorem applyAll_fixed (o : Operations σ) (changes : List Change) :
    (o.applyAll changes).apiUrl = o.apiUrl ∧ (o.applyAll changes).builds = o.builds := by
  induction changes generalizing o with
  | nil => exact ⟨rfl, rfl⟩
  | cons change changes ih =>
    obtain ⟨hurl, hbuilds⟩ := ih (o.apply change)
    cases change <;> exact ⟨hurl, hbuilds⟩

/-- Nor does it touch the executor. -/
theorem executor_applyAll (o : Operations σ) (changes : List Change) :
    (o.applyAll changes).executor = o.executor := by
  induction changes generalizing o with
  | nil => rfl
  | cons change changes ih =>
    refine (ih (o.apply change)).trans ?_
    cases change <;> rfl

theorem ask_twins (h : o.executor.surroundings.Authorizes o.apiUrl t₁ t₂ l₁ l₂)
    (hb : ∀ store ∈ o.builds, store.Aside) (call : Call) :
    Run.Twins l₁ l₂ ((o.withToken t₁).ask call) ((o.withToken t₂).ask call) := by
  cases call with
  | get => exact .map _ (get_twins h)
  | instantiate request => exact .map _ (instantiate_twins h request)
  | trigger hook => exact .map _ (trigger_twins h hook)
  | fromStream source => exact .map _ (fromStream_twins h source)
  | fromFile files path => exact .map _ (fromFile_twins h files path)
  | delete => exact .map _ (delete_twins h hb)
  | deleteBuilds ns name =>
    exact .map _ (Reaper.deleteBuilds_twins (store_twins h hb) ns name)

theorem run_twins (h : o.executor.surroundings.Authorizes o.apiUrl t₁ t₂ l₁ l₂)
    (hb : ∀ store ∈ o.builds, store.Aside) (script : Script) :
    Run.Twins l₁ l₂ (script.run (o.withToken t₁)) (script.run (o.withToken t₂)) := by
  induction script with
  | stop => exact .pure []
  | step changes call next ih =>
    obtain ⟨hurl, hbuilds⟩ := o.applyAll_fixed changes
    have hexecutor := o.executor_applyAll changes
    refine .bind (.attempt ?_) fun told => .bind (ih told) fun others => .pure _
    rw [withToken_applyAll, withToken_applyAll]
    exact ask_twins (by rwa [hurl, hexecutor]) (hbuilds ▸ hb) call

/-- Operations on a configuration, for nobody yet. -/
def unclaimed : Operations Unit :=
  ⟨⟨none, true, none, none, .bare⟩, "http://h", some "ns", some "app", .empty, none⟩

/-- The same from a machine that lists a user for the host. -/
def listed : Operations Unit :=
  let lists location : Except Foreign (Option Url.Credentials) :=
    .ok (if location = ['h'] then some ⟨"u", "p"⟩ else none)
  { unclaimed with executor := ⟨none, true, none, none, ⟨.ascii, lists⟩⟩ }

/-- A configuration is deleted with its builds, and then looked for. -/
def farewell : Script := .step [] .delete fun _ => .step [] .get fun _ => .stop

end Operations

end BuildClient
