import BuildClient.Reaper
import BuildClient.Settings.Settings
import BuildClient.Trigger
import BuildClient.Upload

/-!
What can be done with one build configuration. Its address and the settings are a value: changing
them gives a new value and leaves the old one as it was.
-/

namespace BuildClient

open Http

structure Operations (σ : Type) where
  executor : Executor
  apiUrl : String
  ns : Option String
  name : Option String
  parameters : Parameters
  /-- Where its builds are deleted, if not at the service. -/
  builds : Option (BuildStore σ)

namespace Operations

variable {σ : Type}

/-- Operations as the settings say, on no configuration yet. -/
def ofSettings (s : Settings) (around : Surroundings) : Operations σ :=
  ⟨s.executor around, s.apiUrl, some s.ns, none, .empty, none⟩

inductive Change where
  | ns (value : Option String)
  | name (value : Option String)
  | parameter (change : Parameters.Change)
  /-- The start of a chain of settings for an upload. -/
  | binary
deriving DecidableEq, Repr

def apply (o : Operations σ) : Change → Operations σ
  | .ns value => { o with ns := value }
  | .name value => { o with name := value }
  | .parameter change => { o with parameters := o.parameters.apply change }
  | .binary => o

def applyAll (o : Operations σ) (changes : List Change) : Operations σ := changes.foldl apply o

/-- The namespace and the name, both of which must be there. -/
def address (o : Operations σ) : Except ClientError (String × String) := do
  let ns ← Trigger.required o.ns .namespaceMissing
  let name ← Trigger.required o.name .nameMissing
  pure (ns, name)

def resourceUrl (o : Operations σ) : Except ClientError String :=
  o.address.map fun p => Url.namespaced o.apiUrl p.1 Url.buildConfigs p.2

/-- The configuration, or nothing if it is not there. -/
def get (o : Operations σ) : Run σ (Option BuildConfig) :=
  (do
    let url ← Run.ofClient o.resourceUrl
    let found ← o.executor.fetch Model.buildConfig ⟨"GET", url, [], [], .none⟩
    pure (some found)).recoverClient fun e => if e.isNotFound then pure none else Run.throw e

/-- Starts a build. -/
def instantiate (o : Operations σ) (request : BuildRequest) : Run σ Build := do
  let resource ← Run.ofClient o.resourceUrl
  let body ← Trigger.serialize Model.buildRequest request.withApiVersion
  let build ← o.executor.fetch Model.build
    ⟨"POST", Url.join resource ["instantiate"], [], [("Content-Type", "application/json")],
      .text body⟩
  Run.note Log.info .operations "Build instantiated"
    [("build_config", Upload.text o.name), ("build", Upload.text build.metadata.name)]
  pure build

/-- Fires the webhook. -/
def trigger (o : Operations σ) (trigger : WebHookTrigger) : Run σ Unit := do
  let resource ← Run.ofClient o.resourceUrl
  Trigger.fire o.executor resource o.parameters trigger

def fromStream (o : Operations σ) (source : Source) : Run σ Build := do
  let resource ← Run.ofClient o.resourceUrl
  Upload.fromStream o.executor resource o.parameters source

def fromFile (o : Operations σ) (files : Files) (path : Path) : Run σ Build := do
  let resource ← Run.ofClient o.resourceUrl
  Upload.fromFile o.executor resource o.parameters files path

def store (o : Operations σ) : BuildStore σ :=
  o.builds.getD (BuildStore.remote o.executor o.apiUrl)

/-- Whether the configuration was deleted; false if it is not there. -/
def deleteSelf (o : Operations σ) (url : String) : Run σ Bool :=
  (do
    let _ ← o.executor.call ⟨"DELETE", url, [], [], .none⟩
    pure true).recoverClient fun e =>
      if e.isNotFound then do
        Run.note Log.info .operations "Build config not found"
          [("namespace", Upload.text o.ns), ("build_config", Upload.text o.name)]
        pure false
      else Run.throw e

/-- Deletes the configuration, then its builds. Without a configuration no build is touched. -/
def delete (o : Operations σ) : Run σ Bool := do
  let url ← Run.ofClient o.resourceUrl
  let deleted ← o.deleteSelf url
  if deleted then
    let _ ← Reaper.deleteBuilds o.store (o.ns.getD "") o.name
    pure true
  else pure false

end Operations

end BuildClient
