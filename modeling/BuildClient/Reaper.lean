import BuildClient.Store

/-!
Deleting the builds of a build configuration. Builds carry its name twice: as a label, cut to the
length of label values and fit for selecting, and in full as an annotation. Candidates are listed by
the label and confirmed by the annotation, so that configurations whose names begin alike keep
their builds apart.
-/

namespace BuildClient.Reaper

variable {σ : Type}

/-- The key of the label and of the annotation. -/
def ownerKey : String := "openshift.io/build-config.name"

def ownedBy (name : String) (b : Build) : Bool :=
  Dictionary.get? ownerKey b.metadata.annotations == some name

/-- The builds of the configuration, in the order of the listing. -/
def matching (store : BuildStore σ) (ns name : String) : Run σ (List Build) := do
  let candidates ← store.list ns [(ownerKey, Labels.value name)]
  pure (candidates.filter (ownedBy name))

/-- Some text that is not empty. -/
def filled? (o : Option String) : Option String := o.filter fun s => !s.isEmpty

/-- The namespace and the name of a build; one that reports no namespace is in the given one. -/
def address? (ns : String) (b : Build) : Option (String × String) :=
  (filled? b.metadata.name).map fun name => ((filled? b.metadata.ns).getD ns, name)

def key (address : String × String) : String := address.1 ++ "/" ++ address.2

/-- The keys of the builds deleted so far, and the failures by key. -/
structure Tally where
  deleted : List String
  failures : Dictionary ClientError

namespace Tally

def empty : Tally := ⟨[], []⟩

def delete (t : Tally) (key : String) : Tally := { t with deleted := t.deleted ++ [key] }

def fail (t : Tally) (key : String) (e : ClientError) : Tally :=
  { t with failures := t.failures.insert key e }

end Tally

/-- Deletes one build. A failure of the client is noted and does not end the work. -/
def attempt (store : BuildStore σ) (t : Tally) (address : String × String) : Run σ Tally :=
  (do
    let found ← store.delete address.1 address.2
    pure (if found then t.delete (key address) else t)).recoverClient fun e => do
      Run.note Log.warning .reaper "Failed to delete build"
        [("build", .string (key address)), ("error", .string e.text)]
      pure (t.fail (key address) e)

def attemptAll (store : BuildStore σ) : List (String × String) → Tally → Run σ Tally
  | [], t => pure t
  | address :: rest, t => do
    let t ← attempt store t address
    attemptAll store rest t

/-- What is told at the end: the keys of the deleted builds, unless there was a failure. -/
def conclude (t : Tally) : Run σ (List String) :=
  if t.failures.isEmpty then pure t.deleted else Run.throw (.unreaped t.failures)

def reap (store : BuildStore σ) (ns name : String) : Run σ (List String) := do
  let builds ← matching store ns name
  let t ← attemptAll store (builds.filterMap (address? ns)) .empty
  Run.note Log.info .reaper "Reaped builds of build config"
    [("build_config", .string name), ("namespace", .string ns), ("deleted", .int t.deleted.length)]
  conclude t

/-- Deletes the builds of a configuration. Without a name there is nothing to do. -/
def deleteBuilds (store : BuildStore σ) (ns : String) (name : Option String) :
    Run σ (List String) :=
  match filled? name with
  | none => pure []
  | some name => reap store ns name

end BuildClient.Reaper
