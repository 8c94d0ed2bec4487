import BuildClient.Http.Send
import BuildClient.Labels
import BuildClient.Url.Address

/-!
Where builds are listed and deleted.
-/

namespace BuildClient

open Http

structure BuildStore (σ : Type) where
  /-- The builds of a namespace that have all the labels. -/
  list : String → Dictionary String → Run σ (List Build)
  /-- Deletes a build by namespace and name; false if it is not there. -/
  delete : String → String → Run σ Bool

namespace BuildStore

variable {σ : Type}

def listDraft (api ns : String) (labels : Dictionary String) : Draft :=
  ⟨"GET", Url.collection api ns Url.builds, [("labelSelector", Labels.selector labels)], [], .none⟩

def deleteDraft (api ns name : String) : Draft :=
  ⟨"DELETE", Url.namespaced api ns Url.builds name, [], [], .none⟩

/-- What is gone already counts as no failure. -/
def alreadyGone (ns name : String) (e : ClientError) : Run σ Bool :=
  if e.isNotFound then do
    Run.note Log.debug .resources "Build already gone"
      [("namespace", .string ns), ("build", .string name)]
    pure false
  else Run.throw e

/-- The builds that the service holds. -/
def remote (e : Executor) (api : String) : BuildStore σ where
  list ns labels := do
    let found ← e.fetch Model.buildList (listDraft api ns labels)
    pure (found.items.getD [])
  delete ns name :=
    (do
      let _ ← e.call (deleteDraft api ns name)
      pure true).recoverClient (alreadyGone ns name)

end BuildStore

end BuildClient
