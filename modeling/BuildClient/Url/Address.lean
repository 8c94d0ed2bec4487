import BuildClient.Url.Join
import BuildClient.Wire.Document

/-!
Where the objects of the build service are found.
-/

namespace BuildClient.Url

def builds : String := "builds"

def buildConfigs : String := "buildconfigs"

/-- A collection in a namespace, or the object of that name in it. Empty parts leave no trace. -/
def namespaced (api ns plural name : String) : String :=
  join api ["apis", buildApiVersion, "namespaces", ns, plural, name]

def collection (api ns plural : String) : String := namespaced api ns plural ""

end BuildClient.Url
