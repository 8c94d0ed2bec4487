import BuildClient.Parameters
import BuildClient.Text.Split
import BuildClient.Url.Join

/-!
The query that starts a build from an uploaded payload. Values stand as they are; whoever sets
them escapes them.
-/

namespace BuildClient.Query

open Text

def instantiateBinary : String := "instantiatebinary"

/-- The names of the revision's texts, in order. -/
def revisionNames : List (String × TextSetting) :=
  [("revision.authorName", .authorName), ("revision.authorEmail", .authorEmail),
   ("revision.committerName", .committerName), ("revision.committerEmail", .committerEmail),
   ("revision.commit", .commit)]

/-- A name with its value, unless the value is unset or empty. -/
def given? (p : Parameters) (entry : String × TextSetting) : Option (String × String) :=
  (p.text entry.2).bind fun v => if v.isEmpty then none else some (entry.1, v)

/-- The message comes first and always; the others only if they are not empty. -/
def pairs (p : Parameters) : List (String × String) :=
  ("commit", p.message.getD "") ::
    (revisionNames ++ [("asFile", TextSetting.asFile)]).filterMap (given? p)

def writePair (pair : String × String) : List Char := pair.1.toList ++ '=' :: pair.2.toList

def write (p : Parameters) : String := String.ofList (joinWith '&' ((pairs p).map writePair))

/-- Cuts a query at `&` and each piece at its first `=`. -/
def read (s : String) : List (String × Option String) :=
  (splitAt '&' s.toList).map fun piece =>
    (String.ofList (cutFirst '=' piece).1, (cutFirst '=' piece).2.map String.ofList)

/-- The address for starting a build from a payload. -/
def instantiateUrl (resource : String) (p : Parameters) : String :=
  Url.join resource [instantiateBinary] ++ "?" ++ write p

end BuildClient.Query
