import BuildClient.Text.Blank

/-!
Joining the parts of a path with exactly one slash between them.
-/

namespace BuildClient.Url

open Text

def isSlash (c : Char) : Bool := c == '/'

/-- A part without its outer slashes, behind one slash; nothing if nothing is left. -/
def segment (part : List Char) : List Char :=
  match dropOuter isSlash part with
  | [] => []
  | s => '/' :: s

def joinChars (base : List Char) (parts : List (List Char)) : List Char :=
  dropEndWhile isSlash base ++ parts.flatMap segment

def join (base : String) (parts : List String) : String :=
  String.ofList (joinChars base.toList (parts.map String.toList))

end BuildClient.Url
