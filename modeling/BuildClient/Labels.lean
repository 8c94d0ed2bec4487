import BuildClient.Dictionary
import BuildClient.Text.Split

/-!
Labels tie objects together and select them. A label value has a length limit.
-/

namespace BuildClient.Labels

open Text

/-- Labels as a selector, in order. -/
def selector (labels : Dictionary String) : String :=
  String.ofList (joinWith ',' (labels.map fun p => p.1.toList ++ '=' :: p.2.toList))

/-- Cuts a selector at `,` and each piece at its first `=`. -/
def readSelector (s : String) : List (String × Option String) :=
  (splitAt ',' s.toList).map fun piece =>
    (String.ofList (cutFirst '=' piece).1, (cutFirst '=' piece).2.map String.ofList)

def maxLength : Nat := 63

/-- The start of a name that a label value can hold. -/
def value (name : String) : String := String.ofList (name.toList.take maxLength)

end BuildClient.Labels
