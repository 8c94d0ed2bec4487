/-!
What can be wrong with a document, and where in it.
-/

namespace BuildClient.Wire

/-- One step from a container to a value in it. -/
inductive Step where
  | key (k : String)
  | index (i : Nat)
deriving DecidableEq, Repr

inductive Problem where
  | notDocument
  | notMapping
  | notText
  | notList
  | notBoolean
  | unclearBoolean
deriving DecidableEq, Repr

def Problem.message : Problem → String
  | .notDocument | .notMapping => "Input should be an object"
  | .notText => "Input should be a valid string"
  | .notList => "Input should be a valid array"
  | .notBoolean => "Input should be a valid boolean"
  | .unclearBoolean => "Input should be a valid boolean, unable to interpret input"

structure Defect where
  path : List Step
  problem : Problem
deriving DecidableEq, Repr

/-- A value, or every defect of what should have given it. -/
abbrev Checked (α : Type) := Except (List Defect) α

namespace Checked

variable {α β : Type}

def fail (p : Problem) : Checked α := .error [⟨[], p⟩]

/-- The defects are found one step further from the root. -/
def within (s : Step) : Checked α → Checked α
  | .ok a => .ok a
  | .error ds => .error (ds.map fun d => ⟨s :: d.path, d.problem⟩)

/-- Both values, or the defects of both in order. -/
def pair : Checked α → Checked β → Checked (α × β)
  | .ok a, .ok b => .ok (a, b)
  | .ok _, .error ds => .error ds
  | .error ds, .ok _ => .error ds
  | .error ds, .error es => .error (ds ++ es)

/-- All values, or the defects of all in order. -/
def all : List (Checked α) → Checked (List α)
  | [] => .ok []
  | c :: cs => (pair c (all cs)).map fun p => p.1 :: p.2

end Checked

end BuildClient.Wire
