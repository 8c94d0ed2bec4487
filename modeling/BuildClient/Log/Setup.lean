import BuildClient.Failure
import BuildClient.Log.Event
import BuildClient.Text.Capital

/-!
Which events are logged, and where to.
-/

namespace BuildClient.Log

open Text

/-- What logging is set to: its outputs by the kind of their format, the least weight that is
logged, and that for the network library. -/
structure Setup where
  outputs : List String
  root : Severity
  network : Severity
deriving DecidableEq, Repr

namespace Setup

/-- Before anything is set, warnings and what is worse are logged. -/
def initial (outputs : List String) : Setup := ⟨outputs, warning, 0⟩

def levels : List (String × Severity) :=
  [("CRITICAL", critical), ("FATAL", critical), ("ERROR", error), ("WARNING", warning),
   ("WARN", warning), ("INFO", info), ("DEBUG", debug), ("NOTSET", 0)]

/-- A weight by its name, in whatever case. -/
def severity? (name : String) : Except Foreign Severity :=
  match levels.lookup (upper name) with
  | some n => .ok n
  | none => .error (.unknownLevel (upper name))

/-- The format of the one output that is left after setting up. -/
def lineFormat : String := "JsonFormatter"

/-- The outputs are replaced in any case; the weights only if the name is known. The network library
never logs less than warnings. -/
def configure (s : Setup) (name : String) : Except Foreign Unit × Setup :=
  let s := { s with outputs := [lineFormat] }
  match severity? name with
  | .ok n => (.ok (), { s with root := n, network := max n warning })
  | .error e => (.error e, s)

/-- The events that are logged. -/
def visible (s : Setup) (events : List Event) : List Event :=
  events.filter fun e => s.root ≤ e.severity

end Setup

end BuildClient.Log
