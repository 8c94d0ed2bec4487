import BuildClient.Failure

/-!
What is reported while the client works.
-/

namespace BuildClient.Log

/-- The weight of an event; greater is more urgent. -/
abbrev Severity := Int

def debug : Severity := 10

def info : Severity := 20

def warning : Severity := 30

def error : Severity := 40

def critical : Severity := 50

/-- The parts of the client that report, under one root. -/
inductive Source where
  | transport
  | resources
  | reaper
  | trigger
  | uploader
  | operations
  | cli
deriving DecidableEq, Repr

def Source.name : Source → String
  | transport => "buildconfig_operations.transport"
  | resources => "buildconfig_operations.resources"
  | reaper => "buildconfig_operations.reaper"
  | trigger => "buildconfig_operations.trigger"
  | uploader => "buildconfig_operations.uploader"
  | operations => "buildconfig_operations.operations"
  | cli => "buildconfig_operations.cli"

structure Event where
  severity : Severity
  source : Source
  message : String
  details : Dictionary Json.Value
  /-- The failure that is reported along. -/
  failure : Option ClientError

end BuildClient.Log
