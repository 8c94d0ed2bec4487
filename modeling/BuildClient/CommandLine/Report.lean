import BuildClient.CommandLine.Interface
import BuildClient.Log.Setup
import BuildClient.Operations

/-!
What a program finds when it starts, and what it leaves behind when it ends.
-/

namespace BuildClient.CommandLine

open Http

/-- Everything outside the program that has a part in what it does. -/
structure Machine where
  env : Dictionary String
  /-- The text of the file of variables, if there is one. -/
  file : Option String
  files : Files
  input : Source
  surroundings : Surroundings
  service : Service

inductive Ending where
  | exit (code : Nat)
  /-- The words of the command line ended the program. -/
  | words (code : Nat)
  /-- The settings are wrong and nothing took care of it. -/
  | settings (defects : List Settings.Defect)
  /-- A failure that nothing took care of. -/
  | failure (f : Failure)

structure Report where
  ending : Ending
  output : String
  errors : String
  /-- The events that were logged. -/
  events : List Log.Event
  sent : List Sent

namespace Report

/-- An end before anything was sent. -/
def early (ending : Ending) (output errors : String) : Report := ⟨ending, output, errors, [], []⟩

/-- The end that the words ask for, or the one that wrong words lead to. -/
def ofStop (g : Arguments.Grammar) : Arguments.Stop → Report
  | .help => early (.words 0) (Arguments.helpText g) ""
  | .version => early (.words 0) (versionText ++ "\n") ""
  | .refused message =>
    early (.words 2) "" (Arguments.usageText g ++ Arguments.refusalText g message)

end Report

/-- How a task ends: the code of the exit and the lines that are printed. -/
structure Finish where
  code : Nat
  output : String
  errors : String

namespace Finish

/-- A line on the output. -/
def line (code : Nat) (s : String) : Finish := ⟨code, s ++ "\n", ""⟩

/-- A line on the error output. -/
def errorLine (code : Nat) (s : String) : Finish := ⟨code, "", s ++ "\n"⟩

end Finish

/-- Runs a task and reports what it left. Events that are below the set weight are not logged. -/
def report (setup : Log.Setup) (service : Service) (task : Run Unit Finish) : Report :=
  match task service (World.start ()) with
  | (.ok f, w) => ⟨.exit f.code, f.output, f.errors, setup.visible w.log, w.sent⟩
  | (.error e, w) => ⟨.failure e, "", "", setup.visible w.log, w.sent⟩

/-- Sets up logging, then runs a task; an unknown weight ends the program. -/
def withLogging (s : Settings) (service : Service) (task : Run Unit Finish) : Report :=
  match (Log.Setup.initial []).configure s.logLevel with
  | (.ok (), setup) => report setup service task
  | (.error f, _) => .early (.failure (.foreign f)) "" ""

/-- A name as it is printed. -/
def printed (o : Option String) : String := o.getD "None"

end BuildClient.CommandLine
