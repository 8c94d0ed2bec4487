import BuildClient.CommandLine.Help

/-!
The two command lines: that of the client, with its commands, and that of the sample.
-/

namespace BuildClient.CommandLine

open Arguments

def versionText : String := "buildconfig-operations 0.1.0"

def nameOperand : Operand := .word "name" "Build config name"

/-- A switch with a text that may be left out. -/
def textSwitch (name target about : String) : Switch := ⟨[name], .value target .text false, about⟩

/-- The commands and what is said about each. -/
def commands : List (String × String) :=
  [("instantiate", "Start a new build from the build config's own source"),
   ("start-binary", "Start a binary build, streaming a file (or stdin) as the build input"),
   ("trigger", "Fire a webhook trigger"),
   ("delete", "Delete the build config and every build it spawned")]

def client : Grammar where
  program := "buildconfig"
  about := some "Start, trigger and clean up builds of an OpenShift BuildConfig"
  switches :=
    [helpSwitch,
     ⟨["--version"], .version, "show program's version number and exit"⟩,
     ⟨["-n", "--namespace"], .value "namespace" .text false,
      "Namespace of the build config (defaults to OPENSHIFT_NAMESPACE)"⟩]
  operand := .command "command" commands

def startBinarySwitches : List Switch :=
  [textSwitch "--from-file" "from_file" "File to upload; reads stdin when omitted",
   textSwitch "--message" "message" "Commit message",
   textSwitch "--author-name" "author_name" "Revision author name",
   textSwitch "--author-email" "author_email" "Revision author email",
   textSwitch "--committer-name" "committer_name" "Revision committer name",
   textSwitch "--committer-email" "committer_email" "Revision committer email",
   textSwitch "--commit" "commit" "Revision commit hash",
   textSwitch "--as-file" "as_file"
    "Name the server stores the upload under (instead of extracting an archive)",
   ⟨["--timeout-ms"], .value "timeout_ms" .whole false,
    "Read/write timeout for the upload in milliseconds"⟩]

def triggerSwitches : List Switch :=
  [⟨["--secret"], .value "secret" .text true, "Webhook secret"⟩,
   textSwitch "--type" "trigger_type" "Webhook type, e.g. generic | github | gitlab"]

def switchesOf (command : String) : List Switch :=
  if command = "start-binary" then startBinarySwitches
  else if command = "trigger" then triggerSwitches
  else []

/-- What may follow a command. -/
def commandGrammar (command : String) : Grammar where
  program := client.program ++ " " ++ command
  about := none
  switches := helpSwitch :: switchesOf command
  operand := nameOperand

def sample : Grammar where
  program := "basic_usage.py"
  about := some "Start a binary build (programmatic example)."
  switches :=
    [helpSwitch,
     ⟨["--build-config"], .value "build_config" .text true, "Build config name"⟩,
     ⟨["--archive"], .value "archive" .text true, "Archive to upload as build input"⟩,
     textSwitch "--message" "message" "Commit message recorded on the build",
     ⟨["--timeout-minutes"], .value "timeout_minutes" .real false,
      "Upload read/write timeout in minutes"⟩]
  operand := .none

end BuildClient.CommandLine
