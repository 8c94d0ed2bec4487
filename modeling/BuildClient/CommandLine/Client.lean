import BuildClient.CommandLine.Report

/-!
The command line of the client: starting, triggering and deleting builds.
-/

namespace BuildClient.CommandLine

open Arguments

inductive Task where
  | instantiate
  /-- The file to upload, if it is not the input, and the settings in turn. -/
  | startBinary (file : Option String) (changes : List Operations.Change)
  | trigger (secret type : String)
  | delete
deriving DecidableEq, Repr

/-- What the words ask for. -/
structure Invocation where
  ns : Option String
  name : String
  task : Task
deriving DecidableEq, Repr

/-- The settings of an upload by the names of their values. -/
def uploadSettings : List (String × TextSetting) :=
  [("message", .message), ("author_name", .authorName), ("author_email", .authorEmail),
   ("committer_name", .committerName), ("committer_email", .committerEmail), ("commit", .commit),
   ("as_file", .asFile)]

def uploadChanges (values : Dictionary String) : List Operations.Change :=
  .binary ::
    (uploadSettings.filterMap fun s =>
      (values.get? s.1).map fun v => .parameter (.text s.2 (some v))) ++
    ((values.get? "timeout_ms").bind Numeral.readInt?).toList.map fun i =>
      .parameter (.timeout (some (.int i)) .milliseconds)

def taskOf (command : String) (values : Dictionary String) : Task :=
  if command = "start-binary" then .startBinary (values.get? "from_file") (uploadChanges values)
  else if command = "trigger" then
    .trigger ((values.get? "secret").getD "") ((values.get? "trigger_type").getD "generic")
  else if command = "delete" then .delete
  else .instantiate

/-- Reads the words: first those of the program, then those of the command. What neither takes is
refused by the program. -/
def readWords (words : List String) : Except (Grammar × Stop) Invocation := do
  let outer ← (parse client words).mapError (client, ·)
  let (command, rest) := outer.command.getD ("", [])
  let grammar := commandGrammar command
  let inner ← (parse grammar rest).mapError (grammar, ·)
  (refuseExtras (outer.extras ++ inner.extras)).mapError (client, ·)
  pure ⟨outer.values.get? "namespace", (inner.values.get? "name").getD "",
    taskOf command inner.values⟩

/-- The operations of an invocation; an empty namespace is none. -/
def operationsFor (s : Settings) (around : Http.Surroundings) (i : Invocation) : Operations Unit :=
  let o := (Operations.ofSettings s around).apply (.name (some i.name))
  match Reaper.filled? i.ns with
  | some ns => o.apply (.ns (some ns))
  | none => o

def started (b : Build) : Finish := .line 0 ("Started build " ++ printed b.metadata.name)

/-- A request that says nothing but the name. -/
def plainRequest (name : String) : BuildRequest := ⟨none, none, .named name, []⟩

def perform (m : Machine) (o : Operations Unit) (i : Invocation) : Run Unit Finish :=
  match i.task with
  | .instantiate => do
    let build ← o.instantiate (plainRequest i.name)
    pure (started build)
  | .startBinary file changes => do
    let o := o.applyAll changes
    let build ← match Reaper.filled? file with
      | some path => o.fromFile m.files (Path.read path)
      | none => o.fromStream m.input
    pure (started build)
  | .trigger secret type => do
    let o := o.applyAll
      [.parameter (.text .secret (some secret)), .parameter (.text .triggerType (some type))]
    o.trigger ⟨some secret, none, []⟩
    pure (.line 0 ("Triggered build config " ++ i.name))
  | .delete => do
    let found ← o.delete
    pure (if found then .line 0 ("Deleted build config " ++ i.name ++ " and its builds")
      else .errorLine 3 ("Build config " ++ i.name ++ " not found"))

/-- Bad input ends with code two and is printed too, every other failure of the client with one. -/
def settleFailure (e : ClientError) : Run Unit Finish :=
  match e.family with
  | .configuration => do
    Run.note Log.error .cli e.text []
    pure (.errorLine 2 e.text)
  | _ => do
    Run.report ⟨Log.error, .cli, "Command failed", [], some e⟩
    pure ⟨1, "", ""⟩

/-- The program of the client. -/
def runClient (m : Machine) (words : List String) : Report :=
  match readWords words with
  | .error (g, stop) => .ofStop g stop
  | .ok i =>
    match Settings.load m.env m.file with
    | .error ds =>
      .early (.exit 2) ""
        ("Configuration error (check your .env):\n" ++ Settings.summary ds ++ "\n")
    | .ok s =>
      withLogging s m.service
        ((perform m (operationsFor s m.surroundings i) i).recoverClient settleFailure)

end BuildClient.CommandLine
