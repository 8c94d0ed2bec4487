import BuildClient.CommandLine.Report

/-!
A sample of how the operations are used: a build from an archive, with its own command line.
-/

namespace BuildClient.CommandLine

open Arguments

/-- Five minutes. -/
def sampleTimeout : Binary64 := Binary64.ofNat 5

/-- The settings of the upload. -/
def sampleChanges (values : Dictionary String) : List Operations.Change :=
  let minutes := ((values.get? "timeout_minutes").bind Numeral.readReal?).getD sampleTimeout
  [.binary, .parameter (.text .message (some ((values.get? "message").getD ""))),
   .parameter (.timeout (some (.real minutes)) .minutes)]

def performSample (m : Machine) (o : Operations Unit) (archive : String) : Run Unit Finish := do
  let build ← o.fromFile m.files (Path.read archive)
  pure (.line 0 ("Started build " ++ printed build.metadata.name ++ " in " ++
    printed build.metadata.ns))

/-- The program of the sample. Failures of the client are printed; wrong settings are not taken
care of. -/
def runSample (m : Machine) (words : List String) : Report :=
  match (do
    let st ← parse sample words
    refuseExtras st.extras
    pure st.values) with
  | .error stop => .ofStop sample stop
  | .ok values =>
    match Settings.load m.env m.file with
    | .error ds => .early (.settings ds) "" ""
    | .ok s =>
      let o : Operations Unit := (Operations.ofSettings s m.surroundings).applyAll
        (.name (some ((values.get? "build_config").getD "")) :: sampleChanges values)
      withLogging s m.service
        ((performSample m o ((values.get? "archive").getD "")).recoverClient fun e =>
          pure (.line 1 e.text))

end BuildClient.CommandLine
