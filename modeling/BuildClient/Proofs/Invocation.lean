import BuildClient.Proofs.ExitCode

/-! The report of a program that was asked for an operation is that of the operation's run. -/
namespace BuildClient

open Http

/-- Operations on a configuration, as the settings say but for the namespace. -/
def Operations.on {σ : Type} (s : Settings) (around : Surroundings) (ns name : String) :
    Operations σ :=
  ⟨s.executor around, s.apiUrl, some ns, some name, .empty, none⟩

namespace CommandLine

variable {m : Machine} {s : Settings} {i : Invocation} {words : List String}

theorem operationsFor_eq (s : Settings) (around : Surroundings) (i : Invocation) :
    operationsFor s around i = .on s around ((Reaper.filled? i.ns).getD s.ns) i.name := by
  rw [operationsFor]
  cases Reaper.filled? i.ns <;> rfl

/-- What the run of an operation leaves, if the events of some weight are logged. -/
def Report.ofRun (setup : Log.Setup) (name : String) : Except Failure Upshot × World Unit → Report
  | (.ok u, w) =>
    ⟨.exit (u.finish name).code, (u.finish name).output, (u.finish name).errors,
      setup.visible w.log, w.sent⟩
  | (.error (.client e), w) =>
    if e.family = .configuration then
      ⟨.exit 2, "", e.text ++ "\n",
        setup.visible (w.log ++ [⟨Log.error, .cli, e.text, [], none⟩]), w.sent⟩
    else
      ⟨.exit 1, "", "",
        setup.visible (w.log ++ [⟨Log.error, .cli, "Command failed", [], some e⟩]), w.sent⟩
  | (.error (.foreign x), w) => ⟨.failure (.foreign x), "", "", setup.visible w.log, w.sent⟩

theorem Report.sent_ofRun (setup : Log.Setup) (name : String)
    (r : Except Failure Upshot × World Unit) : (Report.ofRun setup name r).sent = r.2.sent := by
  obtain ⟨(e | x) | u, w⟩ := r
  · rw [Report.ofRun]
    split <;> rfl
  · rfl
  · rfl

/-- What the operation leaves that is done on a configuration in a namespace. -/
def reportOn (m : Machine) (s : Settings) (i : Invocation) (ns : String) : Report :=
  match (Log.Setup.initial []).configure s.logLevel with
  | (.ok (), setup) =>
    .ofRun setup i.name
      (operation m (.on s m.surroundings ns i.name) i.name i.task m.service (.start ()))
  | (.error f, _) => .early (.failure (.foreign f)) "" ""

/-- A failure is settled after the run. -/
theorem report_perform (setup : Log.Setup) (m : Machine) (o : Operations Unit) (i : Invocation) :
    report setup m.service ((perform m o i).recoverClient settleFailure) =
      .ofRun setup i.name (operation m o i.name i.task m.service (.start ())) := by
  have hmap := Run.map_apply (Upshot.finish i.name) (operation m o i.name i.task) m.service
    (.start ())
  rw [report, perform_eq]
  cases hrun : operation m o i.name i.task m.service (.start ()) with | mk result w =>
  rw [hrun] at hmap
  rcases result with (e | x) | u
  · rw [Run.recoverClient_of_client hmap, Report.ofRun, settleFailure]
    cases e.family <;> rfl
  · rw [Run.recoverClient_of_foreign hmap]
    rfl
  · rw [Run.recoverClient_of_ok hmap]
    rfl

/-- The namespace of the words is taken unless it is empty. -/
theorem runClient_eq (h : readWords words = .ok i) (hs : Settings.load m.env m.file = .ok s) :
    runClient m words = reportOn m s i ((Reaper.filled? i.ns).getD s.ns) := by
  rw [runClient, h]
  dsimp only
  rw [hs]
  dsimp only
  rw [withLogging, reportOn, ← operationsFor_eq]
  cases (Log.Setup.initial []).configure s.logLevel with | mk result setup =>
  cases result with
  | ok u => exact report_perform setup m _ i
  | error f => rfl

end CommandLine

end BuildClient
