import BuildClient.CommandLine.Client
import BuildClient.Proofs.Faults
import BuildClient.Proofs.LocalFirst

/-! What the code of an exit tells about the operation that the words asked for. -/
namespace BuildClient

open Http

namespace Http

/-- Only an answer that says so makes an object not there. -/
theorem Sent.found_eq_false_iff {s : Sent} {outcome : Outcome} :
    s.found outcome = .ok false ↔ ∃ a, outcome = .answer a ∧ a.status = 404 ∧ a.Readable := by
  cases outcome with
  | answer a =>
    cases hr : a.refusal s.method (some s.url) with
    | error x =>
      obtain ⟨during, hdeep, -⟩ := Response.refusal_eq_error.1 hr
      have hne : ¬ a.Readable := fun h => h during hdeep
      cases hs : a.success <;> simp [found, Response.orAbsent, hs, hr, hne]
    | ok x =>
      have hread := Response.readable_of_refusal hr
      by_cases h : a.status = 404
      · have hs : a.success = false := by simp [Response.success, h]
        simp [found, Response.orAbsent, hs, hr, h, hread]
      · cases hs : a.success <;> simp [found, Response.orAbsent, hs, hr, h]
  | fault f => simp [found]
  | foreign x => simp [found]

/-- The answer that an object is not there may also be one that cannot be read. -/
theorem Sent.found_of_absent {s : Sent} {a : Response} (h : a.status = 404) :
    s.found (.answer a) = .ok false ∨ ∃ x, s.found (.answer a) = .error (.foreign x) := by
  by_cases hread : a.Readable
  · exact .inl (found_eq_false_iff.2 ⟨a, rfl, h, hread⟩)
  · have hs : a.success = false := by simp [Response.success, h]
    rw [Response.Readable, not_forall_not] at hread
    obtain ⟨during, hdeep⟩ := hread
    exact .inr ⟨_, by rw [found, hs, if_neg Bool.false_ne_true, Response.orAbsent, hdeep.refusal]⟩

end Http

namespace Operations

variable {σ : Type} {o : Operations σ} {service : Service} {w : World σ}

/-- A deletion finds nothing just if its first request is answered so, and then that is the only
one. -/
theorem delete_cases (o : Operations σ) (service : Service) (w : World σ) :
    (∃ x, o.delete service w = (.error x, w)) ∨
      ∃ url s log, o.resourceUrl = .ok url ∧
        Issued o.executor ⟨"DELETE", url, [], [], .none⟩ s ∧
        ((s.found (service w.sent.length).outcome = .ok false ∧
            o.delete service w = (.ok false, ⟨w.sent ++ [s], log, w.store⟩)) ∨
          (s.found (service w.sent.length).outcome ≠ .ok false ∧
            (o.delete service w).1 ≠ .ok false ∧
            ∀ x, s.found (service w.sent.length).outcome = .error x →
              (o.delete service w).1 = .error x)) := by
  rw [delete]
  cases hu : o.resourceUrl with
  | error x => exact .inl ⟨_, Run.bind_of_error (Run.ofClient_of_error rfl)⟩
  | ok url =>
    rw [Run.bind_of_ok (Run.ofClient_of_ok rfl)]
    rcases o.deleteSelf_sent url service w with ⟨x, hx⟩ | ⟨s, log, hissued, hself⟩
    · exact .inl ⟨x, Run.bind_of_error hx⟩
    · refine .inr ⟨url, s, log, rfl, hissued, ?_⟩
      cases hfound : s.found (service w.sent.length).outcome with
      | error x =>
        rw [hfound] at hself
        rw [Run.bind_of_error hself]
        exact .inr ⟨by simp, by simp, fun y hy => hy⟩
      | ok found =>
        rw [hfound] at hself
        rw [Run.bind_of_ok hself]
        cases found with
        | false => exact .inl ⟨rfl, rfl⟩
        | true =>
          rw [if_pos rfl, Run.bind_pure_apply]
          refine .inr ⟨by simp, fun h => ?_, by simp⟩
          obtain ⟨keys, -, h⟩ := map_eq_ok.1 h
          cases h

end Operations

namespace CommandLine

open Arguments

variable {m : Machine} {o : Operations Unit} {name : String} {i : Invocation}
  {words : List String} {service : Service} {w : World Unit}

/-- What an operation comes to if no failure ends it. -/
inductive Upshot where
  | started (build : Build)
  | triggered
  | deleted (found : Bool)

/-- How a task ends after its operation. -/
def Upshot.finish (name : String) : Upshot → Finish
  | started build => CommandLine.started build
  | triggered => .line 0 ("Triggered build config " ++ name)
  | deleted found =>
    if found then .line 0 ("Deleted build config " ++ name ++ " and its builds")
    else .errorLine 3 ("Build config " ++ name ++ " not found")

/-- The operation that a task asks for. -/
def operation (m : Machine) (o : Operations Unit) (name : String) : Task → Run Unit Upshot
  | .instantiate => Upshot.started <$> o.instantiate (plainRequest name)
  | .startBinary file changes => Upshot.started <$>
      match Reaper.filled? file with
      | some path => (o.applyAll changes).fromFile m.files (Path.read path)
      | none => (o.applyAll changes).fromStream m.input
  | .trigger secret type => (fun _ => .triggered) <$> (o.applyAll
      [.parameter (.text .secret (some secret)),
        .parameter (.text .triggerType (some type))]).trigger
        ⟨some secret, none, []⟩
  | .delete => Upshot.deleted <$> o.delete

/-- A task is its operation, and then it ends. -/
theorem perform_eq (m : Machine) (o : Operations Unit) (i : Invocation) :
    perform m o i = Upshot.finish i.name <$> operation m o i.name i.task := by
  rw [perform]
  cases i.task with
  | startBinary file changes =>
    simp only [operation, map_eq_pure_bind, bind_assoc, pure_bind, Upshot.finish]
    cases Reaper.filled? file <;> rfl
  | _ => simp only [operation, map_eq_pure_bind, bind_assoc, pure_bind, Upshot.finish]

/-- What is wrong on this side is found before anything is sent. -/
theorem operation_early (hb : o.builds = none) {task : Task} {x : ClientError} (hlocal : x.Local)
    (hx : (operation m o name task service w).1 = .error (.client x)) :
    (operation m o name task service w).2.sent = w.sent := by
  cases task with
  | instantiate =>
    rw [operation, Run.map_apply] at hx ⊢
    exact (o.instantiate_settles _).once.early service w x hlocal (map_eq_error.1 hx)
  | startBinary file changes =>
    rw [operation, Run.map_apply] at hx ⊢
    cases hf : Reaper.filled? file with
    | some path =>
      rw [hf] at hx
      exact ((o.applyAll changes).fromFile_settles m.files (Path.read path)).once.early service w x
        hlocal (map_eq_error.1 hx)
    | none =>
      rw [hf] at hx
      exact ((o.applyAll changes).fromStream_settles m.input).once.early service w x hlocal
        (map_eq_error.1 hx)
  | trigger secret type =>
    rw [operation, Run.map_apply] at hx ⊢
    exact (Operations.trigger_settles _).once.early service w x hlocal (map_eq_error.1 hx)
  | delete =>
    rw [operation, Run.map_apply] at hx ⊢
    exact Operations.delete_early hb hlocal (map_eq_error.1 hx)

/-- Only a deletion comes to nothing, and only if its first request is answered so. -/
theorem operation_eq_missing_iff {task : Task} :
    (operation m o name task service w).1 = .ok (.deleted false) ↔
      task = .delete ∧ (o.delete service w).1 = .ok false := by
  have hother : ∀ {β : Type} (f : β → Upshot) (r : Run Unit β), (∀ b, f b ≠ .deleted false) →
      ((f <$> r) service w).1 ≠ .ok (.deleted false) := by
    intro β f r hf h
    rw [Run.map_apply, map_eq_ok] at h
    obtain ⟨b, -, hb⟩ := h
    exact hf b hb
  cases task with
  | delete =>
    rw [operation, Run.map_apply, map_eq_ok]
    constructor
    · rintro ⟨found, hfound, he⟩
      cases he
      exact ⟨rfl, hfound⟩
    · exact fun h => ⟨false, h.2, rfl⟩
  | instantiate => exact iff_of_false (hother _ _ (by simp)) (by simp)
  | startBinary file changes => exact iff_of_false (hother _ _ (by simp)) (by simp)
  | trigger secret type => exact iff_of_false (hother _ _ (by simp)) (by simp)

theorem finish_code_eq_zero_iff {u : Upshot} :
    (u.finish name).code = 0 ↔ u ≠ .deleted false := by
  rcases u with build | _ | found
  · exact iff_of_true rfl (by simp)
  · exact iff_of_true rfl (by simp)
  · cases found <;> simp [Upshot.finish, Finish.line, Finish.errorLine]

theorem finish_code_eq_three_iff {u : Upshot} :
    (u.finish name).code = 3 ↔ u = .deleted false := by
  rcases u with build | _ | found
  · exact iff_of_false (Nat.zero_ne_add_one 2) (by simp)
  · exact iff_of_false (Nat.zero_ne_add_one 2) (by simp)
  · cases found <;> simp [Upshot.finish, Finish.line, Finish.errorLine]

/-- Only what a task came to is told on the output. -/
theorem finish_output_ne_iff {u : Upshot} :
    (u.finish name).output ≠ "" ↔ u ≠ .deleted false := by
  rcases u with build | _ | found
  · simp [Upshot.finish, started, Finish.line]
  · simp [Upshot.finish, Finish.line]
  · cases found <;> simp [Upshot.finish, Finish.line, Finish.errorLine]

theorem settleFailure_apply (e : ClientError) (service : Service) (w : World Unit) :
    ∃ errors log, settleFailure e service w =
      (.ok ⟨if e.family = .configuration then 2 else 1, "", errors⟩, { w with log := log }) := by
  rw [settleFailure]
  cases hf : e.family with
  | configuration => exact ⟨_, _, rfl⟩
  | _ => exact ⟨_, _, rfl⟩

/-- The run of the operation that the words ask for, with the settings that were read. -/
def ran (m : Machine) (s : Settings) (i : Invocation) : Except Failure Upshot × World Unit :=
  operation m (operationsFor s m.surroundings i) i.name i.task m.service (.start ())

/-- All the ways in which the program can end that was asked for an operation. -/
inductive Ended (m : Machine) (i : Invocation) : Report → Prop
  | rejected {ds : List Settings.Defect} (errors : String)
      (settings : Settings.load m.env m.file = .error ds) :
      Ended m i (.early (.exit 2) "" errors)
  | unleveled {s : Settings} {x : Foreign} (settings : Settings.load m.env m.file = .ok s)
      (level : Log.Setup.severity? s.logLevel = .error x) :
      Ended m i (.early (.failure (.foreign x)) "" "")
  | done {s : Settings} {n : Log.Severity} {u : Upshot} {w : World Unit} (events : List Log.Event)
      (settings : Settings.load m.env m.file = .ok s)
      (level : Log.Setup.severity? s.logLevel = .ok n) (run : ran m s i = (.ok u, w)) :
      Ended m i ⟨.exit (u.finish i.name).code, (u.finish i.name).output,
        (u.finish i.name).errors, events, w.sent⟩
  | failed {s : Settings} {n : Log.Severity} {e : ClientError} {w : World Unit} (errors : String)
      (events : List Log.Event) (settings : Settings.load m.env m.file = .ok s)
      (level : Log.Setup.severity? s.logLevel = .ok n)
      (run : ran m s i = (.error (.client e), w)) :
      Ended m i ⟨.exit (if e.family = .configuration then 2 else 1), "", errors, events, w.sent⟩
  | leaked {s : Settings} {n : Log.Severity} {x : Foreign} {w : World Unit}
      (events : List Log.Event) (settings : Settings.load m.env m.file = .ok s)
      (level : Log.Setup.severity? s.logLevel = .ok n)
      (run : ran m s i = (.error (.foreign x), w)) :
      Ended m i ⟨.failure (.foreign x), "", "", events, w.sent⟩

theorem runClient_ended (h : readWords words = .ok i) : Ended m i (runClient m words) := by
  rw [runClient, h]
  dsimp only
  cases hs : Settings.load m.env m.file with
  | error ds => exact .rejected _ hs
  | ok s =>
    dsimp only
    rw [withLogging, Log.Setup.configure]
    cases hl : Log.Setup.severity? s.logLevel with
    | error x => exact .unleveled hs hl
    | ok n =>
      dsimp only
      rw [report, perform_eq]
      have hmap := Run.map_apply (Upshot.finish i.name)
        (operation m (operationsFor s m.surroundings i) i.name i.task) m.service (.start ())
      cases hrun : ran m s i with | mk result w =>
      rw [← ran, hrun] at hmap
      rcases result with (e | x) | u
      · obtain ⟨errors, log, he⟩ := settleFailure_apply e m.service w
        rw [Run.recoverClient_of_client hmap, he]
        exact .failed (w := w) errors _ hs hl hrun
      · rw [Run.recoverClient_of_foreign hmap]
        exact .leaked _ hs hl hrun
      · rw [Run.recoverClient_of_ok hmap]
        exact .done _ hs hl hrun

/-- The configuration's own deletion, the first request, was answered with 404. -/
def Missing (m : Machine) (s : Settings) (i : Invocation) (trace : List Sent) : Prop :=
  i.task = .delete ∧ ∃ url sent a, (operationsFor s m.surroundings i).resourceUrl = .ok url ∧
    trace.head? = some sent ∧
    Issued (operationsFor s m.surroundings i).executor ⟨"DELETE", url, [], [], .none⟩ sent ∧
    (m.service 0).outcome = .answer a ∧ a.status = 404

/-- A run that no failure of others ends finds nothing just if the first request of a deletion was
answered with 404, and then it sent no other one. -/
theorem ran_missing_iff {s : Settings} (hown : ∀ x, (ran m s i).1 ≠ .error (.foreign x)) :
    ((ran m s i).1 = .ok (.deleted false) ↔ Missing m s i (ran m s i).2.sent) ∧
      ((ran m s i).1 = .ok (.deleted false) → ∃ sent, (ran m s i).2.sent = [sent]) := by
  have hiff : (ran m s i).1 = .ok (.deleted false) ↔ i.task = .delete ∧
      ((operationsFor s m.surroundings i).delete m.service (.start ())).1 = .ok false :=
    operation_eq_missing_iff
  by_cases ht : i.task = .delete
  · have hresult : (ran m s i).1 =
        ((operationsFor s m.surroundings i).delete m.service (.start ())).1.map .deleted := by
      rw [ran, ht, operation, Run.map_apply]
    have hran :
        (ran m s i).2 = ((operationsFor s m.surroundings i).delete m.service (.start ())).2 := by
      rw [ran, ht, operation, Run.map_apply]
    rw [hiff, hran, Missing]
    simp only [ht, true_and]
    rcases (operationsFor s m.surroundings i).delete_cases m.service (.start ()) with
      ⟨x, hx⟩ | ⟨url, sent, log, hurl, hissued, ⟨hfound, hdelete⟩ | ⟨hfound, hdelete, herror⟩⟩
    · rw [hx]
      refine ⟨iff_of_false (by simp) ?_, fun h => by cases h⟩
      rintro ⟨url, sent, a, -, hsent, -⟩
      cases hsent
    · obtain ⟨a, ha, h4, -⟩ := Sent.found_eq_false_iff.1 hfound
      rw [hdelete]
      exact ⟨iff_of_true rfl ⟨url, sent, a, hurl, rfl, hissued, ha, h4⟩, fun _ => ⟨sent, rfl⟩⟩
    · refine ⟨iff_of_false hdelete ?_, fun h => absurd h hdelete⟩
      rintro ⟨-, -, a, -, -, -, ha, h4⟩
      have hanswer : (m.service (World.start ()).sent.length).outcome = .answer a := ha
      rw [hanswer] at hfound herror
      rcases Sent.found_of_absent (s := sent) h4 with habsent | ⟨x, hx⟩
      · exact hfound habsent
      · exact hown x (by rw [hresult, herror _ hx]; rfl)
  · have hnot : (ran m s i).1 ≠ .ok (.deleted false) := fun h => ht (hiff.1 h).1
    exact ⟨iff_of_false hnot fun h => ht h.1, fun h => absurd h hnot⟩

/-- What the code of an exit tells. -/
structure Truthful (m : Machine) (i : Invocation) (r : Report) (code : Nat) : Prop where
  zero : code = 0 ↔ ∃ s u, Settings.load m.env m.file = .ok s ∧ (ran m s i).1 = .ok u ∧
    u ≠ .deleted false
  three : code = 3 ↔ ∃ s, Settings.load m.env m.file = .ok s ∧ Missing m s i r.sent
  two : code = 2 ↔ (∃ ds, Settings.load m.env m.file = .error ds) ∨
    ∃ s e, Settings.load m.env m.file = .ok s ∧ (ran m s i).1 = .error (.client e) ∧
      e.family = .configuration
  one : code = 1 ↔ ∃ s e, Settings.load m.env m.file = .ok s ∧
    (ran m s i).1 = .error (.client e) ∧ e.family ≠ .configuration
  output : r.output ≠ "" ↔ code = 0
  unsent : code = 2 → r.sent = []
  single : code = 3 → ∃ sent, r.sent = [sent]

/-- A configuration error is found before anything is sent. -/
theorem unsent_of_configuration {s : Settings} {e : ClientError}
    (h : (ran m s i).1 = .error (.client e)) (he : e.family = .configuration) :
    (ran m s i).2.sent = [] := by
  have hlocal : e.Local := by
    cases e <;> simp [ClientError.family] at he
    exact .configuration _
  have hb : (operationsFor s m.surroundings i).builds = none := by
    rw [operationsFor]
    cases Reaper.filled? i.ns <;> rfl
  exact operation_early hb hlocal h

theorem Ended.truthful {r : Report} {code : Nat} (h : Ended m i r) (hcode : r.ending = .exit code) :
    Truthful m i r code := by
  cases h with
  | rejected errors settings =>
    cases hcode
    constructor <;> simp [settings, Report.early]
  | unleveled settings level => cases hcode
  | @done s n u w events settings level run =>
    cases hcode
    obtain ⟨hmissing, hsingle⟩ := ran_missing_iff (m := m) (i := i) (s := s) (by simp [run])
    rw [run] at hmissing hsingle
    have hthree : (u.finish i.name).code = 3 ↔ Missing m s i w.sent := by
      rw [finish_code_eq_three_iff, ← hmissing, Except.ok.injEq]
    -- A finish has no other code, which rules out the errors below.
    have hcode : (u.finish i.name).code = 0 ∨ (u.finish i.name).code = 3 := by
      rw [finish_code_eq_zero_iff, finish_code_eq_three_iff]
      exact (em _).symm
    constructor
    · simp [settings, run, finish_code_eq_zero_iff]
    · simp [settings, hthree]
    · simp [settings, run]
      omega
    · simp [settings, run]
      omega
    · rw [finish_output_ne_iff, finish_code_eq_zero_iff]
    · intro h
      omega
    · intro h
      exact hsingle (congrArg _ (finish_code_eq_three_iff.1 h))
  | @failed s n e w errors events settings level run =>
    cases hcode
    obtain ⟨hmissing, -⟩ := ran_missing_iff (m := m) (i := i) (s := s) (by simp [run])
    rw [run] at hmissing
    have hnot : ¬ Missing m s i w.sent := fun h => by cases hmissing.2 h
    have hunsent : e.family = .configuration → w.sent = [] := by
      have hw := @unsent_of_configuration m i s e
      rw [run] at hw
      exact hw rfl
    by_cases he : e.family = .configuration
    · rw [hunsent he] at hnot ⊢
      constructor <;> simp [settings, run, he, hnot]
    · constructor <;> simp [settings, run, he, hnot]
  | leaked events settings level run => cases hcode

/-- A code is returned just if the settings are rejected, or their level is known and no failure of
others ends the operation. It is zero if the operation came to something, three if the configuration
was not there, two if something is wrong on this side and nothing was sent, and one for every other
failure of the client. -/
theorem exit_code_truthful (h : readWords words = .ok i) :
    ((∃ code, (runClient m words).ending = .exit code) ↔
        ∀ s, Settings.load m.env m.file = .ok s →
          (∃ n, Log.Setup.severity? s.logLevel = .ok n) ∧
            ∀ x, (ran m s i).1 ≠ .error (.foreign x)) ∧
      ∀ code, (runClient m words).ending = .exit code →
        Truthful m i (runClient m words) code := by
  have hended := runClient_ended (m := m) h
  refine ⟨?_, fun code => hended.truthful⟩
  generalize runClient m words = r at hended
  cases hended with
  | rejected errors settings => simp [settings, Report.early]
  | unleveled settings level => simp [settings, level, Report.early]
  | done events settings level run => simp [settings, level, run]
  | failed errors events settings level run => simp [settings, level, run]
  | leaked events settings level run => simp [settings, level, run]

/-- A machine whose service knows nothing. -/
def absent : Machine :=
  ⟨[("OPENSHIFT_URL", "http://h")], none, fun _ => .ok none, .ofBytes [], .bare,
    fun _ => ⟨.all, .answer ⟨404, none, [], 990⟩⟩⟩

theorem exit_code_truthful_absent :
    readWords ["delete", "app"] = .ok ⟨none, "app", .delete⟩ ∧
      (runClient absent ["delete", "app"]).ending = .exit 3 ∧
      Truthful absent ⟨none, "app", .delete⟩ (runClient absent ["delete", "app"]) 3 := by
  have hwords : readWords ["delete", "app"] = .ok ⟨none, "app", .delete⟩ := by
    have h : (readWords ["delete", "app"]).toOption = some ⟨none, "app", .delete⟩ := by
      decide +kernel
    cases hr : readWords ["delete", "app"] with
    | error x =>
      rw [hr] at h
      cases h
    | ok i =>
      rw [hr] at h
      exact congrArg _ (Option.some.inj h)
  have hcode : (runClient absent ["delete", "app"]).ending = .exit 3 := by
    have h : (match (runClient absent ["delete", "app"]).ending with
        | .exit code => code == 3
        | _ => false) = true := by
      decide +kernel
    split at h
    · rename_i code he
      rw [he, eq_of_beq h]
    · cases h
  exact ⟨hwords, hcode, (exit_code_truthful hwords).2 3 hcode⟩

end CommandLine

end BuildClient
