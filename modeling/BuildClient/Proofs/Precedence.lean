import BuildClient.Proofs.Invocation
import BuildClient.Proofs.Places

/-! What is given on the command line goes before what stands in for it, unless it is empty. -/
namespace BuildClient

open Http

variable {σ α : Type} {e : Executor} {api ns name : String}

/-- The place of the configuration, one beside it, or that of the builds of its namespace. -/
def Url.Place.Concerns (ns name : String) : Place → Prop
  | config n m | start n m | upload n m | hook n m _ _ => n = ns ∧ m = name
  | builds n => n = ns
  | build .. => False

/-- What stands behind a place: nothing, or the query of an upload. -/
def Query.Behind (query : String) : Prop := query = "" ∨ ∃ p, query = "?" ++ Query.write p

/-- The request goes to a place that concerns the configuration. -/
def Http.Sent.Concerns (names : Url.Names) (api ns name : String) (s : Sent) : Prop :=
  ∃ place : Url.Place, place.Concerns ns name ∧ ∃ query params, Query.Behind query ∧
    Url.prepare names (place.url api ++ query) params = .ok s.url

/-- The request deletes a build, wherever the service says that it is. -/
def Http.Sent.DeletesBuild (names : Url.Names) (api : String) (s : Sent) : Prop :=
  s.method = "DELETE" ∧
    ∃ ns name, Url.prepare names ((Url.Place.build ns name).url api) [] = .ok s.url

theorem Http.concerns_entry (place : Url.Place) {d : Draft} {r : Request} (demand : Demand)
    (hplace : place.Concerns ns name) (h : e.prepare d = .ok r) (hd : d.url = place.url api) :
    (e.entry r demand).Concerns e.surroundings.names api ns name := by
  refine ⟨place, hplace, "", d.params, .inl rfl, ?_⟩
  rw [String.append_empty, ← hd]
  exact url_of_prepare h

namespace Operations

variable {o : Operations σ} {url : String}

theorem config_of_resourceUrl (hns : o.ns = some ns) (hname : o.name = some name)
    (h : o.resourceUrl = .ok url) : url = (Url.Place.config ns name).url o.apiUrl := by
  obtain ⟨ns', name', hns', hname', hurl⟩ := place_of_resourceUrl h
  obtain rfl := Option.some.inj (hns.symm.trans hns')
  obtain rfl := Option.some.inj (hname.symm.trans hname')
  exact hurl

theorem sends_instantiate_concerns (hns : o.ns = some ns) (hname : o.name = some name)
    (q : BuildRequest) :
    Run.Sends (Sent.Concerns o.executor.surroundings.names o.apiUrl ns name) (o.instantiate q) := by
  refine instantiate_sends fun resource text hr _ r demand hp => ?_
  obtain rfl := config_of_resourceUrl hns hname hr
  exact concerns_entry (.start ns name) demand ⟨rfl, rfl⟩ hp rfl

theorem sends_trigger_concerns (hns : o.ns = some ns) (hname : o.name = some name)
    (t : WebHookTrigger) :
    Run.Sends (Sent.Concerns o.executor.surroundings.names o.apiUrl ns name) (o.trigger t) := by
  refine trigger_sends fun resource url text hr hu _ r demand hp => ?_
  obtain rfl := config_of_resourceUrl hns hname hr
  obtain ⟨secret, type, rfl⟩ := place_of_hookUrl hu
  exact concerns_entry (.hook ns name secret type) demand ⟨rfl, rfl⟩ hp rfl

theorem uploadEnters_concerns (hns : o.ns = some ns) (hname : o.name = some name) (source : Source)
    (length : ℤ) :
    o.UploadEnters (Sent.Concerns o.executor.surroundings.names o.apiUrl ns name) source
      length := by
  intro resource e r demand located requested
  obtain rfl := config_of_resourceUrl hns hname located
  obtain ⟨htimed, hprepared⟩ := Upload.request_eq_ok_iff.1 requested
  obtain ⟨r₀, hr₀, hr⟩ := Upload.prepare_eq_ok hprepared
  have hurl : r.url = r₀.url := by
    rw [hr]
    split <;> rfl
  refine ⟨.upload ns name, ⟨rfl, rfl⟩, "?" ++ Query.write o.parameters, [], .inr ⟨_, rfl⟩, ?_⟩
  have hsent := url_of_prepare hr₀
  rw [Upload.surroundings_of_executorFor htimed] at hsent
  rw [Executor.entry, hurl, ← String.append_assoc]
  exact hsent

theorem sends_fromStream_concerns (hns : o.ns = some ns) (hname : o.name = some name)
    (source : Source) :
    Run.Sends (Sent.Concerns o.executor.surroundings.names o.apiUrl ns name)
      (o.fromStream source) :=
  fromStream_sends (uploadEnters_concerns hns hname source _)

theorem sends_fromFile_concerns (hns : o.ns = some ns) (hname : o.name = some name) (files : Files)
    (path : Path) :
    Run.Sends (Sent.Concerns o.executor.surroundings.names o.apiUrl ns name)
      (o.fromFile files path) :=
  fromFile_sends fun file _ => uploadEnters_concerns hns hname file.source _

theorem sends_delete_concerns (hb : o.builds = none) (hns : o.ns = some ns)
    (hname : o.name = some name) :
    Run.Sends (fun q => q.Concerns o.executor.surroundings.names o.apiUrl ns name ∨
      q.DeletesBuild o.executor.surroundings.names o.apiUrl) o.delete := by
  refine delete_sends (fun resource hr r demand hp => .inl ?_) ?_
  · obtain rfl := config_of_resourceUrl hns hname hr
    exact concerns_entry (.config ns name) demand ⟨rfl, rfl⟩ hp rfl
  · rw [store, hb, hns, Option.getD_none]
    refine BuildStore.remote_reaping_sends (fun labels r demand hp => ?_)
      (fun ns' name' _ _ r demand hp => ?_) o.name
    · exact .inl (concerns_entry (.builds ns) demand rfl hp rfl)
    · obtain ⟨hm, -, hu⟩ := prepare_plain (deletion_plain o.apiUrl ns' "builds" name') hp
      exact .inr ⟨hm, ns', name', hu⟩

/-- With a namespace, only the name can be missing. -/
theorem resourceUrl_placed {x : ClientError} (hns : o.ns = some ns) (hns' : ns ≠ "")
    (h : o.resourceUrl = .error x) : x = .configuration .nameMissing := by
  rw [resourceUrl, address, hns, Trigger.required_of_ne hns'] at h
  rcases Trigger.required_cases o.name .nameMissing with hr | ⟨name, -, -, hr⟩
  · rw [hr] at h
    cases h
    rfl
  · rw [hr] at h
    cases h

end Operations

theorem Misuse.fileMissing_message_ne (path : String) :
    (fileMissing path).message ≠ namespaceMissing.message := by
  intro h
  change "Can't instantiate binary build from " ++ path ++ ": the file does not exist" =
    "A namespace is required for build config operations" at h
  have hl := congrArg String.length h
  rw [String.length_append, String.length_append] at hl
  have hlong : "A namespace is required for build config operations".length <
      "Can't instantiate binary build from ".length + ": the file does not exist".length := by
    decide +kernel
  omega

/-- Nothing tells that a namespace is missing. -/
def Failure.Placed (x : Failure) : Prop :=
  ∀ reason, x = .client (.configuration reason) → reason.message ≠ Misuse.namespaceMissing.message

theorem Failure.After.placed {outcome : Outcome} {x : Failure} (h : x.After outcome) :
    x.Placed := by
  rintro reason rfl
  cases h with
  | client hfar => exact absurd (.configuration reason) hfar

theorem Http.placed_of_ready {d : Draft} {x : Failure} (h : e.ready d = .error x) : x.Placed := by
  obtain ⟨y, -, rfl⟩ := ready_eq_error_iff.1 h
  exact nofun

theorem Failure.placed_of_mapError_foreign {x : Failure} {r : Except Foreign α}
    (h : r.mapError Failure.foreign = .error x) : x.Placed := by
  obtain ⟨y, -, rfl⟩ := mapError_eq_error.1 h
  exact nofun

theorem Failure.placed_of_encoded {x : Failure} {m : Model α} {a : α}
    {f : String → Except Failure (Executor × Request)} (hf : ∀ body, f body = .error x → x.Placed)
    (h : (((m.encode a).mapError (.unencodable m.title)).mapError Failure.client >>= f) =
      .error x) : x.Placed := by
  rcases bind_eq_error.1 h with h | ⟨body, -, h⟩
  · obtain ⟨y, hy, rfl⟩ := mapError_eq_error.1 h
    obtain ⟨z, -, rfl⟩ := mapError_eq_error.1 hy
    exact nofun
  · exact hf body h

namespace Run.Ends

variable {m : Run σ α} {before : Except Failure (Executor × Request)} {service : Service}

theorem placed_of_settles (h : m.Settles before) (hb : ∀ x, before = .error x → x.Placed) :
    m.Ends service Failure.Placed :=
  .of_settles (fun _ _ hx => hx.placed) h hb

end Run.Ends

namespace Operations

variable {o : Operations σ} {service : Service}

theorem placed_of_located {β : Type} {f : String → Except Failure β} {x : Failure}
    (hns : o.ns = some ns) (hns' : ns ≠ "") (hf : ∀ url, f url = .error x → x.Placed)
    (h : (o.resourceUrl.mapError Failure.client >>= f) = .error x) : x.Placed := by
  rcases bind_eq_error.1 h with h | ⟨url, -, h⟩
  · obtain ⟨y, hy, rfl⟩ := mapError_eq_error.1 h
    obtain rfl := resourceUrl_placed hns hns' hy
    rintro _ ⟨⟩
    decide
  · exact hf url h

theorem instantiate_placed (hns : o.ns = some ns) (hns' : ns ≠ "") (q : BuildRequest) :
    (o.instantiate q).Ends service Failure.Placed :=
  .placed_of_settles (o.instantiate_settles q) fun _ => placed_of_located hns hns' fun _ =>
    Failure.placed_of_encoded (m := Model.buildRequest) fun _ => placed_of_ready

theorem trigger_placed (hns : o.ns = some ns) (hns' : ns ≠ "") (t : WebHookTrigger) :
    (o.trigger t).Ends service Failure.Placed := by
  refine .placed_of_settles (trigger_settles t) fun x => placed_of_located hns hns' fun url h => ?_
  rcases bind_eq_error.1 h with h | ⟨hook, -, h⟩
  · obtain ⟨y, hy, rfl⟩ := mapError_eq_error.1 h
    rw [Trigger.url] at hy
    rcases bind_eq_error.1 hy with hy | ⟨secret, -, hy⟩
    · rcases Trigger.required_cases o.parameters.secret .secretMissing with hr | ⟨s, -, -, hr⟩
      · cases hr.symm.trans hy
        rintro _ ⟨⟩
        decide
      · cases hr.symm.trans hy
    · rcases bind_eq_error.1 hy with hy | ⟨type, -, hy⟩
      · rcases Trigger.required_cases o.parameters.triggerType .triggerTypeMissing with
          hr | ⟨s, -, -, hr⟩
        · cases hr.symm.trans hy
          rintro _ ⟨⟩
          decide
        · cases hr.symm.trans hy
      · cases hy
  · exact Failure.placed_of_encoded (m := Model.webHookTrigger) (fun _ => placed_of_ready) h

theorem fromStream_placed (hns : o.ns = some ns) (hns' : ns ≠ "") (source : Source) :
    (o.fromStream source).Ends service Failure.Placed :=
  .placed_of_settles (fromStream_settles source) fun _ => placed_of_located hns hns' fun _ =>
    Failure.placed_of_mapError_foreign

theorem fromFile_placed (hns : o.ns = some ns) (hns' : ns ≠ "") (files : Files) (path : Path) :
    (o.fromFile files path).Ends service Failure.Placed := by
  refine .placed_of_settles (fromFile_settles files path) fun x => placed_of_located hns hns'
    fun url h => ?_
  rcases bind_eq_error.1 h with h | ⟨found, -, h⟩
  · exact Failure.placed_of_mapError_foreign h
  · cases found with
    | none =>
      cases h
      rintro _ ⟨⟩
      exact Misuse.fileMissing_message_ne path.write
    | some file => exact Failure.placed_of_mapError_foreign h

theorem delete_placed (hb : o.builds = none) (hns : o.ns = some ns) (hns' : ns ≠ "") :
    o.delete.Ends service Failure.Placed := by
  refine .bind ?_ fun url => .bind ?_ fun deleted => ?_
  · intro w x hx
    obtain ⟨y, hy, rfl⟩ := mapError_eq_error.1 hx
    obtain rfl := resourceUrl_placed hns hns' hy
    rintro _ ⟨⟩
    decide
  · exact .placed_of_settles (o.deleteSelf_settles url) fun _ => placed_of_ready
  · split
    · refine .bind ?_ fun _ => .pure _
      rw [store, hb]
      refine Reaper.ends_deleteBuilds (fun failures => ?_) (fun ns labels => ?_)
        (fun ns name => ?_) _ _
      · rintro _ ⟨⟩
      · exact .placed_of_settles (BuildStore.remote_list_settles ns labels) fun _ => placed_of_ready
      · exact .placed_of_settles (BuildStore.remote_delete_settles ns name) fun _ => placed_of_ready
    · exact .pure _

end Operations

namespace CommandLine

variable {m : Machine} {o : Operations Unit} {s : Settings} {i : Invocation} {name : String}
  {words : List String}

/-- The settings of the task touch nothing but parameters. -/
def Task.Modest : Task → Prop
  | .startBinary _ changes => ∀ c ∈ changes, c = .binary ∨ ∃ p, c = .parameter p
  | _ => True

theorem taskOf_modest (command : String) (values : Dictionary String) :
    (taskOf command values).Modest := by
  rw [taskOf]
  split
  · intro c hc
    rcases List.mem_cons.1 hc with rfl | hc
    · exact .inl rfl
    · rcases List.mem_append.1 hc with hc | hc
      · obtain ⟨setting, -, hc⟩ := List.mem_filterMap.1 hc
        obtain ⟨v, -, rfl⟩ := Option.map_eq_some_iff.1 hc
        exact .inr ⟨_, rfl⟩
      · obtain ⟨n, -, rfl⟩ := List.mem_map.1 hc
        exact .inr ⟨_, rfl⟩
  · split
    · trivial
    · split <;> trivial

theorem modest_of_readWords (h : readWords words = .ok i) : i.task.Modest := by
  obtain ⟨outer, -, h⟩ := bind_eq_ok.1 h
  obtain ⟨inner, -, h⟩ := bind_eq_ok.1 h
  obtain ⟨-, -, h⟩ := bind_eq_ok.1 h
  obtain rfl := Except.ok.inj h
  exact taskOf_modest _ _

theorem applyAll_modest {changes : List Operations.Change} (o : Operations Unit)
    (h : ∀ c ∈ changes, c = .binary ∨ ∃ p, c = .parameter p) :
    ∃ p, o.applyAll changes = { o with parameters := p } := by
  induction changes generalizing o with
  | nil => exact ⟨o.parameters, rfl⟩
  | cons c changes ih =>
    have hrest := fun o' => ih o' fun d hd => h d (List.mem_cons_of_mem c hd)
    rcases h c List.mem_cons_self with rfl | ⟨p, rfl⟩
    · exact hrest o
    · exact hrest { o with parameters := o.parameters.apply p }

/-- Whatever is asked for concerns the configuration, or else deletes a build. -/
theorem operation_concerns (m : Machine) {task : Task} (ht : task.Modest) (hb : o.builds = none)
    (hns : o.ns = some ns) (hname : o.name = some name) :
    Run.Sends (fun q => q.Concerns o.executor.surroundings.names o.apiUrl ns name ∨
        task = .delete ∧ q.DeletesBuild o.executor.surroundings.names o.apiUrl)
      (operation m o name task) := by
  cases task with
  | instantiate =>
    exact .map _ ((Operations.sends_instantiate_concerns hns hname _).mono fun _ => .inl)
  | startBinary file changes =>
    refine .map _ (.mono (fun _ => .inl) ?_)
    obtain ⟨p, hp⟩ := applyAll_modest o ht
    rw [hp]
    have hfile := @Operations.sends_fromFile_concerns _ _ _ { o with parameters := p } hns hname
    have hstream := @Operations.sends_fromStream_concerns _ _ _ { o with parameters := p } hns hname
    split
    · exact hfile _ _
    · exact hstream _
  | trigger secret type =>
    refine .map _ (.mono (fun _ => .inl) (Operations.sends_trigger_concerns ?_ ?_ _))
    · exact hns
    · exact hname
  | delete =>
    exact .map _ ((Operations.sends_delete_concerns hb hns hname).mono
      fun _ h => h.imp_right (⟨rfl, ·⟩))

/-- Only without a namespace it is missing. -/
theorem operation_placed (m : Machine) (name : String) {task : Task} (ht : task.Modest)
    (hb : o.builds = none) (hns : o.ns = some ns) (hns' : ns ≠ "") (service : Service) :
    (operation m o name task).Ends service Failure.Placed := by
  cases task with
  | instantiate => exact .map _ (Operations.instantiate_placed hns hns' _)
  | startBinary file changes =>
    refine .map _ ?_
    obtain ⟨p, hp⟩ := applyAll_modest o ht
    rw [hp]
    split
    · exact Operations.fromFile_placed (o := { o with parameters := p }) hns hns' _ _
    · exact Operations.fromStream_placed (o := { o with parameters := p }) hns hns' _
  | trigger secret type =>
    refine .map _ (Operations.trigger_placed ?_ hns' _)
    exact hns
  | delete => exact .map _ (Operations.delete_placed hb hns hns')

/-- Without a namespace nothing is sent, and it is told that one is missing. -/
theorem operation_unplaced {task : Task} (ht : task.Modest) (hns : o.ns = some "")
    (service : Service) (w : World Unit) :
    operation m o name task service w =
      (.error (.client (.configuration .namespaceMissing)), w) := by
  have hurl : ∀ p, ({ o with parameters := p } : Operations Unit).resourceUrl =
      .error (.configuration .namespaceMissing) := by
    intro p
    rw [Operations.resourceUrl, Operations.address, hns]
    rfl
  have hstop : ∀ {α β : Type} (p : Parameters) (f : String → Run Unit α) (g : α → β),
      (g <$> (Run.ofClient ({ o with parameters := p } : Operations Unit).resourceUrl >>= f))
        service w = (.error (.client (.configuration .namespaceMissing)), w) := by
    intro α β p f g
    rw [hurl, Run.map_apply, Run.bind_of_error (Run.ofClient_of_error rfl)]
    rfl
  cases task with
  | instantiate => exact hstop o.parameters _ _
  | startBinary file changes =>
    obtain ⟨p, hp⟩ := applyAll_modest o ht
    rw [operation, hp]
    split <;> exact hstop p _ _
  | trigger secret type => exact hstop _ _ _
  | delete => exact hstop o.parameters _ _

/-- It makes a difference to what is left whether the namespace is empty. -/
theorem reportOn_ne_of_empty (ht : i.task.Modest) {n : Log.Severity}
    (hl : Log.Setup.severity? s.logLevel = .ok n) (hns : ns ≠ "") :
    reportOn m s i ns ≠ reportOn m s i "" := by
  have hplaced := @operation_placed _ (.on s m.surroundings ns i.name) m i.name _ ht rfl rfl hns
    m.service (.start ())
  have hempty : reportOn m s i "" = Report.ofRun ⟨[Log.Setup.lineFormat], n, max n Log.warning⟩
      i.name (.error (.client (.configuration .namespaceMissing)), .start ()) := by
    rw [reportOn, Log.Setup.configure, hl,
      @operation_unplaced _ (.on s m.surroundings "" i.name) _ _ ht rfl]
  rw [hempty, reportOn, Log.Setup.configure, hl]
  dsimp only
  cases hrun : operation m (.on s m.surroundings ns i.name) i.name i.task m.service (.start ()) with
  | mk result w =>
  rw [hrun] at hplaced
  rcases result with (e | x) | u
  · intro h
    rw [Report.ofRun] at h
    split at h
    · have herrors : e.text ++ "\n" = Misuse.namespaceMissing.message ++ "\n" :=
        congrArg Report.errors h
      have htext : e.text = Misuse.namespaceMissing.message := by
        have hl := congrArg String.toList herrors
        rw [String.toList_append, String.toList_append] at hl
        exact String.toList_inj.1 (List.append_cancel_right hl)
      obtain ⟨reason, rfl⟩ : ∃ reason, e = .configuration reason := by
        cases e <;> simp_all [ClientError.family]
      exact hplaced _ rfl reason rfl htext
    · cases congrArg Report.ending h
  · exact fun h => by cases congrArg Report.ending h
  · intro h
    have hcode : (u.finish i.name).code = 2 := Ending.exit.inj (congrArg Report.ending h)
    rcases u with build | _ | found
    · cases hcode
    · cases hcode
    · cases found <;> cases hcode

/-- All that is done is done in the namespace, whatever the settings say instead. -/
structure Addresses (m : Machine) (s : Settings) (words : List String) (i : Invocation)
    (ns : String) : Prop where
  report : runClient m words = reportOn m s i ns
  independent : ∀ env file s', Settings.load env file = .ok s' → { s' with ns := s.ns } = s →
    runClient { m with env := env, file := file } words = runClient m words
  requests : ∀ q ∈ (runClient m words).sent,
    q.Concerns m.surroundings.names s.apiUrl ns i.name ∨
      i.task = .delete ∧ q.DeletesBuild m.surroundings.names s.apiUrl

/-- What is sent is in the report, whatever else is. -/
theorem sent_reportOn (m : Machine) (s : Settings) (i : Invocation) (ns : String) :
    (reportOn m s i ns).sent = [] ∨
      (reportOn m s i ns).sent = (operation m (.on s m.surroundings ns i.name) i.name i.task
        m.service (.start ())).2.sent := by
  rw [reportOn]
  split
  · exact .inr (Report.sent_ofRun _ _ _)
  · exact .inl rfl

theorem addresses_of_ne (h : readWords words = .ok i) (hv : i.ns = some ns) (hns : ns ≠ "")
    (hs : Settings.load m.env m.file = .ok s) : Addresses m s words i ns := by
  have hfilled : Reaper.filled? i.ns = some ns := hv ▸ Reaper.filled?_of_ne hns
  have hreport : runClient m words = reportOn m s i ns := by
    rw [runClient_eq h hs, hfilled]
    rfl
  refine ⟨hreport, fun env file s' hs' he => ?_, fun q hq => ?_⟩
  · have hother := @runClient_eq { m with env := env, file := file } s' i words h hs'
    rw [hother, hfilled, hreport, ← he]
    rfl
  · rw [hreport] at hq
    obtain ⟨trace, ht, hp⟩ := @operation_concerns ns (.on s m.surroundings ns i.name) i.name m _
      (modest_of_readWords h) rfl rfl rfl m.service (.start ())
    rcases sent_reportOn m s i ns with hsent | hsent
    · rw [hsent] at hq
      cases hq
    · rw [hsent, ht] at hq
      exact hp q hq

/-- A file that is named is all that is read. -/
theorem runClient_input {path : String} {changes : List Operations.Change}
    (h : readWords words = .ok i) (ht : i.task = .startBinary (some path) changes)
    (hpath : path ≠ "") (m : Machine) (input : Source) :
    runClient { m with input := input } words = runClient m words := by
  have hfilled := Reaper.filled?_of_ne hpath
  have hoperation : ∀ o : Operations Unit,
      operation { m with input := input } o i.name i.task = operation m o i.name i.task := by
    intro o
    rw [ht, operation, operation, hfilled]
  cases hs : Settings.load m.env m.file with
  | error ds =>
    rw [runClient, runClient, h]
    dsimp only
    rw [hs]
  | ok s =>
    rw [runClient_eq h hs, @runClient_eq { m with input := input } s i words h hs, reportOn,
      reportOn, hoperation]

/-- A namespace that is given is taken, and a file that is given is uploaded, if only it is not
empty. An empty namespace is as good as none, and an empty name of a file as well. -/
theorem given_options_prevail (h : readWords words = .ok i) :
    (∀ ns, i.ns = some ns → ∀ m s, Settings.load m.env m.file = .ok s →
        (ns ≠ "" → Addresses m s words i ns) ∧
        (ns = "" → runClient m words = reportOn m s i s.ns ∧
          ∀ n, Log.Setup.severity? s.logLevel = .ok n → s.ns ≠ "" →
            runClient m words ≠ reportOn m s i ns)) ∧
      ∀ path changes, i.task = .startBinary (some path) changes → ∀ m,
        (path ≠ "" → ∀ input, runClient { m with input := input } words = runClient m words) ∧
        (path = "" → ∀ s, Settings.load m.env m.file = .ok s → runClient m words =
          reportOn m s { i with task := .startBinary none changes }
            ((Reaper.filled? i.ns).getD s.ns)) := by
  constructor
  · intro ns hns m s hs
    refine ⟨fun hne => addresses_of_ne h hns hne hs, ?_⟩
    rintro rfl
    have hreport : runClient m words = reportOn m s i s.ns := by
      rw [runClient_eq h hs, hns]
      rfl
    refine ⟨hreport, fun n hl hne => ?_⟩
    rw [hreport]
    exact reportOn_ne_of_empty (modest_of_readWords h) hl hne
  · intro path changes ht m
    refine ⟨fun hpath input => runClient_input h ht hpath m input, ?_⟩
    rintro rfl s hs
    have hoperation : ∀ o : Operations Unit, operation m o i.name i.task =
        operation m o i.name (.startBinary none changes) := by
      intro o
      rw [ht]
      rfl
    rw [runClient_eq h hs, reportOn, reportOn, hoperation]

/-- A configuration in a namespace that is not the settings' own. -/
theorem given_options_prevail_team :
    readWords ["-n", "team", "delete", "app"] = .ok ⟨some "team", "app", .delete⟩ ∧
      ∃ s, Settings.load absent.env absent.file = .ok s ∧ s.ns = "default" ∧
        Addresses absent s ["-n", "team", "delete", "app"]
          ⟨some "team", "app", .delete⟩ "team" := by
  have hwords : readWords ["-n", "team", "delete", "app"] = .ok ⟨some "team", "app", .delete⟩ :=
    toOption_eq_some.1 (by decide +kernel)
  have hdefault : (Settings.load absent.env absent.file).toOption.map Settings.ns =
      some "default" := by
    decide +kernel
  obtain ⟨s, hs, hns⟩ := Option.map_eq_some_iff.1 hdefault
  have hload := toOption_eq_some.1 hs
  exact ⟨hwords, s, hload, hns,
    ((given_options_prevail hwords).1 "team" rfl absent s hload).1 (by decide)⟩

/-- With an empty namespace a configuration of the settings' own namespace is deleted, and with an
empty name of a file the input is uploaded. -/
theorem empty_options_replaced :
    (readWords ["-n", "", "delete", "app"]).toOption = some ⟨some "", "app", .delete⟩ ∧
      (runClient absent ["-n", "", "delete", "app"]).sent.map (fun q => (q.method, q.url)) =
        [("DELETE", "http://h/apis/build.openshift.io/v1/namespaces/default/buildconfigs/app")] ∧
      (readWords ["start-binary", "app", "--from-file", ""]).toOption =
        some ⟨none, "app", .startBinary (some "") [.binary]⟩ ∧
      (runClient { absent with input := .ofBytes [0x78] }
          ["start-binary", "app", "--from-file", ""]).sent.map (·.body) =
        [.stream [[0x78]] 1] := by
  decide +kernel

end CommandLine

end BuildClient
