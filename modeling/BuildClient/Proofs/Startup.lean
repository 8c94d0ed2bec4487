import BuildClient.Proofs.Invocation
import BuildClient.Proofs.Limits
import BuildClient.Proofs.Sources

/-!
What settings that were accepted are good for. Operations can be made of them, and these wait for a
positive time; but the program comes to its operation only if the level of logging has a known name.
-/
namespace BuildClient

open Http

variable {σ : Type} {env : Dictionary String} {file : Option String} {s : Settings}

/-- A limit of time that is greater than zero. -/
def Patient (limit : Option Number) : Prop := ∃ x, limit = some (.real x) ∧ Binary64.zero.Less x

namespace Settings

/-- Without a text the limit is ten seconds. -/
theorem less_of_readAs {text : Option String} {x : Binary64}
    (h : ReadAs Seconds (.ofNat 10) text x) : Binary64.zero.Less x := by
  cases text with
  | none =>
    rw [ReadAs] at h
    rw [h]
    exact Binary64.isPositive_iff_less.1 (by decide +kernel)
  | some t => exact h.2

theorem Reads.patient {texts : Variable → Option String} (h : Reads texts s)
    (around : Http.Surroundings) :
    Patient (s.executor around).timeout ∧ Patient (s.executor around).connectTimeout :=
  ⟨⟨_, rfl, less_of_readAs h.requestTimeout⟩, ⟨_, rfl, less_of_readAs h.connectTimeout⟩⟩

theorem reads_of_load (h : load env file = .ok s) :
    ∃ texts, Reads texts s ∧ ∃ c ∈ s.apiUrl.toList, Text.isBlank c = false := by
  obtain ⟨hreads, hblank⟩ := read_eq_ok_iff.1 h
  exact ⟨_, hreads, not_blank_iff.1 hblank⟩

end Settings

namespace Operations

/-- The executor waits for a positive time, and so do the requests of every call; only an upload may
have a timeout of its own. -/
structure Waits (o : Operations σ) : Prop where
  timeout : Patient o.executor.timeout
  connectTimeout : Patient o.executor.connectTimeout
  requests : ∀ call, Run.Sends (fun q => Patient q.connectTimeout ∧
    (o.parameters.timeout = none ∨ call.uploads = false → Patient q.timeout)) (o.ask call)

theorem waits_of_executor {o : Operations σ} (hb : o.builds = none)
    (ht : Patient o.executor.timeout) (hc : Patient o.executor.connectTimeout) : o.Waits := by
  have hbuilds : ∀ store ∈ o.builds, store.Of o.executor := by
    rw [hb]
    exact nofun
  refine ⟨ht, hc, fun call => (ask_limited hbuilds call).mono fun q hq => ?_⟩
  rw [limits] at hq
  split at hq
  · rename_i hup
    obtain ⟨own, hown, hlimits⟩ := map_eq_ok.1 hq
    obtain ⟨hconnect, htimeout⟩ := Prod.mk.inj hlimits
    refine ⟨hconnect ▸ hc, fun h => ?_⟩
    rcases h with h | h
    · rw [Parameters.timeoutSeconds, h] at hown
      obtain rfl := Except.ok.inj hown
      exact htimeout ▸ ht
    · rw [hup] at h
      cases h
  · obtain ⟨hconnect, htimeout⟩ := Prod.mk.inj (Except.ok.inj hq)
    exact ⟨hconnect ▸ hc, fun _ => htimeout ▸ ht⟩

end Operations

/-- Settings that are accepted have an address and two limits that are greater than zero. So have
operations that are made of them, whatever is changed afterwards, and their requests. -/
theorem Settings.accepted_patient (h : Settings.load env file = .ok s) :
    (∃ c ∈ s.apiUrl.toList, Text.isBlank c = false) ∧ Binary64.zero.Less s.requestTimeout ∧
      Binary64.zero.Less s.connectTimeout ∧
      ∀ around changes,
        ((Operations.ofSettings s around : Operations σ).applyAll changes).Waits := by
  obtain ⟨texts, hreads, hurl⟩ := reads_of_load h
  refine ⟨hurl, less_of_readAs hreads.requestTimeout, less_of_readAs hreads.connectTimeout,
    fun around changes => Operations.waits_of_executor ?_ ?_ ?_⟩
  · exact ((Operations.ofSettings s around).applyAll_fixed changes).2
  · rw [Operations.executor_applyAll]
    exact (hreads.patient around).1
  · rw [Operations.executor_applyAll]
    exact (hreads.patient around).2

/-- The least limit that there is, and one without end. -/
def extreme : Dictionary String :=
  [("OPENSHIFT_URL", " http://h"), ("openshift_request_timeout", " 5e-324\n"),
    ("OPENSHIFT_CONNECT_TIMEOUT", "+Infinity")]

theorem Settings.accepted_patient_extreme :
    ∃ s, load extreme none = .ok s ∧ s.requestTimeout = .finite false 1 0 ∧
      s.connectTimeout = .infinite false ∧ Binary64.zero.Less s.requestTimeout ∧
      Binary64.zero.Less s.connectTimeout ∧
      (Operations.ofSettings s .bare : Operations Unit).Waits := by
  have hlimits : (load extreme none).toOption.map (fun s => (s.requestTimeout, s.connectTimeout)) =
      some (.finite false 1 0, .infinite false) := by
    decide +kernel
  obtain ⟨s, hs, hl⟩ := Option.map_eq_some_iff.1 hlimits
  obtain ⟨hr, hc⟩ := Prod.mk.inj hl
  have hload := toOption_eq_some.1 hs
  obtain ⟨-, hrequest, hconnect, hwaits⟩ := @accepted_patient Unit extreme none s hload
  exact ⟨s, hload, hr, hc, hrequest, hconnect, hwaits .bare []⟩

namespace Log.Setup

open Text

/-- The names of the levels, in capitals. -/
def levelNames : List String :=
  ["CRITICAL", "FATAL", "ERROR", "WARNING", "WARN", "INFO", "DEBUG", "NOTSET"]

theorem isSome_lookup_levels {name : String} :
    (levels.lookup name).isSome = true ↔ name ∈ levelNames := by
  have hnames : levels.map Prod.fst = levelNames := rfl
  rw [List.lookup_isSome_iff, ← hnames, List.mem_map]
  refine exists_congr fun p => and_congr_right fun _ => ?_
  rw [beq_iff_eq, eq_comm]

theorem severity?_of_mem {name : String} (h : upper name ∈ levelNames) :
    ∃ n, severity? name = .ok n := by
  obtain ⟨n, hn⟩ := Option.isSome_iff_exists.1 (isSome_lookup_levels.2 h)
  exact ⟨n, by rw [severity?, hn]⟩

theorem severity?_of_not_mem {name : String} (h : upper name ∉ levelNames) :
    severity? name = .error (.unknownLevel (upper name)) := by
  have hnone : levels.lookup (upper name) = none :=
    Option.not_isSome_iff_eq_none.1 (mt isSome_lookup_levels.1 h)
  rw [severity?, hnone]

end Log.Setup

namespace CommandLine

open Log.Setup

variable {m : Machine} {i : Invocation} {words : List String}

theorem runClient_of_rejected {ds : List Settings.Defect} (h : readWords words = .ok i)
    (hs : Settings.load m.env m.file = .error ds) :
    runClient m words = .early (.exit 2) ""
      ("Configuration error (check your .env):\n" ++ Settings.summary ds ++ "\n") := by
  rw [runClient, h]
  dsimp only
  rw [hs]

theorem runClient_of_level {n : Log.Severity} (h : readWords words = .ok i)
    (hs : Settings.load m.env m.file = .ok s) (hn : severity? s.logLevel = .ok n) :
    runClient m words = .ofRun ⟨[lineFormat], n, max n Log.warning⟩ i.name (ran m s i) := by
  rw [runClient_eq h hs, reportOn, configure, hn, ran, operationsFor_eq]

theorem runClient_of_unknown {x : Foreign} (h : readWords words = .ok i)
    (hs : Settings.load m.env m.file = .ok s) (hx : severity? s.logLevel = .error x) :
    runClient m words = .early (.failure (.foreign x)) "" "" := by
  rw [runClient_eq h hs, reportOn, configure, hx]

/-- Settings that are rejected end the program with code two and are told. With settings that are
accepted it comes to its operation if the level of logging has a known name; if not, it ends before,
with a failure that nothing takes care of. -/
theorem startup_reaches_operation (h : readWords words = .ok i) :
    (∀ ds, Settings.load m.env m.file = .error ds → runClient m words = .early (.exit 2) ""
        ("Configuration error (check your .env):\n" ++ Settings.summary ds ++ "\n")) ∧
      ∀ s, Settings.load m.env m.file = .ok s →
        (Text.upper s.logLevel ∈ levelNames → ∃ n, severity? s.logLevel = .ok n ∧
          runClient m words =
            .ofRun ⟨[lineFormat], n, max n Log.warning⟩ i.name (ran m s i)) ∧
        (Text.upper s.logLevel ∉ levelNames → runClient m words =
          .early (.failure (.foreign (.unknownLevel (Text.upper s.logLevel)))) "" "") := by
  refine ⟨fun ds => runClient_of_rejected h, fun s hs => ⟨fun hlevel => ?_, fun hlevel => ?_⟩⟩
  · obtain ⟨n, hn⟩ := severity?_of_mem hlevel
    exact ⟨n, hn, runClient_of_level h hs hn⟩
  · exact runClient_of_unknown h hs (severity?_of_not_mem hlevel)

theorem startup_reaches_operation_absent :
    readWords ["delete", "app"] = .ok ⟨none, "app", .delete⟩ ∧
      ∃ s n, Settings.load absent.env absent.file = .ok s ∧ severity? s.logLevel = .ok n ∧
        runClient absent ["delete", "app"] = .ofRun ⟨[lineFormat], n, max n Log.warning⟩ "app"
          (ran absent s ⟨none, "app", .delete⟩) := by
  have hwords : readWords ["delete", "app"] = .ok ⟨none, "app", .delete⟩ :=
    toOption_eq_some.1 (by decide +kernel)
  have hlevel : (Settings.load absent.env absent.file).toOption.map Settings.logLevel =
      some "INFO" := by
    decide +kernel
  obtain ⟨s, hs, hl⟩ := Option.map_eq_some_iff.1 hlevel
  have hload := toOption_eq_some.1 hs
  have hknown : Text.upper s.logLevel ∈ levelNames := by
    rw [hl]
    decide +kernel
  obtain ⟨n, hn, hreport⟩ := ((@startup_reaches_operation absent _ _ hwords).2 s hload).1 hknown
  exact ⟨hwords, s, n, hload, hn, hreport⟩

/-- The failure of others that ended the program, if one did. -/
def Ending.escaped? : Ending → Option Foreign
  | .failure (.foreign x) => some x
  | _ => none

/-- A machine on which the level of logging has no known name. -/
def verbose : Machine := { absent with env := ("LOG_LEVEL", "verbose") :: absent.env }

/-- The settings are accepted, and yet the program ends before its operation and without a code. -/
theorem unknown_level_escapes :
    (readWords ["delete", "app"]).toOption = some ⟨none, "app", .delete⟩ ∧
      (Settings.load verbose.env verbose.file).toOption.map Settings.logLevel = some "verbose" ∧
      (runClient verbose ["delete", "app"]).ending.escaped? = some (.unknownLevel "VERBOSE") ∧
      (runClient verbose ["delete", "app"]).sent.length = 0 := by
  decide +kernel

end CommandLine

end BuildClient
