import BuildClient.Proofs.Arguments
import BuildClient.Proofs.Invocation

/-! A binary build that is started from the command line is the one that the operations start with
the values that were given. -/
namespace BuildClient

open Http

namespace Arguments

/-- The value of the last entry that was given in some way. -/
def last? (p : Option String → Bool) : List Entry → Option String
  | [] => none
  | e :: entries => (last? p entries).or (if p e.spelling then some e.value else none)

variable {p : Option String → Bool} {entries : List Entry} {target value : String}

theorem mem_of_last? (h : last? p entries = some value) :
    ∃ e ∈ entries, p e.spelling = true ∧ e.value = value := by
  induction entries with
  | nil => cases h
  | cons e entries ih =>
    rw [last?] at h
    cases hl : last? p entries with
    | none =>
      rw [hl, Option.none_or] at h
      split at h
      · exact ⟨e, List.mem_cons_self, ‹_›, Option.some.inj h⟩
      · cases h
    | some v =>
      obtain ⟨e', he', hp, hv⟩ := ih (hl.trans (by rw [← h, hl]; rfl))
      exact ⟨e', List.mem_cons_of_mem e he', hp, hv⟩

/-- What a target holds is what was last given in the ways that lead to it. -/
theorem get?_values (h : ∀ e ∈ entries, e.target = target ↔ p e.spelling = true) :
    Dictionary.get? target (Entry.values entries) = last? p entries := by
  rw [Entry.values, Dictionary.get?_eq_getLast? (Dictionary.nodup_ofPairs _),
    Dictionary.getLast?_ofPairs]
  induction entries with
  | nil => rfl
  | cons e entries ih =>
    rw [List.map_cons, Dictionary.getLast?_cons, last?,
      ih fun e' he' => h e' (List.mem_cons_of_mem e he')]
    refine congrArg _ (if_congr ?_ rfl rfl)
    rw [← h e List.mem_cons_self]
    exact eq_comm

theorem last?_of_mem {e : Entry} (he : e ∈ entries) (hp : p e.spelling = true) :
    (last? p entries).isSome = true := by
  induction entries with
  | nil => cases he
  | cons e' entries ih =>
    rw [last?, Option.isSome_or, Bool.or_eq_true]
    rcases List.mem_cons.1 he with rfl | he
    · rw [if_pos hp]
      exact .inr rfl
    · exact .inl (ih he)

/-- Where the value of a switch belongs. -/
def Switch.target? (s : Switch) : Option String :=
  match s.effect with
  | .value target _ _ => some target
  | _ => none

/-- Some spellings lead to a target, and no others do. -/
def Grammar.Leads (g : Grammar) (spelled : String → Bool) (target : String) : Prop :=
  ∀ q ∈ g.spellings, ∀ t ∈ q.2.target?, t = target ↔ spelled q.1 = true

instance (g : Grammar) (spelled : String → Bool) (target : String) :
    Decidable (g.Leads spelled target) :=
  inferInstanceAs
    (Decidable (∀ q ∈ g.spellings, ∀ t ∈ q.2.target?, t = target ↔ spelled q.1 = true))

variable {g : Grammar} {spelled : String → Bool} {operand : Option String}

theorem get?_of_leads (hk : ∀ e ∈ entries, e.Known g operand) (hs : g.Leads spelled target)
    (hop : operand ≠ some target) :
    Dictionary.get? target (Entry.values entries) = last? (·.any spelled) entries := by
  refine get?_values fun e he => ?_
  cases hk e he with
  | @operand t value h =>
    refine iff_of_false ?_ Bool.false_ne_true
    rintro rfl
    exact hop h
  | @switch s name t value kind required hmem effect accepted =>
    exact hs _ hmem t (by rw [Switch.target?, effect]; rfl)

theorem get?_operand (hk : ∀ e ∈ entries, e.Known g (some target))
    (hs : g.Leads (fun _ => false) target) :
    Dictionary.get? target (Entry.values entries) = last? Option.isNone entries := by
  refine get?_values fun e he => ?_
  cases hk e he with
  | operand h => exact iff_of_true (Option.some.inj h).symm rfl
  | @switch s name t value kind required hmem effect accepted =>
    exact hs _ hmem t (by rw [Switch.target?, effect]; rfl)

/-- Where an operand is asked for, one is given. -/
theorem Given.exists_operand {items : List Item} (h : Given (some target) items entries) :
    ∃ e ∈ entries, e.spelling = none := by
  generalize hop : some target = operand at h
  induction h with
  | nil => cases hop
  | attached takes explicit accepted others ih =>
    obtain ⟨e, he, hnone⟩ := ih hop
    exact ⟨e, List.mem_cons_of_mem _ he, hnone⟩
  | next takes explicit accepted others ih =>
    obtain ⟨e, he, hnone⟩ := ih hop
    exact ⟨e, List.mem_cons_of_mem _ he, hnone⟩
  | operand others => exact ⟨_, List.mem_cons_self, rfl⟩
  | dashes others ih => exact ih hop

end Arguments

theorem Parameters.withText_none {p : Parameters} {t : TextSetting} (h : p.text t = none) :
    p.withText none t = p := by
  obtain ⟨⟩ := p
  cases t <;> cases h <;> rfl

namespace CommandLine

open Arguments

variable {words : List String} {i : Invocation}

/-- What the words of a line say: the values before the command, the command, and its values. -/
structure Line where
  before : List Entry
  command : String
  given : List Entry
deriving DecidableEq, Repr

namespace Line

/-- The words up to the command are those of the program, and all others those of the command. -/
def Says (words : List String) (l : Line) : Prop :=
  ∃ before after items, client.readAll words = .ok (before ++ .word l.command :: after) ∧
    Given none before l.before ∧
    (commandGrammar l.command).readAll (after.map Item.text) = .ok items ∧
    Given (some "name") items l.given

/-- Words say one thing. -/
theorem Says.unique {l l' : Line} (h : l.Says words) (h' : l'.Says words) : l = l' := by
  obtain ⟨before, after, items, hread, hbefore, hitems, hgiven⟩ := h
  obtain ⟨before', after', items', hread', hbefore', hitems', hgiven'⟩ := h'
  obtain ⟨rfl, hcommand, rfl⟩ := hbefore.split_unique hbefore'
    (Except.ok.inj (hread.symm.trans hread'))
  rw [← hcommand] at hitems'
  obtain rfl := Except.ok.inj (hitems.symm.trans hitems')
  obtain ⟨before, command, given⟩ := l
  obtain ⟨before', command', given'⟩ := l'
  rw [Line.mk.injEq]
  exact ⟨hbefore.unique hbefore', hcommand, hgiven.unique hgiven'⟩

/-- The value that was last given under some spelling. -/
def value? (l : Line) (option : String) : Option String := last? (·.any (· == option)) l.given

def name? (l : Line) : Option String := last? Option.isNone l.given

def ns? (l : Line) : Option String :=
  last? (·.any fun s => s == "-n" || s == "--namespace") l.before

/-- Every option has a parameter of its own; one that is not given leaves its parameter unset. -/
def parameters (l : Line) : Parameters where
  secret := none
  triggerType := none
  authorName := l.value? "--author-name"
  authorEmail := l.value? "--author-email"
  committerName := l.value? "--committer-name"
  committerEmail := l.value? "--committer-email"
  commit := l.value? "--commit"
  message := l.value? "--message"
  asFile := l.value? "--as-file"
  timeout := ((l.value? "--timeout-ms").bind Numeral.readInt?).map .int
  timeoutUnit := .milliseconds

/-- The operations as the settings say, on the name and in the namespace of the line. -/
def operations (s : Settings) (around : Surroundings) (l : Line) : Operations Unit :=
  let o := (Operations.ofSettings s around).apply (.name l.name?)
  let o := match l.ns? with
    | some ns => o.apply (.ns (some ns))
    | none => o
  { o with parameters := l.parameters }

/-- The build is started from the file of the line, or else from the input. -/
def start (m : Machine) (s : Settings) (l : Line) : Run Unit Build :=
  match l.value? "--from-file" with
  | some path => (l.operations s m.surroundings).fromFile m.files (Path.read path)
  | none => (l.operations s m.surroundings).fromStream m.input

end Line

/-- The words of an invocation say one thing, and the invocation is what they say. -/
theorem line_of_readWords (h : readWords words = .ok i) :
    ∃ l : Line, l.Says words ∧
      (∀ e ∈ l.before, e.Known client none) ∧
      (∀ e ∈ l.given, e.Known (commandGrammar l.command) (some "name")) ∧
      l.name?.isSome = true ∧
      i = ⟨Dictionary.get? "namespace" (Entry.values l.before),
        (Dictionary.get? "name" (Entry.values l.given)).getD "",
        taskOf l.command (Entry.values l.given)⟩ := by
  obtain ⟨outer, houter, h⟩ := bind_eq_ok.1 h
  have houter := mapError_eq_ok.1 houter
  obtain ⟨inner, hinner, h⟩ := bind_eq_ok.1 h
  have hinner := mapError_eq_ok.1 hinner
  obtain ⟨⟨⟩, hextras, h⟩ := bind_eq_ok.1 h
  have hnone : outer.extras ++ inner.extras = [] := by
    have hx := mapError_eq_ok.1 hextras
    rw [refuseExtras] at hx
    split at hx
    · exact List.isEmpty_iff.1 ‹_›
    · cases hx
  obtain ⟨hx, hx'⟩ := List.append_eq_nil_iff.1 hnone
  obtain ⟨before, command, items, after, hread, hbefore, -, hvalues, hcommand⟩ :=
    parse_command (show client.operand = .command "command" commands from rfl) (by decide) houter hx
  rw [hcommand] at hinner h
  obtain ⟨items', given, hread', hgiven, hvalues'⟩ :=
    parse_given (show (commandGrammar command).operand = .word "name" "Build config name" from rfl)
      hinner hx'
  obtain ⟨e, he, hnone⟩ := hgiven.exists_operand
  refine ⟨⟨before, command, given⟩, ⟨items, after, items', hread, hbefore, hread', hgiven⟩,
    hbefore.known fun text m hm => readAll_spelled hread text m (List.mem_append_left _ hm),
    hgiven.known (readAll_spelled hread'), last?_of_mem he (by rw [hnone]; rfl), ?_⟩
  rw [← hvalues, ← hvalues']
  exact (Except.ok.inj h).symm

/-- Settings that were unset are set as far as there are values for them. -/
theorem applyAll_texts {values : Dictionary String} {settings : List (String × TextSetting)}
    (o : Operations Unit) (hunset : ∀ s ∈ settings, o.parameters.text s.2 = none)
    (hnodup : (settings.map Prod.snd).Nodup) :
    o.applyAll (settings.filterMap fun s =>
        (values.get? s.1).map fun v => .parameter (.text s.2 (some v))) =
      { o with parameters :=
          settings.foldl (fun p s => p.withText (values.get? s.1) s.2) o.parameters } := by
  induction settings generalizing o with
  | nil => rfl
  | cons s settings ih =>
    obtain ⟨hfresh, hnodup⟩ := List.nodup_cons.1 hnodup
    obtain ⟨hs, hunset⟩ := List.forall_mem_cons.1 hunset
    have hrest : ∀ s' ∈ settings, ∀ v, (o.parameters.withText v s.2).text s'.2 = none := by
      intro s' hs' v
      have hne : s'.2 ≠ s.2 := fun he => hfresh (he ▸ List.mem_map_of_mem hs')
      rw [Parameters.text_withText, if_neg hne]
      exact hunset s' hs'
    rw [List.filterMap_cons, List.foldl_cons]
    cases hv : values.get? s.1 with
    | none =>
      rw [Parameters.withText_none hs]
      exact ih o hunset hnodup
    | some v =>
      exact ih (o.apply (.parameter (.text s.2 (some v)))) (fun s' hs' => hrest s' hs' _) hnodup

theorem applyAll_cons (o : Operations Unit) (c : Operations.Change)
    (changes : List Operations.Change) :
    o.applyAll (c :: changes) = (o.apply c).applyAll changes :=
  rfl

theorem applyAll_append (o : Operations Unit) (changes more : List Operations.Change) :
    o.applyAll (changes ++ more) = (o.applyAll changes).applyAll more :=
  List.foldl_append ..

namespace Line

variable {l : Line}

/-- What a line gives is found under the targets of its spellings. -/
theorem get?_given (target option : String)
    (hk : ∀ e ∈ l.given, e.Known (commandGrammar "start-binary") (some "name"))
    (hs : (commandGrammar "start-binary").Leads (· == option) target) (hname : "name" ≠ target) :
    (Entry.values l.given).get? target = l.value? option :=
  get?_of_leads hk hs fun h => hname (Option.some.inj h)

/-- The chain of settings that the program makes of the values has the parameters of the line. -/
theorem applyAll_uploadChanges {o : Operations Unit} (ho : o.parameters = .empty)
    (hk : ∀ e ∈ l.given, e.Known (commandGrammar "start-binary") (some "name")) :
    o.applyAll (uploadChanges (Entry.values l.given)) = { o with parameters := l.parameters } := by
  have hget := fun target option => get?_given target option hk
  have hunset : ∀ s ∈ uploadSettings, o.parameters.text s.2 = none := by
    rw [ho]
    decide
  have htexts : uploadSettings.foldl
      (fun p s => p.withText ((Entry.values l.given).get? s.1) s.2) o.parameters =
        { l.parameters with timeout := none } := by
    simp only [uploadSettings, List.foldl_cons, List.foldl_nil, ho,
      hget "message" "--message" (by decide) (by decide),
      hget "author_name" "--author-name" (by decide) (by decide),
      hget "author_email" "--author-email" (by decide) (by decide),
      hget "committer_name" "--committer-name" (by decide) (by decide),
      hget "committer_email" "--committer-email" (by decide) (by decide),
      hget "commit" "--commit" (by decide) (by decide),
      hget "as_file" "--as-file" (by decide) (by decide)]
    rfl
  have htimeout : l.parameters.timeout =
      ((l.value? "--timeout-ms").bind Numeral.readInt?).map .int := rfl
  rw [uploadChanges, List.cons_append, applyAll_cons, Operations.apply, applyAll_append,
    applyAll_texts o hunset (by decide), htexts,
      hget "timeout_ms" "--timeout-ms" (by decide) (by decide)]
  cases hn : (l.value? "--timeout-ms").bind Numeral.readInt? with
  | none =>
    rw [hn] at htimeout
    change { o with parameters := { l.parameters with timeout := none } } = _
    rw [← show l.parameters.timeout = none from htimeout]
  | some n =>
    rw [hn] at htimeout
    change { o with parameters := { l.parameters with timeout := some (.int n) } } = _
    rw [← show l.parameters.timeout = some (.int n) from htimeout]

/-- A timeout that is given is a whole number. -/
theorem timeout_readable {text : String}
    (hk : ∀ e ∈ l.given, e.Known (commandGrammar "start-binary") (some "name"))
    (h : l.value? "--timeout-ms" = some text) : (Numeral.readInt? text).isSome = true := by
  obtain ⟨e, he, hspelling, rfl⟩ := mem_of_last? h
  cases hk e he with
  | operand => cases hspelling
  | @switch s name target value kind required hmem effect accepted =>
    have hwhole : ∀ q ∈ (commandGrammar "start-binary").spellings, q.1 = "--timeout-ms" →
        q.2.effect = .value "timeout_ms" .whole false := by
      decide
    have hname : name = "--timeout-ms" := by simpa using hspelling
    obtain ⟨-, rfl, -⟩ := Effect.value.inj (effect.symm.trans (hwhole _ hmem hname))
    exact accepted

/-- A line that is not refused is the call of the operations that it speaks of: no request is sent
but those of the call, and the program ends as the call ends. -/
structure Refines (m : Machine) (words : List String) (l : Line) : Prop where
  name : ∃ name, l.name? = some name
  timeout : ∀ text, l.value? "--timeout-ms" = some text → ∃ n, Numeral.readInt? text = some n
  call : ∀ s n, Settings.load m.env m.file = .ok s → Log.Setup.severity? s.logLevel = .ok n →
    runClient m words = .ofRun ⟨[Log.Setup.lineFormat], n, max n Log.warning⟩ (l.name?.getD "")
      ((Upshot.started <$> l.start m s) m.service (.start ()))
  sent : ∀ s n, Settings.load m.env m.file = .ok s → Log.Setup.severity? s.logLevel = .ok n →
    (runClient m words).sent = (l.start m s m.service (.start ())).2.sent
  rejected : ∀ ds, Settings.load m.env m.file = .error ds →
    (runClient m words).ending = .exit 2 ∧ (runClient m words).sent = []
  unleveled : ∀ s x, Settings.load m.env m.file = .ok s →
    Log.Setup.severity? s.logLevel = .error x →
      runClient m words = .early (.failure (.foreign x)) "" ""

end Line

/-- The task of a line is done by the call of the line. -/
theorem operation_line {m : Machine} {s : Settings} {l : Line}
    (hk : ∀ e ∈ l.given, e.Known (commandGrammar "start-binary") (some "name"))
    (hname : l.name?.isSome = true) (hns : l.ns? ≠ some "")
    (hfile : l.value? "--from-file" ≠ some "") :
    operation m (.on s m.surroundings ((Reaper.filled? l.ns?).getD s.ns) (l.name?.getD ""))
        (l.name?.getD "") (taskOf "start-binary" (Entry.values l.given)) =
      Upshot.started <$> l.start m s := by
  have hfilled : ∀ o : Option String, o ≠ some "" → Reaper.filled? o = o := by
    rintro (_ | v) ho
    · rfl
    · exact Reaper.filled?_of_ne fun h => ho (congrArg some h)
  obtain ⟨name, hname⟩ := Option.isSome_iff_exists.1 hname
  have hoperations : (l.operations s m.surroundings : Operations Unit) =
      { Operations.on s m.surroundings (l.ns?.getD s.ns) name with
        parameters := l.parameters } := by
    rw [Line.operations, hname]
    cases l.ns? <;> rfl
  have hfile? := Line.get?_given "from_file" "--from-file" hk (by decide) (by decide)
  have htask : taskOf "start-binary" (Entry.values l.given) =
      .startBinary (l.value? "--from-file") (uploadChanges (Entry.values l.given)) := by
    rw [← hfile?]
    rfl
  rw [htask, operation, hfilled _ hns, hfilled _ hfile, hname, Option.getD_some,
    Line.applyAll_uploadChanges rfl hk, Line.start]
  cases l.value? "--from-file" <;> simp only [hoperations]

/-- Words that are not refused say one thing, and if it is the start of a binary build, with no
empty namespace and no empty name of a file, the program is the call of the operations. -/
theorem start_binary_refines (h : readWords words = .ok i) :
    ∃ l : Line, (∀ l' : Line, l'.Says words ↔ l' = l) ∧
      (l.command = "start-binary" → l.ns? ≠ some "" → l.value? "--from-file" ≠ some "" →
        ∀ m, l.Refines m words) := by
  obtain ⟨l, hsaid, hbefore, hgiven, hname, hi⟩ := line_of_readWords h
  refine ⟨l, fun l' => ⟨fun h' => h'.unique hsaid, fun he => he ▸ hsaid⟩, ?_⟩
  intro hcommand hns hfile m
  rw [hcommand] at hgiven hi
  have hns? : Dictionary.get? "namespace" (Entry.values l.before) = l.ns? :=
    get?_of_leads hbefore (by decide) nofun
  have hname? : Dictionary.get? "name" (Entry.values l.given) = l.name? :=
    get?_operand hgiven (by decide)
  rw [hns?, hname?] at hi
  have hcall : ∀ s n, Settings.load m.env m.file = .ok s →
      Log.Setup.severity? s.logLevel = .ok n → runClient m words =
        .ofRun ⟨[Log.Setup.lineFormat], n, max n Log.warning⟩ (l.name?.getD "")
          ((Upshot.started <$> l.start m s) m.service (.start ())) := by
    intro s n hs hn
    rw [runClient_eq h hs, reportOn, Log.Setup.configure, hn, hi,
      ← operation_line hgiven hname hns hfile]
  refine ⟨Option.isSome_iff_exists.1 hname,
    fun text ht => Option.isSome_iff_exists.1 (Line.timeout_readable hgiven ht), hcall, ?_, ?_, ?_⟩
  · intro s n hs hn
    rw [hcall s n hs hn, Report.sent_ofRun, Run.map_apply]
  · intro ds hds
    rw [runClient, h]
    dsimp only
    rw [hds]
    exact ⟨rfl, rfl⟩
  · intro s x hs hx
    rw [runClient_eq h hs, reportOn, Log.Setup.configure, hx]

/-- One option is given twice, and the second time it is cut short and has an empty value. -/
def repeated : List String :=
  ["-n", "team", "start-binary", "--message", "first", "app", "--mess=", "--timeout-ms", "+5"]

def repeatedLine : Line where
  before := [⟨some "-n", "namespace", "team"⟩]
  command := "start-binary"
  given :=
    [⟨some "--message", "message", "first"⟩, ⟨none, "name", "app"⟩,
     ⟨some "--message", "message", ""⟩, ⟨some "--timeout-ms", "timeout_ms", "+5"⟩]

theorem start_binary_refines_repeated :
    repeatedLine.Says repeated ∧ repeatedLine.parameters =
        { Parameters.empty with message := some "", timeout := some (.int 5) } ∧
      ∀ m, repeatedLine.Refines m repeated := by
  have hread : (readWords repeated).toOption.isSome = true := by decide +kernel
  obtain ⟨i, hi⟩ := Option.isSome_iff_exists.1 hread
  obtain ⟨l, hl, hrefines⟩ := start_binary_refines (toOption_eq_some.1 hi)
  have hsaid : repeatedLine.Says repeated := by
    refine ⟨[_, _], [_, _, _, _, _, _], _, rfl, ?_, rfl, ?_⟩
    · exact .next ⟨_, _, rfl, rfl⟩ rfl rfl .nil
    · refine .next ⟨_, _, rfl, rfl⟩ rfl rfl (.operand ?_)
      refine .attached ⟨_, _, rfl, rfl⟩ rfl rfl (.next ⟨_, _, rfl, rfl⟩ rfl ?_ .nil)
      decide +kernel
  obtain rfl := (hl repeatedLine).1 hsaid
  exact ⟨hsaid, by decide +kernel, hrefines rfl (by decide) (by decide)⟩

end CommandLine

end BuildClient
