import BuildClient.Proofs.Dictionary
import BuildClient.Proofs.Except
import BuildClient.Proofs.Number.Order
import BuildClient.Settings.Settings

/-!
Where the settings come from. Each has the text of its own variable: from the environment, else from
the file, else none. These texts decide what the settings are, or what is wrong with them; nothing
else in the environment or in the file has a part in it.
-/
namespace BuildClient

open Text

namespace EnvFile

variable {known : Dictionary (Option String)} {s : List Char} {c : Char}

/-- Somewhere in the text stands a reference to a variable. -/
def Refers (s : List Char) : Prop :=
  ∃ before after, s = before ++ '$' :: '{' :: after ∧ (reference? after).isSome

theorem Refers.cons (h : Refers s) : Refers (c :: s) := by
  obtain ⟨before, after, rfl, hr⟩ := h
  exact ⟨c :: before, after, rfl, hr⟩

theorem not_refers_of_not_mem (h : '{' ∉ s) : ¬ Refers s := by
  rintro ⟨before, after, rfl, -⟩
  simp at h

/-- Where nothing is referred to, nothing is replaced. -/
theorem expandFrom_of_not_refers (h : ¬ Refers s) (fuel : ℕ) : expandFrom known fuel s = s := by
  fun_induction expandFrom known fuel s with
  | case1 s => rfl
  | case2 fuel => rfl
  | case3 fuel s r rest hr ih => exact absurd ⟨[], s, rfl, by rw [hr]; rfl⟩ h
  | case4 fuel s hr ih => rw [ih fun hs => h hs.cons]
  | case5 fuel c s hc ih => rw [ih fun hs => h hs.cons]

theorem expand_of_not_refers {t : String} (h : ¬ Refers t.toList) : expand known t = t := by
  rw [expand, expandFrom_of_not_refers h, String.ofList_toList]

end EnvFile

namespace Settings

variable {α : Type} {v : Variable} {d : Dictionary α} {a : α} {name : String}
  {env : Dictionary String} {file : Option String} {texts : Variable → Option String}

/-- The variables in the order in which the settings are read. -/
def Variable.all : List Variable :=
  [apiUrl, token, ns, verifyTls, requestTimeout, connectTimeout, logLevel]

theorem Variable.mem_all (v : Variable) : v ∈ all := by
  cases v <;> decide

/-- The name is that of the variable. The case of its letters does not matter. -/
def Variable.Named (v : Variable) (name : String) : Prop := foldName name = foldName v.name

instance (v : Variable) (name : String) : Decidable (v.Named name) :=
  inferInstanceAs (Decidable (_ = _))

/-- The last entry under the name of the variable has the value. -/
def Last (v : Variable) (d : Dictionary α) (a : α) : Prop :=
  ∃ before name after, d = before ++ (name, a) :: after ∧ v.Named name ∧ ∀ p ∈ after, ¬ v.Named p.1

theorem find?_cons (p : String × α) :
    find? v (p :: d) = (find? v d).or (if v.Named p.1 then some p.2 else none) := by
  rw [find?, List.map_cons, Dictionary.getLast?_cons, find?]
  by_cases h : v.Named p.1
  · rw [if_pos h, if_pos (Eq.symm h)]
  · rw [if_neg h, if_neg fun he => h (Eq.symm he)]

theorem find?_eq_none_iff : find? v d = none ↔ ∀ p ∈ d, ¬ v.Named p.1 := by
  induction d with
  | nil => exact iff_of_true rfl nofun
  | cons p d ih =>
    rw [find?_cons, Option.or_eq_none_iff, ih, List.forall_mem_cons, and_comm]
    simp

theorem find?_eq_some_iff : find? v d = some a ↔ Last v d a := by
  induction d with
  | nil =>
    refine iff_of_false nofun ?_
    rintro ⟨before, name, after, h, -⟩
    exact List.cons_ne_nil _ _ (List.append_eq_nil_iff.1 h.symm).2
  | cons p d ih =>
    rw [find?_cons, Option.or_eq_some_iff, ih, find?_eq_none_iff]
    constructor
    · rintro (⟨before, name, after, rfl, hn, hafter⟩ | ⟨hnone, hp⟩)
      · exact ⟨p :: before, name, after, rfl, hn, hafter⟩
      · split at hp
        · cases hp
          exact ⟨[], p.1, d, rfl, ‹_›, hnone⟩
        · cases hp
    · rintro ⟨before, name, after, h, hn, hafter⟩
      cases before with
      | nil =>
        cases h
        exact .inr ⟨hafter, if_pos hn⟩
      | cons q before =>
        cases h
        exact .inl ⟨before, name, after, rfl, hn, hafter⟩

/-- The text of a variable: that in the environment, else that in the file. A name in the file that
has no value there gives none. -/
inductive Resolved (env : Dictionary String) (file : Dictionary (Option String)) (v : Variable) :
    Option String → Prop
  | environment {t : String} (given : Last v env t) : Resolved env file v (some t)
  | file {t : String} (absent : ∀ p ∈ env, ¬ v.Named p.1) (given : Last v file (some t)) :
      Resolved env file v (some t)
  | unset (absent : ∀ p ∈ env, ¬ v.Named p.1) (missing : ∀ t, ¬ Last v file (some t)) :
      Resolved env file v none

theorem resolved_iff {s : Sources} {t : Option String} :
    Resolved s.env s.file v t ↔ s.text? v = t := by
  have hresolved : Resolved s.env s.file v (s.text? v) := by
    rw [Sources.text?]
    cases he : find? v s.env with
    | some t => exact .environment (find?_eq_some_iff.1 he)
    | none =>
      have habsent := find?_eq_none_iff.1 he
      cases hf : (find? v s.file).join with
      | some t => exact .file habsent (find?_eq_some_iff.1 (Option.join_eq_some_iff.1 hf))
      | none =>
        refine .unset habsent fun t ht => ?_
        rw [find?_eq_some_iff.2 ht] at hf
        cases hf
  constructor
  · intro h
    rw [Sources.text?]
    cases h with
    | environment given => rw [find?_eq_some_iff.2 given]
    | file absent given =>
      rw [find?_eq_none_iff.2 absent, find?_eq_some_iff.2 given]
      rfl
    | unset absent missing =>
      rw [find?_eq_none_iff.2 absent]
      exact Option.eq_none_iff_forall_ne_some.2 fun t ht =>
        missing t (find?_eq_some_iff.1 (Option.join_eq_some_iff.1 ht))
  · rintro rfl
    exact hresolved

/-- The name is that of one of the variables. -/
def isOwn (name : String) : Bool := Variable.all.any fun v => v.Named name

/-- The entries under the names of the variables, all others left out. -/
def own (d : Dictionary α) : Dictionary α := d.filter fun p => isOwn p.1

theorem isOwn_of_named (h : v.Named name) : isOwn name = true :=
  List.any_eq_true.2 ⟨v, v.mem_all, decide_eq_true h⟩

theorem find?_own (v : Variable) (d : Dictionary α) : find? v (own d) = find? v d := by
  induction d with
  | nil => rfl
  | cons p d ih =>
    rw [own, find?_cons]
    by_cases hp : isOwn p.1 = true
    · rw [List.filter_cons_of_pos (by exact hp), find?_cons, ← own, ih]
    · have hnot : ¬ v.Named p.1 := fun h => hp (isOwn_of_named h)
      rw [List.filter_cons_of_neg (by exact hp), ← own, ih, if_neg hnot, Option.or_none]

/-- The lines of the file. Without a file there are none. -/
def lines (file : Option String) : List (String × Option String) := (file.map EnvFile.read).getD []

/-- No value in a line of ours refers to a variable. -/
def Plain (file : Option String) : Prop :=
  ∀ p ∈ own (lines file), ∀ t ∈ p.2, ¬ EnvFile.Refers t.toList

theorem own_cons_of_pos {p : String × α} (h : isOwn p.1 = true) : own (p :: d) = p :: own d :=
  List.filter_cons_of_pos (by exact h)

theorem own_cons_of_neg {p : String × α} (h : ¬ isOwn p.1 = true) : own (p :: d) = own d :=
  List.filter_cons_of_neg (by exact h)

theorem own_insert (name : String) (a : α) (d : Dictionary α) :
    own (d.insert name a) = if isOwn name then (own d).insert name a else own d :=
  Dictionary.filter_insert isOwn name a d

theorem own_ofPairs (pairs : List (String × α)) :
    own (Dictionary.ofPairs pairs) = Dictionary.ofPairs (own pairs) :=
  Dictionary.filter_ofPairs isOwn pairs

/-- What the references in other lines come to does not matter. -/
theorem own_resolve {lines : List (String × Option String)}
    (h : ∀ p ∈ own lines, ∀ t ∈ p.2, ¬ EnvFile.Refers t.toList) (env : Dictionary String) :
    own (EnvFile.resolve env lines) = Dictionary.ofPairs (own lines) := by
  -- What is resolved already is what the next line starts from, so it is arbitrary.
  suffices hfold : ∀ done : Dictionary (Option String), own (lines.foldl (fun done line =>
      let known := done.foldl (fun d p => d.insert p.1 p.2) (env.mapValues some)
      done.insert line.1 (line.2.map (EnvFile.expand known))) done) =
        Dictionary.insertAll (own lines) (own done) from hfold []
  induction lines with
  | nil => exact fun done => rfl
  | cons line lines ih =>
    intro done
    rw [List.foldl_cons]
    dsimp only
    by_cases hline : isOwn line.1 = true
    · rw [own_cons_of_pos hline] at h ⊢
      have hplain : ∀ known, line.2.map (EnvFile.expand known) = line.2 := by
        intro known
        cases hv : line.2 with
        | none => rfl
        | some t =>
          exact congrArg some (EnvFile.expand_of_not_refers (h line List.mem_cons_self t hv))
      rw [ih fun p hp => h p (List.mem_cons_of_mem _ hp), own_insert, if_pos hline, hplain]
      rfl
    · rw [own_cons_of_neg hline] at h ⊢
      rw [ih h, own_insert, if_neg hline]

/-- The variables of an environment and of a file. -/
def sources (env : Dictionary String) (file : Option String) : Sources :=
  ⟨env, (file.map (EnvFile.values env)).getD []⟩

theorem load_eq (env : Dictionary String) (file : Option String) :
    load env file = read (sources env file) := rfl

theorem own_sources (h : Plain file) (env : Dictionary String) :
    own (sources env file).file = Dictionary.ofPairs (own (lines file)) := by
  cases file with
  | none => rfl
  | some text => exact own_resolve h env

/-- The file gives what stands in its lines. -/
theorem text?_sources (h : Plain file) (env : Dictionary String) (v : Variable) :
    (sources env file).text? v = (Sources.mk env (Dictionary.ofPairs (lines file))).text? v := by
  rw [Sources.text?, Sources.text?, ← find?_own v (sources env file).file, own_sources h,
    ← own_ofPairs, find?_own]
  rfl

/-- The text is a number of seconds, and it is greater than zero. -/
def Seconds (t : String) (x : Binary64) : Prop :=
  Numeral.readSetting? t = some x ∧ Binary64.zero.Less x

/-- The text can be read as a value of the variable. -/
def Variable.Parses (v : Variable) (t : String) : Prop :=
  match v with
  | verifyTls => ∃ b, Wire.Codec.truthWord? t = some b
  | requestTimeout | connectTimeout => ∃ x, Seconds t x
  | _ => True

/-- What is wrong with the text, if anything is. -/
def Variable.defect? (v : Variable) (t : String) : Option Defect :=
  match v with
  | verifyTls => if Wire.Codec.truthWord? t = none then some (.unclearBoolean v) else none
  | requestTimeout | connectTimeout =>
    match Numeral.readSetting? t with
    | none => some (.notNumber v)
    | some x => if x.isPositive then none else some (.notPositive v)
  | _ => none

/-- The variable holds a number of seconds. -/
def Variable.IsTimeout (v : Variable) : Prop := v = requestTimeout ∨ v = connectTimeout

theorem Variable.defect?_timeout (hv : v.IsTimeout) (t : String) : v.defect? t =
    match Numeral.readSetting? t with
    | none => some (.notNumber v)
    | some x => if x.isPositive then none else some (.notPositive v) := by
  rcases hv with rfl | rfl <;> simp only [defect?]

theorem Variable.parses_timeout_iff (hv : v.IsTimeout) {t : String} :
    v.Parses t ↔ ∃ x, Seconds t x := by
  rcases hv with rfl | rfl <;> rfl

theorem Variable.defect?_eq_none_iff {t : String} : v.defect? t = none ↔ v.Parses t := by
  have htimeout : v.IsTimeout → (v.defect? t = none ↔ v.Parses t) := by
    intro hv
    rw [v.defect?_timeout hv, v.parses_timeout_iff hv]
    simp only [Seconds]
    cases Numeral.readSetting? t with
    | none => simp
    | some x => simp [← Binary64.isPositive_iff_less]
  cases v with
  | requestTimeout => exact htimeout (.inl rfl)
  | connectTimeout => exact htimeout (.inr rfl)
  | verifyTls => simp [defect?, Parses, Option.ne_none_iff_exists']
  | _ => exact iff_of_true rfl trivial

/-- The value that a text is read as, or the default if there is no text. -/
def ReadAs (reads : String → α → Prop) (fallback : α) : Option String → α → Prop
  | none, a => a = fallback
  | some t, a => reads t a

/-- The settings that the texts stand for. -/
structure Reads (texts : Variable → Option String) (s : Settings) : Prop where
  apiUrl : s.apiUrl = (texts .apiUrl).getD ""
  token : s.token = texts .token
  ns : s.ns = (texts .ns).getD "default"
  verifyTls : ReadAs (fun t b => Wire.Codec.truthWord? t = some b) true (texts .verifyTls)
    s.verifyTls
  requestTimeout : ReadAs Seconds (.ofNat 10) (texts .requestTimeout) s.requestTimeout
  connectTimeout : ReadAs Seconds (.ofNat 10) (texts .connectTimeout) s.connectTimeout
  logLevel : s.logLevel = (texts .logLevel).getD "INFO"

theorem readTruth_eq_ok_iff {fallback b : Bool} {text : Option String} :
    readTruth v fallback text = .ok b ↔
      ReadAs (fun t b => Wire.Codec.truthWord? t = some b) fallback text b := by
  cases text with
  | none => exact ⟨fun h => (Except.ok.inj h).symm, fun h => congrArg _ (Eq.symm h)⟩
  | some t =>
    dsimp only [readTruth, ReadAs]
    cases Wire.Codec.truthWord? t <;> simp

theorem readTimeout_eq_ok_iff {x : Binary64} {text : Option String} :
    readTimeout v text = .ok x ↔ ReadAs Seconds (.ofNat 10) text x := by
  cases text with
  | none =>
    dsimp only [readTimeout, ReadAs]
    rw [Except.ok.injEq, defaultTimeout, eq_comm]
  | some t =>
    dsimp only [readTimeout, ReadAs, Seconds]
    cases Numeral.readSetting? t with
    | none => simp
    | some y =>
      simp only [← Binary64.isPositive_iff_less, Option.some.injEq]
      by_cases hy : y.isPositive = true
      · rw [if_pos hy, Except.ok.injEq]
        exact ⟨fun h => ⟨h, h ▸ hy⟩, And.left⟩
      · rw [if_neg hy]
        exact iff_of_false nofun fun h => hy (h.1 ▸ h.2)

/-- What is wrong with a value that was checked. -/
def complaints : Checked α → List Defect
  | .ok _ => []
  | .error ds => ds

/-- Who rejects says why. -/
def Telling (x : Checked α) : Prop := x ≠ .error []

section Telling

variable {β : Type} {x : Checked α} {y : Checked β} {ds : List Defect}

theorem Telling.eq_error_iff (h : Telling x) :
    x = .error ds ↔ complaints x ≠ [] ∧ ds = complaints x := by
  cases x with
  | ok a => simp [complaints]
  | error es =>
    have hne : es ≠ [] := fun he => h (he ▸ rfl)
    simp [complaints, hne, eq_comm]

theorem Telling.exists_ok_iff (h : Telling x) : (∃ a, x = .ok a) ↔ complaints x = [] := by
  cases x with
  | ok a => simp [complaints]
  | error es =>
    have hne : es ≠ [] := fun he => h (he ▸ rfl)
    simp [complaints, hne]

theorem both_eq_ok_iff {p : α × β} : both x y = .ok p ↔ x = .ok p.1 ∧ y = .ok p.2 := by
  cases x <;> cases y <;> simp [both, Prod.ext_iff]

theorem complaints_both (x : Checked α) (y : Checked β) :
    complaints (both x y) = complaints x ++ complaints y := by
  cases x <;> cases y <;> simp [both, complaints]

theorem Telling.both (hx : Telling x) (hy : Telling y) : Telling (Settings.both x y) := by
  cases x <;> cases y <;> simp_all [Telling, Settings.both]

end Telling

theorem complaints_readTruth (fallback : Bool) (text : Option String) :
    complaints (readTruth .verifyTls fallback text) =
      (text.bind Variable.verifyTls.defect?).toList := by
  cases text with
  | none => rfl
  | some t =>
    simp only [readTruth, Option.bind_some, Variable.defect?]
    cases Wire.Codec.truthWord? t <;> rfl

theorem complaints_readTimeout (hv : v.IsTimeout) (text : Option String) :
    complaints (readTimeout v text) = (text.bind v.defect?).toList := by
  cases text with
  | none => rfl
  | some t =>
    simp only [readTimeout, Option.bind_some, v.defect?_timeout hv]
    cases Numeral.readSetting? t with
    | none => rfl
    | some x => by_cases hx : x.isPositive = true <;> simp [hx, complaints]

theorem readTruth_telling (fallback : Bool) (text : Option String) :
    Telling (readTruth v fallback text) := by
  cases text with
  | none => exact nofun
  | some t =>
    rw [Telling, readTruth]
    cases Wire.Codec.truthWord? t <;> simp

theorem readTimeout_telling (text : Option String) : Telling (readTimeout v text) := by
  cases text with
  | none => exact nofun
  | some t =>
    rw [Telling, readTimeout]
    cases Numeral.readSetting? t with
    | none => simp
    | some x => cases hx : x.isPositive <;> simp [hx]

/-- What is wrong with the texts, in the order of their variables. -/
def defects (texts : Variable → Option String) : List Defect :=
  Variable.all.filterMap fun v => (texts v).bind v.defect?

theorem defects_eq_nil_iff : defects texts = [] ↔ ∀ v, ∀ t ∈ texts v, v.Parses t := by
  rw [defects, List.filterMap_eq_nil_iff]
  constructor
  · intro h v t ht
    have hnone := h v v.mem_all
    rw [Option.mem_def.1 ht, Option.bind_some] at hnone
    exact Variable.defect?_eq_none_iff.1 hnone
  · intro h v _
    cases ht : texts v with
    | none => rfl
    | some t =>
      rw [Option.bind_some]
      exact Variable.defect?_eq_none_iff.2 (h v t ht)

/-- The settings that are checked one by one. -/
def fields (s : Sources) : Checked (Bool × Binary64 × Binary64) :=
  both (readTruth .verifyTls true (s.text? .verifyTls))
    (both (readTimeout .requestTimeout (s.text? .requestTimeout))
      (readTimeout .connectTimeout (s.text? .connectTimeout)))

theorem fields_telling (s : Sources) : Telling (fields s) := by
  rw [fields]
  exact (readTruth_telling true _).both ((readTimeout_telling _).both (readTimeout_telling _))

theorem complaints_fields (s : Sources) : complaints (fields s) = defects s.text? := by
  rw [fields, complaints_both, complaints_both, complaints_readTruth,
    complaints_readTimeout (.inl rfl), complaints_readTimeout (.inr rfl)]
  have hfree : ∀ v : Variable, (∀ t, v.defect? t = none) → (s.text? v).bind v.defect? = none := by
    intro v hv
    cases s.text? v with
    | none => rfl
    | some t => exact hv t
  rw [defects, List.filterMap_eq_flatMap_toList, Variable.all]
  simp only [List.flatMap_cons, List.flatMap_nil, hfree .apiUrl fun _ => rfl,
    hfree .token fun _ => rfl, hfree .ns fun _ => rfl, hfree .logLevel fun _ => rfl,
    Option.toList_none, List.nil_append, List.append_nil]

/-- There is nothing in the text but blanks. -/
def Blank (s : String) : Prop := ∀ c ∈ s.toList, isBlank c = true

theorem allBlank_eq_true_iff {s : String} : allBlank s = true ↔ Blank s := List.all_eq_true

theorem not_blank_iff {s : String} : ¬ Blank s ↔ ∃ c ∈ s.toList, isBlank c = false := by
  simp [Blank]

theorem requireUrl_eq_ok_iff {s s' : Settings} :
    requireUrl s = .ok s' ↔ s = s' ∧ ¬ Blank s'.apiUrl := by
  rw [requireUrl, ← allBlank_eq_true_iff]
  split
  · refine iff_of_false nofun ?_
    rintro ⟨rfl, h⟩
    exact h ‹_›
  · rw [Except.ok.injEq]
    exact ⟨fun h => ⟨h, h ▸ ‹_›⟩, And.left⟩

theorem requireUrl_eq_error_iff {s : Settings} {ds : List Defect} :
    requireUrl s = .error ds ↔ Blank s.apiUrl ∧ ds = [.urlMissing] := by
  rw [requireUrl, ← allBlank_eq_true_iff]
  split
  · simp [*, eq_comm]
  · simp [*]

/-- The settings of some texts, when those that are checked are read. -/
def assemble (texts : Variable → Option String) (p : Bool × Binary64 × Binary64) : Settings :=
  ⟨(texts .apiUrl).getD "", texts .token, (texts .ns).getD "default", p.1, p.2.1, p.2.2,
    (texts .logLevel).getD "INFO"⟩

theorem read_eq (s : Sources) : read s = fields s >>= fun p => requireUrl (assemble s.text? p) :=
  rfl

theorem assemble_eq_iff {s : Sources} {x : Settings} :
    (∃ p, fields s = .ok p ∧ assemble s.text? p = x) ↔ Reads s.text? x := by
  constructor
  · rintro ⟨p, hp, rfl⟩
    obtain ⟨hverify, hp⟩ := both_eq_ok_iff.1 hp
    obtain ⟨hrequest, hconnect⟩ := both_eq_ok_iff.1 hp
    exact ⟨rfl, rfl, rfl, readTruth_eq_ok_iff.1 hverify, readTimeout_eq_ok_iff.1 hrequest,
      readTimeout_eq_ok_iff.1 hconnect, rfl⟩
  · rintro ⟨hurl, htoken, hns, hverify, hrequest, hconnect, hlevel⟩
    refine ⟨(x.verifyTls, x.requestTimeout, x.connectTimeout), ?_, ?_⟩
    · exact both_eq_ok_iff.2 ⟨readTruth_eq_ok_iff.2 hverify,
        both_eq_ok_iff.2 ⟨readTimeout_eq_ok_iff.2 hrequest, readTimeout_eq_ok_iff.2 hconnect⟩⟩
    · rw [assemble, ← hurl, ← htoken, ← hns, ← hlevel]

theorem read_eq_ok_iff {s : Sources} {x : Settings} :
    read s = .ok x ↔ Reads s.text? x ∧ ¬ Blank x.apiUrl := by
  rw [read_eq, bind_eq_ok, ← assemble_eq_iff]
  simp only [requireUrl_eq_ok_iff]
  constructor
  · rintro ⟨p, hp, hx, hblank⟩
    exact ⟨⟨p, hp, hx⟩, hblank⟩
  · rintro ⟨⟨p, hp, hx⟩, hblank⟩
    exact ⟨p, hp, hx, hblank⟩

theorem read_eq_error_iff {s : Sources} {ds : List Defect} :
    read s = .error ds ↔ (defects s.text? ≠ [] ∧ ds = defects s.text?) ∨
      defects s.text? = [] ∧ Blank ((s.text? .apiUrl).getD "") ∧ ds = [.urlMissing] := by
  rw [read_eq, bind_eq_error, (fields_telling s).eq_error_iff, ← complaints_fields s,
    ← (fields_telling s).exists_ok_iff]
  simp only [requireUrl_eq_error_iff]
  refine or_congr_right ⟨?_, ?_⟩
  · rintro ⟨p, hp, hblank⟩
    exact ⟨⟨p, hp⟩, hblank⟩
  · rintro ⟨⟨p, hp⟩, hblank⟩
    exact ⟨p, hp, hblank⟩

/-- The texts decide. They give settings just if each of them can be read and the address is not
blank; if not, it is told what is wrong with which variable, or that there is no address. -/
structure Decide (texts : Variable → Option String) (result : Checked Settings) : Prop where
  accepted : ∀ s, result = .ok s ↔ Reads texts s ∧ ¬ Blank s.apiUrl
  rejected : ∀ ds, result = .error ds ↔ (defects texts ≠ [] ∧ ds = defects texts) ∨
    defects texts = [] ∧ Blank ((texts .apiUrl).getD "") ∧ ds = [.urlMissing]
  fails : (∃ ds, result = .error ds) ↔ (∃ v, ∃ t ∈ texts v, ¬ v.Parses t) ∨
    (∀ v, ∀ t ∈ texts v, v.Parses t) ∧ Blank ((texts .apiUrl).getD "")

theorem read_decide (s : Sources) : Decide s.text? (read s) where
  accepted _ := read_eq_ok_iff
  rejected _ := read_eq_error_iff
  fails := by
    have hsome : (∃ v, ∃ t ∈ s.text? v, ¬ v.Parses t) ↔ defects s.text? ≠ [] := by
      rw [Ne, defects_eq_nil_iff]
      push Not
      rfl
    rw [hsome, ← defects_eq_nil_iff]
    simp only [read_eq_error_iff, exists_or, exists_and_left, exists_eq, and_true]

/-- Only the variables of settings count. -/
theorem text?_congr {s s' : Sources} (henv : own s.env = own s'.env)
    (hfile : own s.file = own s'.file) :
    s.text? = s'.text? := by
  funext v
  rw [Sources.text?, Sources.text?, ← find?_own v s.env, ← find?_own v s.file, henv, hfile,
    find?_own, find?_own]

theorem read_congr {s s' : Sources} (h : s.text? = s'.text?) : read s = read s' := by
  rw [read_eq, read_eq, fields, fields, h]

/-- The text of every variable comes from the environment, else from the lines of the file, and
these texts decide. Whatever else stands in the environment and in the file, it makes no
difference. -/
theorem own_variables_decide (h : Plain file) :
    ∃ texts, (∀ v t, Resolved env (Dictionary.ofPairs (lines file)) v t ↔ texts v = t) ∧
      Decide texts (load env file) ∧
      ∀ env' file', own env' = own env → own (lines file') = own (lines file) →
        load env' file' = load env file := by
  have htexts : (sources env file).text? =
      (Sources.mk env (Dictionary.ofPairs (lines file))).text? := funext (text?_sources h env)
  refine ⟨(sources env file).text?, fun v t => ?_, read_decide _, fun env' file' henv hfile => ?_⟩
  · rw [htexts]
    exact @resolved_iff v ⟨env, _⟩ t
  · have hplain : Plain file' := by
      rw [Plain, hfile]
      exact h
    rw [load_eq, load_eq]
    refine read_congr (text?_congr henv ?_)
    rw [own_sources hplain, own_sources h, hfile]

/-- The address is there twice, and the namespace is empty. -/
def cluttered : Dictionary String :=
  [("OPENSHIFT_URL", ""), ("HOME", "/root"), ("openshift_url", "http://h"),
    ("OPENSHIFT_NAMESPACE", "")]

/-- A level of ours behind a reference that is none of ours. -/
def nested : String := "OPENSHIFT_NAMESPACE=team\nCACHE=$\x7bHOME\x7d/cache\nLOG_LEVEL=debug\n"

theorem own_variables_decide_cluttered :
    Plain (some nested) ∧
      ∃ texts, texts .apiUrl = some "http://h" ∧ texts .ns = some "" ∧
        texts .logLevel = some "debug" ∧ texts .token = none ∧
        Decide texts (load cluttered (some nested)) ∧
        load (("SHELL", "sh") :: cluttered) (some "OPENSHIFT_NAMESPACE=team\nLOG_LEVEL=debug") =
          load cluttered (some nested) := by
  have hlines : lines (some nested) = [("OPENSHIFT_NAMESPACE", some "team"),
      ("CACHE", some "$\x7bHOME\x7d/cache"), ("LOG_LEVEL", some "debug")] := by
    decide +kernel
  have hown : own (lines (some nested)) =
      [("OPENSHIFT_NAMESPACE", some "team"), ("LOG_LEVEL", some "debug")] := by
    rw [hlines]
    decide +kernel
  have hplain : Plain (some nested) := by
    rw [Plain, hown]
    intro p hp t ht
    refine EnvFile.not_refers_of_not_mem ?_
    rcases List.mem_cons.1 hp with rfl | hp
    · cases ht
      decide
    · obtain rfl := List.mem_singleton.1 hp
      cases ht
      decide
  obtain ⟨texts, hresolved, hdecide, hother⟩ := @own_variables_decide cluttered _ hplain
  rw [hlines] at hresolved
  have htext : ∀ v, texts v = (Sources.mk cluttered (.ofPairs [("OPENSHIFT_NAMESPACE", some "team"),
      ("CACHE", some "$\x7bHOME\x7d/cache"), ("LOG_LEVEL", some "debug")])).text? v :=
    fun v => (hresolved v _).1 ((@resolved_iff v ⟨cluttered, _⟩ _).2 rfl)
  refine ⟨hplain, texts, (htext .apiUrl).trans ?_, (htext .ns).trans ?_, (htext .logLevel).trans ?_,
    (htext .token).trans ?_, hdecide, hother _ _ ?_ ?_⟩
  · decide +kernel
  · decide +kernel
  · decide +kernel
  · decide +kernel
  · decide +kernel
  · rw [hown]
    decide +kernel

end Settings

end BuildClient
