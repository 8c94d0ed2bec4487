import BuildClient.Proofs.Secrecy
import BuildClient.Proofs.Token

/-! What a line of changes comes to: every setting has the value that it was given last. -/
namespace BuildClient.Operations

variable {σ : Type} {o o' : Operations σ} {changes changes' : List Change}

/-- What can be set. A timeout is set together with its unit. -/
inductive Setting where
  | ns
  | name
  | text (setting : TextSetting)
  | timeout
deriving DecidableEq, Repr

/-- What a setting can be set to. -/
inductive Setting.Value where
  | text (value : Option String)
  | timeout (value : Option Number) (unit : TimeoutUnit)
deriving DecidableEq, Repr

/-- The value that the setting has. -/
def setting (o : Operations σ) : Setting → Setting.Value
  | .ns => .text o.ns
  | .name => .text o.name
  | .text s => .text (o.parameters.text s)
  | .timeout => .timeout o.parameters.timeout o.parameters.timeoutUnit

namespace Change

/-- The value that the change gives to the setting, if it is on this one. -/
def value? : Change → Setting → Option Setting.Value
  | .ns v, .ns => some (.text v)
  | .name v, .name => some (.text v)
  | .parameter (.text t v), .text s => if s = t then some (.text v) else none
  | .parameter (.timeout v unit), .timeout => some (.timeout v unit)
  | _, _ => none

def sets (c : Change) (s : Setting) : Bool := (c.value? s).isSome

end Change

/-- The same changes of each setting, in the same order; those of different settings may stand in
any order. -/
def Reordered (changes changes' : List Change) : Prop :=
  ∀ s, changes.filter (·.sets s) = changes'.filter (·.sets s)

/-- The setting has the value that the changes gave to it last, or else the one that it had. -/
def lastValue (o : Operations σ) (changes : List Change) (s : Setting) : Setting.Value :=
  (changes.filterMap (·.value? s)).getLast?.getD (o.setting s)

@[simp] theorem timeout_withText (p : Parameters) (v : Option String) (t : TextSetting) :
    (p.withText v t).timeout = p.timeout := by
  cases t <;> rfl

@[simp] theorem timeoutUnit_withText (p : Parameters) (v : Option String) (t : TextSetting) :
    (p.withText v t).timeoutUnit = p.timeoutUnit := by
  cases t <;> rfl

/-- A change gives its setting its value, and leaves every other one as it is. -/
theorem setting_apply (o : Operations σ) (c : Change) (s : Setting) :
    (o.apply c).setting s = (c.value? s).getD (o.setting s) := by
  cases c with
  | parameter c =>
    cases c with
    | text t v =>
      cases s with
      | text s =>
        simp only [apply, setting, Parameters.apply, Parameters.text_withText, Change.value?]
        split <;> rfl
      | _ => simp [apply, setting, Parameters.apply, Change.value?]
    | timeout v unit =>
      cases s with
      | text s => simp [apply, setting, Parameters.apply, Change.value?]
      | _ => rfl
  | _ => cases s <;> rfl

theorem setting_applyAll (o : Operations σ) (changes : List Change) (s : Setting) :
    (o.applyAll changes).setting s = o.lastValue changes s := by
  induction changes generalizing o with
  | nil => rfl
  | cons c changes ih =>
    refine (ih (o.apply c)).trans ?_
    rw [lastValue, lastValue, setting_apply, List.filterMap_cons]
    cases c.value? s with
    | none => rfl
    | some v => rw [List.getLast?_cons, Option.getD_some, Option.getD_some]

theorem lastValue_reordered (h : Reordered changes changes') (s : Setting) :
    o.lastValue changes s = o.lastValue changes' s := by
  have hvalues : ∀ l : List Change,
      l.filterMap (·.value? s) = (l.filter (·.sets s)).filterMap (·.value? s) := by
    intro l
    rw [List.filterMap_filter]
    refine List.filterMap_congr fun c _ => ?_
    rw [Change.sets]
    cases c.value? s <;> rfl
  rw [lastValue, lastValue, hvalues, h s, ← hvalues]

theorem parameters_ext {p q : Parameters} (htext : ∀ s, p.text s = q.text s)
    (htimeout : p.timeout = q.timeout) (hunit : p.timeoutUnit = q.timeoutUnit) : p = q := by
  cases p
  cases q
  obtain rfl := htext .secret
  obtain rfl := htext .triggerType
  obtain rfl := htext .authorName
  obtain rfl := htext .authorEmail
  obtain rfl := htext .committerName
  obtain rfl := htext .committerEmail
  obtain rfl := htext .commit
  obtain rfl := htext .message
  obtain rfl := htext .asFile
  obtain rfl := htimeout
  obtain rfl := hunit
  rfl

/-- Operations on the same service are told by their settings. -/
theorem ext_settings (hexecutor : o.executor = o'.executor) (hurl : o.apiUrl = o'.apiUrl)
    (hbuilds : o.builds = o'.builds) (hs : ∀ s, o.setting s = o'.setting s) : o = o' := by
  obtain ⟨executor, apiUrl, ns, name, parameters, builds⟩ := o
  obtain ⟨_, _, ns', name', parameters', _⟩ := o'
  obtain rfl := hexecutor
  obtain rfl := hurl
  obtain rfl := hbuilds
  obtain rfl : ns = ns' := Setting.Value.text.inj (hs .ns)
  obtain rfl : name = name' := Setting.Value.text.inj (hs .name)
  obtain ⟨htimeout, hunit⟩ := Setting.Value.timeout.inj (hs .timeout)
  obtain rfl := parameters_ext (fun s => Setting.Value.text.inj (hs (.text s))) htimeout hunit
  rfl

/-- Each setting has the value that it was given last, and nothing else is changed. Changes of
different settings can be made in any order. -/
theorem last_setting_holds (o : Operations σ) (changes : List Change) :
    (∀ s, (o.applyAll changes).setting s = o.lastValue changes s) ∧
      (o.applyAll changes).executor = o.executor ∧ (o.applyAll changes).apiUrl = o.apiUrl ∧
      (o.applyAll changes).builds = o.builds ∧
      ∀ changes', Reordered changes changes' →
        o.applyAll changes' = o.applyAll changes ∧
          (o.applyAll changes').resourceUrl = (o.applyAll changes).resourceUrl ∧
          (o.applyAll changes').hookUrl = (o.applyAll changes).hookUrl ∧
          Query.write (o.applyAll changes').parameters =
            Query.write (o.applyAll changes).parameters := by
  obtain ⟨hurl, hbuilds⟩ := o.applyAll_fixed changes
  have hexecutor := o.executor_applyAll changes
  refine ⟨o.setting_applyAll changes, hexecutor, hurl, hbuilds, fun changes' h => ?_⟩
  obtain ⟨hurl', hbuilds'⟩ := o.applyAll_fixed changes'
  have heq : o.applyAll changes' = o.applyAll changes := by
    refine ext_settings ((o.executor_applyAll changes').trans hexecutor.symm)
      (hurl'.trans hurl.symm) (hbuilds'.trans hbuilds.symm) fun s => ?_
    rw [setting_applyAll, setting_applyAll, lastValue_reordered h]
  exact ⟨heq, by rw [heq], by rw [heq], by rw [heq]⟩

/-- A revision, with a timeout that is set twice. -/
def revision : List Change :=
  [.parameter (.text .authorName (some "a")), .parameter (.timeout (some (.int 1)) .hours),
    .parameter (.text .committerName (some "c")), .parameter (.text .commit (some "1")), .binary,
    .parameter (.timeout (some (.int 5)) .milliseconds), .parameter (.text .message (some "m"))]

/-- The same in another order. -/
def revision' : List Change :=
  [.parameter (.text .message (some "m")), .parameter (.timeout (some (.int 1)) .hours),
    .parameter (.timeout (some (.int 5)) .milliseconds), .parameter (.text .commit (some "1")),
    .parameter (.text .committerName (some "c")), .parameter (.text .authorName (some "a")),
    .binary]

theorem last_setting_holds_revision :
    Reordered revision revision' ∧
      (unclaimed.applyAll revision).setting .timeout = .timeout (some (.int 5)) .milliseconds ∧
      (unclaimed.applyAll revision).setting (.text .commit) = .text (some "1") ∧
      unclaimed.applyAll revision' = unclaimed.applyAll revision := by
  have hr : Reordered revision revision' := by
    intro s
    cases s with
    | text t => cases t <;> decide
    | _ => decide
  obtain ⟨hlast, -, -, -, hreordered⟩ := last_setting_holds unclaimed revision
  exact ⟨hr, (hlast .timeout).trans (by decide), (hlast (.text .commit)).trans (by decide),
    (hreordered revision' hr).1⟩

end BuildClient.Operations
