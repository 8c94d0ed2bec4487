import BuildClient.Number.Number

/-!
The settings of a build start or a webhook: texts, and a timeout with its unit.
-/

namespace BuildClient

inductive TimeoutUnit where
  | milliseconds
  | seconds
  | minutes
  | hours
deriving DecidableEq, Repr

def TimeoutUnit.inMilliseconds : TimeoutUnit → Nat
  | .milliseconds => 1
  | .seconds => 1000
  | .minutes => 60000
  | .hours => 3600000

/-- An unset setting and an empty text are told apart. -/
structure Parameters where
  secret : Option String
  triggerType : Option String
  authorName : Option String
  authorEmail : Option String
  committerName : Option String
  committerEmail : Option String
  commit : Option String
  message : Option String
  asFile : Option String
  timeout : Option Number
  timeoutUnit : TimeoutUnit
deriving DecidableEq, Repr

/-- The settings that are texts. -/
inductive TextSetting where
  | secret
  | triggerType
  | authorName
  | authorEmail
  | committerName
  | committerEmail
  | commit
  | message
  | asFile
deriving DecidableEq, Repr

namespace Parameters

def empty : Parameters :=
  ⟨none, none, none, none, none, none, none, none, none, none, .milliseconds⟩

def text (p : Parameters) : TextSetting → Option String
  | .secret => p.secret
  | .triggerType => p.triggerType
  | .authorName => p.authorName
  | .authorEmail => p.authorEmail
  | .committerName => p.committerName
  | .committerEmail => p.committerEmail
  | .commit => p.commit
  | .message => p.message
  | .asFile => p.asFile

def withText (p : Parameters) (value : Option String) : TextSetting → Parameters
  | .secret => { p with secret := value }
  | .triggerType => { p with triggerType := value }
  | .authorName => { p with authorName := value }
  | .authorEmail => { p with authorEmail := value }
  | .committerName => { p with committerName := value }
  | .committerEmail => { p with committerEmail := value }
  | .commit => { p with commit := value }
  | .message => { p with message := value }
  | .asFile => { p with asFile := value }

/-- Value and unit are one setting. -/
def withTimeout (p : Parameters) (value : Option Number) (unit : TimeoutUnit) : Parameters :=
  { p with timeout := value, timeoutUnit := unit }

/-- One change of one setting. -/
inductive Change where
  | text (setting : TextSetting) (value : Option String)
  | timeout (value : Option Number) (unit : TimeoutUnit)
deriving DecidableEq, Repr

def apply (p : Parameters) : Change → Parameters
  | .text setting value => p.withText value setting
  | .timeout value unit => p.withTimeout value unit

@[simp] theorem text_withText (p : Parameters) (value : Option String) (s t : TextSetting) :
    (p.withText value s).text t = if t = s then value else p.text t := by
  cases s <;> cases t <;> rfl

@[simp] theorem text_withTimeout (p : Parameters) (value : Option Number) (unit : TimeoutUnit)
    (t : TextSetting) : (p.withTimeout value unit).text t = p.text t := by
  cases t <;> rfl

/-- A whole number of units is a quotient of whole numbers, rounded once; `none` beyond the finite
range. A binary number is multiplied and divided, rounded each time. -/
def seconds? (value : Number) (unit : TimeoutUnit) : Option Binary64 :=
  match value with
  | .int i => Binary64.ofRatio? (i < 0) (i.natAbs * unit.inMilliseconds) 1000
  | .real x => some ((x.mulNat unit.inMilliseconds).divNat 1000)

/-- Agreement of all settings but the timeout's value. -/
def agrees (p q : Parameters) : Bool :=
  { p with timeout := none } == { q with timeout := none }

end Parameters

/-- Settings in a line of changes. A timeout that is no number is known to be the same only when
it was carried over, so each entry tells in which entry its timeout was set. -/
structure Parameters.Entry where
  parameters : Parameters
  timeoutFrom : Nat

namespace Parameters.Entry

def start (p : Parameters) : Entry := ⟨p, 0⟩

/-- The entry after a change, to stand at that place. -/
def next (e : Entry) (place : Nat) : Change → Entry
  | .text setting value => { e with parameters := e.parameters.withText value setting }
  | .timeout value unit => ⟨e.parameters.withTimeout value unit, place⟩

def sameTimeout (e f : Entry) : Bool :=
  match e.parameters.timeout, f.parameters.timeout with
  | none, none => true
  | some a, some b => e.timeoutFrom == f.timeoutFrom || a.numericEq b
  | _, _ => false

def same (e f : Entry) : Bool := e.parameters.agrees f.parameters && e.sameTimeout f

/-- The place of the first entry that is the same. -/
def firstSame (entries : List Entry) (e : Entry) : Nat :=
  entries.findIdx fun f => f.same e

end Parameters.Entry

end BuildClient
