import BuildClient.Http.Request
import BuildClient.Number.Numeral
import BuildClient.Settings.EnvFile
import BuildClient.Wire.Codec

/-!
The settings of the client. Each comes from its own variable: from the environment, else from the
file of variables, else it has its default.
-/

namespace BuildClient

open Text

structure Settings where
  apiUrl : String
  token : Option String
  ns : String
  verifyTls : Bool
  requestTimeout : Binary64
  connectTimeout : Binary64
  logLevel : String
deriving DecidableEq, Repr

namespace Settings

inductive Variable where
  | apiUrl
  | token
  | ns
  | verifyTls
  | requestTimeout
  | connectTimeout
  | logLevel
deriving DecidableEq, Repr

def Variable.name : Variable → String
  | apiUrl => "OPENSHIFT_URL"
  | token => "OPENSHIFT_TOKEN"
  | ns => "OPENSHIFT_NAMESPACE"
  | verifyTls => "OPENSHIFT_VERIFY_TLS"
  | requestTimeout => "OPENSHIFT_REQUEST_TIMEOUT"
  | connectTimeout => "OPENSHIFT_CONNECT_TIMEOUT"
  | logLevel => "LOG_LEVEL"

inductive Defect where
  | unclearBoolean (v : Variable)
  | notNumber (v : Variable)
  | notPositive (v : Variable)
  /-- Everything else is in order, but there is no address. -/
  | urlMissing
deriving DecidableEq, Repr

def Defect.location : Defect → Option Variable
  | unclearBoolean v | notNumber v | notPositive v => some v
  | urlMissing => none

def Defect.message : Defect → String
  | unclearBoolean _ => "Input should be a valid boolean, unable to interpret input"
  | notNumber _ => "Input should be a valid number, unable to parse string as a number"
  | notPositive _ => "Input should be greater than 0"
  | urlMissing => "Value error, OPENSHIFT_URL is required"

/-- Names are compared in small letters; the sign for kelvin is a K. -/
def foldChar (c : Char) : Char := if c = '\u212A' then 'k' else c.toLower

def foldName (s : String) : String := String.ofList (s.toList.map foldChar)

/-- The value of the last variable of the name. -/
def find? {α : Type} (v : Variable) (l : Dictionary α) : Option α :=
  Dictionary.getLast? (foldName v.name) (l.map fun p => (foldName p.1, p.2))

/-- Where the texts of the variables come from. -/
structure Sources where
  env : Dictionary String
  file : Dictionary (Option String)

/-- The text of a variable. In the file a name without a value is as good as none. -/
def Sources.text? (s : Sources) (v : Variable) : Option String :=
  match find? v s.env with
  | some t => some t
  | none => (find? v s.file).join

/-- A value, or what is wrong with the settings so far. -/
abbrev Checked (α : Type) := Except (List Defect) α

def readTruth (v : Variable) (fallback : Bool) (text : Option String) : Checked Bool :=
  match text with
  | none => .ok fallback
  | some t => (Wire.Codec.truthWord? t).elim (.error [.unclearBoolean v]) .ok

/-- Ten seconds. -/
def defaultTimeout : Binary64 := Binary64.ofNat 10

def readTimeout (v : Variable) (text : Option String) : Checked Binary64 :=
  match text with
  | none => .ok defaultTimeout
  | some t =>
    match Numeral.readSetting? t with
    | none => .error [.notNumber v]
    | some x => if x.isPositive then .ok x else .error [.notPositive v]

/-- Both values, or the defects of both in order. -/
def both {α β : Type} : Checked α → Checked β → Checked (α × β)
  | .ok a, .ok b => .ok (a, b)
  | .ok _, .error ds => .error ds
  | .error ds, .ok _ => .error ds
  | .error ds, .error es => .error (ds ++ es)

/-- The address is looked at last, when all else is in order. -/
def requireUrl (s : Settings) : Checked Settings :=
  if allBlank s.apiUrl then .error [.urlMissing] else .ok s

def read (s : Sources) : Checked Settings := do
  let (verify, request, connect) ←
    both (readTruth .verifyTls true (s.text? .verifyTls))
      (both (readTimeout .requestTimeout (s.text? .requestTimeout))
        (readTimeout .connectTimeout (s.text? .connectTimeout)))
  requireUrl
    { apiUrl := (s.text? .apiUrl).getD ""
      token := s.text? .token
      ns := (s.text? .ns).getD "default"
      verifyTls := verify
      requestTimeout := request
      connectTimeout := connect
      logLevel := (s.text? .logLevel).getD "INFO" }

/-- Settings from an environment and the text of a file, if there is one. -/
def load (env : Dictionary String) (file : Option String) : Checked Settings :=
  read ⟨env, (file.map (EnvFile.values env)).getD []⟩

/-- The defects in words, first their number. -/
def summary (ds : List Defect) : String :=
  ClientError.countDefects ds.length "ClientSettings"

def executor (s : Settings) (around : Http.Surroundings) : Http.Executor :=
  ⟨s.token, s.verifyTls, some (.real s.requestTimeout), some (.real s.connectTimeout), around⟩

end Settings

end BuildClient
