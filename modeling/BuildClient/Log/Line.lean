import BuildClient.Failure
import BuildClient.Log.Template
import BuildClient.Log.Time

/-!
Records as lines of text, each one document.
-/

namespace BuildClient.Log

open Json Text

/-- The name of a weight. -/
def levelName (level : Int) : String :=
  if level = 50 then "CRITICAL"
  else if level = 40 then "ERROR"
  else if level = 30 then "WARNING"
  else if level = 20 then "INFO"
  else if level = 10 then "DEBUG"
  else if level = 0 then "NOTSET"
  else "Level " ++ toString level

/-- A failure and, in lines, the calls that led to it, if they are known. -/
structure Trace where
  stack : String
  failure : Failure

/-- What is logged. The attributes may be of any name; some names are those of every record. -/
structure Record where
  created : Number
  level : String
  logger : String
  /-- The message before its arguments are filled in. -/
  template : Value
  args : List Value
  attributes : Dictionary Value
  /-- A failure that is logged along, after the one that caused it. -/
  failure : Option (Option Trace × Trace)

namespace Record

inductive Fault where
  | time (f : Moment.Fault)
  /-- A value of this kind stands in the place of the method that gives the message. -/
  | notCallable (kind : String)
  | template (f : Template.Fault)
  /-- A whole number has too many digits to be written. -/
  | tooManyDigits
deriving DecidableEq, Repr

def Fault.message : Fault → String
  | time f => f.message
  | notCallable kind => "'" ++ kind ++ "' object is not callable"
  | template f => f.message
  | tooManyDigits => Template.Fault.tooManyDigits.message

/-- The attributes that every record has. -/
def ownNames : List String :=
  ["name", "msg", "args", "levelname", "levelno", "pathname", "filename", "module", "exc_info",
   "exc_text", "stack_info", "lineno", "funcName", "created", "msecs", "relativeCreated", "thread",
   "threadName", "processName", "process", "message", "asctime"]

/-- An attribute that was added for the record; a leading underscore marks the private ones. -/
def isAdded (name : String) : Bool := !ownNames.contains name && name.toList.head? != some '_'

def added (r : Record) : Dictionary Value := r.attributes.filter fun a => isAdded a.1

/-- The last line of a failure's report: its full name and, if there is one, its text. -/
def reportLine (f : Failure) : String :=
  f.name ++ (if f.text.isEmpty then "" else ": " ++ f.text)

def traced (t : Trace) : String := t.stack ++ reportLine t.failure

def report : Option Trace × Trace → String
  | (none, t) => traced t
  | (some cause, t) =>
    traced cause ++
      "\n\nThe above exception was the direct cause of the following exception:\n\n" ++ traced t

/-- Numbers that are no numbers are written as words. -/
def style : Style := .standard ", " ": " ⟨-4, 16, 2, "NaN", "Infinity", "-Infinity"⟩

/-- The record as a document. Nothing that was added can stand in for its own members. -/
def document (r : Record) (timestamp message : String) : Value :=
  .object
    ([("timestamp", .string timestamp), ("level", .string r.level), ("logger", .string r.logger),
      ("message", .string message)] ++
    (if r.added.isEmpty then [] else [("extra", .object r.added)]) ++
    r.failure.toList.map fun f => ("exception", .string (report f)))

def timestamp (r : Record) : Except Moment.Fault String := do
  let moment ← Moment.ofNumber r.created
  moment.write

/-- The name of the method that gives the message. -/
def messageMethod : String := "getMessage"

/-- The message with its arguments; the method that gives it is hidden by an attribute of its
name. -/
def message (r : Record) : Except Fault String :=
  match r.attributes.get? messageMethod with
  | some v => .error (.notCallable (Template.kindOf v))
  | none => (fillTemplate r.template r.args).mapError .template

def write (r : Record) : Except Fault String := do
  let timestamp ← r.timestamp.mapError .time
  let message ← r.message
  let v := r.document timestamp message
  if v.isShort then pure (style.print v) else .error .tooManyDigits

end Record

end BuildClient.Log
