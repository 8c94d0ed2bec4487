import BuildClient.Dictionary
import BuildClient.Failure
import BuildClient.Text.Blank

/-!
Header lines. Names are the same whatever the case of their letters.
-/

namespace BuildClient.Http

open Text

abbrev Headers := List (String × String)

namespace Headers

def fold (name : String) : String := String.ofList (name.toList.map Char.toLower)

def sameName (a b : String) : Bool := fold a == fold b

/-- A line that is there keeps its place and takes the new spelling and value. -/
def set (name value : String) : Headers → Headers
  | [] => [(name, value)]
  | line :: rest =>
    if sameName line.1 name then (name, value) :: rest else line :: set name value rest

def setAll (lines hs : Headers) : Headers := lines.foldl (fun hs line => set line.1 line.2 hs) hs

def remove (name : String) (hs : Headers) : Headers := hs.filter fun line => !sameName line.1 name

def get? (name : String) (hs : Headers) : Option String :=
  (hs.find? fun line => sameName line.1 name).map Prod.snd

def has (name : String) (hs : Headers) : Bool := hs.any fun line => sameName line.1 name

/-- A text without its final line break. -/
def dropFinalBreak (s : List Char) : List Char := if s.getLast? = some '\n' then s.dropLast else s

def isBreak (c : Char) : Bool := c == '\r' || c == '\n'

/-- A name starts with no blank and contains neither colons nor line breaks, but for a final one. -/
def validName (name : String) : Bool :=
  match name.toList with
  | [] => false
  | c :: rest =>
    !isBlank c && c != ':' && (dropFinalBreak rest).all fun d => !isBreak d && d != ':'

/-- A value starts with no blank and contains no line breaks, but for a final one. -/
def validValue (value : String) : Bool :=
  match value.toList with
  | [] | ['\n'] => true
  | c :: rest => !isBlank c && (dropFinalBreak rest).all fun d => !isBreak d

def checkLine (line : String × String) : Except Foreign Unit :=
  if !validName line.1 then .error (.invalidHeaderName line.1)
  else if !validValue line.2 then .error (.invalidHeaderValue line.2)
  else .ok ()

/-- The first line that cannot be sent is reported. -/
def check : Headers → Except Foreign Unit
  | [] => .ok ()
  | line :: rest => do
    checkLine line
    check rest

end Headers

end BuildClient.Http
