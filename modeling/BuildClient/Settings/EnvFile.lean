import BuildClient.Dictionary
import BuildClient.Text.Blank

/-!
Files of variables, one to a line: `NAME=value`, with quotes, escapes, comments and references to
other variables. Lines that do not have this form are passed over.
-/

namespace BuildClient.EnvFile

open Text

/-- Every kind of line end is read as one. -/
def unifyBreaks : List Char → List Char
  | '\r' :: '\n' :: rest => '\n' :: unifyBreaks rest
  | '\r' :: rest => '\n' :: unifyBreaks rest
  | c :: rest => c :: unifyBreaks rest
  | [] => []

/-- The mark at the very start that tells the coding of the file. -/
def dropMark : List Char → List Char
  | '\uFEFF' :: rest => rest
  | s => s

def isInlineBlank (c : Char) : Bool := isBlank c && c != '\n' && c != '\r'

def skipBlanks (s : List Char) : List Char := s.dropWhile isInlineBlank

/-- What follows the end of the line. -/
def skipLine (s : List Char) : List Char := (s.dropWhile (· != '\n')).tail

/-- The word before a name that does not matter. -/
def skipExport : List Char → List Char
  | 'e' :: 'x' :: 'p' :: 'o' :: 'r' :: 't' :: c :: rest =>
    if isInlineBlank c then skipBlanks rest else 'e' :: 'x' :: 'p' :: 'o' :: 'r' :: 't' :: c :: rest
  | s => s

def isNameChar (c : Char) : Bool := c != '=' && c != '#' && !isBlank c

/-- A name, in single quotes or bare. -/
def name? : List Char → Option (String × List Char)
  | '\'' :: rest =>
    match rest.dropWhile (· != '\'') with
    | '\'' :: after =>
      let name := rest.takeWhile (· != '\'')
      if name.isEmpty then none else some (String.ofList name, after)
    | _ => none
  | s =>
    let name := s.takeWhile isNameChar
    if name.isEmpty then none else some (String.ofList name, s.dropWhile isNameChar)

/-- The text up to the closing quote, and the rest. The quote closes where no backslash stands
before it, else at the last place where one does. -/
def quoted? (q : Char) : List Char → Option (List Char × List Char)
  | [] => none
  | [c] => if c = q then some ([], []) else none
  | c :: d :: rest =>
    if c = q then some ([], d :: rest)
    else if c = '\\' ∧ d = q then
      match quoted? q rest with
      | some (body, after) => some ('\\' :: q :: body, after)
      | none => some (['\\'], rest)
    else (quoted? q (d :: rest)).map fun p => (c :: p.1, p.2)

/-- The characters behind the escapes between double quotes. -/
def doubleEscape? : Char → Option Char
  | '\\' => some '\\'
  | '\'' => some '\''
  | '"' => some '"'
  | 'a' => some '\x07'
  | 'b' => some '\x08'
  | 'f' => some '\x0c'
  | 'n' => some '\n'
  | 'r' => some '\r'
  | 't' => some '\t'
  | 'v' => some '\x0b'
  | _ => none

def singleEscape? : Char → Option Char
  | '\\' => some '\\'
  | '\'' => some '\''
  | _ => none

/-- Replaces the escapes that are known; every other backslash stands for itself. -/
def unescape (escape? : Char → Option Char) : List Char → List Char
  | '\\' :: c :: rest =>
    match escape? c with
    | some d => d :: unescape escape? rest
    | none => '\\' :: unescape escape? (c :: rest)
  | c :: rest => c :: unescape escape? rest
  | [] => []
termination_by s => s.length

/-- A bare value ends before blanks that a comment follows. -/
def cutComment : List Char → List Char
  | [] => []
  | c :: rest =>
    if isBlank c && (rest.dropWhile isBlank).head? == some '#' then [] else c :: cutComment rest

/-- A value and the rest. -/
def value? : List Char → Option (String × List Char)
  | '\'' :: rest =>
    (quoted? '\'' rest).map fun p => (String.ofList (unescape singleEscape? p.1), p.2)
  | '"' :: rest =>
    (quoted? '"' rest).map fun p => (String.ofList (unescape doubleEscape? p.1), p.2)
  | s =>
    some (String.ofList (dropEndWhile isBlank (cutComment (s.takeWhile (· != '\n')))),
      s.dropWhile (· != '\n'))

/-- A comment, if there is one. -/
def skipComment (s : List Char) : List Char :=
  match skipBlanks s with
  | '#' :: rest => rest.dropWhile (· != '\n')
  | rest => rest

/-- What follows the end of a line on which nothing more stands. -/
def endOfLine? (s : List Char) : Option (List Char) :=
  match skipBlanks (skipComment s) with
  | [] => some []
  | '\n' :: rest => some rest
  | _ => none

/-- What one step over a file gives, and the rest. -/
structure Step where
  found : Option (String × Option String)
  rest : List Char

/-- Ends a line; if it goes on with something else, it was no line of the form at all. -/
def finish (found : Option (String × Option String)) (s : List Char) : Step :=
  match endOfLine? s with
  | some rest => ⟨found, rest⟩
  | none => ⟨none, skipLine s⟩

/-- Reads a name and, behind an equal sign, its value. A name alone has none. -/
def binding (s : List Char) : Step :=
  match name? s with
  | none => ⟨none, skipLine s⟩
  | some (name, after) =>
    match skipBlanks after with
    | '=' :: rest =>
      match value? (skipBlanks rest) with
      | some (value, rest) => finish (some (name, some value)) rest
      | none => ⟨none, skipLine rest⟩
    | rest => finish (some (name, none)) rest

/-- One line, after the blanks and empty lines before it. -/
def step (s : List Char) : Step :=
  match s.dropWhile isBlank with
  | [] => ⟨none, []⟩
  | '#' :: rest => finish none ('#' :: rest)
  | s => binding (skipExport s)

/-- The lines in turn; each takes a character at least, which bounds their number. -/
def stepsFrom : Nat → List Char → List (String × Option String)
  | 0, _ => []
  | _, [] => []
  | fuel + 1, s => (step s).found.toList ++ stepsFrom fuel (step s).rest

/-- The names and values as they are written, in order. -/
def read (text : String) : List (String × Option String) :=
  let s := unifyBreaks (dropMark text.toList)
  stepsFrom (s.length + 1) s

/-- A reference: a name and what stands for it where it is not set. -/
structure Reference where
  name : String
  fallback : String

/-- Reads what follows `${` up to the brace, and the rest. -/
def reference? (s : List Char) : Option (Reference × List Char) :=
  let name := s.takeWhile fun c => c != '}' && c != ':'
  match s.dropWhile fun c => c != '}' && c != ':' with
  | '}' :: rest => some (⟨String.ofList name, ""⟩, rest)
  | ':' :: '-' :: rest =>
    match cutAt rest with
    | some (fallback, after) => some (⟨String.ofList name, String.ofList fallback⟩, after)
    | none => none
  | _ => none
where
  cutAt (s : List Char) : Option (List Char × List Char) :=
    match s.dropWhile (· != '}') with
    | '}' :: rest => some (s.takeWhile (· != '}'), rest)
    | _ => none

/-- The text of a reference. A name without a value stands for nothing. -/
def Reference.resolve (r : Reference) (values : Dictionary (Option String)) : String :=
  match values.get? r.name with
  | none => r.fallback
  | some value => value.getD ""

/-- Replaces every reference, at most as many as the fuel says. -/
def expandFrom (values : Dictionary (Option String)) : Nat → List Char → List Char
  | 0, s => s
  | _, [] => []
  | fuel + 1, '$' :: '{' :: s =>
    match reference? s with
    | some (r, rest) => (r.resolve values).toList ++ expandFrom values fuel rest
    | none => '$' :: expandFrom values fuel ('{' :: s)
  | fuel + 1, c :: s => c :: expandFrom values fuel s

def expand (values : Dictionary (Option String)) (value : String) : String :=
  String.ofList (expandFrom values value.length value.toList)

/-- Resolves the references in turn. What the file has set so far counts before the environment. -/
def resolve (env : Dictionary String) (lines : List (String × Option String)) :
    Dictionary (Option String) :=
  lines.foldl (fun done line =>
    let known := done.foldl (fun d p => d.insert p.1 p.2) (env.mapValues some)
    done.insert line.1 (line.2.map (expand known))) []

/-- The variables of a file. -/
def values (env : Dictionary String) (text : String) : Dictionary (Option String) :=
  resolve env (read text)

end BuildClient.EnvFile
