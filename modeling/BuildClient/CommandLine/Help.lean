import BuildClient.CommandLine.Arguments

/-!
The text that explains a command line, in lines of limited width.
-/

namespace BuildClient.Arguments

open Text

namespace Help

/-- Lines hold less than eighty characters. -/
def lineWidth : Nat := 78

/-- The explanations start at this column or before it. -/
def maxColumn : Nat := 24

def blanks (n : Nat) : String := String.ofList (List.replicate n ' ')

/-- Puts pieces into lines with spaces between them. `used` is the length of the line that is open
with `line`; the pieces that do not fit go on behind the indent. -/
def fill (width : Nat) (indent : String) (line : List String) (used : Nat) :
    List String → List (List String)
  | [] => [line]
  | piece :: rest =>
    if width < used + 1 + piece.length ∧ line ≠ [] then
      line :: fill width indent [piece] (indent.length + piece.length) rest
    else fill width indent (line ++ [piece]) (used + 1 + piece.length) rest

/-- The words of a text in lines of a width. -/
def wrap (width : Nat) (text : String) : List String :=
  let words := (splitAt ' ' text.toList).map String.ofList
  match words with
  | [] => []
  | w :: ws => (fill width "" [w] w.length ws).map (String.intercalate " ")

def metavar (target : String) : String := String.ofList (target.toList.map Char.toUpper)

/-- How the value of a switch is shown, if it takes one. -/
def valueName? (s : Switch) : Option String :=
  match s.effect with
  | .value target .. => some (metavar target)
  | _ => none

def isRequired (s : Switch) : Bool :=
  match s.effect with
  | .value _ _ required => required
  | _ => false

/-- A switch in the usage line: its first spelling, in brackets if it may be left out. -/
def usagePart (s : Switch) : String :=
  let name := s.names.headD ""
  let part := match valueName? s with
    | none => name
    | some v => name ++ " " ++ v
  if isRequired s then part else "[" ++ part ++ "]"

def braces (choices : List (String × String)) : String :=
  "\x7b" ++ String.intercalate "," (choices.map Prod.fst) ++ "\x7d"

def operandParts : Operand → List String
  | .none => []
  | .word target _ => [target]
  | .command _ choices => [braces choices, "..."]

def joined (lines : List (List String)) : List String := lines.map (String.intercalate " ")

/-- The usage on one line if it fits, else the switches and the operand on lines of their own. -/
def usage (g : Grammar) : List String :=
  let switches := g.switches.map usagePart
  let operand := operandParts g.operand
  let head := "usage: " ++ g.program
  let whole := String.intercalate " " (head :: switches ++ operand)
  if whole.length ≤ lineWidth then [whole]
  else
    let indent := blanks (head.length + 1)
    let indented := fun lines => match joined lines with
      | [] => []
      | l :: ls => l :: ls.map (indent ++ ·)
    indented (fill lineWidth indent [head] head.length switches) ++
      if operand.isEmpty then []
      else (joined (fill lineWidth indent [] (indent.length - 1) operand)).map (indent ++ ·)

/-- A title with its indent, and what is said about it. -/
structure Entry where
  indent : Nat
  title : String
  about : String

/-- All spellings of a switch, each with the value. -/
def switchTitle (s : Switch) : String :=
  match valueName? s with
  | none => String.intercalate ", " s.names
  | some v => String.intercalate ", " (s.names.map fun n => n ++ " " ++ v)

def switchEntry (s : Switch) : Entry := ⟨2, switchTitle s, s.about⟩

def operandEntries : Operand → List Entry
  | .none => []
  | .word target about => [⟨2, target, about⟩]
  | .command _ choices => ⟨2, braces choices, ""⟩ :: choices.map fun c => ⟨4, c.1, c.2⟩

/-- The column of the explanations: behind the longest title, as far as that is allowed. -/
def column (entries : List Entry) : Nat :=
  min maxColumn ((entries.map fun e => e.indent + e.title.length).foldl max 0 + 2)

/-- A title too long for its column has its own line. -/
def entryLines (column : Nat) (e : Entry) : List String :=
  let head := blanks e.indent ++ e.title
  let about := if e.about.isEmpty then [] else wrap (lineWidth - column) e.about
  match about with
  | [] => [head]
  | first :: rest =>
    let rest := rest.map (blanks column ++ ·)
    if head.length + 2 ≤ column then (head ++ blanks (column - head.length) ++ first) :: rest
    else head :: (blanks column ++ first) :: rest

def part (column : Nat) (title : String) (entries : List Entry) : List String :=
  if entries.isEmpty then [] else "" :: title :: entries.flatMap (entryLines column)

def lines (g : Grammar) : List String :=
  let operands := operandEntries g.operand
  let switches := g.switches.map switchEntry
  let column := column (operands ++ switches)
  usage g ++ (g.about.elim [] fun a => ["", a]) ++
    part column "positional arguments:" operands ++ part column "options:" switches

end Help

def helpText (g : Grammar) : String := String.join ((Help.lines g).map (· ++ "\n"))

def usageText (g : Grammar) : String := String.join ((Help.usage g).map (· ++ "\n"))

/-- What is said about words that are refused, after the usage. -/
def refusalText (g : Grammar) (message : String) : String :=
  g.program ++ ": error: " ++ message ++ "\n"

end BuildClient.Arguments
