import BuildClient.Dictionary
import BuildClient.Number.Numeral
import BuildClient.Text.Quoted
import BuildClient.Text.Split

/-!
Reading the words of a command line: switches with and without values, in full or abbreviated, and
an operand among them.
-/

namespace BuildClient

open Text

namespace Arguments

/-- What the text of a value must be. -/
inductive ValueKind where
  | text
  | whole
  | real
deriving DecidableEq, Repr

def ValueKind.name : ValueKind → String
  | text => "str"
  | whole => "int"
  | real => "float"

def ValueKind.accepts : ValueKind → String → Bool
  | text, _ => true
  | whole, s => (Numeral.readInt? s).isSome
  | real, s => (Numeral.readReal? s).isSome

inductive Effect where
  | help
  | version
  | value (target : String) (kind : ValueKind) (required : Bool)
deriving DecidableEq, Repr

/-- A switch with all its spellings, and what is said about it. -/
structure Switch where
  names : List String
  effect : Effect
  about : String
deriving DecidableEq, Repr

def Switch.takesValue (s : Switch) : Bool :=
  match s.effect with
  | .value .. => true
  | _ => false

def Switch.title (s : Switch) : String := String.intercalate "/" s.names

def helpSwitch : Switch := ⟨["-h", "--help"], .help, "show this help message and exit"⟩

/-- What stands on the line besides the switches. -/
inductive Operand where
  | none
  | word (target about : String)
  /-- One of several commands, to which all that follows belongs. -/
  | command (target : String) (choices : List (String × String))
deriving DecidableEq, Repr

/-- What a command line may hold. -/
structure Grammar where
  program : String
  about : Option String
  switches : List Switch
  operand : Operand
deriving DecidableEq, Repr

/-- Why the reading ends early. -/
inductive Stop where
  | help
  | version
  | refused (message : String)
deriving DecidableEq, Repr

/-- A word that is read as a switch, perhaps an unknown one. -/
structure Match where
  switch : Option Switch
  spelling : List Char
  /-- The value in the word itself stands behind an equal sign. -/
  equals : Bool
  explicit : Option (List Char)

inductive Item where
  | switch (text : String) (m : Match)
  | word (text : String)
  /-- The mark after which nothing is a switch. -/
  | dashes

namespace Item

def text : Item → String
  | switch t _ => t
  | word t => t
  | dashes => "--"

def isSwitch : Item → Bool
  | switch .. => true
  | _ => false

end Item

namespace Grammar

/-- Every spelling with its switch, in order. -/
def spellings (g : Grammar) : List (String × Switch) :=
  g.switches.flatMap fun s => s.names.map fun n => (n, s)

def find? (g : Grammar) (name : List Char) : Option Switch :=
  g.spellings.lookup (String.ofList name)

/-- What a word beginning with two dashes may be short for. -/
def longMatches (g : Grammar) (word : List Char) : List (String × Match) :=
  let (start, value) := cutFirst '=' word
  (g.spellings.filter fun p => start.isPrefixOf p.1.toList).map fun p =>
    (p.1, ⟨some p.2, p.1.toList, value.isSome, value⟩)

/-- What a word beginning with one dash may be short for, or a switch with its value behind it. -/
def shortMatches (g : Grammar) (word : List Char) : List (String × Match) :=
  g.spellings.filterMap fun p =>
    if p.1.toList = word.take 2 then some (p.1, ⟨some p.2, p.1.toList, false, some (word.drop 2)⟩)
    else if word.isPrefixOf p.1.toList then some (p.1, ⟨some p.2, p.1.toList, false, none⟩)
    else none

def isDigit (c : Char) : Bool := (digitValue? c).isSome

/-- A negative number is a word. A line break at its end is overlooked. -/
def isNegative (word : List Char) : Bool :=
  let body := word.drop 1
  let body := if body.getLast? = some '\n' then body.dropLast else body
  let (whole, part) := cutFirst '.' body
  match part with
  | none => !whole.isEmpty && whole.all isDigit
  | some part => whole.all isDigit && !part.isEmpty && part.all isDigit

/-- How a word is read. A word that begins with a dash is no switch if it is a number or contains
a space, unless it is the spelling of one. -/
def read (g : Grammar) (word : String) : Except Stop Item :=
  match word.toList with
  | '-' :: rest =>
    match g.find? ('-' :: rest) with
    | some s => .ok (.switch word ⟨some s, '-' :: rest, false, none⟩)
    | none =>
      if rest.isEmpty then .ok (.word word)
      else
        let (start, value) := cutFirst '=' ('-' :: rest)
        match value, g.find? start with
        | some value, some s => .ok (.switch word ⟨some s, start, true, some value⟩)
        | _, _ =>
          match if rest.head? = some '-' then g.longMatches ('-' :: rest)
              else g.shortMatches ('-' :: rest) with
          | [(_, m)] => .ok (.switch word m)
          | [] =>
            if isNegative ('-' :: rest) || rest.contains ' ' then .ok (.word word)
            else .ok (.switch word ⟨none, '-' :: rest, false, none⟩)
          | many =>
            .error (.refused ("ambiguous option: " ++ word ++ " could match " ++
              String.intercalate ", " (many.map Prod.fst)))
  | _ => .ok (.word word)

/-- How all words are read. -/
def readAll (g : Grammar) : List String → Except Stop (List Item)
  | [] => .ok []
  | w :: ws =>
    if w = "--" then .ok (.dashes :: ws.map .word)
    else do
      let item ← g.read w
      let items ← readAll g ws
      pure (item :: items)

end Grammar

/-- What was found so far. -/
structure State where
  values : Dictionary String
  operandDone : Bool
  command : Option (String × List String)
  extras : List String

namespace State

def start : State := ⟨[], false, none, []⟩

def addExtras (st : State) (words : List String) : State := { st with extras := st.extras ++ words }

end State

def refuse {α : Type} (title message : String) : Except Stop α :=
  .error (.refused ("argument " ++ title ++ ": " ++ message))

/-- What follows a row of switches in one word. -/
inductive Tail where
  | done
  | extra (text : String)
  /-- The last switch takes its value from the next word. -/
  | next (s : Switch)

/-- Takes a word apart: switches of one letter may stand in a row behind one dash. -/
def unfold (g : Grammar) :
    Nat → Switch → List Char → Bool → Option (List Char) →
      Except Stop (List (Switch × Option String) × Tail)
  | _, s, _, _, none => if s.takesValue then .ok ([], .next s) else .ok ([(s, none)], .done)
  | 0, s, _, _, some value => .ok ([(s, some (String.ofList value))], .done)
  | fuel + 1, s, spelling, equals, some value =>
    if s.takesValue then .ok ([(s, some (String.ofList value))], .done)
    else
      match value with
      | c :: rest =>
        if spelling[1]? = some '-' || equals || c = '-' then
          refuse s.title ("ignored explicit argument " ++ Quoted.quote (String.ofList value))
        else
          match g.find? ['-', c] with
          | none => .ok ([(s, none)], .extra (String.ofList ('-' :: value)))
          | some t =>
            let (equals, value) := match rest with
              | [] => (false, none)
              | '=' :: rest => (true, some rest)
              | rest => (false, some rest)
            (unfold g fuel t ['-', c] equals value).map fun p => ((s, none) :: p.1, p.2)
      | [] => refuse s.title ("ignored explicit argument " ++ Quoted.quote "")

/-- The effect of a switch with its value. -/
def perform (st : State) (s : Switch) (value : Option String) : Except Stop State :=
  match s.effect with
  | .help => .error .help
  | .version => .error .version
  | .value target kind _ =>
    let text := value.getD ""
    if kind.accepts text then .ok { st with values := st.values.insert target text }
    else refuse s.title ("invalid " ++ kind.name ++ " value: " ++ Quoted.quote text)

def performAll (st : State) : List (Switch × Option String) → Except Stop State
  | [] => .ok st
  | (s, value) :: rest => do
    let st ← perform st s value
    performAll st rest

/-- Reads a switch; the items after it may hold its value. -/
def takeSwitch (g : Grammar) (st : State) (text : String) (m : Match) (rest : List Item) :
    Except Stop (State × List Item) :=
  match m.switch with
  | none => .ok (st.addExtras [text], rest)
  | some s => do
    let (row, tail) ← unfold g text.length s m.spelling m.equals m.explicit
    match tail with
    | .done => do
      let st ← performAll st row
      pure (st, rest)
    | .extra word => do
      let st ← performAll (st.addExtras [word]) row
      pure (st, rest)
    | .next last =>
      match rest with
      | .word value :: rest => do
        let st ← performAll st (row ++ [(last, some value)])
        pure (st, rest)
      | _ => refuse last.title "expected one argument"

def skipDashes : List Item → List Item
  | .dashes :: rest => rest
  | items => items

/-- Takes the operand, if it is still missing and stands here. -/
def takeOperand (g : Grammar) (st : State) (items : List Item) :
    Except Stop (Option (State × List Item)) :=
  if st.operandDone then .ok none
  else
    match g.operand, skipDashes items with
    | .word target _, .word text :: rest =>
      .ok (some ({ st with operandDone := true, values := st.values.insert target text },
        skipDashes rest))
    | .command target choices, .word text :: rest =>
      let first := match items with
        | .dashes :: _ => "--"
        | _ => text
      if (choices.map Prod.fst).contains first then
        .ok (some
          ({ st with operandDone := true, command := some (first, rest.map Item.text) }, []))
      else
        refuse target ("invalid choice: " ++ Quoted.quote first ++ " (choose from " ++
          String.intercalate ", " (choices.map fun c => Quoted.quote c.1) ++ ")")
    | _, _ => .ok none

/-- The operand may stand last; all that is left over is extra. -/
def finish (g : Grammar) (st : State) (items : List Item) : Except Stop State := do
  match ← takeOperand g st items with
  | some (st, rest) => pure (st.addExtras (rest.map Item.text))
  | none => pure (st.addExtras (items.map Item.text))

/-- Takes operand and switches in turn as long as there is a switch; each turn takes an item. -/
def loop (g : Grammar) : Nat → State → List Item → Except Stop State
  | 0, st, items => finish g st items
  | _, st, [] => finish g st []
  | fuel + 1, st, .switch text m :: rest => do
    let (st, rest) ← takeSwitch g st text m rest
    loop g fuel st rest
  | fuel + 1, st, items =>
    if !items.any Item.isSwitch then finish g st items
    else do
      match ← takeOperand g st items with
      | some (st, rest) => loop g fuel st rest
      | none =>
        let before := items.takeWhile fun i => !i.isSwitch
        loop g fuel (st.addExtras (before.map Item.text)) (items.dropWhile fun i => !i.isSwitch)

/-- What must be there and is not. -/
def missing (g : Grammar) (st : State) : List String :=
  (match g.operand with
    | .word target _ | .command target _ => if st.operandDone then [] else [target]
    | .none => []) ++
  g.switches.filterMap fun s =>
    match s.effect with
    | .value target _ true => if (st.values.get? target).isSome then none else some s.title
    | _ => none

def parse (g : Grammar) (words : List String) : Except Stop State := do
  let items ← g.readAll words
  let st ← loop g items.length .start items
  match missing g st with
  | [] => pure st
  | names => .error (.refused
      ("the following arguments are required: " ++ String.intercalate ", " names))

/-- Words that nothing takes are refused in the end. -/
def refuseExtras (extras : List String) : Except Stop Unit :=
  if extras.isEmpty then .ok ()
  else .error (.refused ("unrecognized arguments: " ++ String.intercalate " " extras))

end Arguments

end BuildClient
