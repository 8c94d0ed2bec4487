import BuildClient.Json.Printer
import BuildClient.Json.Short
import BuildClient.Number.Rounded
import BuildClient.Text.Digit
import BuildClient.Text.Quoted

/-!
Messages with places for arguments, such as `%s` and `%(name)5d`.
-/

namespace BuildClient.Log

open Json Text

namespace Template

/-- Values as texts. -/
def display (text : String → List Char) : Style :=
  ⟨", ", ": ", ⟨-4, 16, 2, "nan", "inf", "-inf"⟩, "None", "True", "False", text⟩

def exact : Style := display fun s => (Quoted.quote s).toList

def exactAscii : Style := display fun s => (Quoted.quoteAscii s).toList

/-- A text shows itself; inside a container it stands between quotes. -/
def plain : Value → List Char
  | .string s => s.toList
  | v => exact.chars v

def kindOf : Value → String
  | .null => "NoneType"
  | .bool _ => "bool"
  | .number (.int _) => "int"
  | .number (.real _) => "float"
  | .string _ => "str"
  | .array _ => "list"
  | .object _ => "dict"

inductive Fault where
  | tooFew
  | tooMany
  | noMapping
  | missingKey (key : String)
  | openKey
  | openPlace
  | starNotInt
  | starTooLarge (type : String)
  | widthTooLarge
  | precisionTooLarge
  | notNumber (letter : Char) (kind : String)
  | notWhole (letter : Char) (kind : String)
  | notReal (kind : String)
  | nanToInt
  | infiniteToInt
  | intTooLarge
  /-- A whole number has too many digits to be shown. -/
  | tooManyDigits
  | notChar
  | charTooLarge
  | unknownLetter (letter : Char) (index : Nat)
deriving DecidableEq, Repr

namespace Fault

inductive Family where
  | badType
  | badValue
  | badKey
  | overflow
deriving DecidableEq, Repr

def family : Fault → Family
  | tooFew | tooMany | noMapping | starNotInt | notNumber .. | notWhole .. | notReal _ | notChar =>
    .badType
  | missingKey _ => .badKey
  | openKey | openPlace | widthTooLarge | precisionTooLarge | nanToInt | tooManyDigits
  | unknownLetter .. => .badValue
  | starTooLarge _ | infiniteToInt | intTooLarge | charTooLarge => .overflow

def message : Fault → String
  | tooFew => "not enough arguments for format string"
  | tooMany => "not all arguments converted during string formatting"
  | noMapping => "format requires a mapping"
  | missingKey key => Quoted.quote key
  | openKey => "incomplete format key"
  | openPlace => "incomplete format"
  | starNotInt => "* wants int"
  | starTooLarge type => "Python int too large to convert to C " ++ type
  | widthTooLarge => "width too big"
  | precisionTooLarge => "precision too big"
  | notNumber letter kind =>
    "%" ++ String.ofList [letter] ++ " format: a real number is required, not " ++ kind
  | notWhole letter kind =>
    "%" ++ String.ofList [letter] ++ " format: an integer is required, not " ++ kind
  | notReal kind => "must be real number, not " ++ kind
  | nanToInt => "cannot convert float NaN to integer"
  | infiniteToInt => "cannot convert float infinity to integer"
  | intTooLarge => "int too large to convert to float"
  | tooManyDigits =>
    "Exceeds the limit (" ++ toString Numeral.maxDigits ++
      " digits) for integer string conversion; " ++
      "use sys.set_int_max_str_digits() to increase the limit"
  | notChar => "%c requires int or char"
  | charTooLarge => "%c arg not in range(0x110000)"
  | unknownLetter letter index =>
    let shown := if 31 ≤ letter.toNat ∧ letter.toNat < 126 then letter else '?'
    "unsupported format character '" ++ String.ofList [shown] ++ "' (0x" ++
      String.ofList (Nat.toDigits 16 letter.toNat) ++ ") at index " ++ toString index

end Fault

/-- What the places are filled with: arguments in a row, or members of one mapping. -/
structure Feed where
  mapping : Option (Dictionary Value)
  pending : List Value

namespace Feed

/-- One argument that is a mapping with members is a mapping; all else is a row. -/
def ofArguments : List Value → Feed
  | [.object (m :: ms)] => ⟨some (Dictionary.ofPairs (m :: ms)), [.object (m :: ms)]⟩
  | args => ⟨none, args⟩

def next (f : Feed) : Except Fault (Value × Feed) :=
  match f.pending with
  | [] => .error .tooFew
  | v :: rest => .ok (v, { f with pending := rest })

/-- The member of a key is the only argument from here on. -/
def select (f : Feed) (key : String) : Except Fault Feed :=
  match f.mapping with
  | none => .error .noMapping
  | some members =>
    match members.get? key with
    | none => .error (.missingKey key)
    | some v => .ok { f with pending := [v] }

/-- Every argument of a row is used. -/
def finish (f : Feed) : Except Fault Unit :=
  if f.mapping.isNone && !f.pending.isEmpty then .error .tooMany else .ok ()

end Feed

/-- How a place is filled. -/
structure Place where
  left : Bool
  sign : Bool
  blank : Bool
  alternate : Bool
  zeros : Bool
  width : Option Nat
  precision : Option Nat

/-- The letter and flags that come next, each flag read once or more. -/
def flags : Place → List Char → Place × List Char
  | p, [] => (p, [])
  | p, c :: rest =>
    if c = '-' then flags { p with left := true } rest
    else if c = '+' then flags { p with sign := true } rest
    else if c = ' ' then flags { p with blank := true } rest
    else if c = '#' then flags { p with alternate := true } rest
    else if c = '0' then flags { p with zeros := true } rest
    else (p, c :: rest)

def maxWidth : Nat := 0x7FFFFFFFFFFFFFFF

def maxPrecision : Nat := 0x7FFFFFFF

/-- A whole number of a limited size that is given as an argument. -/
def starred (limit : Nat) (type : String) (f : Feed) : Except Fault (Int × Feed) := do
  let (v, f) ← f.next
  match v with
  | .number (.int i) => if i.natAbs ≤ limit then pure (i, f) else .error (.starTooLarge type)
  | .bool b => pure (if b then 1 else 0, f)
  | _ => .error .starNotInt

def width (p : Place) (s : List Char) (f : Feed) : Except Fault (Place × List Char × Feed) :=
  match s with
  | '*' :: rest => do
    let (i, f) ← starred maxWidth "ssize_t" f
    pure ({ p with width := some i.natAbs, left := p.left || i < 0 }, rest, f)
  | s =>
    let ds := s.takeWhile Char.isDigit
    if ds.isEmpty then .ok (p, s, f)
    else if maxWidth < digitsValue ds then .error .widthTooLarge
    else .ok ({ p with width := some (digitsValue ds) }, s.dropWhile Char.isDigit, f)

/-- A point without a number means none after it. -/
def precision (p : Place) (s : List Char) (f : Feed) : Except Fault (Place × List Char × Feed) :=
  match s with
  | '.' :: '*' :: rest => do
    let (i, f) ← starred maxPrecision "int" f
    pure ({ p with precision := some i.toNat }, rest, f)
  | '.' :: s =>
    let ds := s.takeWhile Char.isDigit
    if maxPrecision < digitsValue ds then .error .precisionTooLarge
    else .ok ({ p with precision := some (digitsValue ds) }, s.dropWhile Char.isDigit, f)
  | s => .ok (p, s, f)

/-- A size before the letter means nothing. -/
def skipSize : List Char → List Char
  | 'h' :: rest | 'l' :: rest | 'L' :: rest => rest
  | s => s

/-- The key up to the parenthesis that closes it, and the rest. -/
def key : Nat → List Char → Except Fault (List Char × List Char)
  | _, [] => .error .openKey
  | depth, c :: rest =>
    if c = ')' ∧ depth = 0 then .ok ([], rest)
    else
      let depth := if c = '(' then depth + 1 else if c = ')' then depth - 1 else depth
      (key depth rest).map fun p => (c :: p.1, p.2)

/-- A number for one of the letters of whole numbers. -/
def whole (letter : Char) : Value → Except Fault Int
  | .number (.int i) => .ok i
  | .bool b => .ok (if b then 1 else 0)
  | .number (.real x) =>
    if letter = 'o' ∨ letter = 'x' ∨ letter = 'X' then .error (.notWhole letter "float")
    else match x.truncate? with
      | some i => .ok i
      | none => .error (if x.isNan then .nanToInt else .infiniteToInt)
  | v =>
    .error (if letter = 'o' ∨ letter = 'x' ∨ letter = 'X' then .notWhole letter (kindOf v)
      else .notNumber letter (kindOf v))

def real : Value → Except Fault Binary64
  | .number (.real x) => .ok x
  | .number (.int i) =>
    match Binary64.ofRatio? (i < 0) i.natAbs 1 with
    | some x => .ok x
    | none => .error .intTooLarge
  | .bool b => .ok (Binary64.ofNat (if b then 1 else 0))
  | v => .error (.notReal (kindOf v))

def character : Value → Except Fault Char
  | .string s =>
    match s.toList with
    | [c] => .ok c
    | _ => .error .notChar
  | .number (.int i) =>
    if 0 ≤ i ∧ i < 0x110000 then .ok (Char.ofNat i.toNat) else .error .charTooLarge
  | .bool b => .ok (Char.ofNat (if b then 1 else 0))
  | _ => .error .notChar

def upper (s : List Char) : List Char := s.map Char.toUpper

/-- A filled place before it is brought to its width: a sign, a mark of the base, and the rest. -/
structure Piece where
  sign : List Char
  mark : List Char
  body : List Char
  numeric : Bool

def Piece.ofText (s : List Char) : Piece := ⟨[], [], s, false⟩

/-- The sign of a number that has none. -/
def signOf (p : Place) : List Char := if p.sign then ['+'] else if p.blank then [' '] else []

/-- A number's text with its sign taken off. -/
def Piece.ofNumber (p : Place) (mark : List Char) (s : List Char) : Piece :=
  match s with
  | '-' :: rest => ⟨['-'], mark, rest, true⟩
  | rest => ⟨signOf p, mark, rest, true⟩

def baseOf (letter : Char) : Nat :=
  if letter = 'o' then 8 else if letter = 'x' ∨ letter = 'X' then 16 else 10

/-- The digits of a whole number, at least as many as the precision says. -/
def wholePiece (p : Place) (letter : Char) (i : Int) : Piece :=
  let ds := Layout.padZeros (p.precision.getD 0) (Nat.toDigits (baseOf letter) i.natAbs)
  let ds := if letter = 'X' then upper ds else ds
  let mark := if p.alternate && baseOf letter != 10 then ['0', letter] else []
  ⟨if i < 0 then ['-'] else signOf p, mark, ds, true⟩

def formOf (letter : Char) : Rounded.Form :=
  if letter = 'e' ∨ letter = 'E' then .scientific
  else if letter = 'f' ∨ letter = 'F' then .fixed
  else .general

def realPiece (p : Place) (letter : Char) (x : Binary64) : Piece :=
  let s := Rounded.write (formOf letter) p.alternate (p.precision.getD 6) x
  .ofNumber p [] (if letter.isUpper then upper s else s)

/-- A text cut to the precision. -/
def textPiece (p : Place) (s : List Char) : Piece :=
  .ofText (match p.precision with
    | some n => s.take n
    | none => s)

/-- Fills up to the width: zeros behind the sign, or blanks on one side. -/
def Piece.pad (p : Place) (q : Piece) : List Char :=
  let all := q.sign ++ q.mark ++ q.body
  let missing := p.width.getD 0 - all.length
  if p.left then all ++ List.replicate missing ' '
  else if p.zeros && q.numeric then q.sign ++ q.mark ++ List.replicate missing '0' ++ q.body
  else List.replicate missing ' ' ++ all

def wholeLetters : List Char := ['d', 'i', 'u', 'o', 'x', 'X']

def realLetters : List Char := ['e', 'E', 'f', 'F', 'g', 'G']

/-- A value as a text, in one of the ways to show it. -/
def shown (chars : Value → List Char) (v : Value) : Except Fault (List Char) :=
  if v.isShort then .ok (chars v) else .error .tooManyDigits

/-- Only decimal digits are limited in number. -/
def checkDigits (letter : Char) (i : Int) : Except Fault Int :=
  if baseOf letter = 10 ∧ ¬ (Number.int i).isShort then .error .tooManyDigits else .ok i

/-- The piece for a value; `index` tells where the letter stands. -/
def fill (p : Place) (letter : Char) (index : Nat) (v : Value) : Except Fault Piece :=
  if letter = 's' then (shown plain v).map (textPiece p)
  else if letter = 'r' then (shown exact.chars v).map (textPiece p)
  else if letter = 'a' then (shown exactAscii.chars v).map (textPiece p)
  else if wholeLetters.contains letter then
    ((whole letter v).bind (checkDigits letter)).map (wholePiece p letter)
  else if realLetters.contains letter then (real v).map (realPiece p letter)
  else if letter = 'c' then (character v).map fun c => .ofText [c]
  else .error (.unknownLetter letter index)

/-- What follows the percent sign of a place, in a template of `total` characters. -/
def place (total : Nat) (s : List Char) (f : Feed) :
    Except Fault (List Char × List Char × Feed) := do
  let (s, f) ← match s with
    | '(' :: rest => do
      if f.mapping.isNone then .error .noMapping
      let (k, rest) ← key 0 rest
      let f ← f.select (String.ofList k)
      pure (rest, f)
    | s => pure (s, f)
  let (p, s) := flags ⟨false, false, false, false, false, none, none⟩ s
  let (p, s, f) ← width p s f
  let (p, s, f) ← precision p s f
  match skipSize s with
  | [] => .error .openPlace
  | letter :: rest => do
    let (v, f) ← f.next
    let piece ← fill p letter (total - rest.length - 1) v
    pure (piece.pad p, rest, f)

/-- Fills the places in turn, at most as many as the fuel says. Two percent signs are one that
stands for itself. -/
def fillFrom (total : Nat) : Nat → List Char → Feed → Except Fault (List Char)
  | 0, _, f => f.finish.map fun _ => []
  | _, [], f => f.finish.map fun _ => []
  | fuel + 1, '%' :: '%' :: s, f => (fillFrom total fuel s f).map ('%' :: ·)
  | fuel + 1, '%' :: s, f => do
    let (text, rest, f) ← place total s f
    let after ← fillFrom total fuel rest f
    pure (text ++ after)
  | fuel + 1, c :: s, f => (fillFrom total fuel s f).map (c :: ·)

end Template

/-- A message with its arguments in their places. Without arguments its text stands as it is. -/
def fillTemplate (template : Value) (args : List Value) : Except Template.Fault String := do
  let s ← Template.shown Template.plain template
  if args.isEmpty then pure (String.ofList s)
  else (Template.fillFrom s.length s.length s (.ofArguments args)).map String.ofList

end BuildClient.Log
