import BuildClient.Number.Binary64
import BuildClient.Text.Blank
import BuildClient.Text.Digit

/-!
Reading numbers from text as people write them: white space around, a sign, and a single
underscore between two digits.
-/

namespace BuildClient.Numeral

open Text

/-- Whole numbers of more digits are refused. -/
def maxDigits : Nat := 4300

/-- The digits at the start, with single underscores between them if `grouped`, and the rest. -/
def digits (grouped afterDigit : Bool) : List Char → List Char × List Char
  | [] => ([], [])
  | '_' :: d :: rest =>
    if grouped && afterDigit && d.isDigit then
      (d :: (digits grouped true rest).1, (digits grouped true rest).2)
    else ([], '_' :: d :: rest)
  | c :: rest =>
    if c.isDigit then (c :: (digits grouped true rest).1, (digits grouped true rest).2)
    else ([], c :: rest)

/-- Whether a minus sign leads, and what follows the sign. -/
def sign : List Char → Bool × List Char
  | '-' :: rest => (true, rest)
  | '+' :: rest => (false, rest)
  | s => (false, s)

/-- A whole number; digits of every script count. -/
def readInt? (s : String) : Option Int :=
  let (negative, body) := sign ((dropOuter isSpace s.toList).map plainDigit)
  match digits true false body with
  | ([], _) => none
  | (ds, []) =>
    if maxDigits < ds.length then none
    else some (if negative then -(digitsValue ds : Int) else digitsValue ds)
  | _ => none

/-- The power of ten after `e`: none is zero. -/
def exponent? (grouped : Bool) : List Char → Option Int
  | [] => some 0
  | c :: rest =>
    if c = 'e' ∨ c = 'E' then
      let (negative, body) := sign rest
      match digits grouped false body with
      | ([], _) => none
      | (ds, []) => some (if negative then -(digitsValue ds : Int) else digitsValue ds)
      | _ => none
    else none

/-- Digits with a point among them, and a power of ten. -/
def decimal? (grouped negative : Bool) (s : List Char) : Option Binary64 :=
  let (whole, rest) := digits grouped false s
  let (part, rest) := match rest with
    | '.' :: r => digits grouped false r
    | r => ([], r)
  if whole.isEmpty && part.isEmpty then none
  else (exponent? grouped rest).map fun e =>
    Binary64.ofDecimal negative (digitsValue (whole ++ part)) (e - part.length)

/-- A number in ASCII digits, or the word for infinity or for no number, in either case. -/
def readBinary? (grouped : Bool) (s : List Char) : Option Binary64 :=
  let (negative, body) := sign s
  let word := String.ofList (body.map Char.toLower)
  if word = "inf" ∨ word = "infinity" then some (.infinite negative)
  else if word = "nan" then some .nan
  else decimal? grouped negative body

/-- A number with digits of any script and underscores between digits. -/
def readReal? (s : String) : Option Binary64 :=
  readBinary? true ((dropOuter isSpace s.toList).map plainDigit)

/-- Underscores are taken out when none leads, none ends the text and no two are neighbours. -/
def ungroup? (s : List Char) : Option (List Char) :=
  let doubled := (s.zip s.tail).any fun p => p.1 == '_' && p.2 == '_'
  if !s.contains '_' || s.head? == some '_' || s.getLast? == some '_' || doubled then none
  else some (s.filter (· != '_'))

/-- A number in ASCII digits as settings hold it. -/
def readSetting? (s : String) : Option Binary64 :=
  (readBinary? false (dropOuter isSpace s.toList)).orElse fun _ =>
    (ungroup? s.toList).bind (readBinary? false)

end BuildClient.Numeral
