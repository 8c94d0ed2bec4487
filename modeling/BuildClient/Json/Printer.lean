import BuildClient.Json.Value
import BuildClient.Number.Shortest
import BuildClient.Text.Hex

/-!
Writing documents. The members keep their order; in the standard notation, characters beyond ASCII
stand for themselves.
-/

namespace BuildClient.Json

open Text

/-- How documents look. -/
structure Style where
  /-- What stands between items … -/
  comma : String
  /-- … and after keys. -/
  colon : String
  reals : Layout
  nothing : String
  yes : String
  no : String
  text : String → List Char

/-- The letter of a short escape. -/
def escapeLetter? : Char → Option Char
  | '"' => some '"'
  | '\\' => some '\\'
  | '\x08' => some 'b'
  | '\x0c' => some 'f'
  | '\n' => some 'n'
  | '\r' => some 'r'
  | '\t' => some 't'
  | _ => none

/-- Quotes, backslashes and controls are escaped. -/
def escapeChar (c : Char) : List Char :=
  match escapeLetter? c with
  | some l => ['\\', l]
  | none => if c.toNat < 0x20 then '\\' :: 'u' :: hexPadded 4 c.toNat else [c]

def quoted (s : String) : List Char := '"' :: s.toList.flatMap escapeChar ++ ['"']

def intText (i : Int) : List Char :=
  if i < 0 then '-' :: Nat.toDigits 10 i.natAbs else Nat.toDigits 10 i.natAbs

namespace Style

/-- The words and quotes of the standard notation. -/
def standard (comma colon : String) (reals : Layout) : Style :=
  ⟨comma, colon, reals, "null", "true", "false", quoted⟩

def number (style : Style) : Number → List Char
  | .int i => intText i
  | .real x => (style.reals.write x).toList

mutual

def chars (style : Style) : Value → List Char
  | .null => style.nothing.toList
  | .bool b => (if b then style.yes else style.no).toList
  | .number n => style.number n
  | .string s => style.text s
  | .array items => '[' :: itemChars style items ++ [']']
  | .object members => '{' :: memberListChars style members ++ ['}']
termination_by structural v => v

def itemChars (style : Style) : List Value → List Char
  | [] => []
  | v :: rest => chars style v ++ tailChars style rest
termination_by structural l => l

/-- The items after the first, each behind a comma. -/
def tailChars (style : Style) : List Value → List Char
  | [] => []
  | v :: rest => style.comma.toList ++ chars style v ++ tailChars style rest
termination_by structural l => l

def memberListChars (style : Style) : List (String × Value) → List Char
  | [] => []
  | m :: rest => memberChars style m ++ memberTailChars style rest
termination_by structural l => l

def memberTailChars (style : Style) : List (String × Value) → List Char
  | [] => []
  | m :: rest => style.comma.toList ++ memberChars style m ++ memberTailChars style rest
termination_by structural l => l

def memberChars (style : Style) : String × Value → List Char
  | (k, v) => style.text k ++ style.colon.toList ++ chars style v
termination_by structural m => m

end

def print (style : Style) (v : Value) : String := String.ofList (style.chars v)

end Style

end BuildClient.Json
