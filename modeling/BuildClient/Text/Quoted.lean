import BuildClient.Text.Hex
import BuildClient.Text.Printable

/-!
Texts shown between quotes, as error messages show what they were given.
-/

namespace BuildClient.Text.Quoted

/-- The apostrophe, unless it occurs in the text and the double quote does not. -/
def mark (s : String) : Char :=
  if s.toList.contains '\'' && !s.toList.contains '"' then '"' else '\''

/-- An escape with as many hexadecimal digits as the code point needs: two, four or eight. -/
def codeEscape (c : Char) : List Char :=
  if c.toNat < 0x100 then '\\' :: 'x' :: hexPadded 2 c.toNat
  else if c.toNat < 0x10000 then '\\' :: 'u' :: hexPadded 4 c.toNat
  else '\\' :: 'U' :: hexPadded 8 c.toNat

/-- One character of a text between the quotes `q`; `shown` says which stand for themselves. -/
def escapeChar (shown : Char → Bool) (q c : Char) : List Char :=
  if c = '\\' || c = q then ['\\', c]
  else if c = '\t' then ['\\', 't']
  else if c = '\n' then ['\\', 'n']
  else if c = '\r' then ['\\', 'r']
  else if shown c then [c]
  else codeEscape c

def render (shown : Char → Bool) (s : String) : String :=
  String.ofList (mark s :: s.toList.flatMap (escapeChar shown (mark s)) ++ [mark s])

/-- Characters with a visible form are shown. -/
def quote (s : String) : String := render isPrintable s

/-- Only visible ASCII is shown. -/
def quoteAscii (s : String) : String := render (fun c => c.toNat < 0x80 && isPrintable c) s

end BuildClient.Text.Quoted
