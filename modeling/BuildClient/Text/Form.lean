import BuildClient.Text.Percent
import BuildClient.Text.Split

/-!
Form coding of name and value pairs: a space is written `+`, every character that is not
unreserved as escapes, pairs as `name=value` joined by `&`.
-/

namespace BuildClient.Text.Form

def encodeText (s : String) : List Char :=
  s.toList.flatMap fun c =>
    if c = ' ' then ['+'] else if Percent.isUnreserved c then [c] else Percent.escape c

def encodePair (p : String × String) : List Char := encodeText p.1 ++ '=' :: encodeText p.2

def encode (pairs : List (String × String)) : List Char := joinWith '&' (pairs.map encodePair)

/-- Reads a written name or value back. -/
def decodeText (s : List Char) : String :=
  Percent.decode (s.map fun c => if c = '+' then ' ' else c)

def decodePair (s : List Char) : String × String :=
  ((decodeText (cutFirst '=' s).1), decodeText ((cutFirst '=' s).2.getD []))

end BuildClient.Text.Form
