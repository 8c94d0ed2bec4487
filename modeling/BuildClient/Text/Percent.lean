import BuildClient.Text.Hex
import BuildClient.Text.Utf8

/-!
Percent escapes. A character that may not stand for itself is written as its bytes, each as `%`
and two capital hexadecimal digits.
-/

namespace BuildClient.Text.Percent

/-- Letters, digits and the marks `-`, `.`, `_` and `~`: never in need of an escape. -/
def isUnreserved (c : Char) : Bool := c.isAlphanum || c == '-' || c == '.' || c == '_' || c == '~'

def escapeByte (b : UInt8) : List Char := ['%', hexUpper (b.toNat / 16), hexUpper (b.toNat % 16)]

/-- The escapes of every byte of a character. -/
def escape (c : Char) : List Char := (String.utf8EncodeChar c).flatMap escapeByte

/-- Escapes every character that `keep` does not let stand. -/
def encode (keep : Char → Bool) (s : List Char) : List Char :=
  s.flatMap fun c => if keep c then [c] else escape c

/-- The bytes that a text with escapes stands for. A `%` that starts no escape stands for itself. -/
def bytes : List Char → List UInt8
  | '%' :: a :: b :: rest =>
    match hexValue? a, hexValue? b with
    | some hi, some lo => UInt8.ofNat (16 * hi + lo) :: bytes rest
    | _, _ => 0x25 :: bytes (a :: b :: rest)
  | c :: rest => String.utf8EncodeChar c ++ bytes rest
  | [] => []
termination_by s => s.length

def decode (s : List Char) : String := Utf8.decodeLossy (bytes s)

/-- Capitalises the digits of every escape, from the left. -/
def upperEscapes : List Char → List Char
  | '%' :: a :: b :: rest =>
    if isHex a && isHex b then '%' :: a.toUpper :: b.toUpper :: upperEscapes rest
    else '%' :: upperEscapes (a :: b :: rest)
  | c :: rest => c :: upperEscapes rest
  | [] => []
termination_by s => s.length

/-- The number of escapes, counted from the left without overlap. -/
def escapeCount : List Char → Nat
  | '%' :: a :: b :: rest =>
    if isHex a && isHex b then escapeCount rest + 1 else escapeCount (a :: b :: rest)
  | _ :: rest => escapeCount rest
  | [] => 0
termination_by s => s.length

/-- Brings one component of an address into its written form. Escapes that are there are kept when
every `%` starts one; otherwise each `%` is taken for a character of its own. -/
def normalize (keep : Char → Bool) (s : List Char) : List Char :=
  let s := upperEscapes s
  let escaped := escapeCount s == s.count '%'
  encode (fun c => keep c || (escaped && c == '%')) s

end BuildClient.Text.Percent
