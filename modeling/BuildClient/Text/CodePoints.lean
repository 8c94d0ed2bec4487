import BuildClient.Text.Blank

/-!
Texts that may be broken: half of a surrogate pair can stand in them alone.
-/

namespace BuildClient.Text

inductive CodePoint where
  | char (c : Char)
  /-- Half of a surrogate pair, by its distance from the first one. -/
  | half (n : Fin 0x800)
deriving DecidableEq, Repr

namespace CodePoint

def ofNat (n : Nat) : CodePoint :=
  if h : 0xD800 ≤ n ∧ n < 0xE000 then half ⟨n - 0xD800, by omega⟩ else char (Char.ofNat n)

def isBlank : CodePoint → Bool
  | char c => Text.isBlank c
  | half _ => false

/-- What is shown of it. Half of a pair is no character. -/
def shown : CodePoint → Char
  | char c => c
  | half _ => '\uFFFD'

end CodePoint

abbrev CodePoints := List CodePoint

namespace CodePoints

def ofString (s : String) : CodePoints := s.toList.map .char

def allBlank (s : CodePoints) : Bool := s.all CodePoint.isBlank

def shown (s : CodePoints) : String := String.ofList (s.map CodePoint.shown)

end CodePoints

end BuildClient.Text
