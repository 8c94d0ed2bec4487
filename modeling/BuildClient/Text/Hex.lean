/-!
Hexadecimal digits, in both cases.
-/

namespace BuildClient.Text

def hexValue? (c : Char) : Option Nat :=
  if '0' ≤ c ∧ c ≤ '9' then some (c.toNat - 48)
  else if 'a' ≤ c ∧ c ≤ 'f' then some (c.toNat - 87)
  else if 'A' ≤ c ∧ c ≤ 'F' then some (c.toNat - 55)
  else none

def isHex (c : Char) : Bool := (hexValue? c).isSome

/-- The small hexadecimal digit of a number below sixteen. -/
def hexLower (n : Nat) : Char := if n < 10 then Char.ofNat (48 + n) else Char.ofNat (87 + n)

/-- The capital hexadecimal digit of a number below sixteen. -/
def hexUpper (n : Nat) : Char := if n < 10 then Char.ofNat (48 + n) else Char.ofNat (55 + n)

/-- A number in small hexadecimal digits, at least `width` of them, as long as `width` digits hold
it. -/
def hexPadded : Nat → Nat → List Char
  | 0, _ => []
  | width + 1, n => hexPadded width (n / 16) ++ [hexLower (n % 16)]

/-- The value of a row of hexadecimal digits. -/
def hexNat? (s : List Char) : Option Nat :=
  s.foldl (fun acc c => acc.bind fun n => (hexValue? c).map fun d => 16 * n + d) (some 0)

/-- Bytes written as pairs of hexadecimal digits. -/
def hexBytes? : List Char → Option (List UInt8)
  | [] => some []
  | [_] => none
  | a :: b :: rest => do
    let hi ← hexValue? a
    let lo ← hexValue? b
    let bytes ← hexBytes? rest
    pure (UInt8.ofNat (16 * hi + lo) :: bytes)

/-- Each byte as two small hexadecimal digits. -/
def ofBytes (bytes : List UInt8) : List Char :=
  bytes.flatMap fun b => [hexLower (b.toNat / 16), hexLower (b.toNat % 16)]

theorem hexValue?_hexUpper {n : Nat} (h : n < 16) : hexValue? (hexUpper n) = some n := by
  have : ∀ k : Fin 16, hexValue? (hexUpper k.val) = some k.val := by decide
  exact this ⟨n, h⟩

end BuildClient.Text
