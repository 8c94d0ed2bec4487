/-!
Base64 text of a row of bytes, with padding.
-/

namespace BuildClient.Text.Base64

/-- The character of a six-bit group. -/
def letter (n : Nat) : Char :=
  if n < 26 then Char.ofNat (65 + n)
  else if n < 52 then Char.ofNat (71 + n)
  else if n < 62 then Char.ofNat (n - 4)
  else if n = 62 then '+'
  else '/'

/-- Three bytes make four characters; one or two bytes at the end are filled up with `=`. -/
def encode : List UInt8 → List Char
  | [] => []
  | [a] =>
    let n := a.toNat
    [letter (n / 4), letter (n % 4 * 16), '=', '=']
  | [a, b] =>
    let n := a.toNat * 256 + b.toNat
    [letter (n / 1024), letter (n / 16 % 64), letter (n % 16 * 4), '=']
  | a :: b :: c :: rest =>
    let n := (a.toNat * 256 + b.toNat) * 256 + c.toNat
    letter (n / 262144) :: letter (n / 4096 % 64) :: letter (n / 64 % 64) :: letter (n % 64)
      :: encode rest

end BuildClient.Text.Base64
