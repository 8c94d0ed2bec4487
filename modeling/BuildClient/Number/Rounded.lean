import BuildClient.Number.Shortest

/-!
Binary values rounded to a given number of decimal places or digits, as text. Halves go to the even
neighbour.
-/

namespace BuildClient.Rounded

-- Powers are those that core defines.
attribute [local instance (2000)] instPowNat

/-- How the digits are laid out. -/
inductive Form where
  /-- A number of places after the point. -/
  | fixed
  /-- One digit before the point and a number of them after it, times a power of ten. -/
  | scientific
  /-- A number of digits, in the form that suits the size. -/
  | general
deriving DecidableEq, Repr

/-- The value times `10 ^ places`, rounded. -/
def scaled (m e : Nat) (places : Int) : Nat :=
  Binary64.roundDiv ((Shortest.valueRatio m e).1 * 10 ^ places.toNat)
    ((Shortest.valueRatio m e).2 * 10 ^ (-places).toNat)

/-- The value rounded to `n + 1` digits, with the exponent of the first digit. -/
def leading (m e n : Nat) : Nat × Int :=
  if m = 0 then (0, 0)
  else
    let lead := Shortest.scale m e - 1
    let digits := scaled m e (n - lead)
    if digits = 10 ^ (n + 1) then (10 ^ n, lead + 1) else (digits, lead)

/-- The digits with the point before the last `places` of them. The point is left out where nothing
follows it, unless it is wanted. -/
def point (always : Bool) (digits places : Nat) : List Char :=
  let ds := Layout.padZeros (places + 1) (Nat.toDigits 10 digits)
  let whole := ds.take (ds.length - places)
  let part := ds.drop (ds.length - places)
  if part.isEmpty && !always then whole else whole ++ '.' :: part

def power (lead : Int) : List Char :=
  'e' :: (if lead < 0 then '-' else '+') :: Layout.padZeros 2 (Nat.toDigits 10 lead.natAbs)

/-- Zeros at the end of the fraction, and a point that is left at the end, are dropped. -/
def dropZeros (s : List Char) : List Char :=
  if s.contains '.' then
    let kept := s.reverse.dropWhile (· == '0')
    (if kept.head? = some '.' then kept.tail else kept).reverse
  else s

def finite (form : Form) (always : Bool) (precision m e : Nat) : List Char :=
  match form with
  | .fixed => point always (scaled m e precision) precision
  | .scientific =>
    let p := leading m e precision
    point always p.1 precision ++ power p.2
  | .general =>
    let count := max precision 1
    let p := leading m e (count - 1)
    let trim := if always then id else dropZeros
    if -4 ≤ p.2 ∧ p.2 < count then trim (point always p.1 (count - 1 - p.2).toNat)
    else trim (point always p.1 (count - 1)) ++ power p.2

/-- The text of a value; `always` keeps the point and the zeros after it. -/
def write (form : Form) (always : Bool) (precision : Nat) : Binary64 → List Char
  | .nan => "nan".toList
  | .infinite s => (if s then "-inf" else "inf").toList
  | .finite s m e =>
    let body := finite form always precision m e
    if s then '-' :: body else body

end BuildClient.Rounded
