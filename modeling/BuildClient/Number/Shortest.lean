import BuildClient.Number.Binary64

/-!
The fewest decimal digits that identify a binary value, and their layout.
-/

namespace BuildClient

-- Powers are those that core defines.
attribute [local instance (2000)] instPowNat

/-- The number `digits * 10 ^ exp`. -/
structure Decimal where
  digits : Nat
  exp : Int
deriving DecidableEq, Repr

namespace Shortest

/-- Whether `a / c ≤ b / d`, or `<` if `strict`. -/
def ratioLe (strict : Bool) (a c b d : Nat) : Bool :=
  if strict then a * d < b * c else a * d ≤ b * c

/-- A decimal as a quotient of whole numbers. -/
def ratio (d : Decimal) : Nat × Nat := (d.digits * 10 ^ d.exp.toNat, 10 ^ (-d.exp).toNat)

/-- The decimal lies among the numbers that round to the value: between the midpoints to both
neighbours, ends included exactly if the significand is even. Below a power of two the lower
neighbour is half as far away. -/
def readsBack (m e : Nat) (d : Decimal) : Bool :=
  let narrow := m = 2 ^ Binary64.fractionBits ∧ 0 < e
  let lo := (4 * m - if narrow then 1 else 2) * 2 ^ e
  let hi := (4 * m + 2) * 2 ^ e
  let den := 2 ^ (Binary64.unitExponent + 2)
  let strict := m % 2 == 1
  ratioLe strict lo den (ratio d).1 (ratio d).2 && ratioLe strict (ratio d).1 (ratio d).2 hi den

/-- The value as a quotient. -/
def valueRatio (m e : Nat) : Nat × Nat := (m * 2 ^ e, 2 ^ Binary64.unitExponent)

/-- The least `k` with the value below `10 ^ k`, found upward from an estimate that is not above
it. -/
def scaleFrom (m e : Nat) : Nat → Int → Int
  | 0, k => k
  | fuel + 1, k =>
    if ratioLe true (valueRatio m e).1 (valueRatio m e).2 (10 ^ k.toNat) (10 ^ (-k).toNat) then k
    else scaleFrom m e fuel (k + 1)

/-- The binary logarithm gives the decimal one within a few steps. -/
def scale (m e : Nat) : Int :=
  let log : Int := (m * 2 ^ e).log2 - (Binary64.unitExponent : Int)
  scaleFrom m e 8 (log * 30103 / 100000 - 2)

/-- The better of the two neighbours of the value on the grid `10 ^ g`, if one reads back. -/
def onGrid? (m e : Nat) (g : Int) : Option Decimal :=
  let num := (valueRatio m e).1 * 10 ^ (-g).toNat
  let den := (valueRatio m e).2 * 10 ^ g.toNat
  let below := num / den
  let r := num % den
  let low : Decimal := ⟨below, g⟩
  let high : Decimal := ⟨below + 1, g⟩
  match readsBack m e low && below != 0, readsBack m e high with
  | true, true =>
    if 2 * r < den ∨ (2 * r = den ∧ below % 2 = 0) then some low else some high
  | true, false => some low
  | false, true => some high
  | false, false => none

/-- Moves factors of ten from the digits to the exponent. -/
def strip : Nat → Decimal → Decimal
  | 0, d => d
  | fuel + 1, d =>
    if d.digits ≠ 0 ∧ d.digits % 10 = 0 then strip fuel ⟨d.digits / 10, d.exp + 1⟩ else d

/-- The shortest decimal that reads back, nearest to the value among those of its length. -/
def select (m e : Nat) : Decimal :=
  let k := scale m e
  match (List.range 17).findSome? fun n => onGrid? m e (k - (n + 1 : Nat)) with
  | some d => strip 20 d
  | none => ⟨m * 2 ^ e * 5 ^ Binary64.unitExponent, -(Binary64.unitExponent : Int)⟩

end Shortest

/-- How the digits of a decimal are laid out as text. -/
structure Layout where
  /-- Exponents of the leading digit from here on are written positionally … -/
  plainFrom : Int
  /-- … up to, but without, this one. -/
  plainBelow : Int
  expWidth : Nat
  nan : String
  infinity : String
  negativeInfinity : String

namespace Layout

def padZeros (width : Nat) (s : List Char) : List Char := List.replicate (width - s.length) '0' ++ s

/-- Lays the digits out; a fraction is always shown in positional form. -/
def place (form : Layout) (d : Decimal) : List Char :=
  let ds := Nat.toDigits 10 d.digits
  let lead : Int := d.exp + ds.length - 1
  if form.plainFrom ≤ lead ∧ lead < form.plainBelow then
    if 0 ≤ d.exp then ds ++ List.replicate d.exp.toNat '0' ++ ['.', '0']
    else if 0 ≤ lead then ds.take (lead.toNat + 1) ++ '.' :: ds.drop (lead.toNat + 1)
    else '0' :: '.' :: (List.replicate (-lead).toNat.pred '0' ++ ds)
  else
    let mantissa := match ds with
      | [] => []
      | [c] => [c]
      | c :: cs => c :: '.' :: cs
    mantissa ++ 'e' :: (if lead < 0 then '-' else '+')
      :: padZeros form.expWidth (Nat.toDigits 10 lead.natAbs)

def write (form : Layout) : Binary64 → String
  | .nan => form.nan
  | .infinite s => if s then form.negativeInfinity else form.infinity
  | .finite s m e =>
    let body := if m = 0 then form.place ⟨0, 0⟩ else form.place (Shortest.select m e)
    String.ofList (if s then '-' :: body else body)

end Layout

end BuildClient
