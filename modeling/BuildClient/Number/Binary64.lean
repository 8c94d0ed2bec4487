/-!
Binary floating point with 53-bit significands. A finite value is a whole number of units of
`2 ^ -1074`; every operation computes exactly and rounds once, to nearest and on a tie to the even
significand.
-/

namespace BuildClient

-- Powers are those that core defines.
attribute [local instance (2000)] instPowNat

/-- A value is the significand times `2 ^ exponent` units, with a sign. -/
inductive Binary64 where
  | nan
  | infinite (negative : Bool)
  | finite (negative : Bool) (significand exponent : Nat)
deriving DecidableEq, Repr

namespace Binary64

/-- One is `2 ^ unitExponent` units. -/
def unitExponent : Nat := 1074

/-- The greatest exponent of a finite value. -/
def maxExponent : Nat := 2045

/-- The bits of a fraction; a significand has one bit more. -/
def fractionBits : Nat := 52

def precision : Nat := fractionBits + 1

/-- A significand has at most as many bits as the precision says, and no fewer unless the exponent
is least. -/
def Canonical : Binary64 → Prop
  | nan | infinite _ => True
  | finite _ m e => m < 2 ^ precision ∧ e ≤ maxExponent ∧ (2 ^ fractionBits ≤ m ∨ e = 0)

instance (x : Binary64) : Decidable x.Canonical := by
  cases x <;> unfold Canonical <;> infer_instance

def zero : Binary64 := finite false 0 0

/-- The quotient rounded to a whole number; a half goes to the even neighbour. -/
def roundDiv (num den : Nat) : Nat :=
  let q := num / den
  let r := num % den
  if 2 * r < den then q
  else if den < 2 * r then q + 1
  else if q % 2 = 0 then q else q + 1

/-- The number of bits. -/
def bitLength (n : Nat) : Nat := if n = 0 then 0 else n.log2 + 1

/-- Significand and exponent of a quotient, given in units; `none` beyond the finite range. -/
def roundUnits (num den : Nat) : Option (Nat × Nat) :=
  let e := bitLength (num / den) - precision
  let m := roundDiv num (den * 2 ^ e)
  let (m, e) := if m = 2 ^ precision then (2 ^ fractionBits, e + 1) else (m, e)
  if e ≤ maxExponent then some (m, e) else none

/-- The value nearest to a quotient, if it is finite. -/
def ofRatio? (negative : Bool) (num den : Nat) : Option Binary64 :=
  (roundUnits (num * 2 ^ unitExponent) den).map fun p => finite negative p.1 p.2

/-- The value nearest to a quotient; infinite beyond the finite range. -/
def ofRatio (negative : Bool) (num den : Nat) : Binary64 :=
  (ofRatio? negative num den).getD (infinite negative)

def ofNat (n : Nat) : Binary64 := ofRatio false n 1

def mulNat (x : Binary64) (n : Nat) : Binary64 :=
  match x with
  | nan => nan
  | infinite s => if n = 0 then nan else infinite s
  | finite s m e => ofRatio s (m * 2 ^ e * n) (2 ^ unitExponent)

def divNat (x : Binary64) (n : Nat) : Binary64 :=
  match x with
  | nan => nan
  | infinite s => infinite s
  | finite s m e =>
    if n = 0 then (if m = 0 then nan else infinite s)
    else ofRatio s (m * 2 ^ e) (2 ^ unitExponent * n)

/-- A finite value counted in units. -/
def units? : Binary64 → Option Int
  | finite s m e => some (if s then -(m * 2 ^ e : Nat) else (m * 2 ^ e : Nat))
  | _ => none

/-- Greater than zero; no such order holds of a value that is not a number. -/
def isPositive : Binary64 → Bool
  | nan => false
  | infinite s => !s
  | finite s m _ => !s && m != 0

def isNan : Binary64 → Bool
  | nan => true
  | _ => false

/-- Equal as numbers: both zeros are equal, and what is not a number equals nothing. -/
def numericEq : Binary64 → Binary64 → Bool
  | infinite s, infinite t => s == t
  | x, y =>
    match x.units?, y.units? with
    | some a, some b => a == b
    | _, _ => false

/-- The whole part of a finite value, toward zero. -/
def truncate? : Binary64 → Option Int
  | finite s m e =>
    let n := m * 2 ^ e / 2 ^ unitExponent
    some (if s then -n else n)
  | _ => none

def exponentBits : Nat := 11

/-- The place of the sign, behind exponent and fraction. -/
def signPlace : Nat := exponentBits + fractionBits

/-- The sixty-four bits: sign, exponent, fraction. -/
def toBits : Binary64 → Nat
  | nan => 0x7FF8000000000000
  | infinite s => (if s then 2 ^ signPlace else 0) + 0x7FF0000000000000
  | finite s m e => (if s then 2 ^ signPlace else 0) + m + e * 2 ^ fractionBits

def ofBits (bits : Nat) : Binary64 :=
  let s := bits / 2 ^ signPlace % 2 == 1
  let e := bits / 2 ^ fractionBits % 2 ^ exponentBits
  let f := bits % 2 ^ fractionBits
  if e = 2047 then (if f = 0 then infinite s else nan)
  else if e = 0 then finite s f 0
  else finite s (2 ^ fractionBits + f) (e - 1)

/-- The value nearest to `digits * 10 ^ exp`. Far outside the finite range the power is not
formed. -/
def ofDecimal (negative : Bool) (digits : Nat) (exp : Int) : Binary64 :=
  if digits = 0 then finite negative 0 0
  else
    let size : Int := (Nat.toDigits 10 digits).length + exp
    if 400 < size then infinite negative
    else if size < -400 then finite negative 0 0
    else ofRatio negative (digits * 10 ^ exp.toNat) (10 ^ (-exp).toNat)

end Binary64

end BuildClient
