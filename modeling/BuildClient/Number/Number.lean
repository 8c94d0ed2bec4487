import BuildClient.Number.Binary64

/-!
Numbers as documents and callers give them: whole numbers of any size, and binary values.
-/

namespace BuildClient

-- Powers are those that core defines.
attribute [local instance (2000)] instPowNat

inductive Number where
  | int (i : Int)
  | real (x : Binary64)
deriving DecidableEq, Repr

namespace Number

/-- Equal as numbers, whichever way they are given. -/
def numericEq : Number → Number → Bool
  | int i, int j => i == j
  | real x, real y => x.numericEq y
  | int i, real x | real x, int i => x.units? == some (i * 2 ^ Binary64.unitExponent)

/-- A length of time in whole milliseconds, from its seconds; one without end has none. -/
def milliseconds? : Number → Option Nat
  | int i => some (i.toNat * 1000)
  | real (.finite negative m e) =>
    some (if negative then 0 else m * 2 ^ e * 1000 / 2 ^ Binary64.unitExponent)
  | real _ => none

end Number

end BuildClient
