import BuildClient.Number.Number
import BuildClient.Number.Shortest

/-!
Moments, given as seconds since the start of 1970 in universal time, and their texts.
-/

namespace BuildClient.Log

-- Powers are those that core defines.
attribute [local instance (2000)] instPowNat

/-- Whole seconds and microseconds after them. -/
structure Moment where
  seconds : Int
  micros : Nat
deriving DecidableEq, Repr

namespace Moment

inductive Fault where
  | notNumber
  /-- More seconds than the clock counts. -/
  | beyondClock
  /-- A year that the calendar does not count. -/
  | beyondCalendar
  | yearOutOfRange (year : Int)
deriving DecidableEq, Repr

def Fault.message : Fault → String
  | notNumber => "Invalid value NaN (not a number)"
  | beyondClock => "timestamp out of range for platform time_t"
  | beyondCalendar => "[Errno 75] Value too large for defined data type"
  | yearOutOfRange year => "year " ++ toString year ++ " is out of range"

def million : Nat := 1000000

/-- The fraction in microseconds, first as the nearest binary number, then as a whole number. -/
def microsOf (rest : Nat) : Nat :=
  match (Binary64.ofRatio false rest (2 ^ Binary64.unitExponent)).mulNat million with
  | .finite _ m e => Binary64.roundDiv (m * 2 ^ e) (2 ^ Binary64.unitExponent)
  | _ => 0

/-- A fraction that is rounded up to a second counts as one; before 1970 it is counted backwards. -/
def ofParts (negative : Bool) (whole rest : Nat) : Moment :=
  let micros := microsOf rest
  let seconds : Int := if negative then -whole else whole
  if micros = 0 then ⟨seconds, 0⟩
  else if negative then ⟨seconds - 1, million - micros⟩
  else if micros = million then ⟨seconds + 1, 0⟩
  else ⟨seconds, micros⟩

/-- The clock counts seconds with 64 bits. -/
def clockLimit : Int := 0x8000000000000000

def onClock (m : Moment) : Except Fault Moment :=
  if -clockLimit ≤ m.seconds ∧ m.seconds < clockLimit then .ok m else .error .beyondClock

def ofNumber : Number → Except Fault Moment
  | .int i => onClock ⟨i, 0⟩
  | .real .nan => .error .notNumber
  | .real (.infinite _) => .error .beyondClock
  | .real (.finite s m e) =>
    onClock (ofParts s (m * 2 ^ e / 2 ^ Binary64.unitExponent)
      (m * 2 ^ e % 2 ^ Binary64.unitExponent))

/-- Year, month and day. -/
structure Date where
  year : Int
  month : Nat
  day : Nat
deriving DecidableEq, Repr

/-- The date of a day counted from the first of 1970. Years are taken to begin in March, so that
leap days come last; four hundred years have a fixed number of days. -/
def dateOf (day : Int) : Date :=
  let shifted := day + 719468
  let era := shifted / 146097
  let dayOfEra := (shifted % 146097).toNat
  let yearOfEra := (dayOfEra - dayOfEra / 1460 + dayOfEra / 36524 - dayOfEra / 146096) / 365
  let dayOfYear := dayOfEra - (365 * yearOfEra + yearOfEra / 4 - yearOfEra / 100)
  let turned := (5 * dayOfYear + 2) / 153
  let month := if turned < 10 then turned + 3 else turned - 9
  ⟨yearOfEra + era * 400 + (if month ≤ 2 then 1 else 0), month,
    dayOfYear - (153 * turned + 2) / 5 + 1⟩

def secondsOfDay : Int := 86400

/-- Years are counted with 32 bits. -/
def yearLimit : Int := 0x80000000

/-- Years are counted from 1900; one that is out of range is reported by its low bits. -/
def checkYear (year : Int) : Except Fault Unit :=
  if year - 1900 < -yearLimit ∨ yearLimit ≤ year - 1900 then .error .beyondCalendar
  else if 1 ≤ year ∧ year ≤ 9999 then .ok ()
  else .error (.yearOutOfRange ((year + yearLimit) % (2 * yearLimit) - yearLimit))

def padded (width n : Nat) : List Char := Layout.padZeros width (Nat.toDigits 10 n)

/-- The moment as a text; no fraction is written if it is zero. -/
def write (m : Moment) : Except Fault String := do
  let date := dateOf (m.seconds / secondsOfDay)
  let second := (m.seconds % secondsOfDay).toNat
  checkYear date.year
  pure (String.ofList
    (padded 4 date.year.toNat ++ '-' :: padded 2 date.month ++ '-' :: padded 2 date.day ++
      'T' :: padded 2 (second / 3600) ++ ':' :: padded 2 (second / 60 % 60) ++
      ':' :: padded 2 (second % 60) ++
      (if m.micros = 0 then [] else '.' :: padded 6 m.micros) ++ "+00:00".toList))

end Moment

end BuildClient.Log
