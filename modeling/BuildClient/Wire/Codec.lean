import BuildClient.Json.Value
import BuildClient.Text.Utf8
import BuildClient.Wire.Defect

/-!
How one kind of data is read from a document and written into one. A written `null` means that the
member is left out.
-/

namespace BuildClient.Wire

open Json Text

structure Codec (α : Type) where
  read : Value → Checked α
  write : α → Except Utf8.Error Value

namespace Codec

variable {α : Type}

/-- Text, or nothing. -/
def text : Codec (Option String) where
  read
    | .null => .ok none
    | .string s => .ok (some s)
    | _ => .fail .notText
  write o := .ok (o.elim .null .string)

def readText : Value → Checked String
  | .string s => .ok s
  | _ => .fail .notText

/-- Texts under keys. Every member is checked, then the last of each key counts. -/
def texts : Codec (Dictionary String) where
  read
    | .object members =>
      (Checked.all (members.map fun m =>
        ((readText m.2).within (.key m.1)).map fun t => (m.1, t))).map Dictionary.ofPairs
    | _ => .fail .notMapping
  write d := .ok (.object (d.mapValues .string))

/-- Anything under keys. -/
def tree : Codec (Dictionary Value) where
  read
    | .object members => .ok (Dictionary.ofPairs (Value.settleMembers members))
    | _ => .fail .notMapping
  write d := .ok (.object d)

def falseWords : List String := ["0", "off", "f", "false", "n", "no"]

def trueWords : List String := ["1", "on", "t", "true", "y", "yes"]

/-- A word for a truth value, in either case of its ASCII letters. -/
def truthWord? (s : String) : Option Bool :=
  let word := String.ofList (s.toList.map Char.toLower)
  if trueWords.contains word then some true
  else if falseWords.contains word then some false
  else none

/-- The whole numbers of 64 bits lie below it, and not below its negative. -/
def wordLimit : Int := 0x8000000000000000

/-- One and zero stand for truth values. A whole number beyond 64 bits is no candidate at all. -/
def readTruthInt (i : Int) : Checked Bool :=
  if i = 1 then .ok true
  else if i = 0 then .ok false
  else if -wordLimit ≤ i ∧ i < wordLimit then .fail .unclearBoolean
  else .fail .notBoolean

/-- A binary number counts as the whole number that it equals, up to and including the limit. -/
def readTruthReal (x : Binary64) : Checked Bool :=
  match x.truncate? with
  | some i =>
    if !(Number.real x).numericEq (.int i) then .fail .notBoolean
    else if i = wordLimit then .fail .unclearBoolean
    else readTruthInt i
  | none => .fail .notBoolean

def readTruth : Value → Checked Bool
  | .bool b => .ok b
  | .number (.int i) => readTruthInt i
  | .number (.real x) => readTruthReal x
  | .string s => (truthWord? s).elim (.fail .unclearBoolean) .ok
  | _ => .fail .notBoolean

/-- A truth value in one of its spellings, or nothing. -/
def truth : Codec (Option Bool) where
  read
    | .null => .ok none
    | v => (readTruth v).map some
  write o := .ok (o.elim .null .bool)

/-- A list, or nothing. -/
def list (c : Codec α) : Codec (Option (List α)) where
  read
    | .null => .ok none
    | .array items =>
      (Checked.all (items.zipIdx.map fun p => (c.read p.1).within (.index p.2))).map some
    | _ => .fail .notList
  write
    | none => .ok .null
    | some l => (l.mapM c.write).map .array

end Codec

end BuildClient.Wire
