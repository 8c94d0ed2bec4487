import BuildClient.Dictionary
import BuildClient.Number.Number

/-!
Documents as data: whole numbers and binary numbers are told apart, members keep their order.
-/

namespace BuildClient.Json

inductive Value where
  | null
  | bool (b : Bool)
  | number (n : Number)
  | string (s : String)
  | array (items : List Value)
  | object (members : List (String × Value))
deriving Repr

instance : Inhabited Value := ⟨.null⟩

namespace Value

def int (i : Int) : Value := number (.int i)

def real (x : Binary64) : Value := number (.real x)

def isNull : Value → Bool
  | null => true
  | _ => false

mutual

/-- Joins members of equal keys at every level: the first place, the last value. -/
def settle : Value → Value
  | null => null
  | bool b => bool b
  | number n => number n
  | string s => string s
  | array items => array (settleItems items)
  | object members => object (Dictionary.ofPairs (settleMembers members))
termination_by structural v => v

def settleItems : List Value → List Value
  | [] => []
  | v :: rest => v.settle :: settleItems rest
termination_by structural l => l

def settleMembers : List (String × Value) → List (String × Value)
  | [] => []
  | m :: rest => settleMember m :: settleMembers rest
termination_by structural l => l

def settleMember : String × Value → String × Value
  | (k, v) => (k, v.settle)
termination_by structural m => m

end

/-- The last member of the key, if the value is an object. -/
def member? (k : String) : Value → Option Value
  | object members => Dictionary.getLast? k members
  | _ => none

end Value

end BuildClient.Json
