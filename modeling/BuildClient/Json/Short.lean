import BuildClient.Json.Value
import BuildClient.Number.Numeral

/-!
Values that can be shown as texts: a whole number is shown in a limited number of digits only.
-/

namespace BuildClient

/-- A whole number is shown in no more digits than it is read from. -/
def Number.isShort : Number → Bool
  | .int i => (Nat.toDigits 10 i.natAbs).length ≤ Numeral.maxDigits
  | .real _ => true

namespace Json.Value

mutual

/-- Every whole number in the value is short, at any level. -/
def isShort : Value → Bool
  | null | bool _ | string _ => true
  | number n => n.isShort
  | array items => itemsShort items
  | object members => membersShort members
termination_by structural v => v

def itemsShort : List Value → Bool
  | [] => true
  | v :: rest => v.isShort && itemsShort rest
termination_by structural l => l

def membersShort : List (String × Value) → Bool
  | [] => true
  | m :: rest => memberShort m && membersShort rest
termination_by structural l => l

def memberShort : String × Value → Bool
  | (_, v) => v.isShort
termination_by structural m => m

end

theorem membersShort_iff {members : List (String × Value)} :
    membersShort members = true ↔ ∀ m ∈ members, m.2.isShort = true := by
  induction members with
  | nil => simp [membersShort]
  | cons m members ih =>
    obtain ⟨k, v⟩ := m
    rw [membersShort, memberShort, Bool.and_eq_true, ih, List.forall_mem_cons]

end Json.Value

end BuildClient
