import BuildClient.Json.Value
import BuildClient.Proofs.Dictionary

/-!
Values as their texts stand for them. A number that is not finite has no numeral, so its place is
left blank.
-/
namespace BuildClient.Json

namespace Value

/-- A number as its text stands for it. -/
def ofNumber : Number → Value
  | .int i => .number (.int i)
  | .real (.finite s m e) => .number (.real (.finite s m e))
  | .real _ => .null

mutual

/-- A value as its text stands for it: what is no finite number is left blank. -/
def blanked : Value → Value
  | null => null
  | bool b => bool b
  | number n => ofNumber n
  | string s => string s
  | array items => array (blankedItems items)
  | object members => object (blankedMembers members)
termination_by structural v => v

/-- Every item as its text stands for it. -/
def blankedItems : List Value → List Value
  | [] => []
  | v :: rest => v.blanked :: blankedItems rest
termination_by structural l => l

/-- Every member as its text stands for it. -/
def blankedMembers : List (String × Value) → List (String × Value)
  | [] => []
  | m :: rest => blankedMember m :: blankedMembers rest
termination_by structural l => l

def blankedMember : String × Value → String × Value
  | (k, v) => (k, v.blanked)
termination_by structural m => m

end

/-- What holds of a container if it holds of all in it, and of all else, holds of every value. -/
theorem induction {P : Value → Prop} (null : P .null) (bool : ∀ b, P (.bool b))
    (number : ∀ n, P (.number n)) (string : ∀ s, P (.string s))
    (array : ∀ items : List Value, (∀ v ∈ items, P v) → P (.array items))
    (object : ∀ members : List (String × Value), (∀ m ∈ members, P m.2) → P (.object members))
    (v : Value) : P v := by
  refine @Value.rec P (fun items => ∀ v ∈ items, P v) (fun members => ∀ m ∈ members, P m.2)
    (fun m => P m.2) null bool number string array object ?nil ?cons ?none ?member ?pair v
  case nil => exact fun v hv => absurd hv List.not_mem_nil
  case cons => exact fun v items hv hitems => List.forall_mem_cons.2 ⟨hv, hitems⟩
  case none => exact fun m hm => absurd hm List.not_mem_nil
  case member => exact fun m members hm hmembers => List.forall_mem_cons.2 ⟨hm, hmembers⟩
  case pair => exact fun k v hv => hv

theorem eq_null_of_isNull {v : Value} (h : v.isNull = true) : v = .null := by
  cases v <;> first | rfl | cases h

theorem blankedItems_eq (l : List Value) : blankedItems l = l.map blanked := by
  induction l with
  | nil => rfl
  | cons v rest ih => rw [blankedItems, ih, List.map_cons]

theorem blankedMembers_eq (l : List (String × Value)) :
    blankedMembers l = Dictionary.mapValues blanked l := by
  induction l with
  | nil => rfl
  | cons m rest ih =>
    rw [blankedMembers, blankedMember, ih]
    rfl

theorem settleItems_eq (l : List Value) : settleItems l = l.map settle := by
  induction l with
  | nil => rfl
  | cons v rest ih => rw [settleItems, ih, List.map_cons]

theorem settleMembers_eq (l : List (String × Value)) :
    settleMembers l = Dictionary.mapValues settle l := by
  induction l with
  | nil => rfl
  | cons m rest ih =>
    rw [settleMembers, settleMember, ih]
    rfl

theorem mapValues_congr {f g : Value → Value} {members : List (String × Value)}
    (h : ∀ m ∈ members, f m.2 = g m.2) :
    Dictionary.mapValues f members = Dictionary.mapValues g members :=
  List.map_congr_left fun m hm => by rw [h m hm]

theorem blanked_ofNumber (n : Number) : (ofNumber n).blanked = ofNumber n := by
  cases n with
  | int i => rfl
  | real x => cases x <;> rfl

/-- Blanks stay blank. -/
theorem blanked_blanked (v : Value) : v.blanked.blanked = v.blanked := by
  induction v using induction with
  | null => rfl
  | bool b => rfl
  | number n => exact blanked_ofNumber n
  | string s => rfl
  | array items ih =>
    simp only [blanked, blankedItems_eq, List.map_map]
    exact congrArg array (List.map_congr_left ih)
  | object members ih =>
    simp only [blanked, blankedMembers_eq, Dictionary.mapValues_mapValues]
    rw [mapValues_congr ih]

/-- It does not matter whether equal keys are joined before or after blanks are left. -/
theorem settle_blanked (v : Value) : v.blanked.settle = v.settle.blanked := by
  induction v using induction with
  | null => rfl
  | bool b => rfl
  | number n =>
    cases n with
    | int i => rfl
    | real x => cases x <;> rfl
  | string s => rfl
  | array items ih =>
    simp only [blanked, settle, blankedItems_eq, settleItems_eq, List.map_map]
    exact congrArg array (List.map_congr_left ih)
  | object members ih =>
    simp only [blanked, settle, blankedMembers_eq, settleMembers_eq, ← Dictionary.ofPairs_mapValues,
      Dictionary.mapValues_mapValues]
    rw [mapValues_congr (g := fun v => v.settle.blanked) ih]

/-- Equal keys are joined once. -/
theorem settle_settle (v : Value) : v.settle.settle = v.settle := by
  induction v using induction with
  | null => rfl
  | bool b => rfl
  | number n => rfl
  | string s => rfl
  | array items ih =>
    simp only [settle, settleItems_eq, List.map_map]
    exact congrArg array (List.map_congr_left ih)
  | object members ih =>
    simp only [settle, settleMembers_eq, ← Dictionary.ofPairs_mapValues,
      Dictionary.mapValues_mapValues]
    rw [mapValues_congr ih, Dictionary.ofPairs_of_nodup (Dictionary.nodup_ofPairs _)]

/-- A dictionary without equal keys, at any level. -/
def Settled (d : Dictionary Value) : Prop := (Dictionary.keys d).Nodup ∧ ∀ m ∈ d, m.2.settle = m.2

theorem settled_ofPairs (members : List (String × Value)) :
    Settled (Dictionary.ofPairs (settleMembers members)) := by
  refine ⟨Dictionary.nodup_ofPairs _, fun m hm => ?_⟩
  have hmem := Dictionary.mem_ofPairs hm
  rw [settleMembers_eq] at hmem
  obtain ⟨u, -, rfl⟩ := List.mem_map.1 hmem
  exact settle_settle u.2

theorem isNull_settle (v : Value) : v.settle.isNull = v.isNull := by cases v <;> rfl

/-- Where equal keys are joined, the last member counts. -/
theorem mem_settled {members : List (String × Value)} {k : String} {v : Value} :
    (k, v) ∈ Dictionary.ofPairs (settleMembers members) ↔
      ∃ u, Dictionary.getLast? k members = some u ∧ u.settle = v := by
  rw [Dictionary.mem_iff_getLast? (Dictionary.nodup_ofPairs _), Dictionary.getLast?_ofPairs,
    settleMembers_eq, Dictionary.getLast?_mapValues, Option.map_eq_some_iff]

theorem mem_keys_settled {members : List (String × Value)} {k : String} :
    k ∈ Dictionary.keys (Dictionary.ofPairs (settleMembers members)) ↔
      (Dictionary.getLast? k members).isSome := by
  rw [← Dictionary.getLast?_isSome_iff, Dictionary.getLast?_ofPairs, settleMembers_eq,
    Dictionary.getLast?_mapValues, Option.isSome_map]

theorem member?_settle (v : Value) (k : String) :
    v.settle.member? k = (v.member? k).map settle := by
  cases v with
  | object members =>
    rw [settle, member?, member?, Dictionary.getLast?_ofPairs, settleMembers_eq,
      Dictionary.getLast?_mapValues]
  | null => rfl
  | bool b => rfl
  | number n => rfl
  | string s => rfl
  | array items => rfl

theorem Settled.blanked {d : Dictionary Value} (h : Settled d) :
    Settled (Dictionary.mapValues blanked d) := by
  refine ⟨by rw [Dictionary.keys_mapValues]; exact h.1, fun m hm => ?_⟩
  obtain ⟨u, hu, rfl⟩ := List.mem_map.1 hm
  exact (settle_blanked u.2).trans (congrArg Value.blanked (h.2 u hu))

theorem Settled.ofPairs_settleMembers {d : Dictionary Value} (h : Settled d) :
    Dictionary.ofPairs (settleMembers d) = d := by
  rw [settleMembers_eq, mapValues_congr (g := id) h.2]
  have hnodup : (Dictionary.keys (Dictionary.mapValues id d)).Nodup := by
    rw [Dictionary.keys_mapValues]
    exact h.1
  exact (Dictionary.ofPairs_of_nodup hnodup).trans (List.map_id d)

end Value

end BuildClient.Json
