import Mathlib.Data.Int.Notation
import Mathlib.Data.List.Forall2
import Mathlib.Data.List.Nodup
import BuildClient.Proofs.Json.Value

/-! Values that differ in the order of members only, and values that have a text as a whole. -/
namespace BuildClient.Json.Value

variable {u v w : Value} {items items' : List Value} {ms ms' : List (String × Value)}

/-- Every number in the value is finite, at any level. -/
inductive Finite : Value → Prop
  | null : Finite .null
  | bool (b : Bool) : Finite (.bool b)
  | int (i : ℤ) : Finite (.number (.int i))
  | real (s : Bool) (m e : ℕ) : Finite (.number (.real (.finite s m e)))
  | string (s : String) : Finite (.string s)
  | array {items : List Value} (each : ∀ v ∈ items, Finite v) : Finite (.array items)
  | object {members : List (String × Value)} (each : ∀ m ∈ members, Finite m.2) :
      Finite (.object members)

/-- A finite value stands in its text as it is. -/
theorem Finite.blanked (h : Finite v) : v.blanked = v := by
  induction h with
  | null => rfl
  | bool b => rfl
  | int i => rfl
  | real s m e => rfl
  | string s => rfl
  | @array items each ih =>
    rw [Value.blanked, blankedItems_eq, List.map_congr_left ih, List.map_id']
  | @object members each ih =>
    rw [Value.blanked, blankedMembers_eq, mapValues_congr (g := id) ih]
    exact congrArg Value.object (List.map_id members)

/-- What a text stands for is finite: all else is left blank. -/
theorem finite_blanked (v : Value) : v.blanked.Finite := by
  induction v using induction with
  | null => exact .null
  | bool b => exact .bool b
  | number n =>
    cases n with
    | int i => exact .int i
    | real x =>
      cases x with
      | finite s m e => exact .real s m e
      | nan => exact .null
      | infinite s => exact .null
  | string s => exact .string s
  | array items ih =>
    rw [Value.blanked, blankedItems_eq]
    refine .array fun v hv => ?_
    obtain ⟨u, hu, rfl⟩ := List.mem_map.1 hv
    exact ih u hu
  | object members ih =>
    rw [Value.blanked, blankedMembers_eq]
    refine .object fun m hm => ?_
    obtain ⟨u, hu, rfl⟩ := List.mem_map.1 hm
    exact ih u hu

/-- The same value but for the order of members, at any level. -/
inductive Alike : Value → Value → Prop
  | same (v : Value) : Alike v v
  | array {items items' : List Value} (length : items.length = items'.length)
      (each : ∀ p ∈ items.zip items', Alike p.1 p.2) : Alike (.array items) (.array items')
  | object {ms ms' : List (String × Value)} (nodup : (Dictionary.keys ms).Nodup)
      (keys : (Dictionary.keys ms).Perm (Dictionary.keys ms'))
      (each : ∀ k v v', (k, v) ∈ ms → (k, v') ∈ ms' → Alike v v') : Alike (.object ms) (.object ms')

theorem Alike.of_forall₂ (h : List.Forall₂ Alike items items') :
    Alike (.array items) (.array items') :=
  .array h.length_eq fun _ hp => (List.forall₂_iff_zip.1 h).2 hp

/-- Objects are alike if each has what the other has under every key. -/
theorem Alike.of_members (hn : (Dictionary.keys ms).Nodup) (hn' : (Dictionary.keys ms').Nodup)
    (h : ∀ k v, (k, v) ∈ ms → ∃ v', (k, v') ∈ ms' ∧ Alike v v')
    (h' : ∀ k v', (k, v') ∈ ms' → ∃ v, (k, v) ∈ ms) : Alike (.object ms) (.object ms') := by
  refine .object hn ((List.perm_ext_iff_of_nodup hn hn').2 fun k => ⟨fun hk => ?_, fun hk => ?_⟩) ?_
  · obtain ⟨m, hm, rfl⟩ := List.mem_map.1 hk
    obtain ⟨v', hv', -⟩ := h m.1 m.2 hm
    exact List.mem_map.2 ⟨_, hv', rfl⟩
  · obtain ⟨m, hm, rfl⟩ := List.mem_map.1 hk
    obtain ⟨v, hv⟩ := h' m.1 m.2 hm
    exact List.mem_map.2 ⟨_, hv, rfl⟩
  · intro k v v' hv hv'
    obtain ⟨u, hu, halike⟩ := h k v hv
    have he : (k, u) = (k, v') := List.inj_on_of_nodup_map hn' hu hv' rfl
    rwa [(Prod.mk.inj he).2] at halike

/-- What is like a finite value is finite. -/
theorem Finite.of_alike (h : Alike v w) (hw : Finite w) : Finite v := by
  induction h with
  | same v => exact hw
  | @array items items' length each ih =>
    cases hw with
    | array heach =>
      refine .array fun u hu => ?_
      obtain ⟨i, hi, rfl⟩ := List.getElem_of_mem hu
      have hi' : i < items'.length := length ▸ hi
      have hp : (items[i], items'[i]) ∈ items.zip items' :=
        List.mem_iff_getElem.2 ⟨i, by simp; omega, by simp⟩
      exact ih _ hp (heach _ (List.getElem_mem hi'))
  | @object ms ms' nodup keys each ih =>
    cases hw with
    | object heach =>
      refine .object fun m hm => ?_
      have hk : m.1 ∈ Dictionary.keys ms' := keys.subset (List.mem_map_of_mem hm)
      obtain ⟨m', hm', he⟩ := List.mem_map.1 hk
      exact ih m.1 m.2 m'.2 hm (he ▸ hm') (heach m' hm')

end BuildClient.Json.Value
