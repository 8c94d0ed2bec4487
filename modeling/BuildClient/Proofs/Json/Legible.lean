import BuildClient.Proofs.Json.Numerals
import BuildClient.Proofs.Json.Value

/-!
What a reader gives: short whole numbers, canonical binary numbers, and no more depth than allowed.
-/
namespace BuildClient.Json

open Text

-- Powers are those that core defines.
attribute [local instance (2000)] instPowNat

/-- Values that a reader takes, inside so many containers. -/
inductive Legible (r : Reader) : ℕ → Value → Prop
  | null {depth : ℕ} (h : r.tooDeep depth = false) : Legible r depth .null
  | bool {depth : ℕ} (h : r.tooDeep depth = false) (b : Bool) : Legible r depth (.bool b)
  | int {depth : ℕ} {i : ℤ} (h : r.tooDeep depth = false)
      (short : (Nat.toDigits 10 i.natAbs).length ≤ Numeral.maxDigits) :
      Legible r depth (.number (.int i))
  | real {depth : ℕ} {x : Binary64} (h : r.tooDeep depth = false) (canonical : x.Canonical) :
      Legible r depth (.number (.real x))
  | string {depth : ℕ} (h : r.tooDeep depth = false) (s : String) : Legible r depth (.string s)
  | array {depth : ℕ} {items : List Value} (h : r.tooDeep depth = false)
      (each : ∀ v ∈ items, Legible r (depth + 1) v) : Legible r depth (.array items)
  | object {depth : ℕ} {members : List (String × Value)} (h : r.tooDeep depth = false)
      (each : ∀ m ∈ members, Legible r (depth + 1) m.2) : Legible r depth (.object members)

variable {r : Reader} {depth : ℕ} {v : Value}

theorem Legible.not_tooDeep (h : Legible r depth v) : r.tooDeep depth = false := by
  cases h <;> assumption

/-- Blanks take no more room. -/
theorem Legible.blanked (h : Legible r depth v) : Legible r depth v.blanked := by
  induction h with
  | null h => exact .null h
  | bool h b => exact .bool h b
  | int h short => exact .int h short
  | @real depth x h canonical =>
    cases x with
    | finite s m e => exact .real h canonical
    | nan => exact .null h
    | infinite s => exact .null h
  | string h s => exact .string h s
  | array h each ih =>
    rw [Value.blanked, Value.blankedItems_eq]
    refine .array h fun v hv => ?_
    obtain ⟨u, hu, rfl⟩ := List.mem_map.1 hv
    exact ih u hu
  | object h each ih =>
    rw [Value.blanked, Value.blankedMembers_eq]
    refine .object h fun m hm => ?_
    obtain ⟨u, hu, rfl⟩ := List.mem_map.1 hm
    exact ih u hu

theorem Legible.of_mem_settleMembers {members : List (String × Value)} {m : String × Value}
    (h : ∀ u ∈ members, Legible r depth u.2.settle)
    (hm : m ∈ Dictionary.ofPairs (Value.settleMembers members)) : Legible r depth m.2 := by
  have hmem := Dictionary.mem_ofPairs hm
  rw [Value.settleMembers_eq] at hmem
  obtain ⟨u, hu, rfl⟩ := List.mem_map.1 hmem
  exact h u hu

/-- Fewer members do not take more room. -/
theorem Legible.settle (h : Legible r depth v) : Legible r depth v.settle := by
  induction h with
  | null h => exact .null h
  | bool h b => exact .bool h b
  | int h short => exact .int h short
  | real h canonical => exact .real h canonical
  | string h s => exact .string h s
  | array h each ih =>
    rw [Value.settle, Value.settleItems_eq]
    refine .array h fun v hv => ?_
    obtain ⟨u, hu, rfl⟩ := List.mem_map.1 hv
    exact ih u hu
  | object h each ih => exact .object h fun m hm => of_mem_settleMembers ih hm

namespace Reader

theorem whole?_digits {s ds rest : List Char} (h : whole? s = some (ds, rest)) : Digits ds := by
  unfold whole? at h
  split at h
  · cases h
    exact ⟨by simp, by simp⟩
  · split at h
    · cases h
    · rename_i hne
      have hds : digits s = (ds, rest) := Option.some.inj h
      have hall : (digits s).1 = ds := congrArg Prod.fst hds
      refine ⟨?_, fun c hc => List.mem_takeWhile_imp (hall.symm ▸ hc)⟩
      rintro rfl
      exact hne rest hds

/-- A whole number has no more digits than it was written with. -/
theorem length_toDigits_digitsValue {ds : List Char} (h : Digits ds) :
    (Nat.toDigits 10 (digitsValue ds)).length ≤ ds.length :=
  (Nat.length_toDigits_le_iff (by decide) (List.length_pos_of_ne_nil h.1)).2 (digitsValue_lt h.2)

theorem legible_of_number? {negative : Bool} {s : List Char} {p : Number × List Char}
    (hd : r.tooDeep depth = false) (h : number? negative s = some p) :
    Legible r depth (.number p.1) := by
  rw [number?] at h
  obtain ⟨⟨ds, rest⟩, hw, h⟩ := Option.bind_eq_some_iff.1 h
  obtain ⟨⟨part, rest'⟩, -, h⟩ := Option.bind_eq_some_iff.1 h
  obtain ⟨⟨power, rest''⟩, -, h⟩ := Option.bind_eq_some_iff.1 h
  have hds := whole?_digits hw
  simp only at h
  split at h
  · split at h
    · cases h
    · cases h
      refine .int hd ?_
      have hlen := length_toDigits_digitsValue hds
      split <;> simp <;> omega
  · cases h
    exact .real hd (Binary64.canonical_ofDecimal _ _ _)

theorem legible_of_scalar? {s : List Char} {p : Value × List Char} (hd : r.tooDeep depth = false)
    (h : r.scalar? s = some p) : Legible r depth p.1 := by
  unfold scalar? at h
  split at h
  all_goals obtain ⟨q, hq, rfl⟩ := Option.map_eq_some_iff.1 h
  · exact .string hd q.1
  · exact .null hd
  · exact .bool hd true
  · exact .bool hd false
  · exact .real hd trivial
  · exact .real hd trivial
  · exact .real hd trivial
  · exact legible_of_number? hd hq
  · exact legible_of_number? hd hq

/-- What the readers of values, of items and of members give with so many steps left. -/
structure GivesLegible (r : Reader) (fuel : ℕ) : Prop where
  value : ∀ depth s p, r.value? fuel depth s = some p → Legible r depth p.1
  items : ∀ depth s p, r.items? fuel depth s = some p → ∀ v ∈ p.1, Legible r depth v
  members : ∀ depth s p, r.members? fuel depth s = some p → ∀ m ∈ p.1, Legible r depth m.2

variable {fuel : ℕ} {s : List Char}

theorem GivesLegible.value_succ (h : GivesLegible r fuel) {p : Value × List Char}
    (hp : r.value? (fuel + 1) depth s = some p) : Legible r depth p.1 := by
  unfold value? at hp
  split at hp
  · cases hp
  · rename_i hd
    have hd : r.tooDeep depth = false := by simpa using hd
    split at hp
    · split at hp
      · cases hp
        exact .array hd (by simp)
      · obtain ⟨q, hq, rfl⟩ := Option.map_eq_some_iff.1 hp
        exact .array hd (h.items _ _ _ hq)
    · split at hp
      · cases hp
        exact .object hd (by simp)
      · obtain ⟨q, hq, rfl⟩ := Option.map_eq_some_iff.1 hp
        exact .object hd (h.members _ _ _ hq)
    · exact legible_of_scalar? hd hp

theorem GivesLegible.items_succ (h : GivesLegible r fuel) {p : List Value × List Char}
    (hp : r.items? (fuel + 1) depth s = some p) : ∀ v ∈ p.1, Legible r depth v := by
  unfold items? at hp
  split at hp
  · cases hp
  · rename_i v rest hv
    have hfirst := h.value _ _ _ hv
    split at hp
    · cases hp
      simpa using hfirst
    · obtain ⟨q, hq, rfl⟩ := Option.map_eq_some_iff.1 hp
      exact List.forall_mem_cons.2 ⟨hfirst, h.items _ _ _ hq⟩
    · cases hp

theorem GivesLegible.members_succ (h : GivesLegible r fuel)
    {p : List (String × Value) × List Char} (hp : r.members? (fuel + 1) depth s = some p) :
    ∀ m ∈ p.1, Legible r depth m.2 := by
  unfold members? at hp
  split at hp
  · split at hp
    · cases hp
    · split at hp
      · split at hp
        · cases hp
        · rename_i v rest hv
          have hfirst := h.value _ _ _ hv
          split at hp
          · cases hp
            simpa using hfirst
          · obtain ⟨q, hq, rfl⟩ := Option.map_eq_some_iff.1 hp
            exact List.forall_mem_cons.2 ⟨hfirst, h.members _ _ _ hq⟩
          · cases hp
      · cases hp
  · cases hp

theorem givesLegible (r : Reader) (fuel : ℕ) : GivesLegible r fuel := by
  -- The three readers call each other with one step less, so they are taken together.
  induction fuel with
  | zero => constructor <;> exact fun _ _ _ h => nomatch h
  | succ fuel ih =>
    exact ⟨fun _ _ _ => ih.value_succ, fun _ _ _ => ih.items_succ, fun _ _ _ => ih.members_succ⟩

/-- Whatever is read from a text is legible. -/
theorem legible_of_parse? {s : String} (h : r.parse? s = some v) : Legible r 0 v := by
  rw [parse?, parseChars?] at h
  split at h
  · rename_i hread
    split at h
    · cases h
      exact (givesLegible r _).value _ _ _ hread
    · cases h
  · cases h

end Reader

end BuildClient.Json
