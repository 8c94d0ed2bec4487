import BuildClient.Proofs.Json.Alike
import BuildClient.Proofs.Wire.Record

/-! What is written of data that was read, as a change to the document that it was read from. -/
namespace BuildClient.Wire

open Json Text

variable {α β : Type} {c : Codec α} {P : Value → Prop} {g : Value → Value} {v : Value} {k : String}
  {members : List (String × Value)}

/-- The items of a list; other values have none. -/
def itemsOf : Value → List Value
  | .array items => items
  | _ => []

/-- A list with every item changed. -/
def onItems (g : Value → Value) : Value → Value
  | .array items => .array (items.map g)
  | v => v

/-- Whether the value stands for true, if it stands for a truth value at all. -/
def stands : Value → Bool
  | .bool b => b
  | .number n => n.numericEq (.int 1)
  | .string s =>
    ["1", "on", "t", "true", "y", "yes"].contains (String.ofList (s.toList.map Char.toLower))
  | _ => false

/-- Members as they are written again: what is null is left out, what is missing is added, and every
other member is changed by its key. -/
def tidied (added : List (String × Value)) (inner : String → Value → Value)
    (ms : List (String × Value)) : List (String × Value) :=
  (ms.filter fun m => !m.2.isNull).map (fun m => (m.1, inner m.1 m.2)) ++
    added.filter fun m => !(Dictionary.keys ms).contains m.1

def tidy (added : List (String × Value)) (inner : String → Value → Value) : Value → Value
  | .object ms => .object (tidied added inner ms)
  | v => v

namespace Codec

/-- What was read of a value, if it is as it should be, is written like the changed value, or left
out if it was null. -/
def Restates (c : Codec α) (P : Value → Prop) (g : Value → Value) : Prop :=
  ∀ v a, P v.settle → c.read v = .ok a →
    ∃ w, c.write a = .ok w ∧ w.isNull = v.isNull ∧ (v.isNull = false → w.Alike (g v.settle))

theorem text_restates : text.Restates (fun _ => True) id := by
  intro v a _ h
  cases v with
  | null =>
    cases h
    exact ⟨.null, rfl, rfl, nofun⟩
  | string s =>
    cases h
    exact ⟨.string s, rfl, rfl, fun _ => .same _⟩
  | bool b => cases h
  | number n => cases h
  | array items => cases h
  | object members => cases h

theorem texts_restates : texts.Restates (fun _ => True) id := by
  intro v d _ h
  cases v with
  | object members =>
    obtain ⟨pairs, hall, rfl⟩ := map_eq_ok.1 h
    have hmembers : members = Dictionary.mapValues Value.string pairs := by
      have hread := List.forall₂_map_left_iff.1 (Checked.all_eq_ok.1 hall)
      clear h hall
      induction hread with
      | nil => rfl
      | @cons m p ms ps hm _ ih =>
        obtain ⟨t, ht, rfl⟩ := map_eq_ok.1 hm
        rw [Dictionary.mapValues_cons, ← ih, ← readText_eq_ok (Checked.within_eq_ok.1 ht)]
    refine ⟨_, rfl, rfl, fun _ => ?_⟩
    rw [hmembers, Value.settle, Value.settleMembers_eq, Dictionary.mapValues_mapValues,
      ← Dictionary.ofPairs_mapValues]
    exact .same _
  | null => cases h
  | bool b => cases h
  | number n => cases h
  | string s => cases h
  | array items => cases h

theorem tree_restates : tree.Restates (fun _ => True) id := by
  intro v d _ h
  obtain ⟨members, rfl, rfl⟩ := tree_read h
  exact ⟨_, rfl, rfl, fun _ => .same _⟩

theorem stands_word {s : String} {b : Bool} (h : truthWord? s = some b) :
    stands (.string s) = b := by
  rw [truthWord?] at h
  split at h
  · rename_i htrue
    cases h
    exact htrue
  · rename_i hfalse
    split at h
    · cases h
      exact Bool.eq_false_of_not_eq_true hfalse
    · cases h

theorem of_readTruthInt {i : ℤ} {b : Bool} (h : readTruthInt i = .ok b) :
    i = 1 ∧ b = true ∨ i = 0 ∧ b = false := by
  rw [readTruthInt] at h
  split at h
  · cases h
    exact .inl ⟨‹_›, rfl⟩
  · split at h
    · cases h
      exact .inr ⟨‹_›, rfl⟩
    · split at h <;> cases h

/-- A binary number that equals a whole one stands for what that one stands for. -/
theorem stands_real {x : Binary64} {b : Bool} (h : readTruthReal x = .ok b) :
    stands (.number (.real x)) = b := by
  rw [readTruthReal] at h
  split at h
  · rename_i i hi
    split at h
    · cases h
    · rename_i heq
      split at h
      · cases h
      · rw [Bool.not_eq_true', Bool.not_eq_false, Number.numericEq, beq_iff_eq] at heq
        rw [stands, Number.numericEq, heq]
        rcases of_readTruthInt h with ⟨rfl, rfl⟩ | ⟨rfl, rfl⟩
        · exact beq_self_eq_true _
        · rw [zero_mul, one_mul, beq_eq_false_iff_ne, ne_eq, Option.some.injEq]
          exact fun hzero => absurd hzero.symm (pow_ne_zero _ two_ne_zero)
  · cases h

theorem stands_of_readTruth {b : Bool} (h : readTruth v = .ok b) : stands v = b := by
  cases v with
  | bool b' =>
    cases h
    rfl
  | number n =>
    cases n with
    | int i =>
      rw [stands, Number.numericEq]
      rcases of_readTruthInt h with ⟨rfl, rfl⟩ | ⟨rfl, rfl⟩ <;> rfl
    | real x => exact stands_real h
  | string s =>
    refine stands_word ?_
    rw [readTruth] at h
    cases hw : truthWord? s with
    | none =>
      rw [hw] at h
      cases h
    | some b' =>
      rw [hw] at h
      cases h
      rfl
  | null => cases h
  | array items => cases h
  | object members => cases h

theorem truth_restates : truth.Restates (fun _ => True) fun v => .bool (stands v) := by
  intro v o _ h
  by_cases hv : v = .null
  · subst hv
    cases h
    exact ⟨.null, rfl, rfl, nofun⟩
  · have hread : (readTruth v).map some = .ok o := by
      rw [← h, truth]
      cases v <;> first | rfl | exact absurd rfl hv
    obtain ⟨b, hb, rfl⟩ := map_eq_ok.1 hread
    have hnull : v.isNull = false := by
      cases v <;> first | rfl | exact absurd rfl hv
    refine ⟨.bool b, rfl, hnull.symm, fun _ => ?_⟩
    have hsettle : stands v.settle = b := by
      rw [← stands_of_readTruth hb]
      cases v <;> rfl
    rw [← hsettle]
    exact .same _

theorem list_restates (h : c.Restates P g) (hnull : ∀ v a, c.read v = .ok a → v.isNull = false) :
    c.list.Restates (fun v => ∀ u ∈ itemsOf v, P u) (onItems g) := by
  intro v o hv hread
  cases v with
  | null =>
    cases hread
    exact ⟨.null, rfl, rfl, nofun⟩
  | array items =>
    obtain ⟨l, rfl, hl⟩ := list_read_array.1 hread
    rw [Value.settle, Value.settleItems_eq] at hv ⊢
    have hitems : ∃ ws, List.Forall₂ (fun a w => c.write a = .ok w) l ws ∧
        List.Forall₂ Value.Alike ws ((items.map Value.settle).map g) := by
      clear hread
      induction hl with
      | nil => exact ⟨[], .nil, .nil⟩
      | @cons u a items l hu _ ih =>
        obtain ⟨hu', hitems⟩ := List.forall_mem_cons.1 hv
        obtain ⟨w, hw, -, halike⟩ := h u a hu' hu
        obtain ⟨ws, hws, hrest⟩ := ih hitems
        exact ⟨w :: ws, .cons hw hws, .cons (halike (hnull u a hu)) hrest⟩
    obtain ⟨ws, hws, halike⟩ := hitems
    exact ⟨_, list_write_some.2 ⟨ws, hws, rfl⟩, rfl, fun _ => .of_forall₂ halike⟩
  | bool b => cases hread
  | number n => cases hread
  | string s => cases hread
  | object members => cases hread

end Codec

section
variable {added ms : List (String × Value)} {inner : String → Value → Value} {u : Value}

theorem mem_tidied : (k, u) ∈ tidied added inner ms ↔
    (∃ t, (k, t) ∈ ms ∧ t.isNull = false ∧ inner k t = u) ∨
      (k, u) ∈ added ∧ k ∉ Dictionary.keys ms := by
  rw [tidied, List.mem_append, List.mem_map, List.mem_filter, Bool.not_eq_true',
    List.contains_eq_mem, decide_eq_false_iff_not]
  refine or_congr_left ⟨?_, ?_⟩
  · rintro ⟨⟨k', t⟩, hm, he⟩
    obtain ⟨hmem, hn⟩ := List.mem_filter.1 hm
    obtain ⟨rfl, rfl⟩ := Prod.mk.inj he
    exact ⟨t, hmem, by simpa using hn, rfl⟩
  · rintro ⟨t, hmem, hn, rfl⟩
    exact ⟨(k, t), List.mem_filter.2 ⟨hmem, by simpa using hn⟩, rfl⟩

theorem nodup_tidied (hms : (Dictionary.keys ms).Nodup) (hadded : (Dictionary.keys added).Nodup) :
    (Dictionary.keys (tidied added inner ms)).Nodup := by
  have hleft : (Dictionary.keys ((ms.filter fun m => !m.2.isNull).map
      fun m => (m.1, inner m.1 m.2))).Sublist (Dictionary.keys ms) := by
    rw [Dictionary.keys, List.map_map]
    exact List.filter_sublist.map Prod.fst
  rw [tidied, Dictionary.keys, List.map_append, List.nodup_append]
  refine ⟨hleft.nodup hms, (List.filter_sublist.map Prod.fst).nodup hadded, ?_⟩
  rintro k hk k' hk' rfl
  obtain ⟨m, hm, rfl⟩ := List.mem_map.1 hk'
  have hnot := (List.mem_filter.1 hm).2
  rw [Bool.not_eq_true', List.contains_eq_mem, decide_eq_false_iff_not] at hnot
  exact hnot (hleft.subset hk)

end

/-- A declared member is written like the changed value; if it is missing, it is written just when
it is among what is added. -/
structure Field.Restates (f : Field) (P : Value → Prop) (g : Value → Value)
    (added : List (String × Value)) : Prop where
  codec : f.codec.Restates P g
  absent : ∃ w, f.codec.write f.absent = .ok w ∧
    ∀ u, (f.key, u) ∈ added ↔ w.isNull = false ∧ u = w

/-- Declared members that are written as changes by their keys, and no other member is changed. -/
structure Restating (fs : List Field) (P : String → Value → Prop)
    (added : List (String × Value)) (inner : String → Value → Value) : Prop where
  keys : (fs.map Field.key).Nodup
  each : ∀ f ∈ fs, f.Restates (P f.key) (inner f.key) added
  others : ∀ k v, (∀ f ∈ fs, f.key ≠ k) → inner k v = v
  declared : ∀ m ∈ added, ∃ f ∈ fs, f.key = m.1
  nodup : (Dictionary.keys added).Nodup

namespace Record

variable {fs : List Field} {u : Value}

/-- Where no other spelling is used, the members beside are those under no declared key. -/
theorem mem_beside_iff (hother : ∀ f ∈ fs, ∀ k ∈ f.other, k ∉ Dictionary.keys members) :
    (k, u) ∈ beside fs members ↔
      (k, u) ∈ Dictionary.ofPairs (Value.settleMembers members) ∧ ∀ f ∈ fs, f.key ≠ k := by
  have htaken : k ∈ Dictionary.keys members → (k ∉ taken fs members ↔ ∀ f ∈ fs, f.key ≠ k) := by
    intro hk
    rw [taken, List.mem_filterMap, not_exists]
    refine forall_congr' fun f => ?_
    rw [not_and]
    refine imp_congr_right fun hf => not_congr ⟨fun hs => ?_, ?_⟩
    · rcases (Field.of_spelling? hs).1 with rfl | ⟨-, ho⟩
      · rfl
      · exact absurd hk (hother f hf k ho)
    · rintro rfl
      exact Field.spelling?_of_key hk
  rw [beside, Value.mem_settled, Value.mem_settled,
    Dictionary.getLast?_filter fun k => !(taken fs members).contains k]
  constructor
  · rintro ⟨t, ht, rfl⟩
    split at ht
    · rename_i hnot
      rw [Bool.not_eq_true', List.contains_eq_mem, decide_eq_false_iff_not] at hnot
      have hk := List.mem_map_of_mem (f := Prod.fst) (Dictionary.mem_of_getLast? ht)
      exact ⟨⟨t, ht, rfl⟩, (htaken hk).1 hnot⟩
    · cases ht
  · rintro ⟨⟨t, ht, rfl⟩, hne⟩
    have hk := List.mem_map_of_mem (f := Prod.fst) (Dictionary.mem_of_getLast? ht)
    refine ⟨t, ?_, rfl⟩
    rw [if_pos (by simpa using (htaken hk).2 hne), ht]

variable {row : Row fs} {ms : List (String × Value)} {P : String → Value → Prop}
  {added : List (String × Value)} {inner : String → Value → Value}

/-- What is read of a declared member is read of the last one under its key, if there is one. -/
theorem read_cases {f : Field} (hother : ∀ k ∈ f.other, k ∉ Dictionary.keys members)
    {a : f.Carrier} (h : f.read members = .ok a) :
    (∃ t, Dictionary.getLast? f.key members = some t ∧ f.codec.read t = .ok a) ∨
      Dictionary.getLast? f.key members = none ∧ a = f.absent := by
  cases ht : Dictionary.getLast? f.key members with
  | some t =>
    have hk : f.key ∈ Dictionary.keys members := Dictionary.getLast?_isSome_iff.1 (by rw [ht]; rfl)
    rw [Field.read, Field.spelling?_of_key hk] at h
    simp only [ht] at h
    exact .inl ⟨t, rfl, Checked.within_eq_ok.1 h⟩
  | none =>
    have hnone : f.spelling? members = none := by
      by_contra hs
      obtain ⟨s, hs⟩ := Option.ne_none_iff_exists'.1 hs
      obtain ⟨hcases, hk⟩ := Field.of_spelling? hs
      rcases hcases with rfl | ⟨-, ho⟩
      · have := Dictionary.getLast?_isSome_iff.2 hk
        rw [ht] at this
        cases this
      · exact hother s ho hk
    rw [Field.read_absent hnone] at h
    exact .inr ⟨rfl, (Except.ok.inj h).symm⟩

/-- What is written of a declared member that was read. -/
theorem write_cases (hfs : Restating fs P added inner)
    (hother : ∀ f ∈ fs, ∀ k ∈ f.other, k ∉ Dictionary.keys members)
    (hP : ∀ f ∈ fs, ∀ t, Dictionary.getLast? f.key members = some t → P f.key t.settle)
    (hrow : Row.read fs members = .ok row) {e : Sigma Field.Carrier}
    (he : e ∈ Row.entries fs row) :
    ∃ w, e.1.codec.write e.2 = .ok w ∧
      ((∃ t, Dictionary.getLast? e.1.key members = some t ∧ w.isNull = t.isNull ∧
          (t.isNull = false → w.Alike (inner e.1.key t.settle))) ∨
        Dictionary.getLast? e.1.key members = none ∧
          ∀ u, (e.1.key, u) ∈ added ↔ w.isNull = false ∧ u = w) := by
  have hmem := Row.mem_fields he
  have hfield := hfs.each _ hmem
  rcases read_cases (hother _ hmem) (Row.read_eq_ok.1 hrow e he) with ⟨t, ht, hread⟩ | ⟨ht, ha⟩
  · obtain ⟨w, hw, hnull, halike⟩ := hfield.codec t e.2 (hP _ hmem t ht) hread
    exact ⟨w, hw, .inl ⟨t, ht, hnull, halike⟩⟩
  · obtain ⟨w, hw, hadded⟩ := hfield.absent
    exact ⟨w, ha ▸ hw, .inr ⟨ht, hadded⟩⟩

section
variable (hfs : Restating fs P added inner)
  (hother : ∀ f ∈ fs, ∀ k ∈ f.other, k ∉ Dictionary.keys members)
  (hP : ∀ f ∈ fs, ∀ t, Dictionary.getLast? f.key members = some t → P f.key t.settle)
  (hrow : Row.read fs members = .ok row) (hms : Row.write fs row = .ok ms)

include hfs hother hP hrow hms

/-- Nothing is written but what the document had, or what is added. -/
theorem tidied_of_written {w : Value} (h : (k, w) ∈ ms ++ shown fs members) :
    ∃ u, (k, u) ∈ tidied added inner (Dictionary.ofPairs (Value.settleMembers members)) ∧
      w.Alike u := by
  rcases List.mem_append.1 h with h | h
  · obtain ⟨e, he, rfl, hw, hn⟩ := (Row.mem_write hms).1 h
    obtain ⟨w', hw', hcases⟩ := write_cases hfs hother hP hrow he
    obtain rfl : w = w' := Except.ok.inj (hw.symm.trans hw')
    rcases hcases with ⟨t, ht, hnull, halike⟩ | ⟨ht, hadded⟩
    · rw [hn] at hnull
      have hsettled := Value.mem_settled.2 ⟨t, ht, rfl⟩
      have hsolid : t.settle.isNull = false := by rw [Value.isNull_settle, ← hnull]
      exact ⟨_, mem_tidied.2 (.inl ⟨_, hsettled, hsolid, rfl⟩), halike hnull.symm⟩
    · refine ⟨w, mem_tidied.2 (.inr ⟨(hadded w).2 ⟨hn, rfl⟩, fun hk => ?_⟩), .same w⟩
      rw [Value.mem_keys_settled, ht] at hk
      cases hk
  · obtain ⟨hbeside, hn⟩ := mem_shown.1 h
    obtain ⟨hsettled, hne⟩ := (mem_beside_iff hother).1 hbeside
    exact ⟨w, mem_tidied.2 (.inl ⟨w, hsettled, hn, hfs.others k w hne⟩), .same w⟩

/-- Everything that the document had is written, unless it is null, and so is what is added. -/
theorem written_of_tidied
    (h : (k, u) ∈ tidied added inner (Dictionary.ofPairs (Value.settleMembers members))) :
    ∃ w, (k, w) ∈ ms ++ shown fs members := by
  rcases mem_tidied.1 h with ⟨t', hsettled, hn, -⟩ | ⟨hadd, hk⟩
  · obtain ⟨t, ht, rfl⟩ := Value.mem_settled.1 hsettled
    by_cases hdeclared : ∃ f ∈ fs, f.key = k
    · obtain ⟨f, hf, rfl⟩ := hdeclared
      obtain ⟨a, ha⟩ := Row.exists_entry row hf
      obtain ⟨w, hw, ⟨t₁, ht₁, hnull, -⟩ | ⟨hnone, -⟩⟩ := write_cases hfs hother hP hrow ha
      · obtain rfl : t = t₁ := Option.some.inj (ht.symm.trans ht₁)
        rw [← Value.isNull_settle t, hn] at hnull
        exact ⟨w, List.mem_append_left _ ((Row.mem_write hms).2 ⟨_, ha, rfl, hw, hnull⟩)⟩
      · cases ht.symm.trans hnone
    · have hne : ∀ f ∈ fs, f.key ≠ k := fun f hf he => hdeclared ⟨f, hf, he⟩
      have hbeside := (mem_beside_iff hother).2 ⟨hsettled, hne⟩
      exact ⟨_, List.mem_append_right _ (mem_shown.2 ⟨hbeside, hn⟩)⟩
  · obtain ⟨f, hf, rfl⟩ := hfs.declared _ hadd
    obtain ⟨a, ha⟩ := Row.exists_entry row hf
    obtain ⟨w, hw, ⟨t, ht, -⟩ | ⟨-, hadded⟩⟩ := write_cases hfs hother hP hrow ha
    · have hsome : (Dictionary.getLast? f.key members).isSome := by
        rw [show Dictionary.getLast? f.key members = some t from ht]
        rfl
      exact absurd (Value.mem_keys_settled.2 hsome) hk
    · have hnull := ((hadded u).1 hadd).1
      exact ⟨w, List.mem_append_left _ ((Row.mem_write hms).2 ⟨_, ha, rfl, hw, hnull⟩)⟩

end

/-- What is written of a record is the tidied document. -/
theorem codec_restates (hfs : Restating fs P added inner) :
    (codec fs).Restates (fun v => (∀ f ∈ fs, ∀ k ∈ f.other, v.member? k = none) ∧
      ∀ f ∈ fs, ∀ u, v.member? f.key = some u → P f.key u) (tidy added inner) := by
  rintro v rec ⟨hother, hP⟩ hread
  obtain ⟨members, rfl, hrow, hextra⟩ := read_eq_ok.1 hread
  have hother' : ∀ f ∈ fs, ∀ k ∈ f.other, k ∉ Dictionary.keys members := by
    intro f hf k hk hmem
    obtain ⟨t, ht⟩ := Option.isSome_iff_exists.1 (Dictionary.getLast?_isSome_iff.2 hmem)
    have hnone := hother f hf k hk
    rw [Value.member?_settle, Value.member?, ht] at hnone
    cases hnone
  have hP' : ∀ f ∈ fs, ∀ t, Dictionary.getLast? f.key members = some t → P f.key t.settle := by
    intro f hf t ht
    refine hP f hf _ ?_
    rw [Value.member?_settle, Value.member?, ht]
    rfl
  obtain ⟨ms, hms⟩ := Row.exists_write fun e he =>
    (write_cases hfs hother' hP' hrow he).imp fun _ h => h.1
  refine ⟨_, (write_eq_ok hextra).2 ⟨ms, hms, rfl⟩, rfl, fun _ => ?_⟩
  exact .of_members (nodup_written hfs.keys hms)
    (nodup_tidied (Dictionary.nodup_ofPairs _) hfs.nodup)
    (fun _ _ => tidied_of_written hfs hother' hP' hrow hms)
    (fun _ _ => written_of_tidied hfs hother' hP' hrow hms)

end Record

end BuildClient.Wire
