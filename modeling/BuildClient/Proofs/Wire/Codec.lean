import BuildClient.Proofs.Except
import BuildClient.Proofs.Json.Legible
import BuildClient.Wire.Record

/-! What each kind of data becomes when it is written, read again, and written once more. -/
namespace BuildClient.Wire

open Json Text

variable {α β ε : Type}

/-- Whatever is in the second list was given by something in the first. -/
theorem exists_of_forall₂ {R : α → β → Prop} {l : List α} {bs : List β} (h : List.Forall₂ R l bs)
    {b : β} (hb : b ∈ bs) : ∃ a ∈ l, R a b := by
  induction h with
  | nil => exact absurd hb List.not_mem_nil
  | cons hab _ ih =>
    rcases List.mem_cons.1 hb with rfl | hb
    · exact ⟨_, List.mem_cons_self, hab⟩
    · obtain ⟨a, ha, hr⟩ := ih hb
      exact ⟨a, List.mem_cons_of_mem _ ha, hr⟩

theorem exists_forall₂ {R : α → β → Prop} {l : List α} (h : ∀ a ∈ l, ∃ b, R a b) :
    ∃ bs, List.Forall₂ R l bs := by
  induction l with
  | nil => exact ⟨[], .nil⟩
  | cons a l ih =>
    obtain ⟨b, hb⟩ := h a List.mem_cons_self
    obtain ⟨bs, hbs⟩ := ih fun a' ha' => h a' (List.mem_cons_of_mem a ha')
    exact ⟨b :: bs, .cons hb hbs⟩

namespace Checked

theorem within_eq_ok {s : Step} {c : Checked α} {a : α} : c.within s = .ok a ↔ c = .ok a := by
  cases c <;> simp [within]

theorem pair_eq_ok {x : Checked α} {y : Checked β} {p : α × β} :
    pair x y = .ok p ↔ x = .ok p.1 ∧ y = .ok p.2 := by
  cases x <;> cases y <;> simp [pair, Prod.ext_iff]

theorem all_eq_ok {cs : List (Checked α)} {l : List α} :
    all cs = .ok l ↔ List.Forall₂ (fun c a => c = .ok a) cs l := by
  induction cs generalizing l with
  | nil =>
    rw [all, List.forall₂_nil_left_iff]
    exact ⟨fun h => (Except.ok.inj h).symm, fun h => congrArg _ h.symm⟩
  | cons c cs ih =>
    rw [all, map_eq_ok, List.forall₂_cons_left_iff]
    constructor
    · rintro ⟨p, hp, rfl⟩
      obtain ⟨hc, hcs⟩ := pair_eq_ok.1 hp
      exact ⟨p.1, p.2, hc, ih.1 hcs, rfl⟩
    · rintro ⟨a, rest, hc, hcs, rfl⟩
      exact ⟨(a, rest), pair_eq_ok.2 ⟨hc, ih.2 hcs⟩, rfl⟩

end Checked

namespace Codec

variable {r : Reader} {depth : ℕ} {a : α} {c : Codec α}

/-- What is read from something legible at the depth. -/
def Reads (r : Reader) (c : Codec α) (depth : ℕ) (a : α) : Prop :=
  ∃ v, Legible r depth v ∧ c.read v = .ok a

/-- Whatever is read is written, legibly, and is blank as a whole only if nothing is written. -/
def Lawful (r : Reader) (c : Codec α) (depth : ℕ) : Prop :=
  ∀ a, c.Reads r depth a →
    ∃ w, c.write a = .ok w ∧ Legible r depth w ∧ w.blanked.isNull = w.isNull

/-- What is written is read from its text, and is then written with the same text. -/
def Returns (c : Codec α) (a : α) : Prop :=
  ∃ w b w', c.write a = .ok w ∧ c.read w.blanked = .ok b ∧ c.write b = .ok w' ∧
    w'.blanked = w.blanked

theorem text_lawful : text.Lawful r depth := by
  rintro o ⟨v, hv, -⟩
  refine ⟨o.elim .null .string, rfl, ?_, ?_⟩
  · cases o with
    | none => exact .null hv.not_tooDeep
    | some s => exact .string hv.not_tooDeep s
  · cases o <;> rfl

theorem text_returns (o : Option String) : text.Returns o := by
  refine ⟨o.elim .null .string, o, o.elim .null .string, rfl, ?_, rfl, ?_⟩ <;> cases o <;> rfl

theorem truth_lawful : truth.Lawful r depth := by
  rintro o ⟨v, hv, -⟩
  refine ⟨o.elim .null .bool, rfl, ?_, ?_⟩
  · cases o with
    | none => exact .null hv.not_tooDeep
    | some b => exact .bool hv.not_tooDeep b
  · cases o <;> rfl

theorem truth_returns (o : Option Bool) : truth.Returns o := by
  refine ⟨o.elim .null .bool, o, o.elim .null .bool, rfl, ?_, rfl, ?_⟩ <;> cases o <;> rfl

theorem readText_eq_ok {v : Value} {s : String} (h : readText v = .ok s) : v = .string s := by
  cases v <;> first | cases h; rfl | cases h

/-- Texts that were read stood under their keys, and no key is there twice. -/
theorem texts_read {v : Value} {d : Dictionary String} (h : texts.read v = .ok d) :
    ∃ members, v = .object members ∧ (Dictionary.keys d).Nodup ∧
      ∀ p ∈ d, (p.1, .string p.2) ∈ members := by
  cases v with
  | object members =>
    obtain ⟨pairs, hall, rfl⟩ := map_eq_ok.1 h
    refine ⟨members, rfl, Dictionary.nodup_ofPairs pairs, fun p hp => ?_⟩
    have hread := List.forall₂_map_left_iff.1 (Checked.all_eq_ok.1 hall)
    obtain ⟨m, hm, hmp⟩ := exists_of_forall₂ hread (Dictionary.mem_ofPairs hp)
    obtain ⟨s, hs, rfl⟩ := map_eq_ok.1 hmp
    rw [← readText_eq_ok (Checked.within_eq_ok.1 hs)]
    exact hm
  | null => cases h
  | bool b => cases h
  | number n => cases h
  | string s => cases h
  | array items => cases h

theorem texts_lawful : texts.Lawful r depth := by
  rintro d ⟨v, hv, hread⟩
  obtain ⟨members, rfl, -, hmem⟩ := texts_read hread
  refine ⟨_, rfl, .object hv.not_tooDeep fun m hm => ?_, rfl⟩
  obtain ⟨p, hp, rfl⟩ := List.mem_map.1 hm
  cases hv with
  | object hd each => exact .string (each _ (hmem p hp)).not_tooDeep p.2

theorem texts_returns {d : Dictionary String} (h : texts.Reads r depth d) : texts.Returns d := by
  obtain ⟨v, -, hread⟩ := h
  obtain ⟨members, rfl, hnodup, -⟩ := texts_read hread
  have hblank : (Value.object (Dictionary.mapValues .string d)).blanked =
      .object (Dictionary.mapValues .string d) := by
    rw [Value.blanked, Value.blankedMembers_eq, Dictionary.mapValues_mapValues]
    rfl
  refine ⟨_, d, _, rfl, ?_, rfl, rfl⟩
  rw [hblank]
  refine map_eq_ok.2 ⟨d, Checked.all_eq_ok.2 ?_, Dictionary.ofPairs_of_nodup hnodup⟩
  rw [List.forall₂_map_left_iff, Dictionary.mapValues, List.forall₂_map_left_iff, List.forall₂_same]
  exact fun p _ => rfl

theorem tree_read {v : Value} {d : Dictionary Value} (h : tree.read v = .ok d) :
    ∃ members, v = .object members ∧ d = Dictionary.ofPairs (Value.settleMembers members) := by
  cases v with
  | object members => exact ⟨members, rfl, (Except.ok.inj h).symm⟩
  | null => cases h
  | bool b => cases h
  | number n => cases h
  | string s => cases h
  | array items => cases h

theorem tree_lawful : tree.Lawful r depth := by
  rintro d ⟨v, hv, hread⟩
  obtain ⟨members, rfl, rfl⟩ := tree_read hread
  refine ⟨_, rfl, .object hv.not_tooDeep fun m hm => ?_, rfl⟩
  cases hv with
  | object hd each => exact Legible.of_mem_settleMembers (fun u hu => (each u hu).settle) hm

theorem tree_returns {d : Dictionary Value} (h : tree.Reads r depth d) : tree.Returns d := by
  obtain ⟨v, -, hread⟩ := h
  obtain ⟨members, rfl, rfl⟩ := tree_read hread
  have hsettled := (Value.settled_ofPairs members).blanked
  refine ⟨_, _, _, rfl, ?_, rfl, Value.blanked_blanked (.object _)⟩
  rw [Value.blanked, Value.blankedMembers_eq]
  exact congrArg Except.ok hsettled.ofPairs_settleMembers

theorem list_read_array {items : List Value} {o : Option (List α)} :
    c.list.read (.array items) = .ok o ↔
      ∃ l, o = some l ∧ List.Forall₂ (fun v a => c.read v = .ok a) items l := by
  have hall : ∀ (l : List α) (n : ℕ), List.Forall₂ (fun (q : Value × ℕ) a =>
      (c.read q.1).within (.index q.2) = .ok a) (items.zipIdx n) l ↔
        List.Forall₂ (fun v a => c.read v = .ok a) items l := by
    induction items with
    | nil => simp
    | cons v items ih =>
      intro l n
      cases l with
      | nil => simp
      | cons a l =>
        rw [List.zipIdx_cons, List.forall₂_cons, List.forall₂_cons, ih, Checked.within_eq_ok]
  rw [list, map_eq_ok]
  constructor
  · rintro ⟨l, hl, rfl⟩
    exact ⟨l, rfl, (hall l 0).1 (List.forall₂_map_left_iff.1 (Checked.all_eq_ok.1 hl))⟩
  · rintro ⟨l, rfl, hl⟩
    exact ⟨l, Checked.all_eq_ok.2 (List.forall₂_map_left_iff.2 ((hall l 0).2 hl)), rfl⟩

theorem list_write_some {l : List α} {w : Value} :
    c.list.write (some l) = .ok w ↔
      ∃ ws, List.Forall₂ (fun a w => c.write a = .ok w) l ws ∧ w = .array ws := by
  rw [list, map_eq_ok]
  constructor
  · rintro ⟨ws, hws, rfl⟩
    exact ⟨ws, mapM_eq_ok.1 hws, rfl⟩
  · rintro ⟨ws, hws, rfl⟩
    exact ⟨ws, mapM_eq_ok.2 hws, rfl⟩

theorem list_reads {l : List α} (h : c.list.Reads r depth (some l)) :
    r.tooDeep depth = false ∧ ∀ a ∈ l, c.Reads r (depth + 1) a := by
  obtain ⟨v, hv, hread⟩ := h
  cases hv with
  | array hd each =>
    obtain ⟨l', he, hl⟩ := list_read_array.1 hread
    cases he
    refine ⟨hd, fun a ha => ?_⟩
    obtain ⟨u, hu, hua⟩ := exists_of_forall₂ hl ha
    exact ⟨u, each u hu, hua⟩
  | null hd => cases hread
  | bool hd b => cases hread
  | int hd short => cases hread
  | real hd canonical => cases hread
  | string hd s => cases hread
  | object hd each => cases hread

theorem list_lawful (h : c.Lawful r (depth + 1)) : c.list.Lawful r depth := by
  intro o ho
  cases o with
  | none =>
    obtain ⟨v, hv, -⟩ := ho
    exact ⟨.null, rfl, .null hv.not_tooDeep, rfl⟩
  | some l =>
    obtain ⟨hd, heach⟩ := list_reads ho
    obtain ⟨ws, hws⟩ := exists_forall₂ fun a ha => h a (heach a ha)
    refine ⟨.array ws, list_write_some.2 ⟨ws, hws.imp fun a w hw => hw.1, rfl⟩, ?_, rfl⟩
    refine .array hd fun w hw => ?_
    obtain ⟨a, -, -, hlegible, -⟩ := exists_of_forall₂ hws hw
    exact hlegible

theorem list_returns_none : c.list.Returns none := ⟨.null, none, .null, rfl, rfl, rfl, rfl⟩

/-- A list comes back when all that is in it does. -/
theorem list_returns_some {l : List α} : c.list.Returns (some l) ↔ ∀ a ∈ l, c.Returns a := by
  constructor
  · rintro ⟨w, o, w', hw, hread, hw', he⟩
    obtain ⟨ws, hws, rfl⟩ := list_write_some.1 hw
    rw [Value.blanked, Value.blankedItems_eq] at hread
    obtain ⟨bs, rfl, hbs⟩ := list_read_array.1 hread
    obtain ⟨ws', hws', rfl⟩ := list_write_some.1 hw'
    rw [Value.blanked, Value.blanked, Value.blankedItems_eq, Value.blankedItems_eq] at he
    replace he := Value.array.inj he
    clear hw hread hw'
    induction hws generalizing bs ws' with
    | nil => exact fun a ha => absurd ha List.not_mem_nil
    | cons ha _ ih =>
      cases hbs with
      | cons hb hbs =>
        cases hws' with
        | cons hb' hws' =>
          obtain ⟨he₁, he₂⟩ := List.cons.inj he
          exact List.forall_mem_cons.2 ⟨⟨_, _, _, ha, hb, hb', he₁⟩, ih _ hbs _ hws' he₂⟩
  · intro h
    have hall : ∃ ws bs ws', List.Forall₂ (fun a w => c.write a = .ok w) l ws ∧
        List.Forall₂ (fun v b => c.read v = .ok b) (ws.map Value.blanked) bs ∧
        List.Forall₂ (fun b w => c.write b = .ok w) bs ws' ∧
        ws'.map Value.blanked = ws.map Value.blanked := by
      induction l with
      | nil => exact ⟨[], [], [], .nil, .nil, .nil, rfl⟩
      | cons a l ih =>
        obtain ⟨w, b, w', ha, hb, hb', he⟩ := h a List.mem_cons_self
        obtain ⟨ws, bs, ws', hws, hbs, hws', hes⟩ :=
          ih fun a' ha' => h a' (List.mem_cons_of_mem a ha')
        exact ⟨w :: ws, b :: bs, w' :: ws', .cons ha hws, .cons hb hbs, .cons hb' hws',
          congrArg₂ List.cons he hes⟩
    obtain ⟨ws, bs, ws', hws, hbs, hws', he⟩ := hall
    refine ⟨.array ws, some bs, .array ws', list_write_some.2 ⟨ws, hws, rfl⟩, ?_,
      list_write_some.2 ⟨ws', hws', rfl⟩, ?_⟩
    · rw [Value.blanked, Value.blankedItems_eq]
      exact list_read_array.2 ⟨bs, rfl, hbs⟩
    · rw [Value.blanked, Value.blanked, Value.blankedItems_eq, Value.blankedItems_eq, he]

section
variable {into : α → β} {back : β → α}

theorem via_write (hback : ∀ a, back (into a) = a) (a : α) :
    (c.via into back).write (into a) = c.write a := congrArg c.write (hback a)

theorem via_reads {b : β} :
    (c.via into back).Reads r depth b ↔ ∃ a, c.Reads r depth a ∧ into a = b := by
  constructor
  · rintro ⟨v, hv, h⟩
    obtain ⟨a, ha, rfl⟩ := map_eq_ok.1 h
    exact ⟨a, ⟨v, hv, ha⟩, rfl⟩
  · rintro ⟨a, ⟨v, hv, ha⟩, rfl⟩
    exact ⟨v, hv, map_eq_ok.2 ⟨a, ha, rfl⟩⟩

theorem via_reads_back (hback : ∀ a, back (into a) = a) {b : β}
    (h : (c.via into back).Reads r depth b) : c.Reads r depth (back b) := by
  obtain ⟨a, ha, rfl⟩ := via_reads.1 h
  rwa [hback]

theorem via_lawful (hback : ∀ a, back (into a) = a) (h : c.Lawful r depth) :
    (c.via into back).Lawful r depth := by
  intro b hb
  obtain ⟨a, ha, rfl⟩ := via_reads.1 hb
  rw [via_write hback]
  exact h a ha

theorem via_returns (hback : ∀ a, back (into a) = a) {b : β} :
    (c.via into back).Returns b ↔ c.Returns (back b) := by
  constructor
  · rintro ⟨w, b', w', hw, hread, hw', he⟩
    obtain ⟨a, ha, rfl⟩ := map_eq_ok.1 hread
    rw [via_write hback] at hw'
    exact ⟨w, a, w', hw, ha, hw', he⟩
  · rintro ⟨w, a, w', hw, hread, hw', he⟩
    refine ⟨w, into a, w', hw, map_eq_ok.2 ⟨a, hread, rfl⟩, ?_, he⟩
    rw [via_write hback]
    exact hw'

end

end Codec

end BuildClient.Wire
