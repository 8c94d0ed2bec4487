import BuildClient.Proofs.Wire.Codec

/-! What becomes of declared and undeclared members when a record is written and read again. -/
namespace BuildClient.Wire

open Json Text

variable {r : Reader} {depth : ℕ} {f : Field} {fs : List Field} {members : List (String × Value)}
  {k : String} {v : Value}

namespace Field

/-- A member with spellings of its own that can be left out. -/
structure Lawful (r : Reader) (depth : ℕ) (f : Field) : Prop where
  codec : f.codec.Lawful r depth
  absent : f.codec.Reads r depth f.absent
  blank : ∀ a, f.codec.write a = .ok .null → a = f.absent ∧ f.codec.read .null = .ok a

theorem spelling?_of_key (h : f.key ∈ Dictionary.keys members) :
    f.spelling? members = some f.key := by
  rw [spelling?, if_pos (Dictionary.getLast?_isSome_iff.2 h)]

theorem spelling?_of_other (h : f.key ∉ Dictionary.keys members) (ho : f.other = some k)
    (hk : k ∈ Dictionary.keys members) : f.spelling? members = some k := by
  rw [spelling?, if_neg (fun hs => h (Dictionary.getLast?_isSome_iff.1 hs)), ho]
  simpa using Dictionary.getLast?_isSome_iff.2 hk

/-- A spelling is the key or the other one, and it is there. -/
theorem of_spelling? (h : f.spelling? members = some k) :
    (k = f.key ∨ f.key ∉ Dictionary.keys members ∧ f.other = some k) ∧
      k ∈ Dictionary.keys members := by
  rw [spelling?] at h
  split at h
  · rename_i hs
    cases h
    exact ⟨.inl rfl, Dictionary.getLast?_isSome_iff.1 hs⟩
  · rename_i hs
    obtain ⟨ho, hk⟩ := Option.filter_eq_some_iff.1 h
    exact ⟨.inr ⟨fun hm => hs (Dictionary.getLast?_isSome_iff.2 hm), ho⟩,
      Dictionary.getLast?_isSome_iff.1 hk⟩

theorem read_of_mem (hn : (Dictionary.keys members).Nodup) (h : (f.key, v) ∈ members)
    {a : f.Carrier} : f.read members = .ok a ↔ f.codec.read v = .ok a := by
  have hk : f.key ∈ Dictionary.keys members := List.mem_map_of_mem h
  rw [read, spelling?_of_key hk]
  simp only
  rw [Dictionary.getLast?_of_mem hn h]
  exact Checked.within_eq_ok

theorem read_absent (h : f.spelling? members = none) : f.read members = .ok f.absent := by
  rw [read, h]

/-- What is read of a member was read from one of the members, or is what its absence gives. -/
theorem reads_of_read (hf : f.Lawful r depth) (hl : ∀ m ∈ members, Legible r depth m.2)
    {a : f.Carrier} (h : f.read members = .ok a) : f.codec.Reads r depth a := by
  rw [read] at h
  split at h
  · cases h
    exact hf.absent
  · split at h
    · cases h
      exact hf.absent
    · rename_i v hv
      exact ⟨v, hl _ (Dictionary.mem_of_getLast? hv), Checked.within_eq_ok.1 h⟩

end Field

namespace Row

variable {row : Row fs} {ms : List (String × Value)}

/-- The declared members with their data. -/
def entries : (fs : List Field) → Row fs → List (Sigma Field.Carrier)
  | [], _ => []
  | f :: fs, row => ⟨f, row.1⟩ :: entries fs row.2

theorem mem_fields {e : Sigma Field.Carrier} (he : e ∈ entries fs row) : e.1 ∈ fs := by
  induction fs with
  | nil => exact absurd he List.not_mem_nil
  | cons f fs ih =>
    rcases List.mem_cons.1 he with rfl | he
    · exact List.mem_cons_self
    · exact List.mem_cons_of_mem f (ih he)

theorem exists_entry (row : Row fs) (hf : f ∈ fs) : ∃ a, ⟨f, a⟩ ∈ entries fs row := by
  induction fs with
  | nil => exact absurd hf List.not_mem_nil
  | cons g fs ih =>
    rcases List.mem_cons.1 hf with rfl | hf
    · exact ⟨row.1, List.mem_cons_self⟩
    · obtain ⟨a, ha⟩ := ih row.2 hf
      exact ⟨a, List.mem_cons_of_mem _ ha⟩

theorem read_cons {row : Row (f :: fs)} : Row.read (f :: fs) members = .ok row ↔
    f.read members = .ok row.1 ∧ Row.read fs members = .ok row.2 := Checked.pair_eq_ok

theorem read_eq_ok :
    Row.read fs members = .ok row ↔ ∀ e ∈ entries fs row, e.1.read members = .ok e.2 := by
  induction fs with
  | nil => exact ⟨fun _ e he => absurd he List.not_mem_nil, fun _ => rfl⟩
  | cons f fs ih =>
    rw [read_cons, ih, entries, List.forall_mem_cons]

theorem write_cons {row : Row (f :: fs)} :
    Row.write (f :: fs) row = .ok ms ↔ ∃ w rest, f.codec.write row.1 = .ok w ∧
      Row.write fs row.2 = .ok rest ∧ (if w.isNull then rest else (f.key, w) :: rest) = ms := by
  rw [Row.write]
  constructor
  · intro h
    cases hw : f.codec.write row.1 with
    | error e =>
      rw [hw] at h
      cases h
    | ok w =>
      cases hrest : Row.write fs row.2 with
      | error e =>
        rw [hw, hrest] at h
        cases h
      | ok rest =>
        rw [hw, hrest] at h
        exact ⟨w, rest, rfl, rfl, Except.ok.inj h⟩
  · rintro ⟨w, rest, hw, hrest, rfl⟩
    rw [hw, hrest]
    rfl

theorem exists_write (h : ∀ e ∈ entries fs row, ∃ w, e.1.codec.write e.2 = .ok w) :
    ∃ ms, Row.write fs row = .ok ms := by
  induction fs with
  | nil => exact ⟨[], rfl⟩
  | cons f fs ih =>
    rw [entries, List.forall_mem_cons] at h
    obtain ⟨⟨w, hw⟩, hrest⟩ := h
    obtain ⟨rest, hrest⟩ := ih hrest
    exact ⟨_, write_cons.2 ⟨w, rest, hw, hrest, rfl⟩⟩

/-- What is written of the declared members: each under its key, if it is not blank. -/
theorem mem_write (h : Row.write fs row = .ok ms) {m : String × Value} :
    m ∈ ms ↔ ∃ e ∈ entries fs row, e.1.key = m.1 ∧ e.1.codec.write e.2 = .ok m.2 ∧
      m.2.isNull = false := by
  induction fs generalizing ms with
  | nil =>
    cases h
    exact ⟨fun hm => absurd hm List.not_mem_nil, fun ⟨e, he, _⟩ => absurd he List.not_mem_nil⟩
  | cons f fs ih =>
    obtain ⟨w, rest, hw, hrest, rfl⟩ := write_cons.1 h
    rw [entries, List.exists_mem_cons_iff, ← ih hrest]
    by_cases hnull : w.isNull = true
    · rw [if_pos hnull]
      refine ⟨.inr, ?_⟩
      rintro (⟨-, hm, hn⟩ | hm)
      · rw [Except.ok.inj (hw.symm.trans hm), hn] at hnull
        cases hnull
      · exact hm
    · rw [if_neg hnull, List.mem_cons]
      refine or_congr ⟨?_, ?_⟩ Iff.rfl
      · rintro rfl
        exact ⟨rfl, hw, by simpa using hnull⟩
      · rintro ⟨hk, hm, -⟩
        exact Prod.ext hk.symm (Except.ok.inj (hm.symm.trans hw))

theorem keys_write (h : Row.write fs row = .ok ms) :
    (Dictionary.keys ms).Sublist (fs.map Field.key) := by
  induction fs generalizing ms with
  | nil =>
    cases h
    exact .slnil
  | cons f fs ih =>
    obtain ⟨w, rest, hw, hrest, rfl⟩ := write_cons.1 h
    split
    · exact (ih hrest).cons f.key
    · exact (ih hrest).cons_cons f.key

/-- When each declared member is read again and written alike, so are all of them together. -/
theorem write_again (hw : Row.write fs row = .ok ms)
    (h : ∀ e ∈ entries fs row, ∀ w, e.1.codec.write e.2 = .ok w →
      ∃ b w', e.1.read members = .ok b ∧ e.1.codec.write b = .ok w' ∧ w'.blanked = w.blanked ∧
        w'.isNull = w.isNull) :
    ∃ row' ms', Row.read fs members = .ok row' ∧ Row.write fs row' = .ok ms' ∧
      Dictionary.mapValues Value.blanked ms' = Dictionary.mapValues Value.blanked ms := by
  induction fs generalizing ms with
  | nil =>
    cases hw
    exact ⟨(), [], rfl, rfl, rfl⟩
  | cons f fs ih =>
    obtain ⟨w, rest, hwf, hrest, rfl⟩ := write_cons.1 hw
    rw [entries, List.forall_mem_cons] at h
    obtain ⟨b, w', hb, hw', he, hn⟩ := h.1 w hwf
    obtain ⟨row', rest', hread, hwrite, hes⟩ := ih hrest h.2
    refine ⟨(b, row'), _, read_cons.2 ⟨hb, hread⟩, write_cons.2 ⟨w', rest', hw', hwrite, rfl⟩, ?_⟩
    rw [hn]
    split
    · exact hes
    · rw [Dictionary.mapValues_cons, Dictionary.mapValues_cons, he, hes]

end Row

/-- No undeclared member is a number without a numeral. -/
def Finite (extra : Dictionary Extra) : Prop :=
  ∀ k x, (k, Extra.data (.number (.real x))) ∈ extra → ∃ s m e, x = .finite s m e

theorem Finite.isNull_blanked {extra : Dictionary Extra} (h : Finite extra)
    (hv : (k, Extra.data v) ∈ extra) : v.blanked.isNull = v.isNull := by
  cases v with
  | number n =>
    cases n with
    | int i => rfl
    | real x =>
      obtain ⟨s, m, e, rfl⟩ := h k x hv
      rfl
  | null => rfl
  | bool b => rfl
  | string s => rfl
  | array items => rfl
  | object members => rfl

theorem finite_of_isNull_blanked {extra : Dictionary Extra}
    (h : ∀ k v, (k, Extra.data v) ∈ extra → v.blanked.isNull = v.isNull) : Finite extra := by
  intro k x hx
  have hn := h k _ hx
  cases x with
  | finite s m e => exact ⟨s, m, e, rfl⟩
  | nan => cases hn
  | infinite s => cases hn

/-- No undeclared member has the name, unless it is blank. -/
def Vacant (k : String) (extra : Dictionary Extra) : Prop :=
  ∀ v, (k, Extra.data v) ∈ extra → v = .null

/-- A declared member comes back, and none that is undeclared stands in for it. -/
structure Field.Kept (f : Field) (a : f.Carrier) (extra : Dictionary Extra) : Prop where
  vacant : f.codec.write a = .ok .null → ∀ k ∈ f.other, Vacant k extra
  returns : f.codec.Returns a

/-- Declared members that can be told apart. -/
structure Lawful (r : Reader) (depth : ℕ) (fs : List Field) : Prop where
  each : ∀ f ∈ fs, f.Lawful r depth
  keys : (fs.map Field.key).Nodup
  others : ∀ f ∈ fs, ∀ g ∈ fs, f.other ≠ some g.key

namespace Record

/-- The data of the members that no declared member takes up. -/
def beside (fs : List Field) (members : List (String × Value)) : Dictionary Value :=
  Dictionary.ofPairs
    (Value.settleMembers (members.filter fun m => !(taken fs members).contains m.1))

theorem undeclared_eq (fs : List Field) (members : List (String × Value)) :
    undeclared fs members = (beside fs members).mapValues .data := rfl

theorem beside_settled (fs : List Field) (members : List (String × Value)) :
    Value.Settled (beside fs members) := Value.settled_ofPairs _

theorem mem_beside {m : String × Value} (h : m ∈ beside fs members) :
    m.1 ∉ taken fs members ∧ ∃ u, (m.1, u) ∈ members ∧ m.2 = u.settle := by
  have hm := Dictionary.mem_ofPairs h
  rw [Value.settleMembers_eq] at hm
  obtain ⟨u, hu, rfl⟩ := List.mem_map.1 hm
  obtain ⟨hu, ht⟩ := List.mem_filter.1 hu
  refine ⟨fun hk => ?_, u.2, hu, rfl⟩
  rw [List.contains_iff_mem.2 hk] at ht
  cases ht

/-- A declared key is never found beside. -/
theorem key_not_mem_beside (hf : f ∈ fs) : f.key ∉ Dictionary.keys (beside fs members) := by
  intro hk
  obtain ⟨m, hm, he⟩ := List.mem_map.1 hk
  obtain ⟨ht, u, hu, -⟩ := mem_beside hm
  rw [he] at ht hu
  exact ht (List.mem_filterMap.2 ⟨f, hf, Field.spelling?_of_key (List.mem_map_of_mem hu)⟩)

/-- The members that are written of those that no declared member takes up. -/
def shown (fs : List Field) (members : List (String × Value)) : Dictionary Value :=
  (beside fs members).filter fun m => !m.2.isNull

theorem mem_shown {m : String × Value} :
    m ∈ shown fs members ↔ m ∈ beside fs members ∧ m.2.isNull = false := by
  rw [shown, List.mem_filter, Bool.not_eq_true']

theorem writeExtra_data (d : Dictionary Value) :
    writeExtra (d.mapValues .data) = .ok (d.filter fun m => !m.2.isNull) := by
  have h : (d.mapValues Extra.data).mapM
      (fun m => m.2.write.map fun v => (m.1, v)) = (.ok d : Except Utf8.Error _) := by
    rw [mapM_eq_ok, Dictionary.mapValues, List.forall₂_map_left_iff, List.forall₂_same]
    exact fun m _ => rfl
  rw [writeExtra, h]
  rfl

variable {row : Row fs} {rec : Record fs}

theorem read_eq_ok : (codec fs).read v = .ok rec ↔ ∃ members, v = .object members ∧
    Row.read fs members = .ok rec.row ∧ rec.extra = undeclared fs members := by
  constructor
  · intro h
    cases v with
    | object members =>
      obtain ⟨row, hrow, rfl⟩ := map_eq_ok.1 h
      exact ⟨members, rfl, hrow, rfl⟩
    | null => cases h
    | bool b => cases h
    | number n => cases h
    | string s => cases h
    | array items => cases h
  · rintro ⟨members, rfl, hrow, hextra⟩
    obtain ⟨row, extra⟩ := rec
    subst hextra
    exact map_eq_ok.2 ⟨row, hrow, rfl⟩

/-- A record is never left out. -/
theorem write_ne_null : (codec fs).write rec ≠ .ok .null := by
  intro h
  rw [codec] at h
  simp only at h
  cases hrow : Row.write fs rec.row with
  | error e =>
    rw [hrow] at h
    cases h
  | ok ms =>
    cases hextra : writeExtra rec.extra with
    | error e =>
      rw [hrow, hextra] at h
      cases h
    | ok es =>
      rw [hrow, hextra] at h
      cases h

/-- What is written of a record that was read: the declared members, then those beside. -/
theorem write_eq_ok {w : Value} (h : rec.extra = undeclared fs members) :
    (codec fs).write rec = .ok w ↔ ∃ ms, Row.write fs rec.row = .ok ms ∧
      w = .object (ms ++ shown fs members) := by
  rw [codec]
  simp only
  rw [h, undeclared_eq, writeExtra_data]
  cases Row.write fs rec.row with
  | error e => exact ⟨fun hw => (by cases hw), fun ⟨ms, hms, _⟩ => (by cases hms)⟩
  | ok ms =>
    constructor
    · intro hw
      exact ⟨ms, rfl, (Except.ok.inj hw).symm⟩
    · rintro ⟨ms', hms, rfl⟩
      cases hms
      rfl

theorem key_not_mem_shown (hmem : f ∈ fs) : f.key ∉ Dictionary.keys (shown fs members) := by
  intro hk
  obtain ⟨m, hm, he⟩ := List.mem_map.1 hk
  exact key_not_mem_beside hmem (List.mem_map.2 ⟨m, (mem_shown.1 hm).1, he⟩)

theorem mem_keys_written {ms : List (String × Value)} (hw : Row.write fs row = .ok ms)
    (hk : k ∈ Dictionary.keys ms) : ∃ f ∈ fs, f.key = k :=
  List.mem_map.1 ((Row.keys_write hw).subset hk)

theorem nodup_written (hfs : (fs.map Field.key).Nodup) {ms : List (String × Value)}
    (hw : Row.write fs row = .ok ms) : (Dictionary.keys (ms ++ shown fs members)).Nodup := by
  rw [Dictionary.keys, List.map_append, List.nodup_append]
  refine ⟨(Row.keys_write hw).nodup hfs, ?_, ?_⟩
  · exact (List.filter_sublist.map Prod.fst).nodup (beside_settled fs members).1
  · rintro k hk k' hk' rfl
    obtain ⟨f, hf, rfl⟩ := mem_keys_written hw hk
    exact key_not_mem_shown hf hk'

theorem entry_reads (hfs : Lawful r depth fs) (hl : ∀ m ∈ members, Legible r depth m.2)
    (hread : Row.read fs members = .ok row) {e : Sigma Field.Carrier}
    (he : e ∈ Row.entries fs row) : e.1.codec.Reads r depth e.2 :=
  Field.reads_of_read (hfs.each _ (Row.mem_fields he)) hl (Row.read_eq_ok.1 hread e he)

theorem exists_row_write (hfs : Lawful r depth fs) (hl : ∀ m ∈ members, Legible r depth m.2)
    (hread : Row.read fs members = .ok row) : ∃ ms, Row.write fs row = .ok ms := by
  refine Row.exists_write fun e he => ?_
  obtain ⟨w, hw, -⟩ := (hfs.each _ (Row.mem_fields he)).codec _ (entry_reads hfs hl hread he)
  exact ⟨w, hw⟩

theorem legible_written (hfs : Lawful r depth fs) (hl : ∀ m ∈ members, Legible r depth m.2)
    (hread : Row.read fs members = .ok row) {ms : List (String × Value)}
    (hw : Row.write fs row = .ok ms) : ∀ m ∈ ms ++ shown fs members, Legible r depth m.2 := by
  intro m hm
  rcases List.mem_append.1 hm with hm | hm
  · obtain ⟨e, he, -, hwe, -⟩ := (Row.mem_write hw).1 hm
    obtain ⟨w, hw', hlegible, -⟩ :=
      (hfs.each _ (Row.mem_fields he)).codec _ (entry_reads hfs hl hread he)
    rw [Except.ok.inj (hwe.symm.trans hw')]
    exact hlegible
  · obtain ⟨-, u, hu, he⟩ := mem_beside (mem_shown.1 hm).1
    rw [he]
    exact (hl _ hu).settle

theorem codec_lawful (hfs : Lawful r (depth + 1) fs) : (codec fs).Lawful r depth := by
  rintro rec ⟨v, hv, hread⟩
  obtain ⟨members, rfl, hrow, hextra⟩ := read_eq_ok.1 hread
  cases hv with
  | object hd each =>
    obtain ⟨ms, hms⟩ := exists_row_write hfs each hrow
    exact ⟨_, (write_eq_ok hextra).2 ⟨ms, hms, rfl⟩,
      .object hd (legible_written hfs each hrow hms), rfl⟩

/-- The text of a record gives the record back: nothing beside is written as blank, and every
declared member is kept. -/
structure Faithful (rec : Record fs) : Prop where
  finite : Finite rec.extra
  kept : ∀ e ∈ Row.entries fs rec.row, e.1.Kept e.2 rec.extra

theorem mem_extra (h : rec.extra = undeclared fs members) :
    (k, Extra.data v) ∈ rec.extra ↔ (k, v) ∈ beside fs members := by
  rw [h, undeclared_eq, Dictionary.mapValues, List.mem_map]
  constructor
  · rintro ⟨m, hm, he⟩
    cases he
    exact hm
  · exact fun hm => ⟨_, hm, rfl⟩

section
variable {ms : List (String × Value)}

/-- The members of what is written, as their text stands for them. -/
def restated (ms : List (String × Value)) (fs : List Field) (members : List (String × Value)) :
    List (String × Value) := Dictionary.mapValues Value.blanked (ms ++ shown fs members)

theorem mem_again {m : String × Value} (h : m ∈ ms ++ shown fs members) :
    (m.1, m.2.blanked) ∈ restated ms fs members := List.mem_map_of_mem h

theorem keys_again : Dictionary.keys (restated ms fs members) =
    Dictionary.keys ms ++ Dictionary.keys (shown fs members) := by
  rw [restated, Dictionary.keys_mapValues]
  exact List.map_append

variable (hfs : Lawful r depth fs) (hl : ∀ m ∈ members, Legible r depth m.2)
  (hrow : Row.read fs members = .ok rec.row) (hextra : rec.extra = undeclared fs members)
  (hms : Row.write fs rec.row = .ok ms)

include hfs hrow in
theorem entry_unique {e e' : Sigma Field.Carrier} (he : e ∈ Row.entries fs rec.row)
    (he' : e' ∈ Row.entries fs rec.row) (hk : e.1.key = e'.1.key) : e = e' := by
  have hfield : e.1 = e'.1 :=
    List.inj_on_of_nodup_map hfs.keys (Row.mem_fields he) (Row.mem_fields he') hk
  obtain ⟨f, a⟩ := e
  obtain ⟨f', a'⟩ := e'
  obtain rfl : f = f' := hfield
  -- Both were read for one member from the same members.
  have ha := Row.read_eq_ok.1 hrow _ he
  have ha' := Row.read_eq_ok.1 hrow _ he'
  exact congrArg (Sigma.mk f) (Except.ok.inj (ha.symm.trans ha'))

include hfs hrow hms in
/-- A declared member is written if it is not blank. -/
theorem key_mem_iff {e : Sigma Field.Carrier} (he : e ∈ Row.entries fs rec.row) {w : Value}
    (hw : e.1.codec.write e.2 = .ok w) : e.1.key ∈ Dictionary.keys ms ↔ w.isNull = false := by
  constructor
  · intro hk
    obtain ⟨m, hm, hme⟩ := List.mem_map.1 hk
    obtain ⟨e', he', hke, hw', hn⟩ := (Row.mem_write hms).1 hm
    obtain rfl : e' = e := entry_unique hfs hrow he' he (hke.trans hme)
    rw [Except.ok.inj (hw.symm.trans hw')]
    exact hn
  · intro hn
    exact List.mem_map.2 ⟨(e.1.key, w), (Row.mem_write hms).2 ⟨e, he, rfl, hw, hn⟩, rfl⟩

include hfs hl hrow hextra hms in
theorem other_not_shown (hf : rec.Faithful) (hmem : f ∈ fs) (hk : f.key ∉ Dictionary.keys ms)
    (ho : f.other = some k) : k ∉ Dictionary.keys (shown fs members) := by
  intro hshown
  obtain ⟨a, ha⟩ := Row.exists_entry rec.row hmem
  obtain ⟨m, hm, rfl⟩ := List.mem_map.1 hshown
  obtain ⟨hbeside, hn⟩ := mem_shown.1 hm
  obtain ⟨w, hw, -⟩ := (hfs.each f hmem).codec a (entry_reads hfs hl hrow ha)
  have hblank : f.codec.write a = .ok .null := by
    rw [key_mem_iff hfs hrow hms ha hw, Bool.not_eq_false] at hk
    rw [hw, Value.eq_null_of_isNull hk]
  rw [(hf.kept _ ha).vacant hblank m.1 ho m.2 ((mem_extra hextra).2 hbeside)] at hn
  cases hn

include hfs hl hrow hextra hms in
/-- No member that was beside stands in for a declared one. -/
theorem spelling?_again (hf : rec.Faithful) (hmem : f ∈ fs) {s : String}
    (h : f.spelling? (restated ms fs members) = some s) :
    s = f.key ∧ f.key ∈ Dictionary.keys ms := by
  obtain ⟨hcases, hs⟩ := Field.of_spelling? h
  rw [keys_again, List.mem_append] at hs hcases
  rcases hcases with rfl | ⟨hk, ho⟩
  · exact ⟨rfl, hs.resolve_right (key_not_mem_shown hmem)⟩
  -- The other spelling would have to be a declared key, or stand beside and not be blank.
  · rw [not_or] at hk
    exfalso
    rcases hs with hs | hs
    · obtain ⟨g, hg, rfl⟩ := mem_keys_written hms hs
      exact hfs.others f hmem g hg ho
    · exact other_not_shown hfs hl hrow hextra hms hf hmem hk.1 ho hs

include hfs hl hrow hextra hms in
/-- Each declared member is read again and written alike. -/
theorem entry_again (hf : rec.Faithful) {e : Sigma Field.Carrier} (he : e ∈ Row.entries fs rec.row)
    {w : Value} (hw : e.1.codec.write e.2 = .ok w) :
    ∃ b w', e.1.read (restated ms fs members) = .ok b ∧ e.1.codec.write b = .ok w' ∧
      w'.blanked = w.blanked ∧ w'.isNull = w.isNull := by
  have hlaw := hfs.each _ (Row.mem_fields he)
  have hkey := key_mem_iff hfs hrow hms he hw
  cases hn : w.isNull with
  | true =>
    obtain rfl := Value.eq_null_of_isNull hn
    obtain ⟨ha, -⟩ := hlaw.blank _ hw
    refine ⟨_, .null, Field.read_absent ?_, ha ▸ hw, rfl, rfl⟩
    by_contra hs
    obtain ⟨s, hs⟩ := Option.ne_none_iff_exists'.1 hs
    have := hkey.1 (spelling?_again hfs hl hrow hextra hms hf (Row.mem_fields he) hs).2
    cases this
  | false =>
    obtain ⟨u, b, w', hu, hb, hw', hsame⟩ := (hf.kept e he).returns
    obtain rfl := Except.ok.inj (hw.symm.trans hu)
    have hmem : (e.1.key, w) ∈ ms ++ shown fs members :=
      List.mem_append_left _ ((Row.mem_write hms).2 ⟨e, he, rfl, hw, hn⟩)
    have hnodup : (Dictionary.keys (restated ms fs members)).Nodup := by
      rw [restated, Dictionary.keys_mapValues]
      exact nodup_written hfs.keys hms
    have hlegible := legible_written hfs hl hrow hms _ hmem
    obtain ⟨u, hu', -, hsolid⟩ := hlaw.codec b ⟨_, hlegible.blanked, hb⟩
    obtain ⟨u₀, hu₀, -, hsolid₀⟩ := hlaw.codec e.2 (entry_reads hfs hl hrow he)
    obtain rfl := Except.ok.inj (hw'.symm.trans hu')
    obtain rfl := Except.ok.inj (hw.symm.trans hu₀)
    refine ⟨b, w', (Field.read_of_mem hnodup (mem_again hmem)).2 hb, hw', hsame, ?_⟩
    rw [← hsolid, hsame, hsolid₀, hn]

include hfs hl hrow hextra hms in
/-- The same members are beside the declared ones again. -/
theorem beside_again (hf : rec.Faithful) : beside fs (restated ms fs members) =
    Dictionary.mapValues Value.blanked (shown fs members) := by
  have htaken : ∀ s, s ∈ taken fs (restated ms fs members) ↔ s ∈ Dictionary.keys ms := by
    intro s
    rw [taken, List.mem_filterMap]
    constructor
    · rintro ⟨f, hmem, hs⟩
      obtain ⟨rfl, hk⟩ := spelling?_again hfs hl hrow hextra hms hf hmem hs
      exact hk
    · intro hs
      obtain ⟨f, hmem, rfl⟩ := mem_keys_written hms hs
      refine ⟨f, hmem, Field.spelling?_of_key ?_⟩
      rw [keys_again]
      exact List.mem_append_left _ hs
  have hnodup : (Dictionary.keys (ms ++ shown fs members)).Nodup := nodup_written hfs.keys hms
  rw [Dictionary.keys, List.map_append, List.nodup_append] at hnodup
  have hrest : (restated ms fs members).filter
      (fun m => !(taken fs (restated ms fs members)).contains m.1) =
        Dictionary.mapValues Value.blanked (shown fs members) := by
    have hsplit : restated ms fs members = Dictionary.mapValues Value.blanked ms ++
        Dictionary.mapValues Value.blanked (shown fs members) :=
      Dictionary.mapValues_append _ _ _
    rw [hsplit, List.filter_append, ← hsplit, List.filter_eq_nil_iff.2, List.nil_append,
      List.filter_eq_self.2]
    · intro m hm
      obtain ⟨u, hu, rfl⟩ := List.mem_map.1 hm
      rw [Bool.not_eq_true', List.contains_eq_mem, decide_eq_false_iff_not, htaken]
      exact fun hk => hnodup.2.2 _ hk _ (List.mem_map_of_mem hu) rfl
    · intro m hm
      obtain ⟨u, hu, rfl⟩ := List.mem_map.1 hm
      rw [Bool.not_eq_true', List.contains_eq_mem, decide_eq_false_iff_not, htaken, not_not]
      exact List.mem_map.2 ⟨u, hu, rfl⟩
  have hsettled : Value.Settled (shown fs members) :=
    ⟨hnodup.2.1, fun m hm => (beside_settled fs members).2 m (mem_shown.1 hm).1⟩
  rw [beside, hrest]
  exact hsettled.blanked.ofPairs_settleMembers

theorem isNull_shown (hextra : rec.extra = undeclared fs members) (hf : rec.Faithful) :
    ∀ m ∈ shown fs members, m.2.blanked.isNull = false := by
  intro m hm
  obtain ⟨hbeside, hn⟩ := mem_shown.1 hm
  rw [hf.finite.isNull_blanked ((mem_extra hextra).2 hbeside), hn]

include hfs hl hrow hextra hms in
theorem returns_of_faithful (hf : rec.Faithful) : (codec fs).Returns rec := by
  obtain ⟨row', ms', hread, hwrite, hsame⟩ := Row.write_again hms fun e he w hw =>
    entry_again hfs hl hrow hextra hms hf he hw
  have hkept : shown fs (restated ms fs members) =
      Dictionary.mapValues Value.blanked (shown fs members) := by
    rw [shown, beside_again hfs hl hrow hextra hms hf, List.filter_eq_self]
    intro m hm
    obtain ⟨u, hu, rfl⟩ := List.mem_map.1 hm
    rw [isNull_shown hextra hf u hu]
    rfl
  refine ⟨_, ⟨row', undeclared fs (restated ms fs members)⟩, _,
    (write_eq_ok hextra).2 ⟨ms, hms, rfl⟩, ?_, (write_eq_ok rfl).2 ⟨ms', hwrite, rfl⟩, ?_⟩
  · refine read_eq_ok.2 ⟨_, ?_, hread, rfl⟩
    rw [Value.blanked, Value.blankedMembers_eq]
    rfl
  · rw [hkept, Value.blanked, Value.blanked, Value.blankedMembers_eq, Value.blankedMembers_eq]
    have hblank : Dictionary.mapValues Value.blanked
        (Dictionary.mapValues Value.blanked (shown fs members)) =
          Dictionary.mapValues Value.blanked (shown fs members) := by
      rw [Dictionary.mapValues_mapValues]
      exact Value.mapValues_congr fun m _ => Value.blanked_blanked m.2
    rw [Dictionary.mapValues_append, Dictionary.mapValues_append, hsame, hblank]

include hfs hl hrow hms in
theorem legible_again : ∀ m ∈ restated ms fs members, Legible r depth m.2 := by
  intro m hm
  obtain ⟨u, hu, rfl⟩ := List.mem_map.1 hm
  exact (legible_written hfs hl hrow hms u hu).blanked

/-- What is read from blanks has none of its own beside. -/
theorem blanked_of_mem_beside {m : String × Value} (h : m ∈ beside fs (restated ms fs members)) :
    m.2.blanked = m.2 := by
  obtain ⟨-, t, ht, he⟩ := mem_beside h
  obtain ⟨s, -, hs⟩ := List.mem_map.1 ht
  obtain rfl : s.2.blanked = t := (Prod.mk.inj hs).2
  rw [he, Value.settle_blanked, Value.blanked_blanked]

section
variable {rec' : Record fs} {ms' : List (String × Value)}
  (hrow' : Row.read fs (restated ms fs members) = .ok rec'.row)
  (hms' : Row.write fs rec'.row = .ok ms')
  (hsame : restated ms' fs (restated ms fs members) = restated ms fs members)

include hfs hms' hsame in
/-- Nothing stood in for a declared member if the text comes back. -/
theorem vacant_of_same (hmem : f ∈ fs) (hk : f.key ∉ Dictionary.keys ms) (ho : f.other = some k) :
    k ∉ Dictionary.keys (shown fs members) := by
  intro hshown
  have hkeys : k ∈ Dictionary.keys (restated ms fs members) := by
    rw [keys_again]
    exact List.mem_append_right _ hshown
  have hs : f.spelling? (restated ms fs members) = some k := by
    refine Field.spelling?_of_other ?_ ho hkeys
    rw [keys_again, List.mem_append, not_or]
    exact ⟨hk, key_not_mem_shown hmem⟩
  -- The spelling is taken up now, so it cannot be written again.
  rw [← hsame, keys_again, List.mem_append] at hkeys
  rcases hkeys with hkeys | hkeys
  · obtain ⟨g, hg, rfl⟩ := mem_keys_written hms' hkeys
    exact hfs.others f hmem g hg ho
  · obtain ⟨m, hm, rfl⟩ := List.mem_map.1 hkeys
    exact (mem_beside (mem_shown.1 hm).1).1 (List.mem_filterMap.2 ⟨f, hmem, hs⟩)

include hfs hl hrow hms hrow' hms' hsame

/-- No text that comes back has a blank member. -/
theorem isNull_of_same : ∀ m ∈ restated ms fs members, m.2.isNull = false := by
  intro m hm
  rw [← hsame] at hm
  obtain ⟨u, hu, rfl⟩ := List.mem_map.1 hm
  rcases List.mem_append.1 hu with hu | hu
  · obtain ⟨e, he, -, hw, hn⟩ := (Row.mem_write hms').1 hu
    obtain ⟨w, hw', -, hsolid⟩ := (hfs.each _ (Row.mem_fields he)).codec _
      (entry_reads hfs (legible_again hfs hl hrow hms) hrow' he)
    rw [Except.ok.inj (hw.symm.trans hw')] at hn ⊢
    exact hsolid.trans hn
  · obtain ⟨hbeside, hn⟩ := mem_shown.1 hu
    rw [blanked_of_mem_beside hbeside]
    exact hn

/-- Every declared member comes back if the text does. -/
theorem declared_of_same {e : Sigma Field.Carrier} (he : e ∈ Row.entries fs rec.row) :
    e.1.codec.Returns e.2 := by
  have hmem := Row.mem_fields he
  obtain ⟨w, hw, -⟩ := (hfs.each _ hmem).codec _ (entry_reads hfs hl hrow he)
  cases hn : w.isNull with
  | true =>
    obtain rfl := Value.eq_null_of_isNull hn
    exact ⟨.null, e.2, .null, hw, ((hfs.each _ hmem).blank _ hw).2, hw, rfl⟩
  | false =>
    have hfirst : (e.1.key, w) ∈ ms ++ shown fs members :=
      List.mem_append_left _ ((Row.mem_write hms).2 ⟨e, he, rfl, hw, hn⟩)
    have hwritten : (e.1.key, w.blanked) ∈ restated ms fs members := mem_again hfirst
    have hnodup : (Dictionary.keys (restated ms fs members)).Nodup := by
      rw [restated, Dictionary.keys_mapValues]
      exact nodup_written hfs.keys hms
    obtain ⟨b, hb⟩ := Row.exists_entry rec'.row hmem
    have hread := (Field.read_of_mem hnodup hwritten).1 (Row.read_eq_ok.1 hrow' ⟨e.1, b⟩ hb)
    have hagain := hwritten
    rw [← hsame] at hagain
    obtain ⟨u, hu, heq⟩ := List.mem_map.1 hagain
    obtain ⟨hk, hblank⟩ := Prod.mk.inj heq
    rcases List.mem_append.1 hu with hu | hu
    · obtain ⟨e', he', hke, hw', -⟩ := (Row.mem_write hms').1 hu
      obtain rfl := entry_unique hfs hrow' he' hb (hke.trans hk)
      exact ⟨w, b, u.2, hw, hread, hw', hblank⟩
    · exact absurd (List.mem_map.2 ⟨u, hu, hk⟩) (key_not_mem_shown hmem)

end

include hfs hl hrow hextra hms in
theorem faithful_of_returns (h : (codec fs).Returns rec) : rec.Faithful := by
  obtain ⟨w, rec', w', hw, hread, hw', he⟩ := h
  obtain ⟨ms₀, hms₀, rfl⟩ := (write_eq_ok hextra).1 hw
  obtain rfl := Except.ok.inj (hms₀.symm.trans hms)
  rw [Value.blanked, Value.blankedMembers_eq] at hread he
  obtain ⟨members', hmembers, hrow', hextra'⟩ := read_eq_ok.1 hread
  obtain rfl : restated ms₀ fs members = members' := Value.object.inj hmembers
  obtain ⟨ms', hms', rfl⟩ := (write_eq_ok hextra').1 hw'
  rw [Value.blanked, Value.blankedMembers_eq] at he
  have hsame : restated ms' fs (restated ms₀ fs members) = restated ms₀ fs members :=
    Value.object.inj he
  refine ⟨finite_of_isNull_blanked fun k v hv => ?_, fun e he => ⟨fun hblank k ho v hv => ?_,
    declared_of_same hfs hl hrow hms hrow' hms' hsame he⟩⟩
  · rw [mem_extra hextra] at hv
    cases hn : v.isNull with
    | true => rw [Value.eq_null_of_isNull hn]; rfl
    | false =>
      have hshown : (k, v) ∈ ms₀ ++ shown fs members :=
        List.mem_append_right _ (mem_shown.2 ⟨hv, hn⟩)
      exact isNull_of_same hfs hl hrow hms hrow' hms' hsame _ (mem_again hshown)
  · rw [mem_extra hextra] at hv
    refine Value.eq_null_of_isNull (Bool.of_not_eq_false fun hn => ?_)
    have hk : e.1.key ∉ Dictionary.keys ms₀ := by
      rw [key_mem_iff hfs hrow hms he hblank]
      decide
    refine vacant_of_same hfs hms' hsame (Row.mem_fields he) hk ho ?_
    exact List.mem_map.2 ⟨(k, v), mem_shown.2 ⟨hv, hn⟩, rfl⟩

end

theorem reads_of_reads (hfs : Lawful r (depth + 1) fs) (h : (codec fs).Reads r depth rec) :
    ∀ e ∈ Row.entries fs rec.row, e.1.codec.Reads r (depth + 1) e.2 := by
  obtain ⟨v, hv, hread⟩ := h
  obtain ⟨members, rfl, hrow, -⟩ := read_eq_ok.1 hread
  cases hv with
  | object hd each => exact fun e he => entry_reads hfs each hrow he

/-- A record comes back from its text just when it is faithful. -/
theorem codec_returns (hfs : Lawful r (depth + 1) fs) (h : (codec fs).Reads r depth rec) :
    (codec fs).Returns rec ↔ rec.Faithful := by
  obtain ⟨v, hv, hread⟩ := h
  obtain ⟨members, rfl, hrow, hextra⟩ := read_eq_ok.1 hread
  cases hv with
  | object hd each =>
    obtain ⟨ms, hms⟩ := exists_row_write hfs each hrow
    exact ⟨faithful_of_returns hfs each hrow hextra hms,
      returns_of_faithful hfs each hrow hextra hms⟩

/-- The same of data that holds what a record does. -/
theorem via_codec_returns {β : Type} {into : Record fs → β} {back : β → Record fs}
    (hback : ∀ a, back (into a) = a) (hfs : Lawful r (depth + 1) fs) {b : β}
    (h : ((codec fs).via into back).Reads r depth b) :
    (∀ e ∈ Row.entries fs (back b).row, e.1.codec.Reads r (depth + 1) e.2) ∧
      (((codec fs).via into back).Returns b ↔ (back b).Faithful) := by
  have hrec := Codec.via_reads_back hback h
  refine ⟨reads_of_reads hfs hrec, ?_⟩
  rw [Codec.via_returns hback, codec_returns hfs hrec]

end Record

end BuildClient.Wire
