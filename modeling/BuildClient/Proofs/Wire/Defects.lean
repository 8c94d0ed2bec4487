import BuildClient.Proofs.Wire.Truth

/-! Reading takes what has the shape, and tells everything that is wrong with what has not. -/
namespace BuildClient.Wire

open Json Text

variable {α β : Type} {s : Shape} {v : Value} {place : List ℕ} {d : Defect} {ds es : List Defect}
  {P Q : List ℕ → Defect → Prop}

/-- These are the defects with the property, each told once, in the order of their places: what is
told first differs first by an earlier member or item. -/
def Lists (P : List ℕ → Defect → Prop) (ds : List Defect) : Prop :=
  ∃ placed : List (List ℕ × Defect), placed.map Prod.snd = ds ∧
    placed.Pairwise (fun a b => a.1 < b.1) ∧ ∀ place d, (place, d) ∈ placed ↔ P place d

namespace Lists

theorem congr (h : Lists P ds) (hiff : ∀ place d, P place d ↔ Q place d) : Lists Q ds := by
  obtain ⟨placed, hds, hsorted, hmem⟩ := h
  exact ⟨placed, hds, hsorted, fun place d => (hmem place d).trans (hiff place d)⟩

theorem mem (h : Lists P ds) (hd : d ∈ ds) : ∃ place, P place d := by
  obtain ⟨placed, rfl, -, hmem⟩ := h
  obtain ⟨⟨place, d'⟩, hp, rfl⟩ := List.mem_map.1 hd
  exact ⟨place, (hmem place d').1 hp⟩

theorem exists_mem (h : Lists P ds) (hP : P place d) : d ∈ ds := by
  obtain ⟨placed, rfl, -, hmem⟩ := h
  exact List.mem_map.2 ⟨(place, d), (hmem place d).2 hP, rfl⟩

theorem nil (h : ∀ place d, ¬ P place d) : Lists P [] :=
  ⟨[], rfl, .nil, fun place d => iff_of_false List.not_mem_nil (h place d)⟩

theorem single {e : Defect} (h : ∀ place d, P place d ↔ place = [] ∧ d = e) : Lists P [e] := by
  refine ⟨[([], e)], rfl, List.pairwise_singleton _ _, fun place d => ?_⟩
  rw [List.mem_singleton, Prod.mk.injEq, h]

/-- Defects told one step further from the root. -/
theorem beneath (h : Lists P ds) (step : Step) :
    Lists (fun place d => ∃ d', P place d' ∧ d'.beneath step = d)
      (ds.map (Defect.beneath step)) := by
  obtain ⟨placed, rfl, hsorted, hmem⟩ := h
  refine ⟨placed.map fun p => (p.1, p.2.beneath step), ?_, ?_, fun place d => ?_⟩
  · simp only [List.map_map]
    rfl
  · exact List.pairwise_map.2 hsorted
  · constructor
    · intro hd
      obtain ⟨⟨place', d'⟩, hp, he⟩ := List.mem_map.1 hd
      obtain ⟨rfl, rfl⟩ := Prod.mk.inj he
      exact ⟨d', (hmem _ d').1 hp, rfl⟩
    · rintro ⟨d', hP, rfl⟩
      exact List.mem_map.2 ⟨(place, d'), (hmem place d').2 hP, rfl⟩

/-- The defects of many parts, counted from `n` on, are told part by part. -/
theorem flatten {Q : ℕ → List ℕ → Defect → Prop} {parts : List (List Defect)} (n : ℕ)
    (h : ∀ i ds, parts[i]? = some ds → Lists (Q (n + i)) ds) :
    Lists (fun place d => ∃ i rest, i < parts.length ∧ place = (n + i) :: rest ∧ Q (n + i) rest d)
      parts.flatten := by
  induction parts generalizing n with
  | nil =>
    refine .nil ?_
    rintro place d ⟨i, rest, hi, -⟩
    exact absurd hi (Nat.not_lt_zero i)
  | cons ds parts ih =>
    obtain ⟨first, rfl, hfirst, hmem⟩ := h 0 ds rfl
    have hlater : ∀ i ds, parts[i]? = some ds → Lists (Q (n + 1 + i)) ds := by
      intro i ds hi
      have hnext := h (i + 1) ds (by simpa using hi)
      rwa [show n + (i + 1) = n + 1 + i by omega] at hnext
    obtain ⟨later, hds, hsorted, hmem'⟩ := ih (n + 1) hlater
    refine ⟨first.map (fun p => (n :: p.1, p.2)) ++ later, ?_, ?_, fun place d => ?_⟩
    · rw [List.map_append, hds, List.map_map, List.flatten_cons]
      rfl
    · refine List.pairwise_append.2 ⟨?_, hsorted, ?_⟩
      · refine List.pairwise_map.2 (hfirst.imp fun hlt => ?_)
        exact List.cons_lt_cons_iff.2 (.inr ⟨rfl, hlt⟩)
      · intro a ha b hb
        obtain ⟨p, -, rfl⟩ := List.mem_map.1 ha
        obtain ⟨i, rest, -, hplace, -⟩ := (hmem' b.1 b.2).1 hb
        rw [hplace]
        exact List.cons_lt_cons_iff.2 (.inl (by omega))
    · rw [List.mem_append, hmem']
      constructor
      · rintro (hp | ⟨i, rest, hi, hplace, hQ⟩)
        · obtain ⟨⟨rest, d'⟩, hfirst, he⟩ := List.mem_map.1 hp
          obtain ⟨rfl, rfl⟩ := Prod.mk.inj he
          exact ⟨0, rest, by simp, rfl, (hmem rest d').1 hfirst⟩
        · refine ⟨i + 1, rest, by simpa using hi, ?_, ?_⟩
          · rw [hplace, show n + 1 + i = n + (i + 1) by omega]
          · rwa [show n + (i + 1) = n + 1 + i by omega]
      · rintro ⟨i, rest, hi, rfl, hQ⟩
        cases i with
        | zero => exact .inl (List.mem_map.2 ⟨(rest, d), (hmem rest d).2 hQ, rfl⟩)
        | succ i =>
          have hshift : n + (i + 1) = n + 1 + i := by omega
          rw [hshift] at hQ
          exact .inr ⟨i, rest, by simpa using hi, by rw [hshift], hQ⟩

theorem of_parts {Q : ℕ → List ℕ → Defect → Prop} {parts : List (List Defect)}
    (h : ∀ i ds, parts[i]? = some ds → Lists (Q i) ds)
    (hiff : ∀ place d,
      (∃ i rest, i < parts.length ∧ place = i :: rest ∧ Q i rest d) ↔ P place d) :
    Lists P parts.flatten := by
  have hlists : Lists _ parts.flatten := flatten (Q := Q) 0 fun i ds hi => by
    rw [Nat.zero_add]
    exact h i ds hi
  refine hlists.congr fun place d => ?_
  simp only [Nat.zero_add]
  exact hiff place d

end Lists

theorem Wrong.unique {p q : Problem} (hp : Wrong s v p) (hq : Wrong s v q) : p = q := by
  cases hp <;> cases hq <;> first | rfl | contradiction

theorem lists_of_fits (h : Fits s v) : Lists (Misfit s v) [] :=
  .nil (fits_iff.1 h)

/-- What is wrong as a whole has no other defect. -/
theorem lists_of_wrong {p : Problem} (h : Wrong s v p) : Lists (Misfit s v) [⟨[], p⟩] := by
  refine .single fun place d => ⟨fun hd => ?_, ?_⟩
  · cases hd with
    | here h' => exact ⟨rfl, by rw [h.unique h']⟩
    | some => cases h
    | each =>
      cases h with
      | each hne => exact absurd rfl (hne _)
    | item =>
      cases h with
      | array hne => exact absurd rfl (hne _)
    | member =>
      cases h with
      | document hne => exact absurd rfl (hne _)
  · rintro ⟨rfl, rfl⟩
    exact .here h

namespace Checked

variable {c : Checked α} {cs : List (Checked α)}

/-- What is told; nothing if there is a value. -/
def defects : Checked α → List Defect
  | .ok _ => []
  | .error ds => ds

theorem defects_map (f : α → β) (c : Checked α) : defects (c.map f) = c.defects := by
  cases c <;> rfl

theorem defects_within (step : Step) (c : Checked α) :
    (c.within step).defects = c.defects.map (Defect.beneath step) := by
  cases c <;> rfl

theorem defects_pair (x : Checked α) (y : Checked β) :
    (pair x y).defects = x.defects ++ y.defects := by
  cases x <;> cases y <;> simp [pair, defects]

theorem defects_all (cs : List (Checked α)) : (all cs).defects = (cs.map defects).flatten := by
  induction cs with
  | nil => rfl
  | cons c cs ih => rw [all, defects_map, defects_pair, ih, List.map_cons, List.flatten_cons]

/-- A failure that tells something. -/
def Telling (c : Checked α) : Prop := c ≠ .error []

theorem telling_ok (a : α) : Telling (.ok a) := by
  rintro ⟨⟩

theorem telling_fail (p : Problem) : Telling (.fail p : Checked α) := by
  rintro ⟨⟩

theorem telling_iff : c.Telling ↔ ((∃ a, c = .ok a) ↔ c.defects = []) := by
  cases c <;> simp [Telling, defects]

theorem Telling.map (h : c.Telling) (f : α → β) : Telling (c.map f) := by
  cases c with
  | ok a => exact telling_ok (f a)
  | error ds => exact fun he => h (congrArg _ (Except.error.inj he))

theorem Telling.within (h : c.Telling) (step : Step) : (c.within step).Telling := by
  cases c with
  | ok a => exact telling_ok a
  | error ds =>
    intro he
    exact h (congrArg _ (List.map_eq_nil_iff.1 (Except.error.inj he)))

theorem Telling.pair {c' : Checked β} (h : c.Telling) (h' : c'.Telling) : (pair c c').Telling := by
  rcases c with ds | a <;> rcases c' with es | b
  · intro he
    exact h (congrArg _ (List.append_eq_nil_iff.1 (Except.error.inj he)).1)
  · exact fun he => h (congrArg _ (Except.error.inj he))
  · exact fun he => h' (congrArg _ (Except.error.inj he))
  · exact telling_ok (a, b)

theorem Telling.all (h : ∀ c ∈ cs, c.Telling) : (all cs).Telling := by
  induction cs with
  | nil => exact telling_ok []
  | cons c cs ih =>
    obtain ⟨hc, hcs⟩ := List.forall_mem_cons.1 h
    exact (hc.pair (ih hcs)).map _

end Checked

/-- How a list reads its items, if there is one. -/
def Codec.readItems (c : Codec α) : Value → Checked (List α)
  | .array items => Checked.all (items.zipIdx.map fun p => (c.read p.1).within (.index p.2))
  | _ => .fail .notList

/-- Reading takes just what has the shape, and lists every defect of anything else. -/
structure Judges (read : Value → Checked α) (s : Shape) : Prop where
  telling : ∀ v, (read v).Telling
  lists : ∀ v, Lists (Misfit s v) (read v).defects

namespace Judges

variable {read : Value → Checked α}

theorem ok_iff (h : Judges read s) : (∃ a, read v = .ok a) ↔ Fits s v := by
  rw [Checked.telling_iff.1 (h.telling v), fits_iff]
  constructor
  · intro he place d hd
    have hmem := (h.lists v).exists_mem hd
    rw [he] at hmem
    cases hmem
  · intro hnone
    rw [List.eq_nil_iff_forall_not_mem]
    intro d hd
    obtain ⟨place, hmisfit⟩ := (h.lists v).mem hd
    exact hnone place d hmisfit

theorem map (h : Judges read s) (f : α → β) : Judges (fun v => (read v).map f) s where
  telling v := (h.telling v).map f
  lists v := by
    rw [Checked.defects_map]
    exact h.lists v

/-- A reader decides value by value between taking it and telling what is wrong with all of it. -/
theorem of_forall (h : ∀ v, (∃ a, read v = .ok a ∧ Fits s v) ∨
    ∃ p, read v = .fail p ∧ Wrong s v p) : Judges read s where
  telling v := by
    rcases h v with ⟨a, ha, -⟩ | ⟨p, hp, -⟩
    · rw [ha]
      exact Checked.telling_ok a
    · rw [hp]
      exact Checked.telling_fail p
  lists v := by
    rcases h v with ⟨a, ha, hfits⟩ | ⟨p, hp, hwrong⟩
    · rw [ha]
      exact lists_of_fits hfits
    · rw [hp]
      exact lists_of_wrong hwrong

theorem string : Judges Codec.readText .string := by
  refine of_forall fun v => ?_
  cases v with
  | string s => exact .inl ⟨s, rfl, .string s⟩
  | _ => exact .inr ⟨_, rfl, .string (by simp)⟩

theorem tree : Judges Codec.tree.read .tree := by
  refine of_forall fun v => ?_
  cases v with
  | object ms => exact .inl ⟨_, rfl, .tree ms⟩
  | _ => exact .inr ⟨_, rfl, .tree (by simp)⟩

theorem optional {read' : Value → Checked (Option α)} (h : Judges read s)
    (hnull : read' .null = .ok none) (hsolid : ∀ v, v ≠ .null → read' v = (read v).map some) :
    Judges read' (.optional s) where
  telling v := by
    by_cases hv : v = .null
    · rw [hv, hnull]
      exact Checked.telling_ok none
    · rw [hsolid v hv]
      exact (h.telling v).map some
  lists v := by
    by_cases hv : v = .null
    · rw [hv, hnull]
      exact lists_of_fits (.null s)
    · rw [hsolid v hv, Checked.defects_map]
      refine (h.lists v).congr fun place d => ⟨.some hv, fun hd => ?_⟩
      cases hd with
      | here hw => cases hw
      | some _ hd => exact hd

theorem text : Judges Codec.text.read (.optional .string) := by
  refine string.optional rfl fun v hv => ?_
  cases v <;> first | rfl | exact absurd rfl hv

theorem truth : Judges Codec.truth.read (.optional .boolean) := by
  have hboolean : Judges Codec.readTruth .boolean := by
    refine of_forall fun v => ?_
    have hread := readsTruth v
    generalize Codec.readTruth v = result at hread ⊢
    cases hread with
    | taken h => exact .inl ⟨_, rfl, .boolean h⟩
    | unclear h candidate => exact .inr ⟨_, rfl, .unclear h candidate⟩
    | refused h candidate => exact .inr ⟨_, rfl, .boolean h candidate⟩
  refine hboolean.optional rfl fun v hv => ?_
  cases v <;> first | rfl | exact absurd rfl hv

theorem texts : Judges Codec.texts.read (.each .string) where
  telling v := by
    cases v with
    | object ms =>
      refine Checked.Telling.map (.all fun c hc => ?_) _
      obtain ⟨m, -, rfl⟩ := List.mem_map.1 hc
      exact ((string.telling m.2).within _).map _
    | _ => exact Checked.telling_fail _
  lists v := by
    cases v with
    | object ms =>
      have hdefects : (Codec.texts.read (.object ms)).defects = (ms.map fun m =>
          (Codec.readText m.2).defects.map (Defect.beneath (.key m.1))).flatten := by
        simp only [Codec.texts, Checked.defects_map, Checked.defects_all, List.map_map]
        congr 1
        refine List.map_congr_left fun m _ => ?_
        rw [Function.comp_apply, Checked.defects_map, Checked.defects_within]
      rw [hdefects]
      refine Lists.of_parts (Q := fun i rest d => ∃ k v d', ms[i]? = some (k, v) ∧
        Misfit .string v rest d' ∧ d'.beneath (.key k) = d) ?_ ?_
      · intro i ds hi
        rw [List.getElem?_map, Option.map_eq_some_iff] at hi
        obtain ⟨⟨k, v⟩, hm, rfl⟩ := hi
        refine ((string.lists v).beneath (.key k)).congr fun rest d => ?_
        simp [hm]
      · intro place d
        constructor
        · rintro ⟨i, rest, -, rfl, k, v, d', hm, hd, rfl⟩
          exact .each hm hd
        · intro hd
          cases hd with
          | here hw =>
            cases hw with
            | each hne => exact absurd rfl (hne ms)
          | each hm hd =>
            have hlt := (List.getElem?_eq_some_iff.1 hm).1
            exact ⟨_, _, by simpa using hlt, rfl, _, _, _, hm, hd, rfl⟩
    | _ => exact lists_of_wrong (.each (by simp))

/-- Every item is read, and the defects are told item by item. -/
theorem items {c : Codec α} (h : Judges c.read s) : Judges c.readItems (.array s) where
  telling v := by
    cases v with
    | array items =>
      refine .all fun p hp => ?_
      obtain ⟨q, -, rfl⟩ := List.mem_map.1 hp
      exact (h.telling q.1).within _
    | _ => exact Checked.telling_fail _
  lists v := by
    cases v with
    | array items =>
      rw [Codec.readItems, Checked.defects_all, List.map_map]
      refine Lists.of_parts (Q := fun i rest d => ∃ v d', items[i]? = some v ∧
        Misfit s v rest d' ∧ d'.beneath (.index i) = d) ?_ ?_
      · intro i ds hi
        rw [List.getElem?_map, Option.map_eq_some_iff] at hi
        obtain ⟨⟨v, j⟩, hv, rfl⟩ := hi
        rw [List.getElem?_zipIdx, Option.map_eq_some_iff] at hv
        obtain ⟨v', hv, he⟩ := hv
        obtain ⟨rfl, rfl⟩ := Prod.mk.inj he
        rw [Function.comp_apply, Checked.defects_within]
        refine ((h.lists v').beneath (.index (0 + i))).congr fun rest d => ?_
        simp [hv]
      · intro place d
        constructor
        · rintro ⟨i, rest, -, rfl, v, d', hv, hd, rfl⟩
          exact .item hv hd
        · intro hd
          cases hd with
          | here hw =>
            cases hw with
            | array hne => exact absurd rfl (hne items)
          | item hv hd =>
            have hlt := (List.getElem?_eq_some_iff.1 hv).1
            exact ⟨_, _, by simpa using hlt, rfl, _, _, hv, hd, rfl⟩
    | _ => exact lists_of_wrong (.array (by simp))

theorem list {c : Codec α} (h : Judges c.read s) : Judges c.list.read (.optional (.array s)) := by
  refine h.items.optional rfl fun v hv => ?_
  cases v <;> first | rfl | exact absurd rfl hv

end Judges

section

variable {f : Field} {fs : List Field} {ms : List (String × Value)}
  {declared : List (String × Option String × Shape)} {k k' : String} {v' : Value}

theorem Found.unique {key : String} {other : Option String} (h : Found key other ms k v)
    (h' : Found key other ms k' v') : k = k' ∧ v = v' := by
  cases h with
  | key h =>
    cases h' with
    | key h' => exact ⟨rfl, Option.some.inj (h.symm.trans h')⟩
    | other missing => simp [h] at missing
  | other missing spelling h =>
    cases h' with
    | key h' => simp [h'] at missing
    | other _ spelling' h' =>
      obtain rfl := Option.some.inj (spelling.symm.trans spelling')
      exact ⟨rfl, Option.some.inj (h.symm.trans h')⟩

/-- A declared member is read of what is found of it. -/
theorem Field.read_of_found (h : Found f.key f.other ms k v) :
    f.read ms = (f.codec.read v).within (.key k) := by
  cases h with
  | key h =>
    have hs : f.spelling? ms = some f.key := by simp [spelling?, h]
    rw [read, hs]
    simp only [h]
  | other missing spelling h =>
    have hs : f.spelling? ms = some k := by simp [spelling?, missing, spelling, h]
    rw [read, hs]
    simp only [h]

theorem Field.read_of_not_found (h : ∀ k v, ¬ Found f.key f.other ms k v) :
    f.read ms = .ok f.absent := by
  refine read_absent ?_
  have hkey : Dictionary.getLast? f.key ms = none :=
    Option.eq_none_iff_forall_ne_some.2 fun v hv => h _ v (.key hv)
  rw [spelling?, hkey, if_neg (by simp), Option.filter_eq_none_iff]
  intro k hk hsome
  obtain ⟨v, hv⟩ := Option.isSome_iff_exists.1 hsome
  exact h k v (.other hkey hk hv)

/-- The field reads a declared member, whatever its shape. -/
structure Field.Declares (f : Field) (m : String × Option String × Shape) : Prop where
  key : f.key = m.1
  other : f.other = m.2.1
  judges : Judges f.codec.read m.2.2

theorem Row.defects_read : (Row.read fs ms).defects =
    (fs.map fun f => (f.read ms).defects).flatten := by
  induction fs with
  | nil => rfl
  | cons f fs ih =>
    have hpair : (Row.read (f :: fs) ms).defects =
        (f.read ms).defects ++ (Row.read fs ms).defects := Checked.defects_pair _ _
    rw [hpair, ih, List.map_cons, List.flatten_cons]

theorem Field.Declares.telling {m : String × Option String × Shape} (h : f.Declares m) :
    (f.read ms).Telling := by
  by_cases hfound : ∃ k v, Found f.key f.other ms k v
  · obtain ⟨k, v, hfound⟩ := hfound
    rw [f.read_of_found hfound]
    exact (h.judges.telling v).within _
  · rw [f.read_of_not_found fun k v hv => hfound ⟨k, v, hv⟩]
    exact Checked.telling_ok f.absent

theorem Row.telling_read (h : List.Forall₂ Field.Declares fs declared) :
    (Row.read fs ms).Telling := by
  induction h with
  | nil => exact Checked.telling_ok ()
  | cons hf _ ih => exact hf.telling.pair ih

/-- What is wrong with a declared member, if it is there. -/
theorem Field.Declares.lists {key : String} {other : Option String} {s : Shape}
    (h : f.Declares (key, other, s)) :
    Lists (fun rest d => ∃ k v d', Found key other ms k v ∧ Misfit s v rest d' ∧
      d'.beneath (.key k) = d) (f.read ms).defects := by
  obtain ⟨rfl, rfl, hjudges⟩ := h
  by_cases hfound : ∃ k v, Found f.key f.other ms k v
  · obtain ⟨k, v, hfound⟩ := hfound
    rw [f.read_of_found hfound, Checked.defects_within]
    refine ((hjudges.lists v).beneath (.key k)).congr fun rest d => ?_
    constructor
    · rintro ⟨d', hd, rfl⟩
      exact ⟨k, v, d', hfound, hd, rfl⟩
    · rintro ⟨k', v', d', hfound', hd, rfl⟩
      obtain ⟨rfl, rfl⟩ := hfound.unique hfound'
      exact ⟨d', hd, rfl⟩
  · rw [f.read_of_not_found fun k v hv => hfound ⟨k, v, hv⟩]
    refine .nil ?_
    rintro rest d ⟨k, v, d', hv, -, -⟩
    exact hfound ⟨k, v, hv⟩

/-- All declared members are read, and the defects are told member by member. -/
theorem Judges.record (h : List.Forall₂ Field.Declares fs declared) :
    Judges (Record.codec fs).read (.document declared) where
  telling v := by
    cases v with
    | object ms => exact (Row.telling_read h).map _
    | _ => exact Checked.telling_fail _
  lists v := by
    cases v with
    | object ms =>
      simp only [Record.codec, Checked.defects_map, Row.defects_read]
      refine Lists.of_parts (Q := fun i rest d => ∃ key other s k v d',
        declared[i]? = some (key, other, s) ∧ Found key other ms k v ∧ Misfit s v rest d' ∧
          d'.beneath (.key k) = d) ?_ ?_
      · intro i ds hi
        rw [List.getElem?_map, Option.map_eq_some_iff] at hi
        obtain ⟨f, hf, rfl⟩ := hi
        obtain ⟨hlt, rfl⟩ := List.getElem?_eq_some_iff.1 hf
        have hlt' : i < declared.length := h.length_eq ▸ hlt
        have hdeclares := h.get hlt hlt'
        rcases hm : declared[i] with ⟨key, other, s⟩
        simp only [List.get_eq_getElem, hm] at hdeclares
        refine hdeclares.lists.congr fun rest d => ?_
        simp [List.getElem?_eq_getElem hlt', hm]
      · intro place d
        constructor
        · rintro ⟨i, rest, -, rfl, key, other, s, k, v, d', hm, hfound, hd, rfl⟩
          exact .member hm hfound hd
        · intro hd
          cases hd with
          | here hw =>
            cases hw with
            | document hne => exact absurd rfl (hne ms)
          | member hm hfound hd =>
            have hlt := (List.getElem?_eq_some_iff.1 hm).1
            rw [← h.length_eq] at hlt
            exact ⟨_, _, by simpa using hlt, rfl, _, _, _, _, _, _, hm, hfound, hd, rfl⟩
    | _ => exact lists_of_wrong (.document (by simp))

end

end BuildClient.Wire
