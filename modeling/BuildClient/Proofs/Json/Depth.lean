import BuildClient.Proofs.Json.Legible

/-! A limit of depth keeps a reader from nothing but what is nested deeper. -/
namespace BuildClient.Json

open Text

/-- The second value stands in the first one, inside so many containers. -/
inductive Inside : ℕ → Value → Value → Prop
  | here (v : Value) : Inside 0 v v
  | item {n : ℕ} {items : List Value} {v u : Value} (hv : v ∈ items) (h : Inside n v u) :
      Inside (n + 1) (.array items) u
  | member {n : ℕ} {members : List (String × Value)} {m : String × Value} {u : Value}
      (hm : m ∈ members) (h : Inside n m.2 u) : Inside (n + 1) (.object members) u

/-- No value in it stands inside more than so many containers. -/
def Value.Within (limit : ℕ) (v : Value) : Prop := ∀ n u, Inside n v u → n ≤ limit

variable {r r' : Reader} {depth fuel limit : ℕ} {v : Value} {s : List Char}

/-- What is legible is nowhere too deep. -/
theorem Legible.not_tooDeep_of_inside {n : ℕ} {u : Value} (h : Legible r depth v)
    (hu : Inside n v u) : r.tooDeep (depth + n) = false := by
  induction hu generalizing depth with
  | here v => exact h.not_tooDeep
  | @item n items v u hv _ ih =>
    cases h with
    | array _ each =>
      rw [show depth + (n + 1) = depth + 1 + n by omega]
      exact ih (each v hv)
  | @member n members m u hm _ ih =>
    cases h with
    | object _ each =>
      rw [show depth + (n + 1) = depth + 1 + n by omega]
      exact ih (each m hm)

namespace Reader

theorem join?_congr (h : r.loneSurrogates = r'.loneSurrogates) (done : List Char)
    (us : List ℕ) : r.join? done us = r'.join? done us := by
  have hsingle : ∀ n, r.single? n = r'.single? n := by
    intro n
    rw [single?, single?, h]
  fun_induction r.join? done us with
  | case1 done => rfl
  | case2 done n => rw [join?, hsingle]
  | case3 done n m rest hpair ih => rw [join?, if_pos hpair, ih]
  | case4 done n m rest hpair c hc ih => rw [join?, if_neg hpair, ← hsingle, hc, ih]
  | case5 done n m rest hpair hc => rw [join?, if_neg hpair, ← hsingle, hc]

theorem text?_congr (h : r.loneSurrogates = r'.loneSurrogates) (s : List Char) :
    r.text? s = r'.text? s := by
  rw [text?, text?]
  simp only [join?_congr h]

theorem scalar?_congr (h : r.loneSurrogates = r'.loneSurrogates) (s : List Char) :
    r.scalar? s = r'.scalar? s := by
  unfold scalar?
  simp only [text?_congr h]

/-- The reader has room for the value inside so many containers, and for every value in it. -/
def Allows (r : Reader) (depth : ℕ) (v : Value) : Prop :=
  ∀ n u, Inside n v u → r.tooDeep (depth + n) = false

theorem Allows.here (h : r.Allows depth v) : r.tooDeep depth = false := h 0 v (.here v)

theorem Allows.item {items : List Value} (h : r.Allows depth (.array items)) :
    ∀ v ∈ items, r.Allows (depth + 1) v := by
  intro v hv n u hu
  rw [show depth + 1 + n = depth + (n + 1) by omega]
  exact h _ u (.item hv hu)

theorem Allows.member {members : List (String × Value)} (h : r.Allows depth (.object members)) :
    ∀ m ∈ members, r.Allows (depth + 1) m.2 := by
  intro m hm n u hu
  rw [show depth + 1 + n = depth + (n + 1) by omega]
  exact h _ u (.member hm hu)

/-- What one reader gives, the other one gives if it has room for it. -/
structure Agrees (r r' : Reader) (fuel : ℕ) : Prop where
  value : ∀ depth s p, r.value? fuel depth s = some p → r'.Allows depth p.1 →
    r'.value? fuel depth s = some p
  items : ∀ depth s p, r.items? fuel depth s = some p → (∀ v ∈ p.1, r'.Allows depth v) →
    r'.items? fuel depth s = some p
  members : ∀ depth s p, r.members? fuel depth s = some p →
    (∀ m ∈ p.1, r'.Allows depth m.2) → r'.members? fuel depth s = some p

theorem Agrees.value_succ (hl : r.loneSurrogates = r'.loneSurrogates) (h : Agrees r r' fuel)
    {p : Value × List Char} (hp : r.value? (fuel + 1) depth s = some p)
    (ha : r'.Allows depth p.1) : r'.value? (fuel + 1) depth s = some p := by
  unfold value? at hp ⊢
  rw [if_neg (by rw [ha.here]; exact Bool.false_ne_true)]
  split at hp
  · cases hp
  · split at hp
    · split at hp
      · cases hp
        rfl
      · obtain ⟨q, hq, rfl⟩ := Option.map_eq_some_iff.1 hp
        rw [h.items _ _ _ hq ha.item]
        rfl
    · split at hp
      · cases hp
        rfl
      · obtain ⟨q, hq, rfl⟩ := Option.map_eq_some_iff.1 hp
        rw [h.members _ _ _ hq ha.member]
        rfl
    · rw [← scalar?_congr hl]
      exact hp

theorem Agrees.items_succ (h : Agrees r r' fuel) {p : List Value × List Char}
    (hp : r.items? (fuel + 1) depth s = some p) (ha : ∀ v ∈ p.1, r'.Allows depth v) :
    r'.items? (fuel + 1) depth s = some p := by
  rw [items?]
  unfold items? at hp
  split at hp
  · cases hp
  · rename_i v rest hv
    split at hp
    · rename_i hskip
      cases hp
      rw [h.value _ _ _ hv (ha v List.mem_cons_self)]
      simp only [hskip]
    · rename_i hskip
      obtain ⟨q, hq, rfl⟩ := Option.map_eq_some_iff.1 hp
      obtain ⟨hfirst, hrest⟩ := List.forall_mem_cons.1 ha
      rw [h.value _ _ _ hv hfirst]
      simp only [hskip, h.items _ _ _ hq hrest]
      rfl
    · cases hp

theorem Agrees.members_succ (hl : r.loneSurrogates = r'.loneSurrogates) (h : Agrees r r' fuel)
    {p : List (String × Value) × List Char} (hp : r.members? (fuel + 1) depth s = some p)
    (ha : ∀ m ∈ p.1, r'.Allows depth m.2) : r'.members? (fuel + 1) depth s = some p := by
  rw [members?]
  unfold members? at hp
  split at hp
  · rename_i hquote
    split at hp
    · cases hp
    · rename_i key rest htext
      rw [text?_congr hl] at htext
      split at hp
      · rename_i hcolon
        split at hp
        · cases hp
        · rename_i v rest' hv
          split at hp
          · rename_i hskip
            cases hp
            have hfirst := h.value _ _ _ hv (ha _ List.mem_cons_self)
            simp only [htext, hcolon, hfirst, hskip]
          · rename_i hskip
            obtain ⟨q, hq, rfl⟩ := Option.map_eq_some_iff.1 hp
            obtain ⟨hfirst, hrest⟩ := List.forall_mem_cons.1 ha
            have hvalue := h.value _ _ _ hv hfirst
            simp only [htext, hcolon, hvalue, hskip, h.members _ _ _ hq hrest]
            rfl
          · cases hp
      · cases hp
  · cases hp

theorem agrees (hl : r.loneSurrogates = r'.loneSurrogates) (fuel : ℕ) : Agrees r r' fuel := by
  -- The three readers call each other with one step less, so they are taken together.
  induction fuel with
  | zero => constructor <;> exact fun _ _ _ h => nomatch h
  | succ fuel ih =>
    exact ⟨fun _ _ _ => ih.value_succ hl, fun _ _ _ => ih.items_succ,
      fun _ _ _ => ih.members_succ hl⟩

theorem parse?_of_allows (r r' : Reader) {s : String} (hl : r.loneSurrogates = r'.loneSurrogates)
    (h : r.parse? s = some v) (ha : r'.Allows 0 v) : r'.parse? s = some v := by
  rw [parse?, parseChars?] at h ⊢
  split at h
  · rename_i u rest hread
    split at h
    · rename_i hend
      cases h
      rw [(agrees hl _).value _ _ _ hread ha]
      simp only [hend, if_true]
    · cases h
  · cases h

/-- A limited reader takes just what it would take without the limit and has room for. -/
theorem parse?_limited_iff {s : String} {lone : Bool} :
    Reader.parse? ⟨some limit, lone⟩ s = some v ↔
      Reader.parse? ⟨none, lone⟩ s = some v ∧ v.Within limit := by
  have hallows : Allows ⟨some limit, lone⟩ 0 v ↔ v.Within limit := by
    refine forall_congr' fun n => forall_congr' fun u => imp_congr_right fun _ => ?_
    simp [tooDeep]
  constructor
  · intro h
    refine ⟨parse?_of_allows ⟨some limit, lone⟩ ⟨none, lone⟩ rfl h fun _ _ _ => rfl, ?_⟩
    exact hallows.1 fun n u hu => (legible_of_parse? h).not_tooDeep_of_inside hu
  · rintro ⟨h, hwithin⟩
    exact parse?_of_allows ⟨none, lone⟩ ⟨some limit, lone⟩ rfl h (hallows.2 hwithin)

end Reader

end BuildClient.Json
