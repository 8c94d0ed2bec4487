import BuildClient.Proofs.Url.Join
import BuildClient.Proofs.Url.Names
import BuildClient.Proofs.Url.Requote

/-!
The number of steps of an address that are more than nothing. Escaping and decoding go on inside of
the steps, so no address gains or loses one of them by its last touch.
-/
namespace BuildClient.Url

open Text Percent

variable {s t a b : List Char} {c : Char} {keep : Char → Bool}

def stepCount (s : List Char) : ℕ := (splitAt '/' s).countP fun step => !step.isEmpty

theorem stepCount_nil : stepCount [] = 0 := rfl

theorem stepCount_append_slash (s t : List Char) :
    stepCount (s ++ '/' :: t) = stepCount s + stepCount t := by
  rw [stepCount, splitAt_append_sep, List.countP_append, stepCount, stepCount]

theorem stepCount_slash (s : List Char) : stepCount ('/' :: s) = stepCount s := by
  rw [← List.nil_append ('/' :: s), stepCount_append_slash, stepCount_nil, Nat.zero_add]

/-- What is added goes to the last step, up to its first slash. -/
theorem splitAt_append_pieces (s t : List Char) : ∃ before last first after,
    splitAt '/' s = before ++ [last] ∧ splitAt '/' t = first :: after ∧
      splitAt '/' (s ++ t) = before ++ (last ++ first) :: after := by
  obtain ⟨first, after, ht⟩ := List.exists_cons_of_ne_nil (splitAt_ne_nil '/' t)
  refine ⟨(splitAt '/' s).dropLast, (splitAt '/' s).getLast (splitAt_ne_nil '/' s), first, after,
    (List.dropLast_append_getLast _).symm, ht, ?_⟩
  -- On what stands in front: a slash opens a piece, every other character joins the next one.
  induction s with
  | nil => exact ht
  | cons c s ih =>
    by_cases hc : c = '/'
    · subst hc
      have hs : splitAt '/' ('/' :: s) = [] :: splitAt '/' s := if_pos rfl
      have hst : splitAt '/' ('/' :: s ++ t) = [] :: splitAt '/' (s ++ t) := if_pos rfl
      simp only [hs, List.dropLast_cons_of_ne_nil (splitAt_ne_nil '/' s),
        List.getLast_cons (splitAt_ne_nil '/' s)]
      rw [hst, ih, List.cons_append]
    · obtain ⟨piece, pieces, hs, hcs⟩ := splitAt_cons_of_ne hc s
      obtain ⟨piece', pieces', hst, hcst⟩ := splitAt_cons_of_ne hc (s ++ t)
      rw [hst] at ih
      simp only [hcs, hs] at ih ⊢
      rw [List.cons_append, hcst]
      cases pieces with
      | nil =>
        obtain ⟨rfl, rfl⟩ := List.cons.inj ih
        rfl
      | cons next rest =>
        simp only [List.dropLast_cons_of_ne_nil (List.cons_ne_nil next rest), List.cons_append,
          List.getLast_cons (List.cons_ne_nil next rest)] at ih ⊢
        obtain ⟨rfl, rfl⟩ := List.cons.inj ih
        rfl

theorem stepCount_le_append (s t : List Char) : stepCount s ≤ stepCount (s ++ t) := by
  obtain ⟨before, last, first, after, hs, -, hst⟩ := splitAt_append_pieces s t
  have hlast : !last.isEmpty → !(last ++ first).isEmpty := by cases last <;> simp
  rw [stepCount, stepCount, hs, hst, List.countP_append, List.countP_append, List.countP_cons,
    List.countP_cons, List.countP_nil]
  split
  · rename_i h
    rw [if_pos (hlast h)]
    omega
  · omega

/-- A text without slashes goes to the first step of what follows it. -/
theorem splitAt_block (ha : '/' ∉ a) (s : List Char) : ∃ first after,
    splitAt '/' s = first :: after ∧ splitAt '/' (a ++ s) = (a ++ first) :: after := by
  obtain ⟨before, last, first, after, hsplit, hfirst, hwhole⟩ := splitAt_append_pieces a s
  rw [splitAt_eq_self '/' ha, ← List.nil_append [a]] at hsplit
  obtain ⟨rfl, hlast⟩ := List.append_inj' hsplit rfl
  obtain rfl := List.singleton_inj.1 hlast
  exact ⟨first, after, hfirst, hwhole⟩

theorem stepCount_block (ha : '/' ∉ a) (hne : a ≠ []) : stepCount a = 1 := by
  rw [stepCount, splitAt_eq_self '/' ha]
  simp [hne]

/-- The same steps of both texts are nothing. -/
def Level (s t : List Char) : Prop :=
  (splitAt '/' s).map List.isEmpty = (splitAt '/' t).map List.isEmpty

namespace Level

theorem refl (s : List Char) : Level s s := rfl

theorem symm (h : Level s t) : Level t s := Eq.symm h

theorem trans {r : List Char} (h : Level s t) (h' : Level t r) : Level s r := Eq.trans h h'

theorem stepCount_eq (h : Level s t) : stepCount s = stepCount t := by
  have hmap : ∀ s, stepCount s = ((splitAt '/' s).map List.isEmpty).countP (!·) := fun s => by
    rw [stepCount, List.countP_map]
    rfl
  rw [hmap, hmap, h]

theorem slash (h : Level s t) : Level ('/' :: s) ('/' :: t) := by
  have hslash : ∀ s, splitAt '/' ('/' :: s) = [] :: splitAt '/' s := fun _ => if_pos rfl
  rw [Level, hslash, hslash, List.map_cons, List.map_cons, h]

/-- A step goes on, whatever is in it. -/
theorem step (ha : a ≠ []) (hb : b ≠ []) (hsa : '/' ∉ a) (hsb : '/' ∉ b) (h : Level s t) :
    Level (a ++ s) (b ++ t) := by
  have hfull : ∀ {a first : List Char}, a ≠ [] → (a ++ first).isEmpty = false := fun ha =>
    List.isEmpty_eq_false_iff.2 (List.append_ne_nil_of_left_ne_nil ha _)
  obtain ⟨first, after, hs, has⟩ := splitAt_block hsa s
  obtain ⟨first', after', ht, hbt⟩ := splitAt_block hsb t
  rw [Level, hs, ht, List.map_cons, List.map_cons] at h
  rw [Level, has, hbt, List.map_cons, List.map_cons, (List.cons.inj h).2, hfull ha, hfull hb]

theorem char (hc : c ≠ '/') (hb : b ≠ []) (hsb : '/' ∉ b) (h : Level s t) :
    Level (c :: s) (b ++ t) :=
  .step (List.cons_ne_nil c []) hb (by simpa using Ne.symm hc) hsb h

theorem cons (c : Char) (h : Level s t) : Level (c :: s) (c :: t) := by
  by_cases hc : c = '/'
  · exact hc ▸ h.slash
  · exact .char hc (List.cons_ne_nil c []) (by simpa using Ne.symm hc) h

theorem append {s' t' : List Char} (h : Level s t) (h' : Level s' t') :
    Level (s ++ s') (t ++ t') := by
  obtain ⟨before, last, first, after, hs, hs', hwhole⟩ := splitAt_append_pieces s s'
  obtain ⟨before', last', first', after', ht, ht', hwhole'⟩ := splitAt_append_pieces t t'
  rw [Level, hs, ht, List.map_append, List.map_append] at h
  rw [Level, hs', ht', List.map_cons, List.map_cons] at h'
  obtain ⟨hbefore, hlast⟩ := List.append_inj' h rfl
  obtain ⟨hfirst, hafter⟩ := List.cons.inj h'
  have hglue : (last ++ first).isEmpty = (last' ++ first').isEmpty := by
    have happ : ∀ x y : List Char, (x ++ y).isEmpty = (x.isEmpty && y.isEmpty) := by
      intro x y
      cases x <;> rfl
    rw [happ, happ, hfirst, List.singleton_inj.1 hlast]
  rw [Level, hwhole, hwhole', List.map_append, List.map_append, List.map_cons, List.map_cons,
    hbefore, hafter, hglue]

theorem eq_nil_iff (h : Level s t) : s = [] ↔ t = [] := by
  have hnil : ∀ s, s = [] ↔ (splitAt '/' s).map List.isEmpty = [true] := by
    intro s
    constructor
    · rintro rfl
      rfl
    · intro h
      obtain ⟨piece, hs, hpiece⟩ := List.map_eq_singleton_iff.1 h
      rw [← joinWith_splitAt '/' s, hs, List.isEmpty_iff.1 hpiece]
      rfl
  rw [hnil, hnil, h]

theorem head?_eq_slash_iff (h : Level s t) : s.head? = some '/' ↔ t.head? = some '/' := by
  have hhead : ∀ s, s.head? = some '/' ↔
      ∃ first after, (splitAt '/' s).map List.isEmpty = true :: first :: after := by
    intro s
    cases s with
    | nil => exact iff_of_false nofun (by rintro ⟨_, _, h⟩; cases h)
    | cons c s =>
      by_cases hc : c = '/'
      · subst hc
        obtain ⟨first, after, hs⟩ := List.exists_cons_of_ne_nil (splitAt_ne_nil '/' s)
        have hslash : splitAt '/' ('/' :: s) = [] :: splitAt '/' s := if_pos rfl
        exact iff_of_true rfl ⟨_, _, by rw [hslash, hs]; rfl⟩
      · obtain ⟨piece, pieces, -, hcs⟩ := splitAt_cons_of_ne hc s
        rw [hcs]
        exact iff_of_false (by simpa using hc) (by rintro ⟨_, _, h⟩; cases h)
  rw [hhead, hhead, h]

end Level

theorem not_mem_escape (c : Char) : '/' ∉ escape c := by
  intro h
  rcases mem_escape h with h | h
  · exact absurd h (by decide)
  · exact absurd h (by decide)

theorem escape_ne_nil (c : Char) : escape c ≠ [] := by
  obtain ⟨b, bytes, hb⟩ := List.exists_cons_of_ne_nil (@String.utf8EncodeChar_ne_nil c)
  rw [escape, hb, List.flatMap_cons, escapeByte]
  exact List.cons_ne_nil _ _

theorem level_encode (h : keep '/' = true) (s : List Char) : Level s (encode keep s) := by
  induction s with
  | nil => exact .refl []
  | cons c s ih =>
    by_cases hc : c = '/'
    · subst hc
      rw [encode_cons h]
      exact ih.slash
    · rw [encode, List.flatMap_cons]
      split
      · exact ih.cons c
      · exact .char hc (escape_ne_nil c) (not_mem_escape c) ih

theorem not_slash_of_isHex {c : Char} (h : isHex c = true) : c ≠ '/' ∧ c.toUpper ≠ '/' := by
  have hc := forall_hex (p := fun c => c != '/' && c.toUpper != '/') (by decide) h
  simpa using hc

theorem level_upperEscapes (s : List Char) : Level s (upperEscapes s) := by
  fun_induction upperEscapes s with
  | case1 a b rest hab ih =>
    rw [Bool.and_eq_true] at hab
    obtain ⟨ha, ha'⟩ := not_slash_of_isHex hab.1
    obtain ⟨hb, hb'⟩ := not_slash_of_isHex hab.2
    exact @Level.step rest _ ['%', a, b] ['%', a.toUpper, b.toUpper] (List.cons_ne_nil _ _)
      (List.cons_ne_nil _ _) (by simp [Ne.symm ha, Ne.symm hb])
      (by simp [Ne.symm ha', Ne.symm hb']) ih
  | case2 a b rest hab ih =>
    exact ih.cons '%'
  | case3 c rest hne ih => exact ih.cons c
  | case4 => exact .refl []

theorem level_normalize (h : keep '/' = true) (s : List Char) :
    Level s (Percent.normalize keep s) :=
  (level_upperEscapes s).trans (level_encode (by simp [h]) _)

theorem not_slash_of_isUnreserved (h : isUnreserved c = true) : c ≠ '/' := by
  rintro rfl
  exact absurd h (by decide)

theorem level_decodeUnreserved? (h : decodeUnreserved? s = some t) : Level s t := by
  fun_induction decodeUnreserved? s generalizing t with
  | case1 a b rest hab n hn ih =>
    obtain ⟨q, hq, rfl⟩ := Option.map_eq_some_iff.1 h
    have hslash : ∀ {c}, isAlphanumeric c = true → c ≠ '/' := by
      rintro c hc rfl
      exact absurd hc (by decide)
    rw [Bool.and_eq_true] at hab
    have hblock : '/' ∉ ['%', a, b] := by
      simp [Ne.symm (hslash hab.1), Ne.symm (hslash hab.2)]
    split
    · rename_i hu
      exact @Level.step rest q ['%', a, b] [Char.ofNat n] (List.cons_ne_nil _ _)
        (List.cons_ne_nil _ _) hblock (by simpa using Ne.symm (not_slash_of_isUnreserved hu))
        (ih hq)
    · exact (((ih hq).cons b).cons a).cons '%'
  | case2 a b rest hab hn => cases h
  | case3 a b rest hab ih =>
    obtain ⟨q, hq, rfl⟩ := Option.map_eq_some_iff.1 h
    exact (ih hq).cons '%'
  | case4 d rest hne ih =>
    obtain ⟨q, hq, rfl⟩ := Option.map_eq_some_iff.1 h
    exact (ih hq).cons d
  | case5 =>
    cases h
    exact .refl []

/-- The last touch. -/
theorem level_requote (s : List Char) : Level s (requote s) := by
  rw [requote]
  split
  · rename_i t ht
    exact (level_decodeUnreserved? ht).trans (level_encode (by decide) t)
  · exact level_encode (by decide) s

end BuildClient.Url
