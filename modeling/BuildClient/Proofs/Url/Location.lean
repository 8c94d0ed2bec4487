import BuildClient.Proofs.Url.Names
import BuildClient.Proofs.Url.Requote
import BuildClient.Url.Credentials

/-! Where an address leads: no character that could end its location gets into it while the address
is brought into the form in which it is sent. -/
namespace BuildClient

open Text

namespace Text

variable {sep c : Char} {s r : List Char}

theorem mem_of_mem_cutFirst (h : c ∈ (cutFirst sep s).1) : c ∈ s := by
  induction s with
  | nil => simp [cutFirst] at h
  | cons d s ih =>
    rw [cutFirst] at h
    split at h
    · cases h
    · rcases List.mem_cons.1 h with rfl | h
      · exact List.mem_cons_self
      · exact List.mem_cons_of_mem d (ih h)

theorem mem_of_mem_cutLast (h : c ∈ (cutLast sep s).2) : c ∈ s := by
  rw [cutLast] at h
  exact List.mem_reverse.1 (mem_of_mem_cutFirst (List.mem_reverse.1 h))

theorem mem_of_mem_cutFirst_rest (h : (cutFirst sep s).2 = some r) (hc : c ∈ r) : c ∈ s := by
  induction s with
  | nil => cases h
  | cons d s ih =>
    rw [cutFirst] at h
    split at h
    · exact List.mem_cons_of_mem d (Option.some.inj h ▸ hc)
    · exact List.mem_cons_of_mem d (ih h)

theorem mem_of_mem_cutLast_first (h : (cutLast sep s).1 = some r) (hc : c ∈ r) : c ∈ s := by
  rw [cutLast] at h
  obtain ⟨before, hbefore, rfl⟩ := Option.map_eq_some_iff.1 h
  exact List.mem_reverse.1 (mem_of_mem_cutFirst_rest hbefore (List.mem_reverse.1 hc))

end Text

namespace Url

open Text Percent

/-- A property of characters that no character loses or lacks that gets into an authority while it
is brought into its form. -/
structure Kept (P : Char → Prop) : Prop where
  unreserved : ∀ c, isUnreserved c = true → P c
  percent : P '%'
  opening : P '['
  closing : P ']'
  colon : P ':'

namespace Kept

variable {P : Char → Prop} (hP : Kept P)
include hP

theorem toLower {c : Char} (h : P c) : P c.toLower := by
  by_cases hu : c.isUpper = true
  · have ha : c.toLower.isAlpha = true := by
      rw [Char.isAlpha_toLower_eq_isAlpha, Char.isAlpha, hu]
      rfl
    exact hP.unreserved _ (by simp [isUnreserved, Char.isAlphanum, ha])
  · rwa [Char.toLower_eq_of_not_isUpper hu]

theorem digit {c : Char} (h : c.isDigit = true) : P c :=
  hP.unreserved c (by simp [isUnreserved, Char.isAlphanum, h])

theorem of_mem_normalize {keep : Char → Bool} {s : List Char} {c : Char}
    (hk : ∀ d, keep d = true → P d) (h : c ∈ Percent.normalize keep s) : P c := by
  unfold Percent.normalize at h
  rcases mem_encode h with ⟨-, hc⟩ | hc | rfl
  · simp only [Bool.or_eq_true, Bool.and_eq_true, beq_iff_eq] at hc
    rcases hc with hc | ⟨-, rfl⟩
    · exact hk c hc
    · exact hP.percent
  · exact hP.unreserved c hc
  · exact hP.percent

end Kept

namespace Host

variable {P : Char → Prop}

theorem mem_of_mem_name {s : List Char} {c : Char} (h : c ∈ (name s).1) : c ∈ s := by
  fun_induction name s with
  | case1 a b rest hab ih =>
    simp only [List.mem_cons] at h ⊢
    tauto
  | case2 a b rest hab => cases h
  | case3 d rest hne hd => cases h
  | case4 d rest hne hd ih =>
    simp only [List.mem_cons] at h ⊢
    tauto
  | case5 => cases h

theorem kept_host (hP : Kept P) {s : List Char} {p : List Char × Option Nat} (h : read? s = some p)
    (hs : ∀ c ∈ s, P c) : ∀ c ∈ p.1, P c := by
  intro c hc
  unfold read? at h
  split at h
  · cases h
    exact hs c (mem_of_mem_name hc)
  · split at h
    · rename_i inner _
      split at h
      · rename_i address rest hcut
        split at h
        · obtain ⟨port, -, rfl⟩ := Option.map_eq_some_iff.1 h
          simp only [List.cons_append, List.mem_cons, List.mem_append, List.not_mem_nil,
            or_false] at hc
          rcases hc with rfl | hc | rfl
          · exact hP.opening
          · have hm : c ∈ (cutFirst ']' inner).1 := by rw [hcut]; exact hc
            exact hs c (List.mem_cons_of_mem _ (mem_of_mem_cutFirst hm))
          · exact hP.closing
        · cases h
      · cases h
    · cases h

theorem kept_normalize (hP : Kept P) {host : List Char} (h : ∀ c ∈ host, P c) :
    ∀ c ∈ normalize host, P c := by
  have hlower : ∀ l : List Char, (∀ c ∈ l, P c) → ∀ c ∈ l.map Char.toLower, P c := by
    intro l hl c hc
    obtain ⟨d, hd, rfl⟩ := List.mem_map.1 hc
    exact hP.toLower (hl d hd)
  intro c hc
  unfold normalize at hc
  split at hc
  · rename_i inner
    split at hc
    · rename_i address zone hcut
      have ha : ∀ d ∈ address, P d := fun d hd => by
        have hm : d ∈ (cutFirst '%' inner.dropLast).1 := by rw [hcut]; exact hd
        exact h d (List.mem_cons_of_mem _ (List.mem_of_mem_dropLast (mem_of_mem_cutFirst hm)))
      simp only [List.mem_cons, List.mem_append, List.cons_append, List.not_mem_nil,
        or_false] at hc
      rcases hc with rfl | (hc | rfl | hc) | rfl
      · exact hP.opening
      · exact hlower address ha c hc
      · exact hP.percent
      · exact hP.of_mem_normalize hP.unreserved hc
      · exact hP.closing
    · exact hlower _ h c hc
  · exact hlower _ h c hc

end Host

theorem Kept.write {P : Char → Prop} (hP : Kept P) {a : Authority}
    (hu : ∀ u, a.userInfo = some u → P '@' ∧ ∀ c ∈ u, P c) (hh : ∀ c ∈ a.host, P c) :
    ∀ c ∈ a.write, P c := by
  intro c hc
  rw [Authority.write, List.mem_append, List.mem_append] at hc
  rcases hc with (hc | hc) | hc
  · cases ha : a.userInfo with
    | none =>
      rw [ha] at hc
      cases hc
    | some u =>
      rw [ha] at hc
      rcases List.mem_append.1 hc with hc | hc
      · exact (hu u ha).2 c hc
      · rw [List.mem_singleton.1 hc]
        exact (hu u ha).1
  · exact hh c hc
  · split at hc
    · cases hc
    · cases hc
    · rcases List.mem_cons.1 hc with rfl | hc
      · exact hP.colon
      · exact hP.digit (Nat.isDigit_of_mem_toDigits (by decide) (by decide) hc)

/-- A character that ends no location. -/
def Inside (c : Char) : Prop := c ≠ '/' ∧ c ≠ '?' ∧ c ≠ '#'

instance (c : Char) : Decidable (Inside c) := inferInstanceAs (Decidable (_ ∧ _ ∧ _))

theorem inside_of_isUnreserved {c : Char} (h : isUnreserved c = true) : Inside c := by
  refine ⟨?_, ?_, ?_⟩ <;> rintro rfl <;> revert h <;> decide

theorem kept_inside : Kept Inside :=
  ⟨fun _ => inside_of_isUnreserved, by decide, by decide, by decide, by decide⟩

theorem inside_of_inUserInfo {c : Char} (h : inUserInfo c = true) : Inside c := by
  simp only [inUserInfo, isDelimiter, Bool.or_eq_true, beq_iff_eq] at h
  rcases h with (h | h) | rfl
  · exact inside_of_isUnreserved h
  · refine ⟨?_, ?_, ?_⟩ <;> rintro rfl <;> revert h <;> decide
  · decide

theorem Authority.read?_eq_some {spell : List Char → Option (List Char)} {s : List Char}
    {a : Authority} (h : Authority.read? spell s = some a) :
    ∃ p host, Host.read? (cutLast '@' s).2 = some p ∧ spell p.1 = some host ∧
      a = ⟨(cutLast '@' s).1.filter fun u => !u.isEmpty, host, p.2⟩ := by
  obtain ⟨p, hp, h⟩ := Option.bind_eq_some_iff.1 h
  obtain ⟨host, hhost, rfl⟩ := Option.map_eq_some_iff.1 h
  exact ⟨p, host, hp, hhost, rfl⟩

/-- Neither is it lost or brought in when the host of an authority is read and spelled. -/
theorem Kept.host {P : Char → Prop} (hP : Kept P) {spell : List Char → Option (List Char)}
    (hspell : Spelling spell) {s : List Char} {a : Authority}
    (h : Authority.read? spell s = some a) (hs : ∀ c ∈ s, P c) : ∀ c ∈ a.host, P c := by
  obtain ⟨p, host, hp, hhost, rfl⟩ := Authority.read?_eq_some h
  intro c hc
  refine (hspell _ _ hhost c hc).elim ?_ (hP.unreserved c)
  exact Host.kept_host hP hp (fun c hc => hs c (mem_of_mem_cutLast hc)) c

/-- Once normalised, an authority that was read ends nowhere early. -/
theorem inside_normalizeAuthority {spell : List Char → Option (List Char)}
    (hspell : Spelling spell) {s : List Char} {a : Authority}
    (h : Authority.read? spell s = some a) (hs : ∀ c ∈ s, Inside c) :
    ∀ c ∈ (Target.normalizeAuthority a).write, Inside c := by
  refine kept_inside.write ?_ ?_
  · intro u hu
    obtain ⟨v, -, rfl⟩ := Option.map_eq_some_iff.1 hu
    exact ⟨by decide, fun c => kept_inside.of_mem_normalize fun _ => inside_of_inUserInfo⟩
  · exact Host.kept_normalize kept_inside (kept_inside.host hspell h hs)

theorem takeWhile_location {p q : List Char} (hp : ∀ c ∈ p, Inside c)
    (hq : ∀ c ∈ q.head?, ¬ Inside c) :
    (p ++ q).takeWhile (fun c => c != '/' && c != '?' && c != '#') = p := by
  have hstop : ∀ c, (c != '/' && c != '?' && c != '#') = true ↔ Inside c := by
    simp [Inside, and_assoc]
  rw [List.takeWhile_append_of_pos fun c hc => (hstop c).2 (hp c hc)]
  cases q with
  | nil => simp
  | cons c q =>
    have hc : ¬ (c != '/' && c != '?' && c != '#') = true := mt (hstop c).1 (hq c rfl)
    rw [List.takeWhile_cons_of_neg (by simpa using hc), List.append_nil]

/-- A letter, and then what may follow it in a scheme. -/
def IsScheme (s : List Char) : Prop :=
  (∃ c rest, s = c :: rest ∧ c.isAlpha = true) ∧ ∀ c ∈ s, Components.isSchemeChar c = true

theorem isScheme_of_web {scheme : List Char} (hw : isWeb scheme = true) : IsScheme scheme := by
  simp only [isWeb, Bool.or_eq_true, beq_iff_eq] at hw
  rcases hw with rfl | rfl
  · exact ⟨⟨'h', "ttp".toList, rfl, by decide⟩, List.all_eq_true.1 (by decide)⟩
  · exact ⟨⟨'h', "ttps".toList, rfl, by decide⟩, List.all_eq_true.1 (by decide)⟩

theorem spec_of_isSchemeChar {c : Char} (h : Components.isSchemeChar c = true) :
    Credentials.isSchemeChar c = true ∧ isSafe c = true ∧ c ∉ [':', '%', '\t', '\n', '\r'] := by
  simp only [Components.isSchemeChar, Bool.or_eq_true, beq_iff_eq] at h
  rcases h with (h | rfl) | rfl
  · refine ⟨by simp [Credentials.isSchemeChar, h], by simp [isSafe, isUnreserved, h], fun hc => ?_⟩
    simp only [List.mem_cons, List.not_mem_nil, or_false] at hc
    rcases hc with rfl | rfl | rfl | rfl | rfl <;> revert h <;> decide
  · decide
  · decide

theorem toNat_of_isAlpha {c : Char} (h : c.isAlpha = true) : 0x20 < c.toNat := by
  simp [Char.isAlpha, Char.isUpper, Char.isLower, UInt32.le_iff_toNat_le] at h
  have hc : c.val.toNat = c.toNat := rfl
  omega

/-- What is left of an address that begins with a scheme is what follows the scheme in it. -/
theorem dropScheme_clean {scheme : List Char} (h : IsScheme scheme) (r : List Char) :
    Credentials.dropScheme (Credentials.clean (scheme ++ ':' :: r)) =
      r.filter fun c => c != '\t' && c != '\n' && c != '\r' := by
  obtain ⟨⟨c, rest, rfl, hc⟩, hall⟩ := h
  have hkeep : (c :: rest).filter (fun c => c != '\t' && c != '\n' && c != '\r') = c :: rest := by
    refine List.filter_eq_self.2 fun d hd => ?_
    have hd := (spec_of_isSchemeChar (hall d hd)).2.2
    simp_all
  have hcolon : ':' ∉ c :: rest := fun hm =>
    (spec_of_isSchemeChar (hall _ hm)).2.2 List.mem_cons_self
  have hscheme : (c :: rest).all Credentials.isSchemeChar = true :=
    List.all_eq_true.2 fun d hd => (spec_of_isSchemeChar (hall d hd)).1
  rw [Credentials.clean, List.cons_append,
    List.dropWhile_cons_of_neg (by simpa using toNat_of_isAlpha hc), ← List.cons_append,
    List.filter_append, hkeep, List.filter_cons_of_pos (by decide), List.cons_append,
    Credentials.dropScheme, ← List.cons_append, cutFirst_append ':' _ hcolon]
  simp only [hc, hscheme, Bool.and_self, if_true]

theorem location_of_scheme {scheme : List Char} (h : IsScheme scheme) (r : List Char) :
    Credentials.location (scheme ++ "://".toList ++ r) =
      (r.filter fun c => c != '\t' && c != '\n' && c != '\r').takeWhile
        fun c => c != '/' && c != '?' && c != '#' := by
  have hcolon : scheme ++ "://".toList ++ r = scheme ++ ':' :: '/' :: '/' :: r := by
    rw [List.append_assoc]
    rfl
  rw [hcolon, Credentials.location, dropScheme_clean h]
  rfl

/-- The location is what stands between the scheme and the character that ends it, less its
breaks. -/
theorem location_of_inside {scheme p q : List Char} (h : IsScheme scheme)
    (hp : ∀ c ∈ p, Inside c) (hq : ∀ c ∈ q.head?, ¬ Inside c) :
    Credentials.location (scheme ++ "://".toList ++ p ++ q) =
      p.filter fun c => c != '\t' && c != '\n' && c != '\r' := by
  rw [List.append_assoc, location_of_scheme h, List.filter_append]
  refine takeWhile_location (fun c hc => hp c (List.mem_of_mem_filter hc)) fun c hc => ?_
  cases q with
  | nil => cases hc
  | cons d q =>
    have hd := hq d rfl
    have hkeep : (d != '\t' && d != '\n' && d != '\r') = true := by
      rw [Bool.and_eq_true, Bool.and_eq_true, bne_iff_ne, bne_iff_ne, bne_iff_ne]
      refine ⟨⟨?_, ?_⟩, ?_⟩ <;> rintro rfl <;> exact hd (by decide)
    rw [List.filter_cons_of_pos (by simpa using hkeep)] at hc
    cases hc
    exact hd

end Url

end BuildClient
