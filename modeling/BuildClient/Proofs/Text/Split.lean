import Mathlib.Data.List.Basic
import BuildClient.Text.Split

/-! Cutting a text, and what can be read back from the pieces. -/
namespace BuildClient.Text

variable {sep c : Char} {s : List Char} {pairs more : List (String × String)}

theorem cutFirst_eq_self (h : sep ∉ s) : cutFirst sep s = (s, none) := by
  induction s with
  | nil => rfl
  | cons c s ih =>
    rw [List.mem_cons, not_or] at h
    rw [cutFirst, if_neg (Ne.symm h.1), ih h.2]

theorem not_mem_cutFirst (sep : Char) (s : List Char) : sep ∉ (cutFirst sep s).1 := by
  induction s with
  | nil => exact List.not_mem_nil
  | cons c s ih =>
    rw [cutFirst]
    split
    · exact List.not_mem_nil
    · rename_i hc
      rw [List.mem_cons, not_or]
      exact ⟨Ne.symm hc, ih⟩

theorem cutFirst_of_none (h : (cutFirst sep s).2 = none) : (cutFirst sep s).1 = s := by
  induction s with
  | nil => rfl
  | cons c s ih =>
    rw [cutFirst] at h ⊢
    split
    · rename_i hc
      rw [if_pos hc] at h
      cases h
    · rename_i hc
      rw [if_neg hc] at h
      rw [ih h]

theorem joinWith_append (sep : Char) {a b : List (List Char)} (ha : a ≠ []) (hb : b ≠ []) :
    joinWith sep (a ++ b) = joinWith sep a ++ sep :: joinWith sep b := by
  induction a with
  | nil => exact absurd rfl ha
  | cons piece rest ih =>
    cases rest with
    | nil =>
      obtain ⟨next, more, rfl⟩ := List.exists_cons_of_ne_nil hb
      rfl
    | cons next more =>
      have hmore := ih (List.cons_ne_nil next more)
      change piece ++ sep :: joinWith sep (next :: more ++ b) =
        (piece ++ sep :: joinWith sep (next :: more)) ++ sep :: joinWith sep b
      rw [hmore, List.append_assoc, List.cons_append]

theorem mem_joinWith {pieces : List (List Char)} (h : c ∈ joinWith sep pieces) :
    (∃ piece ∈ pieces, c ∈ piece) ∨ c = sep := by
  induction pieces with
  | nil => cases h
  | cons piece rest ih =>
    cases rest with
    | nil => exact .inl ⟨piece, List.mem_cons_self, h⟩
    | cons next rest =>
      rw [joinWith, List.mem_append, List.mem_cons] at h
      rcases h with h | rfl | h
      · exact .inl ⟨piece, List.mem_cons_self, h⟩
      · exact .inr rfl
      · refine (ih h).imp_left ?_
        rintro ⟨p, hp, hc⟩
        exact ⟨p, List.mem_cons_of_mem piece hp, hc⟩
      · exact List.cons_ne_nil _ _

theorem mem_of_mem_splitAt {piece : List Char} (hp : piece ∈ splitAt sep s)
    (hc : c ∈ piece) : c ∈ s := by
  induction s generalizing piece with
  | nil =>
    rw [splitAt, List.mem_singleton] at hp
    rwa [hp] at hc
  | cons d s ih =>
    rw [splitAt] at hp
    split at hp
    · rcases List.mem_cons.1 hp with rfl | hp
      · cases hc
      · exact List.mem_cons_of_mem d (ih hp hc)
    · split at hp
      · rename_i hs
        exact absurd hs (splitAt_ne_nil sep s)
      · rename_i first rest hs
        rcases List.mem_cons.1 hp with rfl | hp
        · rcases List.mem_cons.1 hc with rfl | hc
          · exact List.mem_cons_self
          · exact List.mem_cons_of_mem d (ih (hs ▸ List.mem_cons_self) hc)
        · exact List.mem_cons_of_mem d (ih (hs ▸ List.mem_cons_of_mem first hp) hc)

theorem cutFirst_append_of_mem (h : sep ∈ s) (t : List Char) :
    ∃ r, cutFirst sep s = ((cutFirst sep s).1, some r) ∧
      cutFirst sep (s ++ t) = ((cutFirst sep s).1, some (r ++ t)) := by
  induction s with
  | nil => cases h
  | cons c s ih =>
    rw [List.cons_append, cutFirst, cutFirst]
    by_cases hc : c = sep
    · rw [if_pos hc, if_pos hc]
      exact ⟨s, rfl, rfl⟩
    · rw [if_neg hc, if_neg hc]
      have hs : sep ∈ s := (List.mem_cons.1 h).resolve_left fun he => hc he.symm
      obtain ⟨r, hr, hrt⟩ := ih hs
      exact ⟨r, by rw [hr], by rw [hrt]⟩

theorem cutFirst_append_of_not_mem (h : sep ∉ s) (t : List Char) :
    cutFirst sep (s ++ t) = (s ++ (cutFirst sep t).1, (cutFirst sep t).2) := by
  induction s with
  | nil => rfl
  | cons c s ih =>
    rw [List.mem_cons, not_or] at h
    rw [List.cons_append, cutFirst, if_neg (Ne.symm h.1), ih h.2]
    rfl

theorem cutLast_of_not_mem (h : sep ∉ s) :
    cutLast sep s = (none, s) := by
  rw [cutLast, cutFirst_eq_self (by simpa using h)]
  simp

theorem dropWhile_append_of_stop {p : Char → Bool} (h : p c = false) (s t : List Char) :
    (s ++ c :: t).dropWhile p = s.dropWhile p ++ c :: t := by
  induction s with
  | nil => rw [List.nil_append, List.dropWhile_cons_of_neg (by simp [h])]; rfl
  | cons d s ih =>
    rw [List.cons_append]
    by_cases hd : p d = true
    · rw [List.dropWhile_cons_of_pos hd, List.dropWhile_cons_of_pos hd, ih]
    · rw [List.dropWhile_cons_of_neg hd, List.dropWhile_cons_of_neg hd, List.cons_append]

theorem takeWhile_append_of_stop {p : Char → Bool} (h : p c = false) (s t : List Char) :
    (s ++ c :: t).takeWhile p = s.takeWhile p := by
  induction s with
  | nil => rw [List.nil_append, List.takeWhile_cons_of_neg (by simp [h])]; rfl
  | cons d s ih =>
    rw [List.cons_append]
    by_cases hd : p d = true
    · rw [List.takeWhile_cons_of_pos hd, List.takeWhile_cons_of_pos hd, ih]
    · rw [List.takeWhile_cons_of_neg hd, List.takeWhile_cons_of_neg hd]

/-- Names and values come back from what was joined of them if they do not hold the signs where
they are cut. -/
theorem splitAt_pairs (hne : pairs ≠ []) (hname : ∀ p ∈ pairs, '=' ∉ p.1.toList ∧ sep ∉ p.1.toList)
    (hvalue : ∀ p ∈ pairs, sep ∉ p.2.toList) (hsep : sep ≠ '=') :
    (splitAt sep (joinWith sep (pairs.map fun p => p.1.toList ++ '=' :: p.2.toList))).map
        (fun piece => (String.ofList (cutFirst '=' piece).1,
          (cutFirst '=' piece).2.map String.ofList)) =
      pairs.map fun p => (p.1, some p.2) := by
  rw [splitAt_joinWith sep (by simpa using hne), List.map_map]
  · refine List.map_congr_left fun p hp => ?_
    simp [cutFirst_append '=' p.2.toList (hname p hp).1]
  · intro piece hpiece
    obtain ⟨p, hp, rfl⟩ := List.mem_map.1 hpiece
    simp [(hname p hp).2, hvalue p hp, hsep]

theorem pairs_injective
    (h : (pairs.map fun p => (p.1, some p.2)) = more.map fun p => (p.1, some p.2)) :
    pairs = more := by
  have hinj : Function.Injective fun p : String × String => (p.1, some p.2) := by
    rintro ⟨name, value⟩ ⟨name', value'⟩ he
    cases he
    rfl
  exact hinj.list_map h

end BuildClient.Text
