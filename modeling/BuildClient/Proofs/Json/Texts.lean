import Mathlib
import BuildClient.Json.Parser
import BuildClient.Json.Printer

/-! A quoted text is read back. -/
namespace BuildClient.Json

open Text

variable {r : Reader} {rest : List Char}

namespace Reader

theorem units_escapeLetter {c l : Char} (h : escapeLetter? c = some l) (done : List ℕ)
    (s : List Char) : units done ('\\' :: l :: s) = units (c.toNat :: done) s := by
  have hl : letter? l = some c ∧ l ≠ 'u' := by
    unfold escapeLetter? at h
    split at h
    all_goals
      first
      | (cases h; done)
      | (cases h; exact ⟨rfl, by decide⟩)
  rw [units, hl.1]
  exact fun a b c' d rest' hu => absurd hu hl.2

theorem units_escapeCode {c : Char} (h : c.toNat < 0x20) (done : List ℕ) (s : List Char) :
    units done ('\\' :: 'u' :: (hexPadded 4 c.toNat ++ s)) = units (c.toNat :: done) s := by
  have hhex : ∀ n < 0x20, hexNat? (hexPadded 4 n) = some n := by decide
  obtain ⟨a, b, c', d, hd⟩ : ∃ a b c' d, hexPadded 4 c.toNat = [a, b, c', d] := ⟨_, _, _, _, rfl⟩
  have hn := hhex c.toNat h
  rw [hd] at hn ⊢
  rw [List.cons_append, List.cons_append, List.cons_append, List.cons_append, List.nil_append,
    units, hn]

theorem units_plain {c : Char} (hq : c ≠ '"') (hb : c ≠ '\\') (hc : 0x20 ≤ c.toNat)
    (done : List ℕ) (s : List Char) : units done (c :: s) = units (c.toNat :: done) s := by
  rw [units, if_neg (by omega)]
  · exact hq
  · rintro a b c' d rest' he
    exact fun _ => hb he
  · rintro e rest' he
    exact fun _ => hb he

theorem units_escapeChar (c : Char) (done : List ℕ) (s : List Char) :
    units done (escapeChar c ++ s) = units (c.toNat :: done) s := by
  rw [escapeChar]
  split
  · rename_i l h
    exact units_escapeLetter h done s
  · rename_i h
    split
    · rename_i hc
      exact units_escapeCode hc done s
    · rename_i hc
      refine units_plain ?_ ?_ (by omega) done s
      · rintro rfl
        cases h
      · rintro rfl
        cases h

theorem units_quoted (cs : List Char) (done : List ℕ) (rest : List Char) :
    units done (cs.flatMap escapeChar ++ '"' :: rest) =
      some (done.reverse ++ cs.map Char.toNat, rest) := by
  induction cs generalizing done with
  | nil => rw [List.flatMap_nil, List.nil_append, units, List.map_nil, List.append_nil]
  | cons c cs ih =>
    rw [List.flatMap_cons, List.append_assoc, units_escapeChar, ih]
    simp

/-- A character is no half of a pair. -/
theorem not_surrogate (c : Char) : isHigh c.toNat = false ∧ isLow c.toNat = false := by
  have h : c.toNat < 0xD800 ∨ 0xDFFF < c.toNat ∧ c.toNat < 0x110000 := c.valid
  simp only [isHigh, isLow, Bool.and_eq_false_iff, decide_eq_false_iff_not]
  omega

theorem join?_chars (r : Reader) (cs done : List Char) :
    r.join? done (cs.map Char.toNat) = some (done.reverse ++ cs) := by
  have hsingle : ∀ c : Char, r.single? c.toNat = some c := by
    intro c
    obtain ⟨hh, hl⟩ := not_surrogate c
    simp [single?, hh, hl]
  induction cs generalizing done with
  | nil => simp [join?]
  | cons c cs ih =>
    cases cs with
    | nil => simp [join?, hsingle]
    | cons d cs =>
      rw [List.map_cons, List.map_cons, join?, if_neg (by simp [not_surrogate c]), hsingle]
      simp only
      rw [← List.map_cons, ih]
      simp

theorem text?_quoted (r : Reader) (s : String) (rest : List Char) :
    r.text? (s.toList.flatMap escapeChar ++ '"' :: rest) = some (s, rest) := by
  rw [text?, units_quoted]
  simp only [bind, Option.bind, List.reverse_nil, List.nil_append]
  rw [join?_chars]
  simp

end Reader

end BuildClient.Json
