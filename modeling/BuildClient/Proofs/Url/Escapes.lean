import Mathlib
import BuildClient.Url.Target

/-!
Texts in which every `%` starts an escape. Normalising a component gives such a text, and decoding
one goes piece by piece.
-/
namespace BuildClient

open Text

namespace Text

theorem isHex_mem {c : Char} (h : isHex c = true) : c ∈ "0123456789abcdefABCDEF".toList := by
  have hc : c = Char.ofNat c.toNat := (Char.ofNat_toNat c).symm
  have hr : 48 ≤ c.toNat ∧ c.toNat ≤ 57 ∨ 97 ≤ c.toNat ∧ c.toNat ≤ 102 ∨
      65 ≤ c.toNat ∧ c.toNat ≤ 70 := by
    unfold isHex hexValue? at h
    simp only [Char.le_def, UInt32.le_iff_toNat_le] at h
    change (if 48 ≤ c.toNat ∧ c.toNat ≤ 57 then _ else if 97 ≤ c.toNat ∧ c.toNat ≤ 102 then _
      else if 65 ≤ c.toNat ∧ c.toNat ≤ 70 then _ else _ : Option Nat).isSome = true at h
    split at h
    · exact .inl ‹_›
    · split at h
      · exact .inr (.inl ‹_›)
      · split at h
        · exact .inr (.inr ‹_›)
        · cases h
  generalize c.toNat = n at hc hr
  subst hc
  rcases hr with hr | hr | hr <;> obtain ⟨hlo, hhi⟩ := hr <;> interval_cases n <;> decide

theorem forall_hex {p : Char → Bool} (h : "0123456789abcdefABCDEF".toList.all p = true) {c : Char}
    (hc : isHex c = true) : p c = true :=
  List.all_eq_true.1 h c (isHex_mem hc)

end Text

namespace Text.Percent

/-- Every `%` is followed by two hexadecimal digits. -/
inductive Escaped : List Char → Prop
  | nil : Escaped []
  | char {c : Char} {s : List Char} (h : c ≠ '%') (rest : Escaped s) : Escaped (c :: s)
  | escape {a b : Char} {s : List Char} (ha : isHex a = true) (hb : isHex b = true)
      (rest : Escaped s) : Escaped ('%' :: a :: b :: s)

variable {s t : List Char} {keep : Char → Bool}

theorem Escaped.append (hs : Escaped s) (ht : Escaped t) : Escaped (s ++ t) := by
  induction hs with
  | nil => exact ht
  | char h _ ih => exact .char h ih
  | escape ha hb _ ih => exact .escape ha hb ih

theorem Escaped.tail {c : Char} (h : Escaped (c :: s)) (hc : c ≠ '%') : Escaped s := by
  cases h with
  | char _ rest => exact rest
  | escape => exact absurd rfl hc

theorem escaped_of_not_mem (h : '%' ∉ s) : Escaped s := by
  induction s with
  | nil => exact .nil
  | cons c s ih =>
    rw [List.mem_cons, not_or] at h
    exact .char (Ne.symm h.1) (ih h.2)

theorem isHex_hexUpper {n : Nat} (h : n < 16) : isHex (hexUpper n) = true := by
  rw [isHex, hexValue?_hexUpper h]
  rfl

theorem escaped_escapeByte (b : UInt8) : Escaped (escapeByte b) := by
  have hb : b.toNat < 256 := b.toNat_lt
  exact .escape (isHex_hexUpper (by omega)) (isHex_hexUpper (by omega)) .nil

theorem escaped_escape (c : Char) : Escaped (escape c) := by
  unfold escape
  induction String.utf8EncodeChar c with
  | nil => exact .nil
  | cons b bytes ih => exact (escaped_escapeByte b).append ih

/-- An escape is written for every `%` when `%` may not stand for itself. -/
theorem escaped_encode (h : keep '%' = false) (s : List Char) : Escaped (encode keep s) := by
  induction s with
  | nil => exact .nil
  | cons c s ih =>
    rw [encode, List.flatMap_cons]
    refine Escaped.append ?_ ih
    split
    · rename_i hc
      refine .char ?_ .nil
      rintro rfl
      rw [h] at hc
      cases hc
    · exact escaped_escape c

/-- Escapes survive when `%` and the digits may stand for themselves. -/
theorem Escaped.encode (hp : keep '%' = true) (hk : ∀ c, isHex c = true → keep c = true)
    (h : Escaped s) : Escaped (encode keep s) := by
  induction h with
  | nil => exact .nil
  | @char c s hc _ ih =>
    rw [Percent.encode, List.flatMap_cons]
    refine Escaped.append ?_ ih
    split
    · exact .char hc .nil
    · exact escaped_escape c
  | escape ha hb _ ih =>
    simp only [Percent.encode, List.flatMap_cons, hp, hk _ ha, hk _ hb, if_true] at ih ⊢
    exact .escape ha hb ih

/-- Not more escapes than `%`, and as many only if every `%` starts one. -/
theorem escapeCount_le_count (s : List Char) :
    escapeCount s ≤ s.count '%' ∧ (escapeCount s = s.count '%' → Escaped s) := by
  fun_induction escapeCount s with
  | case1 a b rest hab ih =>
    rw [Bool.and_eq_true] at hab
    have hle : rest.count '%' ≤ (a :: b :: rest).count '%' :=
      ((List.sublist_cons_self b rest).trans (List.sublist_cons_self a (b :: rest))).count_le '%'
    rw [List.count_cons_self]
    refine ⟨by omega, fun he => .escape hab.1 hab.2 (ih.2 (by omega))⟩
  | case2 a b rest hab ih =>
    rw [List.count_cons_self]
    exact ⟨by omega, fun he => absurd ih.1 (by omega)⟩
  | case3 c rest hne ih =>
    by_cases hc : c = '%'
    · subst hc
      rw [List.count_cons_self]
      exact ⟨by omega, fun he => absurd ih.1 (by omega)⟩
    · rw [List.count_cons_of_ne hc]
      exact ⟨ih.1, fun he => .char hc (ih.2 he)⟩
  | case4 => exact ⟨Nat.le_refl _, fun _ => .nil⟩

theorem escaped_normalize (h : keep '%' = false) (hk : ∀ c, isHex c = true → keep c = true)
    (s : List Char) : Escaped (normalize keep s) := by
  unfold normalize
  dsimp only
  cases he : escapeCount (upperEscapes s) == (upperEscapes s).count '%' with
  | false => exact escaped_encode (by simp [h]) _
  | true =>
    refine Escaped.encode (by simp) (fun c hc => by simp [hk c hc]) ?_
    exact (escapeCount_le_count _).2 (eq_of_beq he)

end Text.Percent

namespace Text.Form

open Percent

theorem escaped_encodeText (s : String) : Escaped (encodeText s) := by
  unfold encodeText
  induction s.toList with
  | nil => exact .nil
  | cons c s ih =>
    rw [List.flatMap_cons]
    refine Escaped.append ?_ ih
    split
    · exact escaped_of_not_mem (by decide)
    · split
      · rename_i hu
        refine escaped_of_not_mem fun hm => ?_
        rw [← List.mem_singleton.1 hm] at hu
        exact absurd hu (by decide)
      · exact escaped_escape c

theorem escaped_encodePair (p : String × String) : Escaped (encodePair p) :=
  (escaped_encodeText p.1).append (.char (by decide) (escaped_encodeText p.2))

theorem escaped_form (pairs : List (String × String)) : Escaped (encode pairs) := by
  unfold encode
  induction pairs with
  | nil => exact .nil
  | cons p pairs ih =>
    cases pairs with
    | nil => exact escaped_encodePair p
    | cons q pairs => exact (escaped_encodePair p).append (.char (by decide) ih)

end Text.Form

end BuildClient
