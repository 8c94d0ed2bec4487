import Mathlib
import BuildClient.Number.Binary64

/-!
Rounding to the precision. What lies between the midpoints around a value rounds to that value.
-/
namespace BuildClient.Binary64

-- Powers are those that core defines.
attribute [local instance (2000)] instPowNat

variable {num den q m e n a : ℕ}

/-- Of the points up to half a unit away, the one below and the one above count for even results
only. -/
theorem roundDiv_eq (hd : 0 < den) (hlo : 2 * (q * den) ≤ 2 * num + den)
    (hhi : 2 * num ≤ 2 * (q * den) + den)
    (hodd : q % 2 = 1 → 2 * (q * den) < 2 * num + den ∧ 2 * num < 2 * (q * den) + den) :
    roundDiv num den = q := by
  have hdiv : num / den * den + num % den = num := Nat.div_add_mod' num den
  have hr : num % den < den := Nat.mod_lt num hd
  have hle : q ≤ num / den + 1 := by
    by_contra hgt
    have hm : (num / den + 2) * den ≤ q * den := Nat.mul_le_mul_right den (by omega)
    rw [Nat.add_mul] at hm
    omega
  have hge : num / den ≤ q := by
    by_contra hlt
    have hm : (q + 1) * den ≤ num / den * den := Nat.mul_le_mul_right den (by omega)
    rw [Nat.add_mul] at hm
    omega
  unfold roundDiv
  dsimp only
  rcases (by omega : q = num / den ∨ q = num / den + 1) with hq | hq
  · rw [← hq] at hdiv ⊢
    split_ifs <;> omega
  · rw [hq, Nat.add_mul] at hlo hhi hodd
    split_ifs <;> omega

theorem bitLength_eq (hlo : 2 ^ a ≤ n) (hhi : n < 2 ^ (a + 1)) : bitLength n = a + 1 := by
  have hn : n ≠ 0 := by
    have := Nat.two_pow_pos a
    omega
  rw [bitLength, if_neg hn, (Nat.log2_eq_iff hn).2 ⟨hlo, hhi⟩]

theorem bitLength_le (h : n < 2 ^ a) : bitLength n ≤ a := by
  by_cases hn : n = 0
  · simp [bitLength, hn]
  · rw [bitLength, if_neg hn]
    exact (Nat.log2_lt hn).2 h

/-- The bounds of the numbers that round to a value: the midpoints to both neighbours, each of which
counts if the significand is even. The lower one is nearer below a power of two. -/
structure Near (m e num den : ℕ) : Prop where
  above : (4 * m - if m = 2 ^ fractionBits ∧ 0 < e then 1 else 2) * (den * 2 ^ e) ≤ 4 * num
  below : 4 * num ≤ (4 * m + 2) * (den * 2 ^ e)
  odd : m % 2 = 1 →
    (4 * m - 2) * (den * 2 ^ e) < 4 * num ∧ 4 * num < (4 * m + 2) * (den * 2 ^ e)

theorem num_lt_of_near (hd : 0 < den) (hm : m < 2 ^ precision) (h : Near m e num den) :
    num < 2 ^ precision * (den * 2 ^ e) := by
  have hD : 0 < den * 2 ^ e := Nat.mul_pos hd (Nat.two_pow_pos e)
  have hle : (m + 1) * (den * 2 ^ e) ≤ 2 ^ precision * (den * 2 ^ e) := Nat.mul_le_mul_right _ hm
  have hb := h.below
  rw [Nat.add_mul, Nat.mul_assoc] at hb
  rw [Nat.add_mul] at hle
  omega

theorem pow_le_div (hd : 0 < den) (h : 2 ^ a * (den * 2 ^ e) ≤ num) : 2 ^ (a + e) ≤ num / den := by
  rw [Nat.le_div_iff_mul_le hd, Nat.pow_add, Nat.mul_assoc, Nat.mul_comm (2 ^ e)]
  exact h

theorem div_lt_pow (hd : 0 < den) (h : num < 2 ^ a * (den * 2 ^ e)) : num / den < 2 ^ (a + e) := by
  rw [Nat.div_lt_iff_lt_mul hd, Nat.pow_add, Nat.mul_assoc, Nat.mul_comm (2 ^ e)]
  exact h

/-- Above the least significand of full length, or without an exponent, the scale is the value's. -/
theorem roundUnits_of_scale (hd : 0 < den) (hc : (finite false m e).Canonical)
    (h : Near m e num den) (hs : e = 0 ∨ 2 ^ fractionBits * (den * 2 ^ e) ≤ num) :
    roundUnits num den = some (m, e) := by
  obtain ⟨hlt, he, -⟩ := hc
  have hD : 0 < den * 2 ^ e := Nat.mul_pos hd (Nat.two_pow_pos e)
  have hdiv : num / den < 2 ^ (precision + e) := div_lt_pow hd (num_lt_of_near hd hlt h)
  have hlen : bitLength (num / den) - precision = e := by
    rcases hs with rfl | hs
    · exact Nat.sub_eq_zero_of_le (bitLength_le hdiv)
    · have hp : precision + e = fractionBits + e + 1 := by
        rw [precision, Nat.add_right_comm]
      rw [bitLength_eq (pow_le_div hd hs) (hp ▸ hdiv), ← hp, Nat.add_sub_cancel_left]
  have hround : roundDiv num (den * 2 ^ e) = m := by
    have ha := h.above
    have hb := h.below
    have ho := h.odd
    rw [Nat.add_mul, Nat.mul_assoc] at hb ho
    rw [Nat.sub_mul, Nat.mul_assoc] at ha
    rw [Nat.sub_mul, Nat.mul_assoc] at ho
    have hstep : (if m = 2 ^ fractionBits ∧ 0 < e then 1 else 2) * (den * 2 ^ e) ≤
        2 * (den * 2 ^ e) := Nat.mul_le_mul_right _ (by split <;> omega)
    exact roundDiv_eq hD (by omega) (by omega) fun hm => by
      have := ho hm
      omega
  rw [roundUnits]
  simp only [hlen, hround, hlt.ne, if_false, he, if_true]

/-- Below a power of two the scale is one less, and the result is carried up. -/
theorem roundUnits_of_carry (hd : 0 < den) (hc : (finite false m e).Canonical)
    (h : Near m e num den) (he : 0 < e) (hs : num < 2 ^ fractionBits * (den * 2 ^ e)) :
    roundUnits num den = some (m, e) := by
  obtain ⟨hlt, hmax, hfull⟩ := hc
  obtain ⟨k, rfl⟩ : ∃ k, e = k + 1 := ⟨e - 1, by omega⟩
  have hm : m = 2 ^ fractionBits := by
    by_contra hne
    have ha := h.above
    rw [if_neg fun hn => hne hn.1] at ha
    have hle : (4 * 2 ^ fractionBits) * (den * 2 ^ (k + 1)) ≤ (4 * m - 2) * (den * 2 ^ (k + 1)) :=
      Nat.mul_le_mul_right _ (by omega)
    rw [Nat.mul_assoc] at hle
    omega
  have ha := h.above
  rw [if_pos ⟨hm, he⟩, hm, Nat.sub_mul, Nat.mul_assoc] at ha
  have htwice : den * 2 ^ (k + 1) = 2 * (den * 2 ^ k) := by
    rw [Nat.pow_succ, ← Nat.mul_assoc, Nat.mul_comm]
  have hprec : 2 ^ precision * (den * 2 ^ k) = 2 ^ fractionBits * (den * 2 ^ (k + 1)) := by
    rw [htwice, precision, Nat.pow_succ, Nat.mul_assoc]
  have hD : 0 < den * 2 ^ k := Nat.mul_pos hd (Nat.two_pow_pos k)
  have hlen : bitLength (num / den) - precision = k := by
    have hlo : 2 ^ fractionBits * (den * 2 ^ k) ≤ num := by
      have hfull : 2 ^ fractionBits * (den * 2 ^ (k + 1)) =
          2 * (2 ^ fractionBits * (den * 2 ^ k)) := by
        rw [htwice, Nat.mul_left_comm]
      have hstep : den * 2 ^ k ≤ 2 ^ fractionBits * (den * 2 ^ k) :=
        Nat.le_mul_of_pos_left _ (Nat.two_pow_pos fractionBits)
      omega
    have hhi : num / den < 2 ^ (precision + k) := div_lt_pow hd (hprec ▸ hs)
    have hp : precision + k = fractionBits + k + 1 := by
      rw [precision, Nat.add_right_comm]
    rw [bitLength_eq (pow_le_div hd hlo) (hp ▸ hhi), ← hp, Nat.add_sub_cancel_left]
  have hround : roundDiv num (den * 2 ^ k) = 2 ^ precision := by
    refine roundDiv_eq hD ?_ ?_ fun hodd => ?_
    · omega
    · omega
    · exact absurd hodd (by decide)
  have hcarry : k + 1 ≤ maxExponent := hmax
  rw [roundUnits]
  simp only [hlen, hround, if_true, hcarry, hm]

/-- What is near a value rounds to it. -/
theorem roundUnits_of_near (hd : 0 < den) (hc : (finite false m e).Canonical)
    (h : Near m e num den) : roundUnits num den = some (m, e) := by
  rcases Nat.eq_zero_or_pos e with he | he
  · exact roundUnits_of_scale hd hc h (.inl he)
  · rcases Nat.lt_or_ge num (2 ^ fractionBits * (den * 2 ^ e)) with hs | hs
    · exact roundUnits_of_carry hd hc h he hs
    · exact roundUnits_of_scale hd hc h (.inr hs)

theorem lt_pow_bitLength (n : ℕ) : n < 2 ^ bitLength n := by
  by_cases hn : n = 0
  · simp [hn, bitLength]
  · rw [bitLength, if_neg hn]
    exact Nat.lt_log2_self

theorem pow_le_of_lt_bitLength (h : a < bitLength n) : 2 ^ a ≤ n := by
  by_contra hlt
  exact absurd (bitLength_le (Nat.lt_of_not_le hlt)) (by omega)

theorem roundDiv_bounds (num den : ℕ) :
    num / den ≤ roundDiv num den ∧ roundDiv num den ≤ num / den + 1 := by
  unfold roundDiv
  dsimp only
  split_ifs <;> omega

/-- The exponent at which a quotient is rounded. -/
def exponentOf (num den : ℕ) : ℕ := bitLength (num / den) - precision

/-- Significand and exponent of a quotient, given in units, however great the exponent is. -/
def unbounded (num den : ℕ) : ℕ × ℕ :=
  let m := roundDiv num (den * 2 ^ exponentOf num den)
  if m = 2 ^ precision then (2 ^ fractionBits, exponentOf num den + 1) else (m, exponentOf num den)

theorem roundUnits_eq (num den : ℕ) : roundUnits num den =
    if (unbounded num den).2 ≤ maxExponent then some (unbounded num den) else none := by
  rw [roundUnits, unbounded, exponentOf]

/-- A significand of the precision, with all its bits unless the exponent is least. -/
def Full (m e : ℕ) : Prop := m < 2 ^ precision ∧ (2 ^ fractionBits ≤ m ∨ e = 0)

theorem div_lt_of_exponent (num den : ℕ) :
    num / (den * 2 ^ exponentOf num den) < 2 ^ precision := by
  rw [← Nat.div_div_eq_div_mul, Nat.div_lt_iff_lt_mul (Nat.two_pow_pos _), ← Nat.pow_add]
  refine Nat.lt_of_lt_of_le (lt_pow_bitLength _) (Nat.pow_le_pow_right (by decide) ?_)
  rw [exponentOf]
  omega

/-- The quotient has all the bits of a significand, unless the exponent is least. -/
theorem le_of_exponent (num : ℕ) (hd : 0 < den) :
    exponentOf num den = 0 ∨ 2 ^ fractionBits * (den * 2 ^ exponentOf num den) ≤ num := by
  rcases Nat.eq_zero_or_pos (exponentOf num den) with h0 | h0
  · exact .inl h0
  · refine .inr ?_
    have hbits : fractionBits + exponentOf num den < bitLength (num / den) := by
      rw [exponentOf, precision] at *
      omega
    have hpow := pow_le_of_lt_bitLength hbits
    rw [Nat.le_div_iff_mul_le hd, Nat.pow_add, Nat.mul_assoc,
      Nat.mul_comm (2 ^ exponentOf num den)] at hpow
    exact hpow

theorem full_unbounded (num : ℕ) (hd : 0 < den) :
    Full (unbounded num den).1 (unbounded num den).2 := by
  have hD : 0 < den * 2 ^ exponentOf num den := Nat.mul_pos hd (Nat.two_pow_pos _)
  obtain ⟨hle, hge⟩ := roundDiv_bounds num (den * 2 ^ exponentOf num den)
  have hhi := div_lt_of_exponent num den
  rw [unbounded]
  split
  · exact ⟨show 2 ^ fractionBits < 2 ^ precision by decide, .inl (Nat.le_refl _)⟩
  · refine ⟨by dsimp only; omega, ?_⟩
    rcases le_of_exponent num hd with h0 | h0
    · exact .inr h0
    · exact .inl (Nat.le_trans ((Nat.le_div_iff_mul_le hD).2 h0) hle)

theorem canonical_of_roundUnits {p : ℕ × ℕ} (hd : 0 < den) (h : roundUnits num den = some p) :
    (finite false p.1 p.2).Canonical := by
  rw [roundUnits_eq] at h
  split at h
  · rename_i hmax
    obtain ⟨hbits, hfull⟩ := full_unbounded num hd
    cases h
    exact ⟨hbits, hmax, hfull⟩
  · cases h

theorem canonical_ofRatio (s : Bool) (hd : 0 < den) : (ofRatio s num den).Canonical := by
  rw [ofRatio, ofRatio?]
  cases h : roundUnits (num * 2 ^ unitExponent) den with
  | none => trivial
  | some p => exact canonical_of_roundUnits hd h

theorem canonical_ofDecimal (s : Bool) (digits : ℕ) (exp : ℤ) :
    (ofDecimal s digits exp).Canonical := by
  have hzero : (finite s 0 0).Canonical := by decide +revert
  unfold ofDecimal
  dsimp only
  split_ifs
  · exact hzero
  · trivial
  · exact hzero
  · exact canonical_ofRatio s (Nat.pow_pos (by decide))

end BuildClient.Binary64
