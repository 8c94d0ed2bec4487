import BuildClient.Number.Shortest
import BuildClient.Proofs.Number.Rounding

/-! The shortest decimal of a binary value is read as that value. -/
namespace BuildClient

-- Powers are those that core defines.
attribute [local instance (2000)] instPowNat

open Binary64 Shortest

variable {m e : ℕ} {d d' : Decimal}

/-- The number that a decimal stands for. -/
def Decimal.value (d : Decimal) : ℚ := d.digits * 10 ^ d.exp

theorem Decimal.value_nonneg (d : Decimal) : 0 ≤ d.value :=
  mul_nonneg (Nat.cast_nonneg _) (zpow_nonneg (by norm_num) _)

namespace Shortest

theorem ratio_den_pos (d : Decimal) : 0 < (ratio d).2 := Nat.pow_pos (by decide)

theorem ratio_value (d : Decimal) : ((ratio d).1 : ℚ) = d.value * (ratio d).2 := by
  obtain ⟨digits, exp⟩ := d
  simp only [ratio, Decimal.value]
  push_cast
  rcases Int.le_total 0 exp with h | h
  · obtain ⟨n, rfl⟩ := Int.eq_ofNat_of_zero_le h
    simp
  · obtain ⟨n, hn⟩ := Int.eq_ofNat_of_zero_le (Int.neg_nonneg_of_nonpos h)
    obtain rfl : exp = -(n : ℤ) := by omega
    have h10 : (10 : ℚ) ^ n ≠ 0 := by positivity
    simp [zpow_neg, h10]

/-- Decimals of one value have equal quotients. -/
theorem ratio_cross (h : d.value = d'.value) :
    (ratio d).1 * (ratio d').2 = (ratio d').1 * (ratio d).2 := by
  have hq : ((ratio d).1 * (ratio d').2 : ℚ) = (ratio d').1 * (ratio d).2 := by
    rw [ratio_value d, ratio_value d', h]
    ring
  exact_mod_cast hq

end Shortest

/-- Only the quotient counts. -/
theorem Binary64.Near.of_ratio {num den num' den' : ℕ} (hd : 0 < den) (hd' : 0 < den')
    (h : num * den' = num' * den) (hn : Near m e num den) : Near m e num' den' := by
  have hscale : ∀ k : ℕ, k * (den' * 2 ^ e) * den = k * (den * 2 ^ e) * den' := fun k => by ring
  have hnum : 4 * num' * den = 4 * num * den' := by
    rw [Nat.mul_assoc, ← h, Nat.mul_assoc]
  refine ⟨?_, ?_, fun hm => ⟨?_, ?_⟩⟩
  · refine Nat.le_of_mul_le_mul_right ?_ hd
    rw [hscale, hnum]
    exact Nat.mul_le_mul_right den' hn.above
  · refine Nat.le_of_mul_le_mul_right ?_ hd
    rw [hscale, hnum]
    exact Nat.mul_le_mul_right den' hn.below
  · refine Nat.lt_of_mul_lt_mul_right (a := den) ?_
    rw [hscale, hnum]
    exact Nat.mul_lt_mul_of_pos_right (hn.odd hm).1 hd'
  · refine Nat.lt_of_mul_lt_mul_right (a := den) ?_
    rw [hscale, hnum]
    exact Nat.mul_lt_mul_of_pos_right (hn.odd hm).2 hd'

namespace Shortest

theorem le_of_ratioLe {strict : Bool} {a b c k : ℕ} (h : ratioLe strict a c b k = true) :
    a * k ≤ b * c := by
  cases strict
  · simpa [ratioLe] using h
  · exact Nat.le_of_lt (by simpa [ratioLe] using h)

theorem lt_of_ratioLe {a b c k : ℕ} (h : ratioLe true a c b k = true) : a * k < b * c := by
  simpa [ratioLe] using h

/-- The numbers that a decimal must lie among to read back. -/
theorem near_of_readsBack (h : readsBack m e d = true) :
    Near m e ((ratio d).1 * 2 ^ unitExponent) (ratio d).2 := by
  have hpow : 2 ^ (unitExponent + 2) = 4 * 2 ^ unitExponent := by
    rw [Nat.pow_add, Nat.mul_comm]
  simp only [readsBack, Bool.and_eq_true, hpow] at h
  obtain ⟨hlo, hhi⟩ := h
  refine ⟨?_, ?_, fun hm => ?_⟩
  · have := le_of_ratioLe hlo
    calc _ = _ := by ring
      _ ≤ _ := this
      _ = _ := by ring
  · have := le_of_ratioLe hhi
    calc _ = _ := by ring
      _ ≤ _ := this
      _ = _ := by ring
  · have hn : ¬ (m = 2 ^ fractionBits ∧ 0 < e) := by
      rintro ⟨rfl, -⟩
      exact absurd hm (by decide)
    rw [hm] at hlo hhi
    have hl := lt_of_ratioLe hlo
    have hh := lt_of_ratioLe hhi
    simp only [if_neg hn] at hl
    constructor
    · calc _ = _ := by ring
        _ < _ := hl
        _ = _ := by ring
    · calc _ = _ := by ring
        _ < _ := hh
        _ = _ := by ring

theorem readsBack_of_onGrid? {g : ℤ} (h : onGrid? m e g = some d) : readsBack m e d = true := by
  simp only [onGrid?] at h
  split at h
  · rename_i hlow hhigh
    rw [Bool.and_eq_true] at hlow
    split at h
    · cases h
      exact hlow.1
    · cases h
      exact hhigh
  · rename_i hlow _
    rw [Bool.and_eq_true] at hlow
    cases h
    exact hlow.1
  · rename_i _ hhigh
    cases h
    exact hhigh
  · cases h

theorem value_strip (fuel : ℕ) (d : Decimal) : (strip fuel d).value = d.value := by
  induction fuel generalizing d with
  | zero => rfl
  | succ fuel ih =>
    rw [strip]
    split
    · rename_i h
      rw [ih]
      obtain ⟨q, hq⟩ := Nat.dvd_of_mod_eq_zero h.2
      have h10 : (10 : ℚ) ≠ 0 := by norm_num
      simp only [Decimal.value, hq, Nat.mul_div_cancel_left q (by decide : 0 < 10)]
      rw [zpow_add_one₀ h10]
      push_cast
      ring
    · rfl

/-- A value is near itself. -/
theorem near_self (m e : ℕ) : Near m e (m * 2 ^ e) 1 := by
  have hp : 0 < 2 ^ e := Nat.two_pow_pos e
  refine ⟨?_, ?_, fun hm => ⟨?_, ?_⟩⟩
  · rw [Nat.one_mul, ← Nat.mul_assoc]
    exact Nat.mul_le_mul_right _ (Nat.sub_le _ _)
  · rw [Nat.one_mul, ← Nat.mul_assoc]
    exact Nat.mul_le_mul_right _ (Nat.le_add_right _ _)
  · rw [Nat.one_mul, ← Nat.mul_assoc]
    exact Nat.mul_lt_mul_of_pos_right (by omega) hp
  · rw [Nat.one_mul, ← Nat.mul_assoc]
    exact Nat.mul_lt_mul_of_pos_right (by omega) hp

/-- Whichever decimal is selected, it is near the value. -/
theorem near_select (m e : ℕ) :
    Near m e ((ratio (select m e)).1 * 2 ^ unitExponent) (ratio (select m e)).2 := by
  simp only [select]
  split
  · rename_i d hfound
    obtain ⟨n, -, hn⟩ := List.exists_of_findSome?_eq_some hfound
    refine (near_of_readsBack (readsBack_of_onGrid? hn)).of_ratio (ratio_den_pos _)
      (ratio_den_pos _) ?_
    rw [Nat.mul_right_comm, ← ratio_cross (value_strip 20 d), Nat.mul_right_comm]
  · refine (near_self m e).of_ratio Nat.one_pos (ratio_den_pos _) ?_
    generalize unitExponent = u
    have hpow : 10 ^ u = 2 ^ u * 5 ^ u := by rw [← Nat.mul_pow]
    have hneg : (-(u : ℤ)).toNat = 0 := by omega
    have hpos : (- -(u : ℤ)).toNat = u := by omega
    simp only [ratio, hneg, hpos, hpow]
    ring

end Shortest

namespace Binary64

/-- Values that a significand and an exponent can stand for lie well inside the bounds of size. -/
theorem Near.size (hm : 0 < m) (hc : (finite false m e).Canonical)
    (h : Near m e ((ratio d).1 * 2 ^ unitExponent) (ratio d).2) :
    (10 : ℚ) ^ (-400 : ℤ) ≤ d.value ∧ d.value < 10 ^ (400 : ℤ) := by
  obtain ⟨hlt, he, -⟩ := hc
  have hden : (0 : ℚ) < (ratio d).2 := by exact_mod_cast ratio_den_pos d
  have hlo : (ratio d).2 ≤ 4 * ((ratio d).1 * 2 ^ unitExponent) := by
    refine Nat.le_trans ?_ h.above
    rw [Nat.mul_left_comm]
    refine Nat.le_mul_of_pos_right _ (Nat.mul_pos ?_ (Nat.two_pow_pos e))
    split <;> omega
  have hhi : 4 * ((ratio d).1 * 2 ^ unitExponent) ≤ 2 ^ (55 + maxExponent) * (ratio d).2 := by
    refine Nat.le_trans h.below ?_
    rw [Nat.pow_add, Nat.mul_comm (ratio d).2, ← Nat.mul_assoc]
    refine Nat.mul_le_mul_right _ (Nat.mul_le_mul ?_ (Nat.pow_le_pow_right (by decide) he))
    have hp : 2 ^ precision = 9007199254740992 := by decide
    omega
  have hpow : (2 : ℚ) ^ (unitExponent + 2) = 4 * 2 ^ unitExponent := by
    rw [pow_add]
    ring
  have hlo' : 1 ≤ d.value * 2 ^ (unitExponent + 2) := by
    refine le_of_mul_le_mul_right ?_ hden
    have hq : ((ratio d).2 : ℚ) ≤ 4 * ((ratio d).1 * 2 ^ unitExponent) := by exact_mod_cast hlo
    rw [ratio_value] at hq
    calc 1 * ((ratio d).2 : ℚ) = (ratio d).2 := one_mul _
      _ ≤ _ := hq
      _ = _ := by rw [hpow]; ring
  have hhi' : d.value * 2 ^ (unitExponent + 2) ≤ 2 ^ (55 + maxExponent) := by
    refine le_of_mul_le_mul_right ?_ hden
    have hq : 4 * (((ratio d).1 : ℚ) * 2 ^ unitExponent) ≤
        2 ^ (55 + maxExponent) * (ratio d).2 := by
      exact_mod_cast hhi
    rw [ratio_value] at hq
    calc _ = _ := by rw [hpow]; ring
      _ ≤ _ := hq
  have hten : ∀ n k : ℕ, n ≤ 13 * k → 4 * k ≤ 400 → (2 : ℚ) ^ n ≤ 10 ^ 400 := by
    intro n k hn hk
    calc (2 : ℚ) ^ n ≤ 2 ^ (13 * k) := pow_le_pow_right₀ (by norm_num) hn
      _ = (2 ^ 13) ^ k := pow_mul 2 13 k
      _ ≤ (10 ^ 4) ^ k := pow_le_pow_left₀ (by norm_num) (by norm_num) k
      _ = 10 ^ (4 * k) := (pow_mul 10 4 k).symm
      _ ≤ 10 ^ 400 := pow_le_pow_right₀ (by norm_num) hk
  have hp : (0 : ℚ) < 2 ^ (unitExponent + 2) := pow_pos (by norm_num) _
  constructor
  · have hle := hten (unitExponent + 2) 83 (by decide) (by decide)
    have hone : 1 ≤ d.value * 10 ^ 400 := hlo'.trans (mul_le_mul_of_nonneg_left hle d.value_nonneg)
    rw [zpow_neg, zpow_ofNat]
    exact (inv_le_iff_one_le_mul₀ (pow_pos (by norm_num) 400)).2 hone
  · have hup : d.value ≤ 2 ^ 1024 := by
      refine le_of_mul_le_mul_right ?_ hp
      rw [← pow_add]
      exact hhi'
    calc d.value ≤ 2 ^ 1024 := hup
      _ < 2 ^ 1025 := pow_lt_pow_right₀ (by norm_num) (by decide)
      _ ≤ 10 ^ 400 := hten 1025 79 (by decide) (by decide)
      _ = 10 ^ (400 : ℤ) := (zpow_ofNat 10 400).symm

theorem Near.digits_ne_zero (hm : 0 < m) (hc : (finite false m e).Canonical)
    (h : Near m e ((ratio d).1 * 2 ^ unitExponent) (ratio d).2) : d.digits ≠ 0 := by
  intro h0
  have hlo := (h.size hm hc).1
  rw [Decimal.value, h0, Nat.cast_zero, zero_mul] at hlo
  exact absurd hlo (not_le.2 (zpow_pos (by norm_num) _))

/-- A decimal near a value is read as that value. -/
theorem ofDecimal_of_near (s : Bool) (hm : 0 < m) (hc : (finite false m e).Canonical)
    (h : Near m e ((ratio d).1 * 2 ^ unitExponent) (ratio d).2) :
    ofDecimal s d.digits d.exp = finite s m e := by
  obtain ⟨hlo, hhi⟩ := h.size hm hc
  have hdigits := h.digits_ne_zero hm hc
  obtain ⟨k, hk⟩ : ∃ k, (Nat.toDigits 10 d.digits).length = k + 1 :=
    ⟨_, (Nat.succ_pred_eq_of_pos Nat.length_toDigits_pos).symm⟩
  have hlt : d.digits < 10 ^ (k + 1) :=
    (Nat.length_toDigits_le_iff (by decide) (by omega)).1 (Nat.le_of_eq hk)
  have hge : 10 ^ k ≤ d.digits := by
    rcases Nat.eq_zero_or_pos k with rfl | hk0
    · exact Nat.one_le_iff_ne_zero.2 hdigits
    · by_contra hn
      have := (Nat.length_toDigits_le_iff (by decide) hk0).2 (Nat.lt_of_not_le hn)
      omega
  have hbelow : d.value < 10 ^ ((k : ℤ) + 1 + d.exp) := by
    rw [zpow_add₀ (by norm_num)]
    refine mul_lt_mul_of_pos_right ?_ (zpow_pos (by norm_num) _)
    exact_mod_cast hlt
  have habove : 10 ^ ((k : ℤ) + d.exp) ≤ d.value := by
    rw [zpow_add₀ (by norm_num)]
    refine mul_le_mul_of_nonneg_right ?_ (zpow_nonneg (by norm_num) _)
    exact_mod_cast hge
  have hsmall : (-400 : ℤ) < (k : ℤ) + 1 + d.exp :=
    (zpow_lt_zpow_iff_right₀ (by norm_num)).1 (hlo.trans_lt hbelow)
  have hlarge : (k : ℤ) + d.exp < 400 :=
    (zpow_lt_zpow_iff_right₀ (by norm_num)).1 (habove.trans_lt hhi)
  rw [ofDecimal, if_neg hdigits]
  simp only [hk]
  rw [if_neg (by push_cast; omega), if_neg (by push_cast; omega)]
  change ofRatio s (ratio d).1 (ratio d).2 = _
  rw [ofRatio, ofRatio?, roundUnits_of_near (ratio_den_pos d) hc h]
  rfl

/-- However the selected decimal is written, it is read as the value it was selected for. -/
theorem ofDecimal_of_value_eq (s : Bool) (hm : 0 < m) (hc : (finite false m e).Canonical)
    (hv : d.value = (select m e).value) : ofDecimal s d.digits d.exp = finite s m e := by
  refine ofDecimal_of_near s hm hc
    ((near_select m e).of_ratio (ratio_den_pos _) (ratio_den_pos _) ?_)
  rw [Nat.mul_right_comm, ← ratio_cross hv, Nat.mul_right_comm]

end Binary64

end BuildClient
