import BuildClient.Proofs.Number.Rounding

/-!
What a number is rounded to: the nearest value of the precision, and of two that are as near the one
with the even significand. The exponent is bounded only afterwards.
-/
namespace BuildClient.Binary64

-- Powers are those that core defines.
attribute [local instance (2000)] instPowNat

variable {num den k m e m' e' : ℕ} {q q' r : ℚ} {s s' : Bool} {x y : Binary64}

/-- How far a number of units lies from a quotient, counted in units over the denominator. -/
def gap (num den units : ℕ) : ℕ := ((units * den : ℕ) - num : ℤ).natAbs

theorem gap_mul_pow (num den k e : ℕ) : gap num den (k * 2 ^ e) = gap num (den * 2 ^ e) k := by
  rw [gap, gap, Nat.mul_assoc, Nat.mul_comm (2 ^ e)]

/-- Every other whole number is farther from the quotient, or as far and odd next to an even one. -/
theorem roundDiv_nearest (hd : 0 < den) (hk : k ≠ roundDiv num den) :
    gap num den (roundDiv num den) < gap num den k ∨
      gap num den (roundDiv num den) = gap num den k ∧ roundDiv num den % 2 = 0 ∧ k % 2 = 1 := by
  have hdiv : num / den * den + num % den = num := Nat.div_add_mod' num den
  have hr : num % den < den := Nat.mod_lt num hd
  have hnext : (num / den + 1) * den = num / den * den + den := Nat.succ_mul _ _
  have hfar : k * den + den ≤ num / den * den ∨ k = num / den ∨ k = num / den + 1 ∨
      num / den * den + 2 * den ≤ k * den := by
    rcases Nat.lt_or_ge k (num / den) with hlt | hge
    · have := Nat.mul_le_mul_right den hlt
      rw [Nat.succ_mul] at this
      exact .inl this
    · rcases Nat.lt_or_ge (num / den + 1) k with hlt | hle
      · have := Nat.mul_le_mul_right den hlt
        rw [Nat.succ_mul, hnext] at this
        omega
      · omega
  unfold roundDiv at hk ⊢
  dsimp only at hk ⊢
  unfold gap
  split_ifs at hk ⊢ with hbelow habove heven
  all_goals
    rcases hfar with hfar | rfl | rfl | hfar
    all_goals omega

theorem gap_roundDiv_le (num k : ℕ) (hd : 0 < den) :
    gap num den (roundDiv num den) ≤ gap num den k := by
  by_cases hk : k = roundDiv num den
  · rw [hk]
  · rcases roundDiv_nearest hd hk with h | ⟨h, -⟩
    · exact Nat.le_of_lt h
    · exact Nat.le_of_eq h

/-- What has a smaller exponent lies below all that has full length at this one. -/
theorem Full.lt_of_exponent_lt (h : Full m e) (he : e < e') :
    m * 2 ^ e < 2 ^ fractionBits * 2 ^ e' :=
  calc m * 2 ^ e < 2 ^ precision * 2 ^ e := Nat.mul_lt_mul_of_pos_right h.1 (Nat.two_pow_pos e)
    _ = 2 ^ fractionBits * 2 ^ (e + 1) := by
      rw [precision, Nat.pow_succ, Nat.pow_succ, Nat.mul_assoc, Nat.mul_comm 2]
    _ ≤ 2 ^ fractionBits * 2 ^ e' :=
      Nat.mul_le_mul_left _ (Nat.pow_le_pow_right (by decide) he)

/-- The result is a whole number of steps at its exponent, and even if that number is. -/
theorem unbounded_eq (num den : ℕ) :
    (unbounded num den).1 * 2 ^ (unbounded num den).2 =
        roundDiv num (den * 2 ^ exponentOf num den) * 2 ^ exponentOf num den ∧
      (roundDiv num (den * 2 ^ exponentOf num den) % 2 = 0 → (unbounded num den).1 % 2 = 0) := by
  rw [unbounded]
  split
  · rename_i h
    refine ⟨?_, fun _ => show 2 ^ fractionBits % 2 = 0 by decide⟩
    rw [h, precision, Nat.pow_succ, Nat.pow_succ, Nat.mul_assoc, Nat.mul_comm 2]
  · exact ⟨rfl, id⟩

/-- No value with a smaller exponent than the quotient's is as near as what it is rounded to. -/
theorem gap_lt_of_exponent_lt (hd : 0 < den) (hf : Full m e) (he : e < exponentOf num den) :
    gap num (den * 2 ^ exponentOf num den) (roundDiv num (den * 2 ^ exponentOf num den)) <
      gap num den (m * 2 ^ e) := by
  have hD : 0 < den * 2 ^ exponentOf num den := Nat.mul_pos hd (Nat.two_pow_pos _)
  have hlow := (le_of_exponent num hd).resolve_left (Nat.ne_of_gt (Nat.zero_lt_of_lt he))
  have hscaled := Nat.mul_lt_mul_of_pos_right (hf.lt_of_exponent_lt he) hd
  rw [Nat.mul_assoc (2 ^ fractionBits), Nat.mul_comm (2 ^ exponentOf num den)] at hscaled
  refine Nat.lt_of_le_of_lt (gap_roundDiv_le num (2 ^ fractionBits) hD) ?_
  rw [gap, gap]
  omega

theorem unbounded_nearest (hd : 0 < den) (hf : Full m e)
    (hne : m * 2 ^ e ≠ (unbounded num den).1 * 2 ^ (unbounded num den).2) :
    gap num den ((unbounded num den).1 * 2 ^ (unbounded num den).2) < gap num den (m * 2 ^ e) ∨
      gap num den ((unbounded num den).1 * 2 ^ (unbounded num den).2) = gap num den (m * 2 ^ e) ∧
        (unbounded num den).1 % 2 = 0 ∧ m % 2 = 1 := by
  obtain ⟨hunits, heven⟩ := unbounded_eq num den
  rw [hunits] at hne ⊢
  rw [gap_mul_pow num den (roundDiv _ _)]
  rcases Nat.lt_or_ge e (exponentOf num den) with he | he
  · exact .inl (gap_lt_of_exponent_lt hd hf he)
  · obtain ⟨d, rfl⟩ := Nat.exists_eq_add_of_le' he
    have hD : 0 < den * 2 ^ exponentOf num den := Nat.mul_pos hd (Nat.two_pow_pos _)
    have hsteps : m * 2 ^ (d + exponentOf num den) = m * 2 ^ d * 2 ^ exponentOf num den := by
      rw [Nat.pow_add, Nat.mul_assoc]
    rw [hsteps] at hne ⊢
    rw [gap_mul_pow]
    have hk : m * 2 ^ d ≠ roundDiv num (den * 2 ^ exponentOf num den) :=
      fun hk => hne (congrArg (· * 2 ^ exponentOf num den) hk)
    rcases roundDiv_nearest hD hk with h | ⟨h, hr, hodd⟩
    · exact .inl h
    · refine .inr ⟨h, heven hr, ?_⟩
      rcases Nat.mod_two_eq_zero_or_one m with hm | hm
      · rw [Nat.mul_mod, hm, Nat.zero_mul] at hodd
        cases hodd
      · exact hm

/-- The number that a significand and an exponent stand for. -/
def magnitude (m e : ℕ) : ℚ := m * 2 ^ e / 2 ^ unitExponent

theorem magnitude_nonneg (m e : ℕ) : 0 ≤ magnitude m e := by
  rw [magnitude]
  positivity

theorem magnitude_zero : magnitude 0 0 = 0 := by simp [magnitude]

theorem magnitude_eq_iff : magnitude m e = magnitude m' e' ↔ m * 2 ^ e = m' * 2 ^ e' := by
  have hu : (2 : ℚ) ^ unitExponent ≠ 0 := pow_ne_zero _ (by norm_num)
  rw [magnitude, magnitude, div_left_inj' hu]
  exact_mod_cast Iff.rfl

theorem distance_eq (hd : 0 < den) : |magnitude m e - num / den| =
    gap (num * 2 ^ unitExponent) den (m * 2 ^ e) / (den * 2 ^ unitExponent) := by
  have hden : (0 : ℚ) < den := by exact_mod_cast hd
  have hu : (0 : ℚ) < 2 ^ unitExponent := pow_pos (by norm_num) _
  have hsub : magnitude m e - num / den =
      (((m * 2 ^ e * den : ℕ) - (num * 2 ^ unitExponent : ℕ) : ℤ) : ℚ) /
        (den * 2 ^ unitExponent) := by
    rw [magnitude]
    push_cast
    field_simp
  rw [hsub, abs_div, abs_of_pos (mul_pos hden hu), gap, Nat.cast_natAbs, Int.cast_abs]

theorem full_zero : Full 0 0 := ⟨by decide, .inr rfl⟩

theorem Full.unique (h : Full m e) (h' : Full m' e') (hu : m * 2 ^ e = m' * 2 ^ e') :
    m = m' ∧ e = e' := by
  -- The significand at the smaller exponent would have too many bits.
  have key : ∀ {m e m' e' : ℕ}, Full m e → Full m' e' → m * 2 ^ e = m' * 2 ^ e' → ¬ e < e' := by
    intro m e m' e' h h' hu hlt
    obtain ⟨d, rfl⟩ := Nat.exists_eq_add_of_lt hlt
    have hm : m = m' * 2 ^ d * 2 := by
      refine Nat.eq_of_mul_eq_mul_right (Nat.two_pow_pos e) (hu.trans ?_)
      rw [Nat.pow_succ, Nat.pow_add]
      ring
    have hfull := h'.2.resolve_right (Nat.succ_ne_zero _)
    have hstep : m' ≤ m' * 2 ^ d := Nat.le_mul_of_pos_right m' (Nat.two_pow_pos d)
    have hbits := h.1
    rw [precision, Nat.pow_succ] at hbits
    omega
  have he : e = e' :=
    Nat.le_antisymm (Nat.le_of_not_lt (key h' h hu.symm)) (Nat.le_of_not_lt (key h h' hu))
  subst he
  exact ⟨Nat.eq_of_mul_eq_mul_right (Nat.two_pow_pos e) hu, rfl⟩

/-- Every other magnitude is farther from the number, or as far with an odd significand next to an
even one. -/
def Closest (r : ℚ) (m e : ℕ) : Prop := ∀ m' e', Full m' e' → magnitude m' e' ≠ magnitude m e →
  |magnitude m e - r| < |magnitude m' e' - r| ∨
    |magnitude m e - r| = |magnitude m' e' - r| ∧ m % 2 = 0 ∧ m' % 2 = 1

theorem closest_unbounded (num : ℕ) (hd : 0 < den) :
    Closest (num / den) (unbounded (num * 2 ^ unitExponent) den).1
      (unbounded (num * 2 ^ unitExponent) den).2 := by
  intro m' e' hf hne
  have hden : (0 : ℚ) < den * 2 ^ unitExponent :=
    mul_pos (by exact_mod_cast hd) (pow_pos (by norm_num) _)
  rw [distance_eq hd, distance_eq hd, div_lt_div_iff_of_pos_right hden,
    div_left_inj' (ne_of_gt hden), Nat.cast_lt, Nat.cast_inj]
  exact unbounded_nearest hd hf fun h => hne (magnitude_eq_iff.2 h)

theorem exists_closest (hr : 0 ≤ r) : ∃ m e, Full m e ∧ Closest r m e := by
  obtain ⟨n, hn⟩ := Int.eq_ofNat_of_zero_le (Rat.num_nonneg.2 hr)
  have hq : r = n / r.den := by
    rw [← Int.cast_natCast (R := ℚ), ← hn, Rat.num_div_den]
  rw [hq]
  exact ⟨_, _, full_unbounded _ r.den_pos, closest_unbounded n r.den_pos⟩

theorem Closest.eq_zero (h : Closest 0 m e) : magnitude m e = 0 := by
  by_contra hne
  rcases h 0 0 full_zero (by rw [magnitude_zero]; exact Ne.symm hne) with hlt | ⟨heq, -⟩
  · rw [magnitude_zero, sub_zero, sub_zero, abs_zero] at hlt
    exact absurd hlt (not_lt.2 (abs_nonneg _))
  · rw [magnitude_zero, sub_zero, sub_zero, abs_zero] at heq
    exact hne (abs_eq_zero.1 heq)

/-- The sign, also that of a zero. -/
def negative : Binary64 → Bool
  | nan => false
  | infinite s | finite s _ _ => s

def significand : Binary64 → ℕ
  | finite _ m _ => m
  | _ => 0

/-- The number that a finite value stands for. -/
def value : Binary64 → ℚ
  | finite s m e => if s then -magnitude m e else magnitude m e
  | _ => 0

/-- A finite value of the precision. Its exponent may be too great for the format. -/
def Wide : Binary64 → Prop
  | finite _ m e => Full m e
  | _ => False

/-- The value is what the number is rounded to. No other is nearer; of two that are as near it has
the even significand; and it has the sign of the number. -/
structure Rounds (q : ℚ) (x : Binary64) : Prop where
  wide : x.Wide
  sign : x.negative = decide (q < 0)
  nearest : ∀ y : Binary64, y.Wide → |x.value - q| ≤ |y.value - q|
  even : ∀ y : Binary64, y.Wide → |x.value - q| = |y.value - q| → y.value ≠ x.value →
    x.significand % 2 = 0

theorem exists_finite (h : x.Wide) : ∃ s m e, x = finite s m e := by
  cases x with
  | finite s m e => exact ⟨s, m, e, rfl⟩
  | _ => exact h.elim

theorem abs_value (s : Bool) (m e : ℕ) : |(finite s m e).value| = magnitude m e := by
  rw [value]
  split
  · rw [abs_neg, abs_of_nonneg (magnitude_nonneg m e)]
  · exact abs_of_nonneg (magnitude_nonneg m e)

/-- With the sign of the number, a value lies as far from it as the one magnitude from the other. -/
theorem distance_of_sign (m e : ℕ) (q : ℚ) :
    |(finite (decide (q < 0)) m e).value - q| = abs (magnitude m e - |q|) := by
  rw [value]
  by_cases hq : q < 0
  · rw [if_pos (decide_eq_true hq), abs_of_neg hq, ← abs_neg]
    ring_nf
  · rw [if_neg (by simpa using hq), abs_of_nonneg (not_lt.1 hq)]

/-- With either sign it lies at least as far. -/
theorem distance_le (s : Bool) (m e : ℕ) (q : ℚ) :
    abs (magnitude m e - |q|) ≤ |(finite s m e).value - q| := by
  rw [← abs_value s]
  exact abs_abs_sub_abs_le _ _

theorem Closest.lt_of_sign (h : Closest |q| m e) (hmag : magnitude m' e' = magnitude m e)
    (hne : (finite s m' e').value ≠ (finite (decide (q < 0)) m e).value) :
    |(finite (decide (q < 0)) m e).value - q| < |(finite s m' e').value - q| := by
  have hpos : 0 < magnitude m e := by
    refine lt_of_le_of_ne (magnitude_nonneg m e) fun h0 => hne ?_
    simp only [value, hmag, ← h0, neg_zero, ite_self]
  have hq : q ≠ 0 := by
    rintro rfl
    rw [abs_zero] at h
    exact ne_of_gt hpos h.eq_zero
  have hsum : abs (magnitude m e - |q|) < magnitude m e + |q| := by
    have := abs_pos.2 hq
    rw [abs_lt]
    constructor <;> linarith
  have hs : s ≠ decide (q < 0) := by
    rintro rfl
    exact hne (by rw [value, value, hmag])
  rw [distance_of_sign]
  refine hsum.trans_eq ?_
  rw [← hmag]
  rcases lt_or_ge q 0 with hneg | hnn
  · obtain rfl : s = false := by simpa [hneg] using hs
    change _ = |magnitude m' e' - q|
    rw [hmag, abs_of_neg hneg, abs_of_pos (by linarith), sub_eq_add_neg]
  · obtain rfl : s = true := by simpa [not_lt.2 hnn] using hs
    change _ = |-magnitude m' e' - q|
    rw [hmag, abs_of_nonneg hnn, abs_of_neg (by linarith)]
    ring

theorem Closest.nearest (h : Closest |q| m e) (hy : y.Wide)
    (hne : y.value ≠ (finite (decide (q < 0)) m e).value) :
    |(finite (decide (q < 0)) m e).value - q| < |y.value - q| ∨
      |(finite (decide (q < 0)) m e).value - q| = |y.value - q| ∧
        m % 2 = 0 ∧ y.significand % 2 = 1 := by
  obtain ⟨s, m', e', rfl⟩ := exists_finite hy
  by_cases hmag : magnitude m' e' = magnitude m e
  · exact .inl (h.lt_of_sign hmag hne)
  · have hle := distance_le s m' e' q
    rw [distance_of_sign]
    rcases h m' e' hy hmag with hlt | ⟨heq, hpar⟩
    · exact .inl (hlt.trans_le hle)
    · rw [heq]
      exact hle.lt_or_eq.imp_right fun h => ⟨h, hpar⟩

theorem Rounds.of_closest (hf : Full m e) (h : Closest |q| m e) :
    Rounds q (finite (decide (q < 0)) m e) where
  wide := hf
  sign := rfl
  nearest y hy := by
    by_cases hne : y.value = (finite (decide (q < 0)) m e).value
    · rw [hne]
    · rcases h.nearest hy hne with hlt | ⟨heq, -⟩
      · exact hlt.le
      · exact heq.le
  even y hy heq hne := by
    rcases h.nearest hy hne with hlt | ⟨-, hm, -⟩
    · exact absurd heq hlt.ne
    · exact hm

theorem exists_rounds (q : ℚ) : ∃ x, Rounds q x := by
  obtain ⟨m, e, hf, hc⟩ := exists_closest (abs_nonneg q)
  exact ⟨_, .of_closest hf hc⟩

/-- Of two that are as near, only one has an even significand. -/
theorem Rounds.value_unique (h : Rounds q x) (h' : Rounds q y) : x.value = y.value := by
  obtain ⟨m, e, hf, hc⟩ := exists_closest (abs_nonneg q)
  have hr := Rounds.of_closest hf hc
  have key : ∀ z : Binary64, Rounds q z → z.value = (finite (decide (q < 0)) m e).value := by
    intro z hz
    by_contra hne
    rcases hc.nearest hz.wide hne with hlt | ⟨heq, -, hodd⟩
    · exact absurd (hz.nearest _ hr.wide) (not_le.2 hlt)
    · have heven := hz.even _ hr.wide heq.symm (Ne.symm hne)
      rw [heven] at hodd
      cases hodd
  rw [key x h, key y h']

/-- The number tells the significand and the exponent. -/
theorem parts_of_value (h : Full m e) (h' : Full m' e')
    (hv : (finite s m e).value = (finite s' m' e').value) : m = m' ∧ e = e' := by
  have hmag := congrArg abs hv
  rw [abs_value, abs_value, magnitude_eq_iff] at hmag
  exact Full.unique h h' hmag

/-- A value is told by its sign and its number. -/
theorem Wide.ext (h : x.Wide) (h' : y.Wide) (hs : x.negative = y.negative)
    (hv : x.value = y.value) : x = y := by
  obtain ⟨s, m, e, rfl⟩ := exists_finite h
  obtain ⟨s', m', e', rfl⟩ := exists_finite h'
  obtain rfl : s = s' := hs
  obtain ⟨rfl, rfl⟩ := parts_of_value h h' hv
  rfl

/-- The number alone tells whether a value is in the finite range. -/
theorem Wide.canonical_congr (h : x.Wide) (h' : y.Wide) (hv : x.value = y.value) :
    x.Canonical ↔ y.Canonical := by
  obtain ⟨s, m, e, rfl⟩ := exists_finite h
  obtain ⟨s', m', e', rfl⟩ := exists_finite h'
  obtain ⟨rfl, rfl⟩ := parts_of_value h h' hv
  exact Iff.rfl

theorem Rounds.unique (h : Rounds q x) (h' : Rounds q y) : x = y :=
  h.wide.ext h'.wide (h.sign.trans h'.sign.symm) (h.value_unique h')

/-- The middle of two numbers is on the side of the one that is farther away. -/
theorem add_le_of_nearer {a b : ℚ} (h : |a - q| ≤ |b - q|) (hlt : b < a) : a + b ≤ 2 * q := by
  have hsq := sq_le_sq.2 h
  nlinarith

theorem le_add_of_nearer {a b : ℚ} (h : |a - q| ≤ |b - q|) (hlt : a < b) : 2 * q ≤ a + b := by
  have hsq := sq_le_sq.2 h
  nlinarith

/-- Rounding keeps the order. -/
theorem Rounds.mono (h : Rounds q x) (h' : Rounds q' y) (hle : q ≤ q') : x.value ≤ y.value := by
  rcases hle.eq_or_lt with rfl | hlt
  · exact (h.value_unique h').le
  · by_contra hgt
    have hlow := add_le_of_nearer (h.nearest y h'.wide) (not_le.1 hgt)
    have hhigh := le_add_of_nearer (h'.nearest x h.wide) (not_le.1 hgt)
    linarith

/-- A number that is a value is rounded to itself. -/
theorem Rounds.value_eq (h : Rounds q x) (hy : y.Wide) (hv : y.value = q) : x.value = q := by
  have hn := h.nearest y hy
  rw [hv, sub_self, abs_zero] at hn
  exact sub_eq_zero.1 (abs_eq_zero.1 (le_antisymm hn (abs_nonneg _)))

/-- The greatest finite value of the format. -/
theorem magnitude_greatest : magnitude (2 ^ precision - 1) maxExponent = 2 ^ 1024 - 2 ^ 971 := by
  have hu : (2 : ℚ) ^ unitExponent ≠ 0 := pow_ne_zero _ (by norm_num)
  have hlow : (2 : ℚ) ^ 971 * 2 ^ unitExponent = 2 ^ maxExponent := (pow_add 2 971 1074).symm
  have hhigh : (2 : ℚ) ^ 1024 * 2 ^ unitExponent = 2 ^ precision * 2 ^ maxExponent := by
    rw [← pow_add, ← pow_add]
    rfl
  rw [magnitude, div_eq_iff hu, sub_mul, hlow, hhigh, Nat.cast_sub (Nat.one_le_two_pow)]
  push_cast
  ring

/-- The power of two behind it. -/
theorem magnitude_beyond : magnitude (2 ^ fractionBits) (maxExponent + 1) = 2 ^ 1024 := by
  have hu : (2 : ℚ) ^ unitExponent ≠ 0 := pow_ne_zero _ (by norm_num)
  rw [magnitude, div_eq_iff hu, ← pow_add]
  push_cast
  rw [← pow_add]
  rfl

theorem full_greatest : Full (2 ^ precision - 1) maxExponent := ⟨by decide, .inl (by decide)⟩

theorem full_beyond : Full (2 ^ fractionBits) (maxExponent + 1) := ⟨by decide, .inl (by decide)⟩

theorem magnitude_le_greatest (h : Full m e) (he : e ≤ maxExponent) :
    magnitude m e ≤ magnitude (2 ^ precision - 1) maxExponent := by
  rw [magnitude, magnitude]
  gcongr
  · exact Nat.le_sub_one_of_lt h.1
  · norm_num

theorem beyond_le_magnitude (h : Full m e) (he : maxExponent < e) :
    magnitude (2 ^ fractionBits) (maxExponent + 1) ≤ magnitude m e := by
  have hm := h.2.resolve_right (Nat.ne_of_gt (Nat.zero_lt_of_lt he))
  rw [magnitude, magnitude]
  gcongr
  · norm_num
  · exact he

/-- Halfway between the greatest finite value and the power of two behind it, which has the even
significand of the two. -/
def overflowBound : ℚ := 2 ^ 1024 - 2 ^ 970

theorem greatest_add_beyond : magnitude (2 ^ precision - 1) maxExponent +
    magnitude (2 ^ fractionBits) (maxExponent + 1) = 2 * overflowBound := by
  have hpow : (2 : ℚ) ^ 971 = 2 ^ 970 * 2 := pow_succ 2 970
  rw [magnitude_greatest, magnitude_beyond, overflowBound, hpow]
  generalize (2 : ℚ) ^ 1024 = a
  generalize (2 : ℚ) ^ 970 = b
  ring

theorem greatest_lt_beyond : magnitude (2 ^ precision - 1) maxExponent <
    magnitude (2 ^ fractionBits) (maxExponent + 1) := by
  rw [magnitude_greatest, magnitude_beyond]
  exact sub_lt_self _ (pow_pos (by norm_num) _)

theorem Rounds.nearest_magnitude (h : Rounds q (finite s m e)) (hf : Full m' e') :
    abs (magnitude m e - |q|) ≤ abs (magnitude m' e' - |q|) := by
  obtain rfl : s = decide (q < 0) := h.sign
  have hn := h.nearest (finite (decide (q < 0)) m' e') hf
  rwa [distance_of_sign, distance_of_sign] at hn

theorem Rounds.even_magnitude (h : Rounds q (finite s m e)) (hf : Full m' e')
    (heq : abs (magnitude m e - |q|) = abs (magnitude m' e' - |q|))
    (hne : magnitude m' e' ≠ magnitude m e) : m % 2 = 0 := by
  obtain rfl : s = decide (q < 0) := h.sign
  refine h.even (finite (decide (q < 0)) m' e') hf ?_ fun hv => hne ?_
  · rw [distance_of_sign, distance_of_sign, heq]
  · rw [← abs_value, hv, abs_value]

/-- At the bound itself the greatest value is as near as the power of two, but odd. -/
theorem Rounds.lt_of_exponent_le (h : Rounds q (finite s m e)) (he : e ≤ maxExponent) :
    |q| < overflowBound := by
  have hfull : Full m e := h.wide
  have hsum := greatest_add_beyond
  have hlt := greatest_lt_beyond
  by_contra hge
  rw [not_lt] at hge
  have hle := magnitude_le_greatest hfull he
  have hmid := le_add_of_nearer (h.nearest_magnitude full_beyond) (hle.trans_lt hlt)
  have hgreatest : magnitude m e = magnitude (2 ^ precision - 1) maxExponent :=
    le_antisymm hle (by linarith)
  have hq : |q| = overflowBound := by linarith
  have htie : abs (magnitude m e - |q|) =
      abs (magnitude (2 ^ fractionBits) (maxExponent + 1) - |q|) := by
    rw [hgreatest, hq, abs_of_neg (by linarith), abs_of_pos (by linarith)]
    linarith
  have heven := h.even_magnitude full_beyond htie (by rw [hgreatest]; exact hlt.ne')
  obtain ⟨rfl, -⟩ := Full.unique hfull full_greatest (magnitude_eq_iff.1 hgreatest)
  revert heven
  decide

theorem Rounds.le_of_exponent_gt (h : Rounds q (finite s m e)) (he : maxExponent < e) :
    overflowBound ≤ |q| := by
  have hsum := greatest_add_beyond
  have hge := beyond_le_magnitude h.wide he
  have hmid :=
    add_le_of_nearer (h.nearest_magnitude full_greatest) (greatest_lt_beyond.trans_le hge)
  linarith

/-- Rounding stays in the finite range just below the bound. -/
theorem Rounds.canonical_iff (h : Rounds q x) : x.Canonical ↔ |q| < overflowBound := by
  obtain ⟨s, m, e, rfl⟩ := exists_finite h.wide
  constructor
  · rintro ⟨-, he, -⟩
    exact h.lt_of_exponent_le he
  · intro hq
    by_contra hc
    have he : maxExponent < e := by
      by_contra he
      exact hc ⟨h.wide.1, not_lt.1 he, h.wide.2⟩
    exact absurd hq (not_lt.2 (h.le_of_exponent_gt he))

/-- A quotient gives the value that its number is rounded to, or nothing if that leaves the finite
range. -/
theorem ofRatio?_eq (hd : 0 < den) (hs : s = decide (q < 0)) (hq : |q| = num / den)
    (h : Rounds q x) : ofRatio? s num den = if x.Canonical then some x else none := by
  have hc := closest_unbounded num hd
  have hf := full_unbounded (num * 2 ^ unitExponent) hd
  rw [ofRatio?, roundUnits_eq]
  generalize unbounded (num * 2 ^ unitExponent) den = p at hc hf ⊢
  rw [← hq] at hc
  obtain rfl := h.unique (.of_closest hf hc)
  have hcanonical : (finite (decide (q < 0)) p.1 p.2).Canonical ↔ p.2 ≤ maxExponent :=
    ⟨fun hx => hx.2.1, fun he => ⟨hf.1, he, hf.2⟩⟩
  by_cases he : p.2 ≤ maxExponent
  · rw [if_pos he, if_pos (hcanonical.2 he), hs]
    rfl
  · rw [if_neg he, if_neg (mt hcanonical.1 he)]
    rfl

end BuildClient.Binary64
