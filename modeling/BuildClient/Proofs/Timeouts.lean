import BuildClient.Proofs.Number.Nearest
import BuildClient.Upload

/-! How long an upload may take: a whole number of units, told in seconds and rounded once. -/
namespace BuildClient

open Binary64

namespace Parameters

/-- The timeout in seconds, if one is set. -/
def timeoutSeconds (p : Parameters) : Except Foreign (Option Binary64) :=
  match p.timeout with
  | none => .ok none
  | some value =>
    (seconds? value p.timeoutUnit).elim (.error .durationTooLarge) fun seconds => .ok (some seconds)

/-- What is told of a timeout of so many units. -/
def told (p : Parameters) (t : ℤ) (unit : TimeoutUnit) : Except Foreign (Option Binary64) :=
  (p.withTimeout (some (.int t)) unit).timeoutSeconds

/-- So many units in seconds. -/
def duration (t : ℤ) (unit : TimeoutUnit) : ℚ := t * unit.inMilliseconds / 1000

variable {p : Parameters} {t t' : ℤ} {unit unit' : TimeoutUnit} {x y : Binary64}

theorem inMilliseconds_pos (unit : TimeoutUnit) : 0 < unit.inMilliseconds := by
  cases unit <;> decide

theorem duration_neg_iff : duration t unit < 0 ↔ t < 0 := by
  have hu : (0 : ℚ) < unit.inMilliseconds := by exact_mod_cast inMilliseconds_pos unit
  have hsec : (0 : ℚ) < 1000 := by norm_num
  rw [duration, div_lt_iff₀ hsec, zero_mul, ← zero_mul (unit.inMilliseconds : ℚ),
    mul_lt_mul_iff_left₀ hu, Int.cast_lt_zero]

theorem abs_duration (t : ℤ) (unit : TimeoutUnit) :
    |duration t unit| = (t.natAbs * unit.inMilliseconds : ℕ) / (1000 : ℕ) := by
  rw [duration, abs_div, abs_mul, Nat.abs_cast]
  push_cast [Nat.cast_natAbs]
  norm_num

theorem duration_le (h : t ≤ t') : duration t unit ≤ duration t' unit := by
  rw [duration, duration]
  gcongr

theorem abs_duration_le (h : t.natAbs ≤ t'.natAbs) : |duration t unit| ≤ |duration t' unit| := by
  rw [abs_duration, abs_duration]
  gcongr

theorem duration_eq (h : t * unit.inMilliseconds = t' * unit'.inMilliseconds) :
    duration t unit = duration t' unit' := by
  have hq : (t : ℚ) * unit.inMilliseconds = t' * unit'.inMilliseconds := by exact_mod_cast h
  rw [duration, duration, hq]

theorem told_eq (p : Parameters) (h : Rounds (duration t unit) x) :
    p.told t unit = if x.Canonical then .ok (some x) else .error .durationTooLarge := by
  have hs : ofRatio? (decide (t < 0)) (t.natAbs * unit.inMilliseconds) 1000 =
      if x.Canonical then some x else none :=
    ofRatio?_eq (by decide) (by simp only [duration_neg_iff]) (abs_duration t unit) h
  -- The quotient stays folded here; simplifying under it would compute powers of a thousand bits.
  have htold : p.told t unit =
      (ofRatio? (decide (t < 0)) (t.natAbs * unit.inMilliseconds) 1000).elim
        (.error .durationTooLarge) fun seconds => .ok (some seconds) := rfl
  rw [htold, hs]
  split <;> rfl

theorem told_eq_ok (h : p.told t unit = .ok (some x)) :
    Rounds (duration t unit) x ∧ x.Canonical := by
  obtain ⟨y, hy⟩ := exists_rounds (duration t unit)
  rw [told_eq p hy] at h
  split at h
  · rename_i hc
    cases h
    exact ⟨hy, hc⟩
  · cases h

theorem told_eq_error_iff :
    p.told t unit = .error .durationTooLarge ↔ overflowBound ≤ |duration t unit| := by
  obtain ⟨x, hx⟩ := exists_rounds (duration t unit)
  rw [told_eq p hx, ← not_lt, ← hx.canonical_iff]
  split
  · rename_i hc
    exact ⟨nofun, fun h => absurd hc h⟩
  · rename_i hc
    exact ⟨fun _ => hc, fun _ => rfl⟩

theorem told_exact (hw : y.Wide) (hc : y.Canonical) (hv : y.value = duration t unit) :
    ∃ x, p.told t unit = .ok (some x) ∧ x.value = duration t unit := by
  obtain ⟨x, hx⟩ := exists_rounds (duration t unit)
  have hexact := hx.value_eq hw hv
  have hcanonical := (hx.wide.canonical_congr hw (hexact.trans hv.symm)).2 hc
  exact ⟨x, by rw [told_eq p hx, if_pos hcanonical], hexact⟩

theorem told_mono (h : t ≤ t') (hx : p.told t unit = .ok (some x))
    (hy : p.told t' unit = .ok (some y)) : x.value ≤ y.value :=
  (told_eq_ok hx).1.mono (told_eq_ok hy).1 (duration_le h)

theorem told_too_large_mono (h : t.natAbs ≤ t'.natAbs)
    (ht : p.told t unit = .error .durationTooLarge) :
    p.told t' unit = .error .durationTooLarge :=
  told_eq_error_iff.2 ((told_eq_error_iff.1 ht).trans (abs_duration_le h))

theorem told_congr (h : t * unit.inMilliseconds = t' * unit'.inMilliseconds) :
    p.told t unit = p.told t' unit' := by
  obtain ⟨x, hx⟩ := exists_rounds (duration t unit)
  rw [told_eq p hx, told_eq p (duration_eq h ▸ hx)]

/-- What is told of a timeout is its exact duration, rounded once. -/
structure RoundsOnce (p : Parameters) : Prop where
  /-- There is one value that the duration is rounded to. It is told if it is in the finite
  range. -/
  rounded : ∀ t unit, ∃ x, Rounds (duration t unit) x ∧ (∀ y, Rounds (duration t unit) y → y = x) ∧
    p.told t unit = if x.Canonical then .ok (some x) else .error .durationTooLarge
  overflow : ∀ t unit, p.told t unit = .error .durationTooLarge ↔
    overflowBound ≤ |duration t unit|
  mono : ∀ unit t t' x y, t ≤ t' → p.told t unit = .ok (some x) → p.told t' unit = .ok (some y) →
    x.value ≤ y.value
  /-- A longer one is too long as well. -/
  overflow_mono : ∀ unit t t', t.natAbs ≤ t'.natAbs → p.told t unit = .error .durationTooLarge →
    p.told t' unit = .error .durationTooLarge
  exact : ∀ t unit (y : Binary64), y.Wide → y.Canonical → y.value = duration t unit →
    ∃ x, p.told t unit = .ok (some x) ∧ x.value = duration t unit
  /-- In whatever unit a duration is given, the same is told. -/
  units : ∀ (t t' : ℤ) (unit unit' : TimeoutUnit),
    t * unit.inMilliseconds = t' * unit'.inMilliseconds → p.told t unit = p.told t' unit'
  hours : ∀ n, p.told n .hours = p.told (60 * n) .minutes ∧
    p.told n .hours = p.told (3600 * n) .seconds ∧
    p.told n .hours = p.told (3600000 * n) .milliseconds

/-- A timeout of a whole number of units, however large, is told in seconds without a second
rounding. -/
theorem timeout_rounds_once (p : Parameters) : p.RoundsOnce where
  rounded t unit := by
    obtain ⟨x, hx⟩ := exists_rounds (duration t unit)
    exact ⟨x, hx, fun y hy => hy.unique hx, told_eq p hx⟩
  overflow _ _ := told_eq_error_iff
  mono _ _ _ _ _ := told_mono
  overflow_mono _ _ _ := told_too_large_mono
  exact _ _ _ := told_exact
  units _ _ _ _ := told_congr
  hours n := by
    refine ⟨told_congr ?_, told_congr ?_, told_congr ?_⟩
    all_goals
      simp only [TimeoutUnit.inMilliseconds]
      omega

/-- Halfway between two values; the one below has the even significand. -/
example :
    Parameters.empty.told (2 ^ 53 + 1) .seconds = .ok (some (finite false (2 ^ 52) 1075)) := by
  decide +kernel

/-- The least number of seconds that is too large, and the greatest that is not. -/
example : Parameters.empty.told (2 ^ 1024 - 2 ^ 970) .seconds = .error .durationTooLarge ∧
    Parameters.empty.told (2 ^ 1024 - 2 ^ 970 - 1) .seconds =
      .ok (some (finite false (2 ^ 53 - 1) maxExponent)) := by
  decide +kernel

end Parameters

namespace Upload

/-- The timeout of an upload in seconds is the one it is sent with. -/
theorem executorFor_eq (e : Http.Executor) (p : Parameters) : executorFor e p =
    p.timeoutSeconds.map fun s => s.elim e fun s => e.withTimeout (some (.real s)) := by
  rw [executorFor, Parameters.timeoutSeconds]
  cases p.timeout with
  | none => rfl
  | some value =>
    dsimp only
    cases Parameters.seconds? value p.timeoutUnit <;> rfl

end Upload

end BuildClient
