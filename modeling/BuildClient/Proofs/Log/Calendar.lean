import Mathlib.Data.Int.Notation
import Mathlib.Data.Nat.Notation
import BuildClient.Log.Time
import BuildClient.Proofs.Except

/-! The moments that have a date: those of the years 1 to 9999. -/
namespace BuildClient.Log.Moment

variable {m : Moment} {year : ℤ} {d : ℕ}

/-- The year of a day in its era of four hundred years, which begin in March. -/
def yearOfEra (d : ℕ) : ℕ := (d - d / 1460 + d / 36524 - d / 146096) / 365

theorem yearOfEra_le (h : d < 146097) : yearOfEra d ≤ 399 := by
  rw [yearOfEra]
  omega

theorem yearOfEra_eq_zero_iff (h : d < 146097) : yearOfEra d = 0 ↔ d < 365 := by
  rw [yearOfEra]
  omega

/-- The last year of an era has its leap day. -/
theorem yearOfEra_eq_last_iff (h : d < 146097) : yearOfEra d = 399 ↔ 145731 ≤ d := by
  rw [yearOfEra]
  omega

theorem year_dateOf_iff (day : ℤ) : 1 ≤ (dateOf day).year ∧ (dateOf day).year ≤ 9999 ↔
    -719162 ≤ day ∧ day ≤ 2932896 := by
  have hlt : ((day + 719468) % 146097).toNat < 146097 := by omega
  have hday :
      day = 146097 * ((day + 719468) / 146097) + ((day + 719468) % 146097).toNat - 719468 := by
    omega
  simp only [dateOf]
  generalize (day + 719468) / 146097 = era at *
  generalize ((day + 719468) % 146097).toNat = d at *
  subst hday
  have hyear : (d - d / 1460 + d / 36524 - d / 146096) / 365 = yearOfEra d := rfl
  rw [hyear]
  have hle := yearOfEra_le hlt
  have hfirst := yearOfEra_eq_zero_iff hlt
  have hlast := yearOfEra_eq_last_iff hlt
  generalize yearOfEra d = y at *
  -- January and February are counted to the next year, which matters at the two ends only.
  have hera : era < 0 ∨ era = 0 ∨ (0 < era ∧ era < 24) ∨ era = 24 ∨ 24 < era := by omega
  rcases hera with h | rfl | ⟨h, h'⟩ | rfl | h
  · split <;> omega
  · split <;> split at * <;> omega
  · split <;> omega
  · split <;> split at * <;> omega
  · split <;> omega

theorem checkYear_eq_ok : checkYear year = .ok () ↔ 1 ≤ year ∧ year ≤ 9999 := by
  rw [checkYear, yearLimit]
  split
  · exact iff_of_false nofun (by omega)
  · split
    · rename_i h
      exact iff_of_true rfl h
    · rename_i h
      exact iff_of_false nofun h

/-- From the first second of year 1 to the last one of year 9999. -/
def Dated (m : Moment) : Prop := -62135596800 ≤ m.seconds ∧ m.seconds < 253402300800

/-- Just the moments of these years have a text. -/
theorem exists_write_iff : (∃ s, m.write = .ok s) ↔ m.Dated := by
  have hdate : m.Dated ↔ checkYear (dateOf (m.seconds / secondsOfDay)).year = .ok () := by
    rw [checkYear_eq_ok, year_dateOf_iff, Dated, secondsOfDay]
    omega
  rw [hdate, write]
  constructor
  · rintro ⟨s, h⟩
    obtain ⟨u, hu, -⟩ := bind_eq_ok.1 h
    exact hu
  · intro h
    exact ⟨_, bind_eq_ok.2 ⟨(), h, rfl⟩⟩

end BuildClient.Log.Moment
