import Mathlib
import BuildClient.Number.Numeral

/-! The value of a row of ASCII digits. -/
namespace BuildClient.Text

variable {s t : List Char} {c : Char}

theorem digitValue?_of_isDigit (h : c.isDigit = true) : digitValue? c = some (c.toNat - 48) := by
  have hc : c = Char.ofNat c.toNat := (Char.ofNat_toNat c).symm
  have hr : 48 ≤ c.toNat ∧ c.toNat ≤ 57 := by
    simpa [Char.isDigit, UInt32.le_iff_toNat_le] using h
  generalize c.toNat = n at hc hr
  subst hc
  obtain ⟨hlo, hhi⟩ := hr
  interval_cases n <;> decide

theorem digitsValue_eq (h : ∀ c ∈ s, c.isDigit = true) :
    digitsValue s = Nat.ofDigitChars 10 s 0 := by
  have hfold : ∀ (l : List Char) (n : ℕ), (∀ c ∈ l, c.isDigit = true) →
      l.foldl (fun n c => 10 * n + (digitValue? c).getD 0) n = Nat.ofDigitChars 10 l n := by
    intro l
    induction l with
    | nil => intro n _; rfl
    | cons c l ih =>
      intro n hl
      rw [List.foldl_cons, ih _ fun d hd => hl d (List.mem_cons_of_mem c hd),
        digitValue?_of_isDigit (hl c List.mem_cons_self), Nat.ofDigitChars_cons]
      rfl
  exact hfold s 0 h

theorem isDigit_toDigits {n : ℕ} (h : c ∈ Nat.toDigits 10 n) : c.isDigit = true :=
  Nat.isDigit_of_mem_toDigits (by decide) (by decide) h

theorem digitsValue_toDigits (n : ℕ) : digitsValue (Nat.toDigits 10 n) = n := by
  rw [digitsValue_eq fun c hc => isDigit_toDigits hc, Nat.ofDigitChars_ten_toDigits]

theorem isDigit_replicate_zero {n : ℕ} (h : c ∈ List.replicate n '0') : c.isDigit = true := by
  rw [List.eq_of_mem_replicate h]
  rfl

/-- Zeros in front do not count. -/
theorem digitsValue_zeros_append (n : ℕ) (h : ∀ c ∈ s, c.isDigit = true) :
    digitsValue (List.replicate n '0' ++ s) = digitsValue s := by
  have hall : ∀ c ∈ List.replicate n '0' ++ s, c.isDigit = true := fun c hc =>
    (List.mem_append.1 hc).elim isDigit_replicate_zero (h c)
  rw [digitsValue_eq hall, digitsValue_eq h, Nat.ofDigitChars_append,
    Nat.ofDigitChars_replicate_zero, Nat.mul_zero]

/-- Every zero behind counts ten times. -/
theorem digitsValue_append_zeros (n : ℕ) (h : ∀ c ∈ s, c.isDigit = true) :
    digitsValue (s ++ List.replicate n '0') = 10 ^ n * digitsValue s := by
  have hall : ∀ c ∈ s ++ List.replicate n '0', c.isDigit = true := fun c hc =>
    (List.mem_append.1 hc).elim (h c) isDigit_replicate_zero
  rw [digitsValue_eq hall, digitsValue_eq h, Nat.ofDigitChars_append,
    Nat.ofDigitChars_replicate_zero]

theorem digitsValue_lt (h : ∀ c ∈ s, c.isDigit = true) : digitsValue s < 10 ^ s.length := by
  have hfold : ∀ (l : List Char) (n : ℕ), (∀ c ∈ l, c.isDigit = true) →
      Nat.ofDigitChars 10 l n < 10 ^ l.length * (n + 1) := by
    intro l
    induction l with
    | nil => intro n _; simp
    | cons c l ih =>
      intro n hl
      have hc : c.toNat - '0'.toNat ≤ 9 := by
        have hd : c.toNat ≤ 57 := by
          have := hl c List.mem_cons_self
          simp [Char.isDigit, UInt32.le_iff_toNat_le] at this
          exact this.2
        have h0 : '0'.toNat = 48 := rfl
        omega
      rw [Nat.ofDigitChars_cons, List.length_cons, Nat.pow_succ, Nat.mul_assoc]
      refine Nat.lt_of_lt_of_le (ih _ fun d hd => hl d (List.mem_cons_of_mem c hd)) ?_
      exact Nat.mul_le_mul_left _ (by omega)
  rw [digitsValue_eq h]
  simpa using hfold s 0 h

end BuildClient.Text
