import BuildClient.Proofs.Wire.Record
import BuildClient.Proofs.Wire.Shape

/-! Which values are read as truth values. -/
namespace BuildClient

open Json Text

-- Powers are those that core defines.
attribute [local instance (2000)] instPowNat

/-- A binary number that is whole is its own whole part. -/
theorem Binary64.truncate?_of_whole {x : Binary64} {i : ℤ}
    (h : (Number.real x).numericEq (.int i) = true) : x.truncate? = some i := by
  rw [Number.numericEq, beq_iff_eq] at h
  cases x with
  | nan => cases h
  | infinite negative => cases h
  | finite negative m e =>
    have hunits : (if negative then -((m * 2 ^ e : ℕ) : ℤ) else ((m * 2 ^ e : ℕ) : ℤ)) =
        i * ((2 ^ unitExponent : ℕ) : ℤ) := by
      rw [units?, Option.some.injEq] at h
      rw [h]
      push_cast
      rfl
    have hpos : 0 < 2 ^ unitExponent := Nat.two_pow_pos _
    rw [truncate?]
    generalize m * 2 ^ e = n at hunits ⊢
    generalize 2 ^ unitExponent = u at hunits hpos ⊢
    have hu : (u : ℤ) ≠ 0 := by omega
    have hquotient : ∀ j : ℤ, (n : ℤ) = j * u → ((n / u : ℕ) : ℤ) = j := by
      intro j hj
      rw [Int.natCast_div, hj, Int.mul_ediv_cancel j hu]
    cases negative with
    | false =>
      have hn := hquotient i hunits
      simp [hn]
    | true =>
      have hneg : (n : ℤ) = -i * u := by
        rw [Int.neg_mul, ← hunits, if_pos rfl, Int.neg_neg]
      simp [hquotient (-i) hneg]

theorem Number.whole_unique {x : Binary64} {i j : ℤ}
    (hi : (Number.real x).numericEq (.int i) = true)
    (hj : (Number.real x).numericEq (.int j) = true) : i = j :=
  Option.some.inj ((Binary64.truncate?_of_whole hi).symm.trans (Binary64.truncate?_of_whole hj))

namespace Wire

variable {v : Value}

theorem truthlike_int {i : ℤ} : Truthlike (.number (.int i)) ↔ i = 0 ∨ i = 1 := by
  constructor
  · intro h
    cases h with
    | number h => simpa [Number.numericEq] using h
  · intro h
    exact .number (by simpa [Number.numericEq] using h)

theorem candidate_int {i : ℤ} :
    Candidate (.number (.int i)) ↔ -Codec.wordLimit ≤ i ∧ i < Codec.wordLimit := by
  constructor
  · intro h
    cases h with
    | int lower upper => exact ⟨lower, upper⟩
  · exact fun h => .int h.1 h.2

/-- What is made of a value that may stand for a truth value. -/
inductive ReadsTruth (v : Value) : Checked Bool → Prop
  | taken {b : Bool} (h : Truthlike v) : ReadsTruth v (.ok b)
  | unclear (h : ¬ Truthlike v) (candidate : Candidate v) :
      ReadsTruth v (.fail .unclearBoolean)
  | refused (h : ¬ Truthlike v) (candidate : ¬ Candidate v) : ReadsTruth v (.fail .notBoolean)

theorem readsTruth_int (i : ℤ) : ReadsTruth (.number (.int i)) (Codec.readTruthInt i) := by
  rw [Codec.readTruthInt]
  by_cases hone : i = 1
  · rw [if_pos hone]
    exact .taken (truthlike_int.2 (.inr hone))
  · rw [if_neg hone]
    by_cases hzero : i = 0
    · rw [if_pos hzero]
      exact .taken (truthlike_int.2 (.inl hzero))
    · have hnot : ¬ Truthlike (.number (.int i)) := by
        rw [truthlike_int]
        omega
      rw [if_neg hzero]
      by_cases hword : -Codec.wordLimit ≤ i ∧ i < Codec.wordLimit
      · rw [if_pos hword]
        exact .unclear hnot (candidate_int.2 hword)
      · rw [if_neg hword]
        exact .refused hnot fun hc => hword (candidate_int.1 hc)

/-- A binary number that is whole stands for what the whole number stands for. -/
theorem readsTruth_whole {x : Binary64} {i : ℤ}
    (h : (Number.real x).numericEq (.int i) = true) :
    ReadsTruth (.number (.real x)) (Codec.readTruthReal x) := by
  have htruth : Truthlike (.number (.real x)) ↔ i = 0 ∨ i = 1 := by
    constructor
    · intro ht
      cases ht with
      | number ht => exact ht.imp (Number.whole_unique h) (Number.whole_unique h)
    · rintro (rfl | rfl)
      · exact .number (.inl h)
      · exact .number (.inr h)
  have hcandidate : Candidate (.number (.real x)) ↔
      -Codec.wordLimit ≤ i ∧ i ≤ Codec.wordLimit := by
    constructor
    · intro hc
      cases hc with
      | real hj lower upper =>
        obtain rfl := Number.whole_unique h hj
        exact ⟨lower, upper⟩
    · exact fun hi => .real h hi.1 hi.2
  have hlimit : (1 : ℤ) < Codec.wordLimit := by decide
  rw [Codec.readTruthReal, Binary64.truncate?_of_whole h]
  simp only [h, Bool.not_true, Bool.false_eq_true, if_false]
  by_cases hi : i = Codec.wordLimit
  · rw [if_pos hi]
    exact .unclear (by rw [htruth]; omega) (by rw [hcandidate]; omega)
  · rw [if_neg hi]
    have hint := readsTruth_int i
    generalize Codec.readTruthInt i = result at hint
    cases hint with
    | taken ht => exact .taken (htruth.2 (truthlike_int.1 ht))
    | unclear ht hc =>
      have hrange := candidate_int.1 hc
      refine .unclear (fun h' => ht (truthlike_int.2 (htruth.1 h'))) (hcandidate.2 ?_)
      omega
    | refused ht hc =>
      refine .refused (fun h' => ht (truthlike_int.2 (htruth.1 h'))) fun h' => hc ?_
      have hrange := hcandidate.1 h'
      exact candidate_int.2 (by omega)

theorem readsTruth_broken {x : Binary64} (h : ∀ i, (Number.real x).numericEq (.int i) = false) :
    ReadsTruth (.number (.real x)) (Codec.readTruthReal x) := by
  have hread : Codec.readTruthReal x = .fail .notBoolean := by
    rw [Codec.readTruthReal]
    cases x.truncate? with
    | none => rfl
    | some i => simp [h i]
  rw [hread]
  refine .refused ?_ ?_
  · intro ht
    cases ht with
    | number ht => rcases ht with ht | ht <;> simp [h] at ht
  · intro hc
    cases hc with
    | real hj => simp [h] at hj

theorem readsTruth_string (s : String) :
    ReadsTruth (.string s) ((Codec.truthWord? s).elim (.fail .unclearBoolean) .ok) := by
  have hwords : Truthlike (.string s) ↔ (Codec.truthWord? s).isSome = true := by
    have hiff : Truthlike (.string s) ↔ String.ofList (s.toList.map Char.toLower) ∈
        Codec.falseWords ++ Codec.trueWords := by
      constructor
      · intro h
        cases h with
        | word h => exact h
      · exact .word
    rw [hiff, List.mem_append, Codec.truthWord?]
    simp only [List.contains_iff_mem]
    split
    · simp [*]
    · split <;> simp [*]
  cases hw : Codec.truthWord? s with
  | some b => exact .taken (hwords.2 (by rw [hw]; rfl))
  | none =>
    refine .unclear (fun ht => ?_) (.string s)
    have hsome := hwords.1 ht
    rw [hw] at hsome
    cases hsome

theorem readsTruth (v : Value) : ReadsTruth v (Codec.readTruth v) := by
  cases v with
  | bool b => exact .taken (.bool b)
  | string s => exact readsTruth_string s
  | number n =>
    cases n with
    | int i => exact readsTruth_int i
    | real x =>
      by_cases h : ∃ i, (Number.real x).numericEq (.int i) = true
      · obtain ⟨i, hi⟩ := h
        exact readsTruth_whole hi
      · exact readsTruth_broken fun i => Bool.eq_false_of_not_eq_true fun hi => h ⟨i, hi⟩
  | _ => exact .refused (by rintro ⟨⟩) (by rintro ⟨⟩)

end Wire

end BuildClient
