import BuildClient.Proofs.Number.Nearest

/-! Binary values in the order of the numbers. What is not a number is in no order with any
other. -/
namespace BuildClient.Binary64

variable {m e : ℕ} {x y : Binary64}

/-- The place of a value among the numbers, with the infinities at the ends. -/
def place? : Binary64 → Option (WithBot (WithTop ℚ))
  | nan => none
  | infinite s => some (if s then ⊥ else ⊤)
  | finite s m e => some ((finite s m e).value : WithTop ℚ)

/-- Both have a place, and the first one stands before the second. -/
def Less (x y : Binary64) : Prop := ∃ a ∈ x.place?, ∃ b ∈ y.place?, a < b

theorem less_iff {a b : WithBot (WithTop ℚ)} (hx : x.place? = some a) (hy : y.place? = some b) :
    x.Less y ↔ a < b := by
  rw [Less, hx, hy]
  simp only [Option.mem_some_iff, exists_eq_left']

theorem magnitude_pos_iff : 0 < magnitude m e ↔ m ≠ 0 := by
  constructor
  · rintro h rfl
    simp [magnitude] at h
  · intro h
    have hm : (0 : ℚ) < m := by exact_mod_cast Nat.pos_of_ne_zero h
    rw [magnitude]
    positivity

theorem value_pos_iff {s : Bool} : 0 < (finite s m e).value ↔ s = false ∧ m ≠ 0 := by
  cases s with
  | false => simp [value, magnitude_pos_iff]
  | true => simpa [value] using magnitude_nonneg m e

theorem place?_zero : zero.place? = some ((0 : ℚ) : WithTop ℚ) := by
  rw [zero, place?, value, magnitude_zero]
  rfl

theorem isPositive_iff_less : x.isPositive = true ↔ zero.Less x := by
  cases x with
  | nan =>
    refine iff_of_false nofun ?_
    rintro ⟨a, -, b, hb, -⟩
    cases hb
  | infinite s =>
    rw [less_iff place?_zero rfl, isPositive]
    cases s with
    | false => exact iff_of_true rfl (Ne.lt_top nofun)
    | true => exact iff_of_false nofun not_lt_bot
  | finite s m e =>
    rw [less_iff place?_zero rfl, WithBot.coe_lt_coe, WithTop.coe_lt_coe, value_pos_iff]
    simp [isPositive]

end BuildClient.Binary64
