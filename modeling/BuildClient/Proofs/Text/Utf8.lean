import Mathlib.Tactic.IntervalCases
import BuildClient.Text.Utf8

/-! A text comes back from its bytes. -/
namespace BuildClient.Text.Utf8

variable {n k : Nat}

theorem start_one (h : n < 128) : start (UInt8.ofNat n) = .inl (.char (Char.ofNat n)) := by
  interval_cases n <;> rfl

theorem start_two (hlo : 2 ≤ k) (hhi : k < 32) :
    start (UInt8.ofNat (k + 192)) = .inr ⟨1, 0x80, 0xBF, k, 1⟩ := by
  interval_cases k <;> rfl

theorem start_three (h : k < 16) : start (UInt8.ofNat (k + 224)) =
    .inr ⟨2, if k = 0 then 0xA0 else 0x80, if k = 13 then 0x9F else 0xBF, k, 1⟩ := by
  interval_cases k <;> rfl

theorem start_four (h : k < 5) : start (UInt8.ofNat (k + 240)) =
    .inr ⟨3, if k = 0 then 0x90 else 0x80, if k = 4 then 0x8F else 0xBF, k, 1⟩ := by
  interval_cases k <;> rfl

/-- A byte within the bounds brings six bits. -/
theorem piecesFrom_next {p : Begun} (hk : k < 64) (hlo : p.lo.toNat ≤ k + 128)
    (hhi : k + 128 ≤ p.hi.toNat) (rest : List UInt8) :
    piecesFrom (some p) (UInt8.ofNat (k + 128) :: rest) =
      if p.missing ≤ 1 then .char (Char.ofNat (p.bits * 64 + k)) :: piecesFrom none rest
      else piecesFrom (some ⟨p.missing - 1, 0x80, 0xBF, p.bits * 64 + k, p.taken + 1⟩) rest := by
  have hb : (UInt8.ofNat (k + 128)).toNat = k + 128 := by
    rw [UInt8.toNat_ofNat']
    omega
  have hin : p.lo ≤ UInt8.ofNat (k + 128) ∧ UInt8.ofNat (k + 128) ≤ p.hi := by
    rw [UInt8.le_iff_toNat_le, UInt8.le_iff_toNat_le, hb]
    exact ⟨hlo, hhi⟩
  have hbits : (k + 128) % 64 = k := by omega
  rw [piecesFrom, if_pos hin, hb, hbits]

/-- The bytes of a character give the character, whatever follows. -/
theorem piecesFrom_encodeChar (c : Char) (rest : List UInt8) :
    piecesFrom none (String.utf8EncodeChar c ++ rest) = .char c :: piecesFrom none rest := by
  have hvalid : c.toNat < 0xD800 ∨ 0xDFFF < c.toNat ∧ c.toNat < 0x110000 := c.valid
  have hc : Char.ofNat c.toNat = c := Char.ofNat_toNat c
  have hval : c.val.toNat = c.toNat := rfl
  rw [String.utf8EncodeChar, hval]
  generalize c.toNat = n at hvalid hc
  split
  · rw [List.singleton_append, piecesFrom, start_one (by omega)]
    dsimp only
    rw [hc]
  · split
    · rw [List.cons_append, List.singleton_append, piecesFrom, start_two (by omega) (by omega)]
      dsimp only
      have hn : n / 64 % 32 * 64 + n % 64 = n := by omega
      rw [piecesFrom_next (by omega) (by simp) (by simp; omega), if_pos (by simp), hn, hc]
    · split
      · rw [List.cons_append, List.cons_append, List.singleton_append, piecesFrom,
          start_three (by omega)]
        dsimp only
        have hn : (n / 4096 % 16 * 64 + n / 64 % 64) * 64 + n % 64 = n := by omega
        rw [piecesFrom_next (by omega) (by dsimp only; split <;> simp; omega)
            (by dsimp only; split <;> simp <;> omega),
          if_neg (by simp)]
        rw [piecesFrom_next (by omega) (by simp) (by simp; omega), if_pos (by simp), hn, hc]
      · rw [List.cons_append, List.cons_append, List.cons_append, List.singleton_append, piecesFrom,
          start_four (by omega)]
        dsimp only
        have hn : ((n / 262144 % 8 * 64 + n / 4096 % 64) * 64 + n / 64 % 64) * 64 + n % 64 = n := by
          omega
        rw [piecesFrom_next (by omega) (by dsimp only; split <;> simp; omega)
            (by dsimp only; split <;> simp <;> omega),
          if_neg (by simp)]
        rw [piecesFrom_next (by omega) (by simp) (by simp; omega), if_neg (by simp)]
        rw [piecesFrom_next (by omega) (by simp) (by simp; omega), if_pos (by simp), hn, hc]

theorem pieces_encode (s : String) : pieces (encode s) = s.toList.map .char := by
  rw [pieces, encode]
  induction s.toList with
  | nil => rfl
  | cons c s ih => rw [List.flatMap_cons, piecesFrom_encodeChar, ih, List.map_cons]

theorem decodeLossy_encode (s : String) : decodeLossy (encode s) = s := by
  rw [decodeLossy, pieces_encode, List.map_map]
  simp [Function.comp_def]

end BuildClient.Text.Utf8
