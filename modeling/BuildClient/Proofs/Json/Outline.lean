import Mathlib.Data.Nat.Notation
import BuildClient.Json.Outline

/-! Containers that are opened one inside the other use up the room of the stack. -/
namespace BuildClient.Json.Outline

/-- One opening bracket too many ends the reading, whatever follows. -/
theorem value_opened (s : List Char) {room n fuel : ℕ} (hroom : room < n)
    (hfuel : 2 * room < fuel) :
    value fuel room (List.replicate n '[' ++ s) = .error (.exhausted .array) := by
  induction room generalizing n fuel with
  | zero =>
    obtain ⟨n, rfl⟩ := Nat.exists_eq_add_one.2 hroom
    obtain ⟨fuel, rfl⟩ := Nat.exists_eq_add_one.2 hfuel
    rw [List.replicate_succ, List.cons_append, value]
  | succ room ih =>
    obtain ⟨n, rfl⟩ := Nat.exists_eq_add_of_le' (show 2 ≤ n by omega)
    obtain ⟨fuel, rfl⟩ := Nat.exists_eq_add_of_le' (show 2 ≤ fuel by omega)
    have hskip : Reader.skip ('[' :: (List.replicate n '[' ++ s)) =
        '[' :: (List.replicate n '[' ++ s) := Reader.skip_cons (by decide) _
    have hinner : value fuel room (List.replicate (n + 1) '[' ++ s) = .error (.exhausted .array) :=
      ih (by omega) (by omega)
    rw [List.replicate_succ, List.cons_append] at hinner
    have hitems : items (fuel + 1) room ('[' :: (List.replicate n '[' ++ s)) =
        .error (.exhausted .array) := by rw [items, hskip, hinner]
    rw [List.replicate_succ, List.replicate_succ, List.cons_append, List.cons_append, value, hskip]
    change (items (fuel + 1) room ('[' :: (List.replicate n '[' ++ s))).map (other, ·) = _
    rw [hitems]
    rfl

/-- A text that opens more arrays inside each other than the stack has room for is not read. -/
theorem read_opened (s : List Char) {room n : ℕ} (h : room < n) :
    read room (String.ofList (List.replicate n '[' ++ s)) = .error (.exhausted .array) := by
  have hskip : Reader.skip (List.replicate n '[' ++ s) = List.replicate n '[' ++ s := by
    obtain ⟨n, rfl⟩ := Nat.exists_eq_add_one.2 (Nat.zero_lt_of_lt h)
    rw [List.replicate_succ, List.cons_append, Reader.skip_cons (by decide)]
  have hlength : n ≤ (List.replicate n '[' ++ s).length := by simp
  rw [read, String.toList_ofList, hskip, value_opened s h (by omega)]

end BuildClient.Json.Outline
