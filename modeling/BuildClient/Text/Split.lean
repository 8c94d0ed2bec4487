/-!
Cutting a text at a separator character, and joining again.
-/

namespace BuildClient.Text

/-- The pieces between the separators; one piece more than there are separators. -/
def splitAt (sep : Char) : List Char → List (List Char)
  | [] => [[]]
  | c :: s =>
    if c = sep then [] :: splitAt sep s
    else match splitAt sep s with
      | [] => [[c]]
      | piece :: pieces => (c :: piece) :: pieces

/-- What stands before the first separator and, if there is one, what follows it. -/
def cutFirst (sep : Char) : List Char → List Char × Option (List Char)
  | [] => ([], none)
  | c :: s =>
    if c = sep then ([], some s)
    else ((c :: (cutFirst sep s).1), (cutFirst sep s).2)

/-- What stands before the last separator, if there is one, and what follows it. -/
def cutLast (sep : Char) (s : List Char) : Option (List Char) × List Char :=
  match cutFirst sep s.reverse with
  | (after, before) => (before.map List.reverse, after.reverse)

def joinWith (sep : Char) : List (List Char) → List Char
  | [] => []
  | [piece] => piece
  | piece :: pieces => piece ++ sep :: joinWith sep pieces

theorem splitAt_ne_nil (sep : Char) (s : List Char) : splitAt sep s ≠ [] := by
  cases s with
  | nil => simp [splitAt]
  | cons c s => simp only [splitAt]; split <;> (try split) <;> simp

theorem joinWith_splitAt (sep : Char) (s : List Char) : joinWith sep (splitAt sep s) = s := by
  induction s with
  | nil => rfl
  | cons c s ih =>
    simp only [splitAt]
    split
    · rename_i h
      cases hs : splitAt sep s with
      | nil => exact absurd hs (splitAt_ne_nil sep s)
      | cons p ps => rw [hs] at ih; simp [joinWith, ih, h]
    · split
      · rename_i hs; exact absurd hs (splitAt_ne_nil sep s)
      · rename_i p ps hs
        rw [hs] at ih
        cases ps <;> simp_all [joinWith]

theorem splitAt_append (sep : Char) {a : List Char} (b : List Char) (h : sep ∉ a) :
    splitAt sep (a ++ sep :: b) = a :: splitAt sep b := by
  induction a with
  | nil => simp [splitAt]
  | cons c a ih =>
    simp only [List.mem_cons, not_or] at h
    simp [splitAt, ih h.2, Ne.symm h.1]

theorem splitAt_eq_self (sep : Char) {a : List Char} (h : sep ∉ a) : splitAt sep a = [a] := by
  induction a with
  | nil => rfl
  | cons c a ih =>
    simp only [List.mem_cons, not_or] at h
    simp [splitAt, ih h.2, Ne.symm h.1]

theorem cutFirst_append (sep : Char) {a : List Char} (b : List Char) (h : sep ∉ a) :
    cutFirst sep (a ++ sep :: b) = (a, some b) := by
  induction a with
  | nil => simp [cutFirst]
  | cons c a ih =>
    simp only [List.mem_cons, not_or] at h
    simp [cutFirst, ih h.2, Ne.symm h.1]

/-- Pieces without the separator come back from what was joined of them. -/
theorem splitAt_joinWith (sep : Char) {pieces : List (List Char)} (hne : pieces ≠ [])
    (h : ∀ piece ∈ pieces, sep ∉ piece) : splitAt sep (joinWith sep pieces) = pieces := by
  induction pieces with
  | nil => exact absurd rfl hne
  | cons piece rest ih =>
    have hpiece : sep ∉ piece := h piece List.mem_cons_self
    cases rest with
    | nil => exact splitAt_eq_self sep hpiece
    | cons next rest =>
      have hrest : splitAt sep (joinWith sep (next :: rest)) = next :: rest :=
        ih (List.cons_ne_nil next rest) fun p hp => h p (List.mem_cons_of_mem piece hp)
      rw [joinWith, splitAt_append sep _ hpiece, hrest]
      exact nofun

end BuildClient.Text
