import Mathlib.Data.List.Nodup
import BuildClient.Dictionary

/-! What becomes of pairs that are put into a dictionary in turn. -/
namespace BuildClient.Dictionary

variable {α β : Type} {k : String} {v : α} {d : Dictionary α} {pairs : List (String × α)}

theorem insert_ne_nil (k : String) (v : α) (d : Dictionary α) : insert k v d ≠ [] := by
  cases d with
  | nil => simp [insert]
  | cons p d =>
    simp only [insert]
    split <;> simp

/-- Pairs inserted into a dictionary that holds some already. -/
def insertAll (pairs : List (String × α)) (d : Dictionary α) : Dictionary α :=
  pairs.foldl (fun d p => insert p.1 p.2 d) d

theorem insertAll_ne_nil (h : d ≠ []) : insertAll pairs d ≠ [] := by
  induction pairs generalizing d with
  | nil => exact h
  | cons p pairs ih => exact ih (insert_ne_nil p.1 p.2 d)

theorem ofPairs_eq_nil_iff : ofPairs pairs = [] ↔ pairs = [] := by
  cases pairs with
  | nil => simp [ofPairs]
  | cons p pairs =>
    have h : insertAll pairs (insert p.1 p.2 []) ≠ [] :=
      insertAll_ne_nil (insert_ne_nil p.1 p.2 [])
    exact iff_of_false h (List.cons_ne_nil p pairs)

theorem insert_of_not_mem (h : k ∉ keys d) : insert k v d = d ++ [(k, v)] := by
  induction d with
  | nil => rfl
  | cons p d ih =>
    obtain ⟨k', v'⟩ := p
    rw [keys, List.map_cons, List.mem_cons, not_or] at h
    rw [insert, if_neg (Ne.symm h.1), ih h.2, List.cons_append]

theorem mem_insert {p : String × α} (h : p ∈ insert k v d) : p = (k, v) ∨ p ∈ d := by
  induction d with
  | nil => exact .inl (List.mem_singleton.1 h)
  | cons q d ih =>
    obtain ⟨k', v'⟩ := q
    rw [insert] at h
    split at h
    · rename_i hk
      rcases List.mem_cons.1 h with rfl | hp
      · exact .inl (by rw [hk])
      · exact .inr (List.mem_cons_of_mem _ hp)
    · rcases List.mem_cons.1 h with rfl | hp
      · exact .inr List.mem_cons_self
      · exact (ih hp).imp_right (List.mem_cons_of_mem _)

theorem nodup_insert (h : (keys d).Nodup) : (keys (insert k v d)).Nodup := by
  rw [keys_insert]
  split
  · exact h
  · rename_i hk
    exact List.nodup_append.2 ⟨h, List.nodup_singleton k, by
      rintro a ha b hb rfl
      exact hk (List.mem_singleton.1 hb ▸ ha)⟩

theorem mem_insertAll {p : String × α} (h : p ∈ insertAll pairs d) : p ∈ pairs ∨ p ∈ d := by
  induction pairs generalizing d with
  | nil => exact .inr h
  | cons q pairs ih =>
    rcases ih h with hp | hp
    · exact .inl (List.mem_cons_of_mem q hp)
    · rcases mem_insert hp with rfl | hp
      · exact .inl List.mem_cons_self
      · exact .inr hp

theorem nodup_insertAll (h : (keys d).Nodup) : (keys (insertAll pairs d)).Nodup := by
  induction pairs generalizing d with
  | nil => exact h
  | cons p pairs ih => exact ih (nodup_insert h)

/-- Nothing is put in but the pairs themselves. -/
theorem mem_ofPairs {p : String × α} (h : p ∈ ofPairs pairs) : p ∈ pairs :=
  (mem_insertAll h).resolve_right List.not_mem_nil

theorem nodup_ofPairs (pairs : List (String × α)) : (keys (ofPairs pairs)).Nodup :=
  nodup_insertAll List.nodup_nil

theorem insertAll_of_nodup (h : (keys (d ++ pairs)).Nodup) : insertAll pairs d = d ++ pairs := by
  induction pairs generalizing d with
  | nil => exact (List.append_nil d).symm
  | cons p pairs ih =>
    have hk : p.1 ∉ keys d := by
      rw [keys, List.map_append, List.nodup_append] at h
      exact fun hd => h.2.2 _ hd _ (List.mem_map_of_mem List.mem_cons_self) rfl
    have hstep : insertAll (p :: pairs) d = insertAll pairs (insert p.1 p.2 d) := rfl
    rw [hstep, insert_of_not_mem hk, ih (by rwa [List.append_assoc, List.singleton_append]),
      List.append_assoc, List.singleton_append]

/-- Pairs without repeated keys are a dictionary already. -/
theorem ofPairs_of_nodup (h : (keys pairs).Nodup) : ofPairs pairs = pairs :=
  insertAll_of_nodup (d := []) h

theorem mapValues_cons (f : α → β) (p : String × α) (d : Dictionary α) :
    mapValues f (p :: d) = (p.1, f p.2) :: mapValues f d := rfl

theorem insert_mapValues (f : α → β) (k : String) (v : α) (d : Dictionary α) :
    insert k (f v) (mapValues f d) = mapValues f (insert k v d) := by
  induction d with
  | nil => rfl
  | cons p d ih =>
    obtain ⟨k', v'⟩ := p
    rw [mapValues] at ih ⊢
    simp only [List.map_cons, insert]
    split
    · rfl
    · rw [ih]
      rfl

theorem ofPairs_mapValues (f : α → β) (pairs : List (String × α)) :
    ofPairs (mapValues f pairs) = mapValues f (ofPairs pairs) := by
  have h : ∀ d : Dictionary α,
      insertAll (mapValues f pairs) (mapValues f d) = mapValues f (insertAll pairs d) := by
    induction pairs with
    | nil => exact fun d => rfl
    | cons p pairs ih =>
      intro d
      have hstep := ih (insert p.1 p.2 d)
      rw [← insert_mapValues] at hstep
      exact hstep
  exact h []

theorem keys_mapValues (f : α → β) (d : Dictionary α) : keys (mapValues f d) = keys d := by
  rw [keys, keys, mapValues, List.map_map]
  rfl

theorem mapValues_mapValues {γ : Type} (g : β → γ) (f : α → β) (d : Dictionary α) :
    mapValues g (mapValues f d) = mapValues (fun a => g (f a)) d := List.map_map

theorem mapValues_append (f : α → β) (d e : Dictionary α) :
    mapValues f (d ++ e) = mapValues f d ++ mapValues f e := List.map_append

theorem mem_of_getLast? (h : getLast? k pairs = some v) : (k, v) ∈ pairs := by
  obtain ⟨l, l', hl, -⟩ := List.lookup_eq_some_iff.1 h
  rw [← List.mem_reverse, hl]
  exact List.mem_append_right _ List.mem_cons_self

theorem getLast?_isSome_iff : (getLast? k pairs).isSome ↔ k ∈ keys pairs := by
  rw [getLast?, List.lookup_isSome_iff, keys, List.mem_map]
  constructor
  · rintro ⟨p, hp, he⟩
    exact ⟨p, List.mem_reverse.1 hp, (eq_of_beq he).symm⟩
  · rintro ⟨p, hp, rfl⟩
    exact ⟨p, List.mem_reverse.2 hp, beq_self_eq_true _⟩

theorem get?_eq_none_iff : get? k d = none ↔ k ∉ keys d := by
  induction d with
  | nil => simp [keys]
  | cons p d ih =>
    obtain ⟨k', v'⟩ := p
    rw [get?_cons, keys, List.map_cons, List.mem_cons, not_or, ← keys, ← ih]
    by_cases hk : k = k' <;> simp [hk]

theorem getLast?_of_mem (hn : (keys pairs).Nodup) (h : (k, v) ∈ pairs) :
    getLast? k pairs = some v := by
  have hs : (getLast? k pairs).isSome := getLast?_isSome_iff.2 (List.mem_map_of_mem h)
  obtain ⟨u, hu⟩ := Option.isSome_iff_exists.1 hs
  have he : (k, u) = (k, v) := List.inj_on_of_nodup_map hn (mem_of_getLast? hu) h rfl
  rw [hu, (Prod.mk.inj he).2]

theorem mem_iff_getLast? (hn : (keys pairs).Nodup) :
    (k, v) ∈ pairs ↔ getLast? k pairs = some v :=
  ⟨getLast?_of_mem hn, mem_of_getLast?⟩

theorem getLast?_cons (p : String × α) :
    getLast? k (p :: pairs) = (getLast? k pairs).or (if k = p.1 then some p.2 else none) := by
  rw [getLast?, List.reverse_cons, List.lookup_append, ← getLast?]
  exact congrArg _ (get?_cons k p.1 p.2 [])

/-- Without equal keys the first pair with a key is the last one. -/
theorem get?_eq_getLast? (hn : (keys d).Nodup) : get? k d = getLast? k d := by
  induction d with
  | nil => rfl
  | cons p d ih =>
    obtain ⟨hk, hd⟩ := List.nodup_cons.1 hn
    rw [get?_cons, getLast?_cons, ih hd]
    by_cases he : k = p.1
    · have hnone : getLast? k d = none := by
        rw [← Option.not_isSome_iff_eq_none, getLast?_isSome_iff, he]
        exact hk
      rw [hnone, Option.none_or]
    · simp [he]

theorem get?_insertAll : get? k (insertAll pairs d) = (getLast? k pairs).or (get? k d) := by
  induction pairs generalizing d with
  | nil => rfl
  | cons p pairs ih =>
    have hstep : insertAll (p :: pairs) d = insertAll pairs (insert p.1 p.2 d) := rfl
    rw [hstep, ih, get?_insert, getLast?_cons, Option.or_assoc]
    split <;> simp

/-- Of pairs that are put into a dictionary in turn, the last under each key is in it. -/
theorem getLast?_ofPairs : getLast? k (ofPairs pairs) = getLast? k pairs := by
  have h : get? k (insertAll pairs []) = getLast? k pairs := by
    rw [get?_insertAll, get?_nil, Option.or_none]
  rw [← get?_eq_getLast? (nodup_ofPairs pairs), ← h]
  rfl

theorem getLast?_mapValues (f : α → β) :
    getLast? k (mapValues f pairs) = (getLast? k pairs).map f := by
  induction pairs with
  | nil => rfl
  | cons p pairs ih =>
    rw [mapValues_cons, getLast?_cons, getLast?_cons, ih]
    cases getLast? k pairs <;> simp [apply_ite]

/-- Leaving out some keys changes nothing under the others. -/
theorem getLast?_filter (q : String → Bool) :
    getLast? k (pairs.filter fun p => q p.1) = if q k then getLast? k pairs else none := by
  induction pairs with
  | nil => simp [getLast?]
  | cons p pairs ih =>
    by_cases hp : q p.1 = true
    · rw [List.filter_cons_of_pos (by exact hp), getLast?_cons, getLast?_cons, ih]
      by_cases hk : k = p.1
      · simp [hk, hp]
      · simp [hk]
    · rw [List.filter_cons_of_neg (by exact hp), ih, getLast?_cons]
      by_cases hk : k = p.1
      · simp [hk, hp]
      · simp [hk]

/-- It is the same to leave out some keys before a pair is put in, or after. -/
theorem filter_insert (q : String → Bool) (k : String) (v : α) (d : Dictionary α) :
    (insert k v d).filter (fun p => q p.1) =
      if q k then insert k v (d.filter fun p => q p.1) else d.filter fun p => q p.1 := by
  induction d with
  | nil =>
    by_cases hq : q k
    · rw [if_pos hq, insert, List.filter_cons_of_pos (by exact hq)]
      rfl
    · rw [if_neg hq, insert, List.filter_cons_of_neg (by exact hq)]
  | cons p d ih =>
    obtain ⟨k', v'⟩ := p
    rw [insert]
    by_cases hk : k' = k
    · subst hk
      rw [if_pos rfl]
      by_cases hq : q k' <;> simp [hq, insert]
    · rw [if_neg hk]
      by_cases hq' : q k'
      · rw [List.filter_cons_of_pos (by exact hq'), ih, List.filter_cons_of_pos (by exact hq')]
        split
        · rw [insert, if_neg hk]
        · rfl
      · rw [List.filter_cons_of_neg (by exact hq'), ih, List.filter_cons_of_neg (by exact hq')]

theorem filter_insertAll (q : String → Bool) (pairs : List (String × α)) (d : Dictionary α) :
    (insertAll pairs d).filter (fun p => q p.1) =
      insertAll (pairs.filter fun p => q p.1) (d.filter fun p => q p.1) := by
  induction pairs generalizing d with
  | nil => rfl
  | cons p pairs ih =>
    have hstep : insertAll (p :: pairs) d = insertAll pairs (insert p.1 p.2 d) := rfl
    rw [hstep, ih, filter_insert]
    by_cases hp : q p.1 = true
    · rw [if_pos hp, List.filter_cons_of_pos (by exact hp)]
      rfl
    · rw [if_neg hp, List.filter_cons_of_neg (by exact hp)]

theorem filter_ofPairs (q : String → Bool) (pairs : List (String × α)) :
    (ofPairs pairs).filter (fun p => q p.1) = ofPairs (pairs.filter fun p => q p.1) :=
  filter_insertAll q pairs []

end BuildClient.Dictionary
