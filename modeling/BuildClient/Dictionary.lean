/-!
Pairs of keys and values in the order in which the keys first arrived.
-/

namespace BuildClient

abbrev Dictionary (α : Type) := List (String × α)

namespace Dictionary

variable {α β : Type}

/-- A key that is there keeps its place and takes the new value; a new key goes to the end. -/
def insert (k : String) (v : α) : Dictionary α → Dictionary α
  | [] => [(k, v)]
  | (k', v') :: rest => if k' = k then (k', v) :: rest else (k', v') :: insert k v rest

/-- The pairs in turn; of equal keys the last value counts. -/
def ofPairs (pairs : List (String × α)) : Dictionary α :=
  pairs.foldl (fun d p => insert p.1 p.2 d) []

def get? (k : String) (d : Dictionary α) : Option α := List.lookup k d

/-- The value of the last pair with the key. -/
def getLast? (k : String) (pairs : List (String × α)) : Option α := List.lookup k pairs.reverse

def keys (d : Dictionary α) : List String := d.map Prod.fst

def mapValues (f : α → β) (d : Dictionary α) : Dictionary β := d.map fun p => (p.1, f p.2)

@[simp] theorem get?_nil (k : String) : get? k ([] : Dictionary α) = none := rfl

theorem get?_cons (k k' : String) (v : α) (d : Dictionary α) :
    get? k ((k', v) :: d) = if k = k' then some v else get? k d := by
  by_cases h : k = k'
  · simp [get?, h]
  · simp [get?, List.lookup_cons, h, beq_eq_false_iff_ne.mpr h]

theorem get?_insert (k k' : String) (v : α) (d : Dictionary α) :
    get? k' (insert k v d) = if k' = k then some v else get? k' d := by
  induction d with
  | nil => simp [insert, get?_cons]
  | cons p d ih =>
    obtain ⟨k₀, v₀⟩ := p
    by_cases h : k₀ = k
    · by_cases h' : k' = k <;> simp [insert, h, get?_cons, h']
    · by_cases h' : k' = k₀
      · subst h'; simp [insert, h, get?_cons]
      · simp [insert, h, get?_cons, h', ih]

theorem keys_insert (k : String) (v : α) (d : Dictionary α) :
    keys (insert k v d) = if k ∈ keys d then keys d else keys d ++ [k] := by
  induction d with
  | nil => simp [insert, keys]
  | cons p d ih =>
    obtain ⟨k₀, v₀⟩ := p
    by_cases h : k₀ = k
    · simp [insert, keys, h]
    · have hk : ¬ k = k₀ := fun e => h e.symm
      simp only [keys] at ih
      simp only [insert, h, if_false, keys, List.map_cons, ih, List.mem_cons, hk, false_or]
      split <;> simp [*]

end Dictionary

end BuildClient
