import Mathlib.Data.Int.Notation
import BuildClient.Proofs.Dictionary
import BuildClient.Wire.Record

/-! What a document has to look like, and everything in which it does not. -/
namespace BuildClient.Wire

open Json Text

/-- What a value has to look like. -/
inductive Shape where
  | string
  | boolean
  /-- An object of anything. -/
  | tree
  /-- An object whose members all have one shape. -/
  | each (member : Shape)
  | array (item : Shape)
  /-- Null, or of a shape. -/
  | optional (shape : Shape)
  /-- An object with declared members: for each its key, another spelling of the key, if there is
  one, and its shape. Members that are not declared may be anything. -/
  | document (declared : List (String × Option String × Shape))

variable {s t : Shape} {v u : Value} {key k : String} {other : Option String}
  {ms : List (String × Value)} {declared : List (String × Option String × Shape)}
  {place : List ℕ} {d : Defect}

/-- The member that stands for a declared one: the last one of its key, else the last one of the
other spelling. -/
inductive Found (key : String) (other : Option String) (ms : List (String × Value)) :
    String → Value → Prop
  | key {v : Value} (h : Dictionary.getLast? key ms = some v) : Found key other ms key v
  | other {k : String} {v : Value} (missing : Dictionary.getLast? key ms = none)
      (spelling : other = some k) (h : Dictionary.getLast? k ms = some v) : Found key other ms k v

/-- Values that stand for a truth value: the numbers zero and one, and some words. -/
inductive Truthlike : Value → Prop
  | bool (b : Bool) : Truthlike (.bool b)
  | number {n : Number} (h : n.numericEq (.int 0) = true ∨ n.numericEq (.int 1) = true) :
      Truthlike (.number n)
  | word {s : String} (h : String.ofList (s.toList.map Char.toLower) ∈
      ["0", "off", "f", "false", "n", "no", "1", "on", "t", "true", "y", "yes"]) :
      Truthlike (.string s)

/-- Values of a kind that can stand for a truth value: texts, and whole numbers of 64 bits. A binary
number may also equal the least number beyond them. -/
inductive Candidate : Value → Prop
  | string (s : String) : Candidate (.string s)
  | int {i : ℤ} (lower : -Codec.wordLimit ≤ i) (upper : i < Codec.wordLimit) :
      Candidate (.number (.int i))
  | real {x : Binary64} {i : ℤ} (h : (Number.real x).numericEq (.int i) = true)
      (lower : -Codec.wordLimit ≤ i) (upper : i ≤ Codec.wordLimit) : Candidate (.number (.real x))

/-- The value as a whole is not of the shape, whatever is in it. -/
inductive Wrong : Shape → Value → Problem → Prop
  | string {v : Value} (h : ∀ s, v ≠ .string s) : Wrong .string v .notText
  | unclear {v : Value} (h : ¬ Truthlike v) (candidate : Candidate v) :
      Wrong .boolean v .unclearBoolean
  | boolean {v : Value} (h : ¬ Truthlike v) (candidate : ¬ Candidate v) :
      Wrong .boolean v .notBoolean
  | tree {v : Value} (h : ∀ ms, v ≠ .object ms) : Wrong .tree v .notMapping
  | each {s : Shape} {v : Value} (h : ∀ ms, v ≠ .object ms) : Wrong (.each s) v .notMapping
  | array {s : Shape} {v : Value} (h : ∀ items, v ≠ .array items) : Wrong (.array s) v .notList
  | document {declared : List (String × Option String × Shape)} {v : Value}
      (h : ∀ ms, v ≠ .object ms) : Wrong (.document declared) v .notDocument

/-- The value has the shape. -/
inductive Fits : Shape → Value → Prop
  | string (s : String) : Fits .string (.string s)
  | boolean {v : Value} (h : Truthlike v) : Fits .boolean v
  | tree (ms : List (String × Value)) : Fits .tree (.object ms)
  | each {s : Shape} {ms : List (String × Value)} (h : ∀ m ∈ ms, Fits s m.2) :
      Fits (.each s) (.object ms)
  | array {s : Shape} {items : List Value} (h : ∀ v ∈ items, Fits s v) :
      Fits (.array s) (.array items)
  | null (s : Shape) : Fits (.optional s) .null
  | some {s : Shape} {v : Value} (h : Fits s v) : Fits (.optional s) v
  | document {declared : List (String × Option String × Shape)} {ms : List (String × Value)}
      (h : ∀ f ∈ declared, ∀ k v, Found f.1 f.2.1 ms k v → Fits f.2.2 v) :
      Fits (.document declared) (.object ms)

def Defect.beneath (step : Step) (d : Defect) : Defect := ⟨step :: d.path, d.problem⟩

/-- A defect in a value of what should have the shape, and its place: which declared member, which
member of any key or which item it is in, then which one in that, and so on. -/
inductive Misfit : Shape → Value → List ℕ → Defect → Prop
  | here {s : Shape} {v : Value} {p : Problem} (h : Wrong s v p) : Misfit s v [] ⟨[], p⟩
  | some {s : Shape} {v : Value} {place : List ℕ} {d : Defect} (solid : v ≠ .null)
      (h : Misfit s v place d) : Misfit (.optional s) v place d
  | each {s : Shape} {ms : List (String × Value)} {i : ℕ} {k : String} {v : Value}
      {place : List ℕ} {d : Defect} (hi : ms[i]? = some (k, v)) (h : Misfit s v place d) :
      Misfit (.each s) (.object ms) (i :: place) (d.beneath (.key k))
  | item {s : Shape} {items : List Value} {i : ℕ} {v : Value} {place : List ℕ} {d : Defect}
      (hi : items[i]? = some v) (h : Misfit s v place d) :
      Misfit (.array s) (.array items) (i :: place) (d.beneath (.index i))
  | member {declared : List (String × Option String × Shape)} {ms : List (String × Value)} {i : ℕ}
      {key : String} {other : Option String} {s : Shape} {k : String} {v : Value}
      {place : List ℕ} {d : Defect} (hi : declared[i]? = some (key, other, s))
      (found : Found key other ms k v) (h : Misfit s v place d) :
      Misfit (.document declared) (.object ms) (i :: place) (d.beneath (.key k))

/-- The path leads from the first value to the second, which stands in it. -/
inductive Leads : List Step → Value → Value → Prop
  | here (v : Value) : Leads [] v v
  | key {k : String} {ms : List (String × Value)} {v u : Value} {path : List Step}
      (h : (k, v) ∈ ms) (rest : Leads path v u) : Leads (.key k :: path) (.object ms) u
  | index {i : ℕ} {items : List Value} {v u : Value} {path : List Step}
      (h : items[i]? = some v) (rest : Leads path v u) : Leads (.index i :: path) (.array items) u

theorem Found.mem (h : Found key other ms k v) : (k, v) ∈ ms := by
  cases h with
  | key h => exact Dictionary.mem_of_getLast? h
  | other _ _ h => exact Dictionary.mem_of_getLast? h

/-- A defect is found where its path leads. -/
theorem Misfit.leads (h : Misfit s v place d) :
    ∃ t u, Leads d.path v u ∧ Wrong t u d.problem := by
  induction h with
  | here h => exact ⟨_, _, .here _, h⟩
  | some _ _ ih => exact ih
  | each hi _ ih =>
    obtain ⟨t, u, hleads, hwrong⟩ := ih
    exact ⟨t, u, .key (List.mem_of_getElem? hi) hleads, hwrong⟩
  | item hi _ ih =>
    obtain ⟨t, u, hleads, hwrong⟩ := ih
    exact ⟨t, u, .index hi hleads, hwrong⟩
  | member _ found _ ih =>
    obtain ⟨t, u, hleads, hwrong⟩ := ih
    exact ⟨t, u, .key found.mem hleads, hwrong⟩

theorem Fits.not_wrong (h : Fits s v) (p : Problem) : ¬ Wrong s v p := by
  intro hw
  cases h with
  | string s =>
    cases hw with
    | string hne => exact hne s rfl
  | boolean h =>
    cases hw with
    | unclear hne => exact hne h
    | boolean hne => exact hne h
  | tree ms =>
    cases hw with
    | tree hne => exact hne ms rfl
  | each h =>
    cases hw with
    | each hne => exact hne _ rfl
  | array h =>
    cases hw with
    | array hne => exact hne _ rfl
  | null => cases hw
  | some => cases hw
  | document h =>
    cases hw with
    | document hne => exact hne _ rfl

theorem Misfit.not_fits (h : Misfit s v place d) : ¬ Fits s v := by
  induction h with
  | here h => exact fun hf => hf.not_wrong _ h
  | some solid _ ih =>
    intro hf
    cases hf with
    | null => exact solid rfl
    | some hf => exact ih hf
  | each hi _ ih =>
    intro hf
    cases hf with
    | each hf => exact ih (hf _ (List.mem_of_getElem? hi))
  | item hi _ ih =>
    intro hf
    cases hf with
    | array hf => exact ih (hf _ (List.mem_of_getElem? hi))
  | member hi found _ ih =>
    intro hf
    cases hf with
    | document hf => exact ih (hf _ (List.mem_of_getElem? hi) _ _ found)

/-- What has no defect fits. -/
theorem fits_of_no_misfit : ∀ (s : Shape) (v : Value), (∀ place d, ¬ Misfit s v place d) → Fits s v
  | .string, v, h => by
    cases v with
    | string t => exact .string t
    | _ => exact absurd (.here (.string (by simp))) (h _ _)
  | .boolean, v, h => by
    by_contra hv
    have hnot : ¬ Truthlike v := fun ht => hv (.boolean ht)
    by_cases hc : Candidate v
    · exact h _ _ (.here (.unclear hnot hc))
    · exact h _ _ (.here (.boolean hnot hc))
  | .tree, v, h => by
    cases v with
    | object ms => exact .tree ms
    | _ => exact absurd (.here (.tree (by simp))) (h _ _)
  | .each s, v, h => by
    cases v with
    | object ms =>
      refine .each fun m hm => ?_
      obtain ⟨i, hi⟩ := List.mem_iff_getElem?.1 hm
      exact fits_of_no_misfit s m.2 fun place d hd => h _ _ (.each hi hd)
    | _ => exact absurd (.here (.each (by simp))) (h _ _)
  | .array s, v, h => by
    cases v with
    | array items =>
      refine .array fun u hu => ?_
      obtain ⟨i, hi⟩ := List.mem_iff_getElem?.1 hu
      exact fits_of_no_misfit s u fun place d hd => h _ _ (.item hi hd)
    | _ => exact absurd (.here (.array (by simp))) (h _ _)
  | .optional s, v, h => by
    by_cases hv : v = .null
    · subst hv
      exact .null s
    · exact .some (fits_of_no_misfit s v fun place d hd => h _ _ (.some hv hd))
  | .document declared, v, h => by
    cases v with
    | object ms =>
      refine .document fun f hf k v hfound => ?_
      obtain ⟨i, hi⟩ := List.mem_iff_getElem?.1 hf
      have hsmaller : sizeOf f.2.2 < 1 + sizeOf declared := by
        have hmem := List.sizeOf_lt_of_mem hf
        obtain ⟨key, other, shape⟩ := f
        simp only [Prod.mk.sizeOf_spec] at hmem ⊢
        omega
      exact fits_of_no_misfit f.2.2 v fun place d hd => h _ _ (.member hi hfound hd)
    | _ => exact absurd (.here (.document (by simp))) (h _ _)
termination_by s => sizeOf s

theorem fits_iff : Fits s v ↔ ∀ place d, ¬ Misfit s v place d :=
  ⟨fun h _ _ hd => hd.not_fits h, fits_of_no_misfit s v⟩

/-- What is found of declared members does not depend on members of other keys. -/
theorem found_filter_iff {q : String → Bool} (hkey : q key = true)
    (hother : ∀ k ∈ other, q k = true) :
    Found key other (ms.filter fun m => q m.1) k v ↔ Found key other ms k v := by
  have hlast : ∀ k', q k' = true →
      Dictionary.getLast? k' (ms.filter fun m => q m.1) = Dictionary.getLast? k' ms := by
    intro k' hk'
    rw [Dictionary.getLast?_filter, if_pos hk']
  constructor
  · rintro (h | ⟨missing, spelling, h⟩)
    · exact .key (hlast key hkey ▸ h)
    · exact .other (hlast key hkey ▸ missing) spelling (hlast k (hother k spelling) ▸ h)
  · rintro (h | ⟨missing, spelling, h⟩)
    · exact .key ((hlast key hkey).trans h)
    · exact .other ((hlast key hkey).trans missing) spelling
        ((hlast k (hother k spelling)).trans h)

/-- All spellings of the declared members. -/
def Shape.spellings : Shape → List String
  | .document declared => declared.flatMap fun f => f.1 :: f.2.1.toList
  | _ => []

/-- Members that are not declared may be anything. -/
theorem fits_known_iff : Fits (.document declared) (.object (ms.filter fun m =>
      (Shape.document declared).spellings.contains m.1)) ↔
    Fits (.document declared) (.object ms) := by
  have hspelled : ∀ f ∈ declared, ∀ k ∈ f.1 :: f.2.1.toList,
      (Shape.document declared).spellings.contains k = true := by
    intro f hf k hk
    exact List.contains_iff_mem.2 (List.mem_flatMap.2 ⟨f, hf, hk⟩)
  have hfound : ∀ f ∈ declared, ∀ k v, Found f.1 f.2.1 (ms.filter fun m =>
      (Shape.document declared).spellings.contains m.1) k v ↔ Found f.1 f.2.1 ms k v := by
    intro f hf k v
    apply found_filter_iff
    · exact hspelled f hf f.1 List.mem_cons_self
    · exact fun k hk => hspelled f hf k (List.mem_cons_of_mem _ (Option.mem_toList.2 hk))
  constructor
  · intro hfits
    cases hfits with
    | document h => exact .document fun f hf k v hv => h f hf k v ((hfound f hf k v).2 hv)
  · intro hfits
    cases hfits with
    | document h => exact .document fun f hf k v hv => h f hf k v ((hfound f hf k v).1 hv)

end BuildClient.Wire
