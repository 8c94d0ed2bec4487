import Mathlib.Data.List.Nodup
import BuildClient.Dictionary
import BuildClient.Query
import BuildClient.Proofs.Text.Split

/-! What a query tells. It can be read back, so two queries are the same just when the settings that
they show are. -/
namespace BuildClient.Query

open Text

variable {p q : Parameters} {k name : String} {value : Option String} {e : String × String}
  {rest : List (String × String)}

/-- The settings that a query shows, and their names in it. -/
def shown : List (String × TextSetting) :=
  [("commit", .message), ("revision.authorName", .authorName),
    ("revision.authorEmail", .authorEmail), ("revision.committerName", .committerName),
    ("revision.committerEmail", .committerEmail), ("revision.commit", .commit),
    ("asFile", .asFile)]

/-- No shown setting holds the sign between two pairs. The one inside a pair may occur. -/
def Clean (p : Parameters) : Prop := ∀ s ∈ shown, ∀ v ∈ p.text s.2, '&' ∉ v.toList

instance (p : Parameters) : Decidable (Clean p) :=
  inferInstanceAs (Decidable (∀ s ∈ shown, ∀ v ∈ p.text s.2, _))

/-- The shown settings are the same; an unset one counts as empty. -/
def Agree (p q : Parameters) : Prop := ∀ s ∈ shown, (p.text s.2).getD "" = (q.text s.2).getD ""

/-- A name with its value, unless that is unset or empty. -/
def unlessEmpty (name : String) (value : Option String) : List (String × String) :=
  if value.getD "" = "" then [] else [(name, value.getD "")]

/-- All that a query tells, in order. -/
def told (p : Parameters) : List (String × String) :=
  ("commit", p.message.getD "") :: (unlessEmpty "revision.authorName" p.authorName ++
    unlessEmpty "revision.authorEmail" p.authorEmail ++
    unlessEmpty "revision.committerName" p.committerName ++
    unlessEmpty "revision.committerEmail" p.committerEmail ++
    unlessEmpty "revision.commit" p.commit ++ unlessEmpty "asFile" p.asFile)

theorem given?_toList (p : Parameters) (name : String) (s : TextSetting) :
    (given? p (name, s)).toList = unlessEmpty name (p.text s) := by
  cases h : p.text s with
  | none => simp [given?, unlessEmpty, h]
  | some v => by_cases hv : v = "" <;> simp [given?, unlessEmpty, h, hv]

theorem pairs_eq_told (p : Parameters) : pairs p = told p := by
  have hcons : ∀ (entry : String × TextSetting) (entries : List (String × TextSetting)),
      (entry :: entries).filterMap (given? p) =
        unlessEmpty entry.1 (p.text entry.2) ++ entries.filterMap (given? p) := by
    intro entry entries
    rw [← given?_toList, List.filterMap_cons]
    cases given? p entry <;> rfl
  simp only [pairs, revisionNames, List.cons_append, List.nil_append, hcons, List.filterMap_nil,
    told, List.append_assoc, List.append_nil, Parameters.text]

theorem mem_unlessEmpty (h : e ∈ unlessEmpty name value) : e = (name, value.getD "") := by
  rw [unlessEmpty] at h
  split at h
  · cases h
  · exact List.mem_singleton.1 h

/-- Whatever is told stands under a shown name. -/
theorem mem_told (h : e ∈ told p) : ∃ s ∈ shown, e = (s.1, (p.text s.2).getD "") := by
  simp only [told, List.mem_cons, List.mem_append] at h
  rcases h with rfl | ((((h | h) | h) | h) | h) | h
  · exact ⟨("commit", .message), by decide, rfl⟩
  · exact ⟨(_, .authorName), by decide, mem_unlessEmpty h⟩
  · exact ⟨(_, .authorEmail), by decide, mem_unlessEmpty h⟩
  · exact ⟨(_, .committerName), by decide, mem_unlessEmpty h⟩
  · exact ⟨(_, .committerEmail), by decide, mem_unlessEmpty h⟩
  · exact ⟨(_, .commit), by decide, mem_unlessEmpty h⟩
  · exact ⟨(_, .asFile), by decide, mem_unlessEmpty h⟩

theorem get?_unlessEmpty_append : Dictionary.get? k (unlessEmpty name value ++ rest) =
    if k = name ∧ value.getD "" ≠ "" then some (value.getD "") else Dictionary.get? k rest := by
  by_cases hv : value.getD "" = ""
  · simp [unlessEmpty, hv]
  · simp [unlessEmpty, hv, Dictionary.get?_cons]

/-- Each shown setting can be found in what is told. -/
theorem getD_told {s : String × TextSetting} (hs : s ∈ shown) (p : Parameters) :
    (Dictionary.get? s.1 (told p)).getD "" = (p.text s.2).getD "" := by
  rw [told, ← List.append_nil (unlessEmpty "asFile" p.asFile)]
  simp only [List.append_assoc, Dictionary.get?_cons, get?_unlessEmpty_append, Dictionary.get?_nil]
  simp only [shown, List.mem_cons, List.not_mem_nil, or_false] at hs
  rcases hs with rfl | rfl | rfl | rfl | rfl | rfl | rfl <;> simp [Parameters.text] <;> grind

/-- In clean settings neither names nor values hold a sign where they are cut. -/
theorem read_write (hp : Clean p) :
    read (write p) = (told p).map fun e => (e.1, some e.2) := by
  rw [read, write, String.toList_ofList, pairs_eq_told]
  refine splitAt_pairs (by simp [told]) (fun e he => ?_) (fun e he => ?_) (by decide)
  · obtain ⟨s, hs, rfl⟩ := mem_told he
    have hnames : ∀ s ∈ shown, '=' ∉ s.1.toList ∧ '&' ∉ s.1.toList := by decide
    exact hnames s hs
  · obtain ⟨s, hs, rfl⟩ := mem_told he
    cases h : p.text s.2 with
    | none => exact List.not_mem_nil
    | some v => exact hp s hs v h

theorem told_congr (h : Agree p q) : told p = told q := by
  simp only [Agree, shown, List.forall_mem_cons, Parameters.text] at h
  obtain ⟨hmessage, hauthor, hauthorEmail, hcommitter, hcommitterEmail, hcommit, hfile, -⟩ := h
  simp only [told, unlessEmpty, hmessage, hauthor, hauthorEmail, hcommitter, hcommitterEmail,
    hcommit, hfile]

theorem write_congr (h : Agree p q) : write p = write q := by
  rw [write, write, pairs_eq_told, pairs_eq_told, told_congr h]

/-- Clean settings that differ are told apart. -/
theorem agree_of_write_eq (hp : Clean p) (hq : Clean q) (h : write p = write q) : Agree p q := by
  have hread : (told p).map (fun e => (e.1, some e.2)) =
      (told q).map fun e => (e.1, some e.2) := by
    rw [← read_write hp, ← read_write hq, h]
  intro s hs
  rw [← getD_told hs p, ← getD_told hs q, pairs_injective hread]

/-- A query of clean settings, cut at its signs, gives what it tells: the message, then the pairs of
the settings that are not empty. So it tells clean settings apart as far as they are shown, and it
never depends on any other. -/
theorem query_read_back (p : Parameters) :
    (Clean p → read (write p) = (told p).map fun e => (e.1, some e.2)) ∧
      (∀ q, Clean p → Clean q → (write p = write q ↔ Agree p q)) ∧
      ∀ secret triggerType timeout timeoutUnit,
        write { p with
          secret := secret, triggerType := triggerType, timeout := timeout,
          timeoutUnit := timeoutUnit } = write p := by
  refine ⟨read_write, fun q hp hq => ⟨agree_of_write_eq hp hq, write_congr⟩, ?_⟩
  intro secret triggerType timeout timeoutUnit
  exact write_congr (by simp [Agree, shown, Parameters.text])

/-- A message with signs inside, an empty author and a file name. -/
def terse : Parameters :=
  { Parameters.empty with message := some "a=b", authorName := some "", asFile := some "=" }

theorem query_read_back_terse :
    Clean terse ∧ read (write terse) = [("commit", some "a=b"), ("asFile", some "=")] ∧
      Clean .empty ∧ (write terse = write .empty ↔ Agree terse .empty) := by
  have hterse : Clean terse := by decide +kernel
  have hempty : Clean .empty := by decide +kernel
  have hback := query_read_back terse
  exact ⟨hterse, hback.1 hterse, hempty, hback.2.1 .empty hterse hempty⟩

end BuildClient.Query
