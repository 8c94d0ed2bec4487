import Mathlib
import BuildClient.Text.Split
import BuildClient.Url.Address

/-!
Joined addresses, part by part. A part of slashes alone leaves no trace, so an address with such a
name is the address of the whole collection.
-/
namespace BuildClient

open Text

namespace Text

variable {p : Char → Bool} {s t : List Char} {c : Char}

theorem dropEndWhile_append_of_last (h : s.getLast? = some c) (hc : p c = false) (t : List Char) :
    dropEndWhile p (s ++ t) = s ++ dropEndWhile p t := by
  obtain ⟨s', rfl⟩ := List.getLast?_eq_some_iff.1 h
  unfold dropEndWhile
  rw [List.reverse_append, List.dropWhile_append]
  split
  · rename_i he
    rw [List.isEmpty_iff] at he
    simp [he, hc]
  · simp

theorem dropEndWhile_eq_self (h : ∀ c, s.getLast? = some c → p c = false) :
    dropEndWhile p s = s := by
  cases hs : s.getLast? with
  | none =>
    rw [List.getLast?_eq_none_iff] at hs
    subst hs
    rfl
  | some c => simpa [dropEndWhile_nil] using dropEndWhile_append_of_last hs (h c hs) []

theorem dropOuter_eq_self_of_ends (hhead : ∀ c, s.head? = some c → p c = false)
    (hlast : ∀ c, s.getLast? = some c → p c = false) : dropOuter p s = s := by
  have hs : s.dropWhile p = s := by
    cases s with
    | nil => rfl
    | cons c s => rw [List.dropWhile_cons_of_neg (by simp [hhead c rfl])]
  rw [dropOuter, hs, dropEndWhile_eq_self hlast]

/-- What is left ends in a character that stays. -/
theorem getLast?_dropEndWhile (h : (dropEndWhile p s).getLast? = some c) : p c = false := by
  unfold dropEndWhile at h
  rw [List.getLast?_reverse] at h
  have hn := List.head?_dropWhile_not p s.reverse
  rw [h] at hn
  exact hn

theorem dropEndWhile_prefix (p : Char → Bool) (s : List Char) : dropEndWhile p s <+: s := by
  unfold dropEndWhile
  rw [← List.reverse_suffix, List.reverse_reverse]
  exact List.dropWhile_suffix p

theorem dropEndWhile_eq_nil_iff : dropEndWhile p s = [] ↔ ∀ c ∈ s, p c = true := by
  simp [dropEndWhile]

theorem dropOuter_eq_nil_iff : dropOuter p s = [] ↔ ∀ c ∈ s, p c = true := by
  constructor
  · intro h c hc
    rw [dropOuter, dropEndWhile_eq_nil_iff] at h
    rw [← List.takeWhile_append_dropWhile (p := p) (l := s)] at hc
    rcases List.mem_append.1 hc with hc | hc
    · exact List.mem_takeWhile_imp hc
    · exact h c hc
  · intro h
    have hs : s.dropWhile p = [] := List.dropWhile_eq_nil_iff.2 h
    rw [dropOuter, hs]
    rfl

/-- What is dropped from the end. -/
theorem append_of_dropEndWhile (p : Char → Bool) (s : List Char) :
    ∃ t, s = dropEndWhile p s ++ t ∧ ∀ c ∈ t, p c = true := by
  refine ⟨(s.reverse.takeWhile p).reverse, ?_, fun c hc => ?_⟩
  · rw [dropEndWhile, ← List.reverse_append, List.takeWhile_append_dropWhile, List.reverse_reverse]
  · exact List.mem_takeWhile_imp (List.mem_reverse.1 hc)

theorem splitAt_append_sep (sep : Char) (a b : List Char) :
    splitAt sep (a ++ sep :: b) = splitAt sep a ++ splitAt sep b := by
  induction a with
  | nil => simp [splitAt]
  | cons c a ih =>
    simp only [List.cons_append, splitAt]
    split
    · rw [ih]
      rfl
    · rw [ih]
      cases hs : splitAt sep a with
      | nil => exact absurd hs (splitAt_ne_nil sep a)
      | cons piece pieces => rfl

end Text

namespace Url

variable {s : List Char} {c : Char} {api ns plural name : String}

theorem segment_eq_nil_iff : segment s = [] ↔ ∀ c ∈ s, c = '/' := by
  have h : dropOuter isSlash s = [] ↔ ∀ c ∈ s, c = '/' := by
    rw [dropOuter_eq_nil_iff]
    simp [isSlash]
  rw [← h, segment]
  split <;> simp_all

theorem segment_of_ne_nil (h : dropOuter isSlash s ≠ []) :
    segment s = '/' :: dropOuter isSlash s := by
  rw [segment]
  split
  · contradiction
  · rfl

theorem getLast?_segment (h : (segment s).getLast? = some c) : isSlash c = false := by
  by_cases hs : dropOuter isSlash s = []
  · rw [segment, hs] at h
    cases h
  · rw [segment_of_ne_nil hs, List.getLast?_cons_of_ne_nil hs] at h
    exact getLast?_dropEndWhile h

theorem getLast?_joinChars {base : List Char} {parts : List (List Char)}
    (h : (joinChars base parts).getLast? = some c) : isSlash c = false := by
  induction parts using List.reverseRecOn with
  | nil => exact getLast?_dropEndWhile (by simpa [joinChars] using h)
  | append_singleton parts part ih =>
    rw [joinChars, List.flatMap_append, ← List.append_assoc, List.flatMap_singleton] at h
    rw [List.getLast?_append] at h
    cases hp : (segment part).getLast? with
    | none =>
      rw [hp] at h
      exact ih (by simpa [joinChars] using h)
    | some d =>
      rw [hp] at h
      cases h
      exact getLast?_segment hp

/-- A joined address never ends in a slash. -/
theorem dropEndWhile_join (base : String) (parts : List String) :
    dropEndWhile isSlash (join base parts).toList = (join base parts).toList := by
  rw [join, String.toList_ofList]
  exact dropEndWhile_eq_self fun c => getLast?_joinChars

theorem join_join (base : String) (parts more : List String) :
    join (join base parts) more = join base (parts ++ more) := by
  rw [join, joinChars, dropEndWhile_join]
  simp [join, joinChars]

theorem toList_namespaced (api ns plural name : String) :
    (namespaced api ns plural name).toList =
      (collection api ns plural).toList ++ segment name.toList := by
  simp [namespaced, collection, join, joinChars, segment, dropOuter_nil]

/-- Nothing but slashes, or nothing at all. -/
def SlashesOnly (s : String) : Prop := ∀ c ∈ s.toList, c = '/'

theorem dropOuter_eq_nil_iff {s : String} : dropOuter isSlash s.toList = [] ↔ SlashesOnly s := by
  rw [Text.dropOuter_eq_nil_iff]
  simp [isSlash, SlashesOnly]

/-- Equal but for slashes at the end. -/
def SameAddress (a b : String) : Prop :=
  dropEndWhile isSlash a.toList = dropEndWhile isSlash b.toList

/-- A text without its outer slashes. -/
def bare (s : String) : String := String.ofList (dropOuter isSlash s.toList)

theorem toList_bare (s : String) : (bare s).toList = dropOuter isSlash s.toList :=
  String.toList_ofList

theorem bare_eq_empty_iff {s : String} : bare s = "" ↔ SlashesOnly s := by
  rw [← dropOuter_eq_nil_iff, ← toList_bare, String.toList_eq_nil_iff]

theorem segment_of_bare {s : String} (h : ¬ SlashesOnly s) :
    segment s.toList = '/' :: (bare s).toList := by
  rw [toList_bare, segment_of_ne_nil (mt dropOuter_eq_nil_iff.1 h)]

/-- The steps that a part adds to a path. -/
def steps (s : List Char) : List (List Char) :=
  if dropOuter isSlash s = [] then [] else splitAt '/' (dropOuter isSlash s)

theorem splitAt_append_segment (a s : List Char) :
    splitAt '/' (a ++ segment s) = splitAt '/' a ++ steps s := by
  rw [steps]
  split
  · rename_i h
    simp [segment, h]
  · rename_i h
    rw [segment_of_ne_nil h, splitAt_append_sep]

theorem dropOuter_eq_self (h : '/' ∉ s) : dropOuter isSlash s = s := by
  have hs : ∀ c ∈ s, isSlash c = false := fun c hc => by
    rw [isSlash, beq_eq_false_iff_ne]
    rintro rfl
    exact h hc
  exact dropOuter_eq_self_of_ends (fun c hc => hs c (List.mem_of_head? hc))
    fun c hc => hs c (List.mem_of_getLast? hc)

theorem steps_of_not_mem {s : String} (h : '/' ∉ s.toList) (hne : s ≠ "") :
    steps s.toList = [s.toList] := by
  rw [steps, dropOuter_eq_self h, if_neg (by simpa using hne), splitAt_eq_self '/' h]

end Url

end BuildClient
