import BuildClient.Proofs.Url.Join

/-!
What an address is joined of: its base and its parts, each without its outer slashes. How many
slashes there were does not matter, nor whether the parts are joined at once.
-/
namespace BuildClient

namespace Text

variable {p : Char → Bool} {s t : List Char} {c : Char}

theorem dropEndWhile_append_of_all (h : ∀ c ∈ t, p c = true) :
    dropEndWhile p (s ++ t) = dropEndWhile p s := by
  rw [dropEndWhile, dropEndWhile, List.reverse_append,
    List.dropWhile_append_of_pos fun c hc => h c (List.mem_reverse.1 hc)]

/-- What belongs to the class and stands outside is dropped with what is dropped anyway. -/
theorem dropOuter_append_of_all {before after : List Char} (hb : ∀ c ∈ before, p c = true)
    (ha : ∀ c ∈ after, p c = true) : dropOuter p (before ++ s ++ after) = dropOuter p s := by
  rw [dropOuter, dropOuter, List.append_assoc, List.dropWhile_append_of_pos hb,
    List.dropWhile_append]
  split
  · rename_i hs
    rw [List.isEmpty_iff.1 hs, List.dropWhile_eq_nil_iff.2 ha]
  · exact dropEndWhile_append_of_all ha

/-- What is dropped from both ends. -/
theorem append_of_dropOuter (p : Char → Bool) (s : List Char) :
    ∃ before after, s = before ++ dropOuter p s ++ after ∧ (∀ c ∈ before, p c = true) ∧
      ∀ c ∈ after, p c = true := by
  obtain ⟨after, hs, hafter⟩ := append_of_dropEndWhile p (s.dropWhile p)
  refine ⟨s.takeWhile p, after, ?_, fun c => List.mem_takeWhile_imp, hafter⟩
  rw [List.append_assoc, dropOuter, ← hs, List.takeWhile_append_dropWhile]

/-- What is left begins with a character that stays. -/
theorem head?_dropOuter (h : (dropOuter p s).head? = some c) : p c = false := by
  obtain ⟨rest, hrest⟩ := dropEndWhile_prefix p (s.dropWhile p)
  have hn := List.head?_dropWhile_not p s
  rw [← hrest, List.head?_append, ← dropOuter, h] at hn
  exact hn

end Text

namespace Url

open Text

variable {s rest base base' : String} {parts parts' : List String} {c : Char}

def slashes (n : ℕ) : String := String.ofList (List.replicate n '/')

theorem isSlash_of_mem_slashes {n : ℕ} (h : c ∈ (slashes n).toList) : isSlash c = true := by
  rw [slashes, String.toList_ofList] at h
  simp [isSlash, List.eq_of_mem_replicate h]

theorem eq_slashes {t : List Char} (h : ∀ c ∈ t, isSlash c = true) :
    String.ofList t = slashes t.length := by
  rw [slashes, String.ofList_inj, List.eq_replicate_iff]
  exact ⟨rfl, fun c hc => eq_of_beq (h c hc)⟩

theorem isSlash_eq_false_iff : isSlash c = false ↔ c ≠ '/' := beq_eq_false_iff_ne

/-- A text with slashes around it. -/
structure Padded where
  before : ℕ
  text : String
  after : ℕ
deriving DecidableEq, Repr

def Padded.write (p : Padded) : String := slashes p.before ++ p.text ++ slashes p.after

/-- The rest of a text when all slashes at its end are gone. -/
structure Trimmed (s rest : String) : Prop where
  written : ∃ after, s = rest ++ slashes after
  last : rest.toList.getLast? ≠ some '/'

/-- The rest of a text when all slashes at both ends are gone. -/
structure Stripped (s rest : String) : Prop where
  written : ∃ before after, s = (Padded.mk before rest after).write
  head : rest.toList.head? ≠ some '/'
  last : rest.toList.getLast? ≠ some '/'

theorem bare_write (p : Padded) : bare p.write = bare p.text := by
  rw [bare, bare, Padded.write, String.toList_append, String.toList_append,
    dropOuter_append_of_all (fun _ => isSlash_of_mem_slashes) fun _ => isSlash_of_mem_slashes]

theorem stripped_iff : Stripped s rest ↔ bare s = rest := by
  constructor
  · rintro ⟨⟨before, after, rfl⟩, hhead, hlast⟩
    rw [bare_write, bare, dropOuter_eq_self_of_ends, String.ofList_toList]
    · rintro c hc
      exact isSlash_eq_false_iff.2 fun he => hhead (he ▸ hc)
    · rintro c hc
      exact isSlash_eq_false_iff.2 fun he => hlast (he ▸ hc)
  · rintro rfl
    obtain ⟨before, after, hs, hbefore, hafter⟩ := append_of_dropOuter isSlash s.toList
    refine ⟨⟨before.length, after.length, ?_⟩, ?_, ?_⟩
    · rw [Padded.write, ← eq_slashes hbefore, ← eq_slashes hafter, bare, ← String.ofList_append,
        ← String.ofList_append, ← hs, String.ofList_toList]
    · rw [toList_bare]
      exact fun h => isSlash_eq_false_iff.1 (head?_dropOuter h) rfl
    · rw [toList_bare]
      exact fun h => isSlash_eq_false_iff.1 (getLast?_dropEndWhile h) rfl

theorem join_nil (base : String) :
    join base [] = String.ofList (dropEndWhile isSlash base.toList) := by
  rw [join, joinChars, List.map_nil, List.flatMap_nil, List.append_nil]

theorem join_nil_append_slashes (base : String) (n : ℕ) :
    join (base ++ slashes n) [] = join base [] := by
  rw [join_nil, join_nil, String.toList_append,
    dropEndWhile_append_of_all fun _ => isSlash_of_mem_slashes]

theorem getLast?_join : (join base parts).toList.getLast? ≠ some '/' := by
  rw [join, String.toList_ofList]
  exact fun h => isSlash_eq_false_iff.1 (getLast?_joinChars h) rfl

theorem trimmed_iff : Trimmed s rest ↔ join s [] = rest := by
  constructor
  · rintro ⟨⟨after, rfl⟩, hlast⟩
    rw [join_nil_append_slashes, join_nil, dropEndWhile_eq_self, String.ofList_toList]
    rintro c hc
    exact isSlash_eq_false_iff.2 fun he => hlast (he ▸ hc)
  · rintro rfl
    refine ⟨?_, getLast?_join⟩
    obtain ⟨after, hs, hafter⟩ := append_of_dropEndWhile isSlash s.toList
    refine ⟨after.length, ?_⟩
    rw [join_nil, ← eq_slashes hafter, ← String.ofList_append, ← hs, String.ofList_toList]

/-- A base and parts that begin and end with no slash, one behind the other; the empty ones are left
out. -/
def connect (start : String) (rests : List String) : String :=
  start ++ String.join ((rests.filter (· ≠ "")).map ("/" ++ ·))

theorem join_eq_connect (base : String) (parts : List String) :
    join base parts = connect (join base []) (parts.map bare) := by
  rw [← String.toList_inj, connect, String.toList_append, join_nil, join, joinChars,
    String.toList_ofList, String.toList_ofList, List.append_cancel_left_eq]
  induction parts with
  | nil => rfl
  | cons part parts ih =>
    rw [List.map_cons, List.map_cons, List.flatMap_cons, ih]
    by_cases h : SlashesOnly part
    · rw [segment_eq_nil_iff.2 h, List.filter_cons_of_neg (by simp [bare_eq_empty_iff.2 h])]
      rfl
    · have hne : bare part ≠ "" := mt bare_eq_empty_iff.1 h
      rw [segment_of_bare h, List.filter_cons_of_pos (by simp [hne])]
      simp

/-- The address is the base without the slashes at its end, and each part that is not nothing but
slashes, without the outer ones, behind a slash. -/
def Joined (base : String) (parts : List String) (url : String) : Prop :=
  ∃ start rests, Trimmed base start ∧ List.Forall₂ Stripped parts rests ∧ url = connect start rests

theorem joined_iff {url : String} : Joined base parts url ↔ join base parts = url := by
  rw [join_eq_connect]
  constructor
  · rintro ⟨start, rests, hbase, hparts, rfl⟩
    have hrests : parts.map bare = rests := by
      rw [← List.forall₂_eq_eq_eq, List.forall₂_map_left_iff]
      exact hparts.imp fun _ _ => stripped_iff.1
    rw [trimmed_iff.1 hbase, hrests]
  · rintro rfl
    refine ⟨_, _, trimmed_iff.2 rfl, ?_, rfl⟩
    rw [List.forall₂_map_right_iff, List.forall₂_same]
    exact fun part _ => stripped_iff.2 rfl

/-- Only what is left of the base and of the parts is in the address. -/
theorem join_congr (hbase : join base [] = join base' [])
    (hparts : parts.map bare = parts'.map bare) :
    join base parts = join base' parts' := by
  rw [join_eq_connect, join_eq_connect base', hbase, hparts]

/-- A joined address is told by its parts: it is the one that they make without their outer slashes,
it ends in no slash, and it is the same whether the parts are joined at once or in turn and whatever
slashes stand around them. -/
theorem join_canonical (base : String) (parts more : List String) :
    (∀ url, Joined base parts url ↔ join base parts = url) ∧
      (join base parts).toList.getLast? ≠ some '/' ∧
      join (join base parts) more = join base (parts ++ more) ∧
      join (join base []) [] = join base [] ∧
      ∀ n (padded : List Padded),
        join (base ++ slashes n) (padded.map Padded.write) =
          join base (padded.map Padded.text) := by
  refine ⟨fun url => joined_iff, getLast?_join, join_join base parts more, join_join base [] [],
    fun n padded => join_congr (join_nil_append_slashes base n) ?_⟩
  rw [List.map_map, List.map_map]
  exact List.map_congr_left fun p _ => bare_write p

end Url

end BuildClient
