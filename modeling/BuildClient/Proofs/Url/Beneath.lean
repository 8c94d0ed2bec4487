import BuildClient.Proofs.Url.Join
import BuildClient.Proofs.Url.Location

/-! Addresses that go on from others. Once an address has a step of its own behind the service's,
all that goes on from it leads to the same location. -/
namespace BuildClient

namespace Url

open Text Percent Credentials

variable {api base url name : String} {parts more : List String}

/-- The address goes on from the other one by a slash. -/
def Beneath (base url : String) : Prop := ∃ tail, url.toList = base.toList ++ '/' :: tail

/-- What is joined is set off by a slash, or is nothing. -/
theorem segments_cases (parts : List (List Char)) :
    parts.flatMap segment = [] ∨ ∃ tail, parts.flatMap segment = '/' :: tail := by
  induction parts with
  | nil => exact .inl rfl
  | cons part parts ih =>
    rw [List.flatMap_cons]
    by_cases hp : dropOuter isSlash part = []
    · rw [segment, hp]
      exact ih
    · rw [segment_of_ne_nil hp]
      exact .inr ⟨_, rfl⟩

theorem toList_join_append (base : String) (parts more : List String) :
    (join base (parts ++ more)).toList =
      (join base parts).toList ++ (more.map String.toList).flatMap segment := by
  simp [join, joinChars]

/-- A part that is more than slashes goes on from those before it. -/
theorem beneath_join (h : dropOuter isSlash name.toList ≠ []) (more : List String) :
    Beneath (join base parts) (join base (parts ++ name :: more)) := by
  refine ⟨dropOuter isSlash name.toList ++ (more.map String.toList).flatMap segment, ?_⟩
  rw [toList_join_append, List.map_cons, List.flatMap_cons, segment_of_ne_nil h]
  rfl

theorem Beneath.append (h : Beneath base url) (s : String) : Beneath base (url ++ s) := by
  obtain ⟨tail, ht⟩ := h
  exact ⟨tail ++ s.toList, by rw [String.toList_append, ht, List.append_assoc, List.cons_append]⟩

/-- What goes on from a longer address goes on from a shorter one. -/
theorem Beneath.of_append (h : Beneath (join base (parts ++ more)) url) :
    Beneath (join base parts) url := by
  obtain ⟨tail, ht⟩ := h
  rw [toList_join_append] at ht
  rcases segments_cases (more.map String.toList) with hs | ⟨rest, hs⟩
  · exact ⟨tail, by rw [ht, hs, List.append_nil]⟩
  · exact ⟨rest ++ '/' :: tail, by rw [ht, hs, List.append_assoc, List.cons_append]⟩

theorem clean_append_slash (s t : List Char) :
    clean (s ++ '/' :: t) =
      clean s ++ '/' :: t.filter fun c => c != '\t' && c != '\n' && c != '\r' := by
  rw [clean, dropWhile_append_of_stop (by decide), List.filter_append,
    List.filter_cons_of_pos (by decide)]
  rfl

/-- A scheme ends before the first slash. -/
theorem dropScheme_append_slash (s t : List Char) :
    dropScheme (s ++ '/' :: t) = dropScheme s ++ '/' :: t := by
  cases s with
  | nil =>
    change dropScheme ('/' :: t) = '/' :: t
    rw [dropScheme]
    split
    · rw [if_neg (by simp [show '/'.isAlpha = false by decide])]
    · rfl
  | cons c s =>
    by_cases h : ':' ∈ c :: s
    · obtain ⟨r, hr, hrt⟩ := cutFirst_append_of_mem h ('/' :: t)
      rw [List.cons_append, dropScheme, ← List.cons_append, hrt, dropScheme, hr]
      dsimp only
      split <;> rfl
    · have hs := cutFirst_append_of_not_mem h ('/' :: t)
      rw [List.cons_append, dropScheme, ← List.cons_append, hs, dropScheme, cutFirst_eq_self h]
      dsimp only
      cases ht : (cutFirst ':' ('/' :: t)).2 with
      | none => rfl
      | some rest =>
        have hslash : ((c :: s) ++ (cutFirst ':' ('/' :: t)).1).all isSchemeChar = false := by
          have hfirst : (cutFirst ':' ('/' :: t)).1.all isSchemeChar = false := by
            rw [cutFirst, if_neg (by decide)]
            rfl
          rw [List.all_append, hfirst, Bool.and_false]
        simp only [hslash, Bool.and_false, Bool.false_eq_true, if_false]

/-- A step of unreserved characters is kept when a text is cleaned. -/
theorem dropScheme_clean_step {step : List Char} (h : ∀ x ∈ step, isUnreserved x = true)
    (s t : List Char) :
    dropScheme (clean (s ++ '/' :: (step ++ t))) = dropScheme (clean s) ++
      '/' :: (step ++ t.filter fun c => c != '\t' && c != '\n' && c != '\r') := by
  have hkeep : step.filter (fun c => c != '\t' && c != '\n' && c != '\r') = step := by
    refine List.filter_eq_self.2 fun x hx => ?_
    have hx := h x hx
    simp only [Bool.and_eq_true, bne_iff_ne]
    refine ⟨⟨?_, ?_⟩, ?_⟩ <;> rintro rfl <;> revert hx <;> decide
  rw [clean_append_slash, dropScheme_append_slash, List.filter_append, hkeep]

/-- Such a step ends at the next slash. -/
theorem takeWhile_step {step t : List Char} (h : ∀ x ∈ step, isUnreserved x = true)
    (ht : ∀ c ∈ t.head?, c = '/') :
    (step ++ t.filter fun c => c != '\t' && c != '\n' && c != '\r').takeWhile
      (fun c => c != '/' && c != '?' && c != '#') = step := by
  have hinside : ∀ x ∈ step, (x != '/' && x != '?' && x != '#') = true := by
    intro x hx
    obtain ⟨hslash, hquery, hfragment⟩ := inside_of_isUnreserved (h x hx)
    simp [hslash, hquery, hfragment]
  cases t with
  | nil => rw [List.filter_nil, List.append_nil, List.takeWhile_eq_self_iff.2 hinside]
  | cons c t =>
    obtain rfl := ht c rfl
    rw [List.filter_cons_of_pos (by decide), takeWhile_append_of_stop (by decide),
      List.takeWhile_eq_self_iff.2 hinside]

/-- What follows the first step of a path adds nothing to a location. -/
theorem location_step {d : Char} {s step t : List Char}
    (hstep : ∀ x ∈ d :: step, isUnreserved x = true) (ht : ∀ c ∈ t.head?, c = '/') :
    location (s ++ '/' :: (d :: step ++ t)) =
      if dropScheme (clean s) = ['/'] then d :: step else location s := by
  have hd : d ≠ '/' := (inside_of_isUnreserved (hstep d List.mem_cons_self)).1
  have hwhole := dropScheme_clean_step hstep s t
  have hstop := takeWhile_step hstep ht
  obtain ⟨after, hafter⟩ : ∃ after, d :: step ++ t.filter
      (fun c => c != '\t' && c != '\n' && c != '\r') = d :: after := ⟨_, rfl⟩
  rw [hafter] at hwhole hstop
  unfold Credentials.location
  rw [hwhole]
  match dropScheme (clean s) with
  | [] => simp [hd]
  | [x] =>
    by_cases hx : x = '/'
    · subst hx
      exact hstop
    · simp [hx]
  | x :: y :: r =>
    by_cases hxy : x = '/' ∧ y = '/'
    · obtain ⟨rfl, rfl⟩ := hxy
      exact takeWhile_append_of_stop (by decide) r _
    · have hnot : ∀ {rest rest'}, x :: y :: rest ≠ '/' :: '/' :: rest' := by
        rintro rest rest' ⟨⟩
        exact hxy ⟨rfl, rfl⟩
      rw [if_neg (by simp)]
      split
      · rename_i heq
        exact absurd heq hnot
      · split
        · rename_i heq
          exact absurd heq hnot
        · rfl

/-- All that goes on from the first step behind the service's address leads to its location. -/
theorem Beneath.location_eq (h : Beneath (join api ["apis"]) url) :
    location url.toList = location (join api ["apis"]).toList := by
  obtain ⟨tail, hurl⟩ := h
  have hjoin : (join api ["apis"]).toList =
      dropEndWhile isSlash api.toList ++ '/' :: ('a' :: "pis".toList ++ []) := by
    simp [join, joinChars, segment, dropOuter, dropEndWhile, isSlash]
  have hstep : ∀ x ∈ 'a' :: "pis".toList, isUnreserved x = true := List.all_eq_true.1 (by decide)
  rw [hurl, hjoin, location_step hstep (by simp), List.append_nil, List.append_assoc,
    List.cons_append, location_step hstep (by simp)]

theorem location_join (api : String) (parts : List String) :
    location (join api ("apis" :: parts)).toList = location (join api ["apis"]).toList := by
  have hparts := toList_join_append api ["apis"] parts
  rcases segments_cases (parts.map String.toList) with hs | ⟨tail, hs⟩
  · rw [hs, List.append_nil] at hparts
    exact congrArg location hparts
  · exact Beneath.location_eq ⟨tail, by rw [← hs]; exact hparts⟩

end Url

end BuildClient
