import BuildClient.Proofs.Text.Split
import BuildClient.Proofs.Url.Escapes
import BuildClient.Url.Names

/-! Spelled names. What the tables write into the host of an address is letters, digits, hyphens and
points; all else was in the host before. -/
namespace BuildClient

namespace Text

variable {α β : Type} {sep c : Char} {s : List Char}

theorem exists_of_mem_mapM {f : α → Option β} {l : List α} {bs : List β} (h : l.mapM f = some bs)
    {b : β} (hb : b ∈ bs) : ∃ a ∈ l, f a = some b := by
  induction l generalizing bs with
  | nil =>
    rw [List.mapM_nil] at h
    cases h
    cases hb
  | cons a l ih =>
    rw [List.mapM_cons] at h
    obtain ⟨first, hfirst, h⟩ := Option.bind_eq_some_iff.1 h
    obtain ⟨rest, hrest, h⟩ := Option.bind_eq_some_iff.1 h
    cases h
    rcases List.mem_cons.1 hb with rfl | hb
    · exact ⟨a, List.mem_cons_self, hfirst⟩
    · obtain ⟨a', ha', hf⟩ := ih hrest hb
      exact ⟨a', List.mem_cons_of_mem a ha', hf⟩

/-- A character that does not separate goes to the first piece. -/
theorem splitAt_cons_of_ne (h : c ≠ sep) (s : List Char) : ∃ piece pieces,
    splitAt sep s = piece :: pieces ∧ splitAt sep (c :: s) = (c :: piece) :: pieces := by
  obtain ⟨piece, pieces, hs⟩ := List.exists_cons_of_ne_nil (splitAt_ne_nil sep s)
  exact ⟨piece, pieces, hs, by rw [splitAt, if_neg h, hs]⟩

end Text

namespace Url

open Text Percent

variable {names : Names} {spelled : Bool} {host t : List Char} {c : Char}

theorem isUnreserved_of_isNameChar (h : isNameChar c = true) : isUnreserved c = true := by
  simp only [isNameChar, Bool.or_eq_true, beq_iff_eq] at h
  rcases h with (h | h) | rfl
  · simp [isUnreserved, Char.isAlphanum, Char.isAlpha, h]
  · simp [isUnreserved, Char.isAlphanum, h]
  · decide

theorem escaped_of_isUnreserved (h : ∀ c ∈ t, isUnreserved c = true) : Escaped t :=
  escaped_of_not_mem fun hm => absurd (h _ hm) (by decide)

/-- No escape goes over a point. -/
theorem escaped_piece (h : Escaped host) : ∀ piece ∈ splitAt '.' host, Escaped piece := by
  have hhex : ∀ {c : Char}, isHex c = true → c ≠ '.' := by
    rintro c hc rfl
    exact absurd hc (by decide)
  induction h with
  | nil => exact List.forall_mem_singleton.2 .nil
  | @char c s hc _ ih =>
    by_cases hdot : c = '.'
    · rw [splitAt, if_pos hdot]
      exact List.forall_mem_cons.2 ⟨.nil, ih⟩
    · obtain ⟨piece, pieces, hs, hcs⟩ := splitAt_cons_of_ne hdot s
      rw [hs, List.forall_mem_cons] at ih
      rw [hcs]
      exact List.forall_mem_cons.2 ⟨.char hc ih.1, ih.2⟩
  | @escape a b s ha hb _ ih =>
    obtain ⟨piece, pieces, hs, hbs⟩ := splitAt_cons_of_ne (hhex hb) s
    obtain ⟨_, _, hbs', habs⟩ := splitAt_cons_of_ne (hhex ha) (b :: s)
    obtain ⟨_, _, habs', hwhole⟩ := splitAt_cons_of_ne (show '%' ≠ '.' by decide) (a :: b :: s)
    rw [hbs] at hbs'
    cases hbs'
    rw [habs] at habs'
    cases habs'
    rw [hs, List.forall_mem_cons] at ih
    rw [hwhole]
    exact List.forall_mem_cons.2 ⟨.escape ha hb ih.1, ih.2⟩

theorem escaped_joinWith_point {pieces : List (List Char)} (h : ∀ piece ∈ pieces, Escaped piece) :
    Escaped (joinWith '.' pieces) := by
  induction pieces with
  | nil => exact .nil
  | cons piece rest ih =>
    obtain ⟨hpiece, hrest⟩ := List.forall_mem_cons.1 h
    cases rest with
    | nil => exact hpiece
    | cons next rest => exact hpiece.append (.char (by decide) (ih hrest))

/-- A way to spell hosts that writes nothing into them but unreserved characters. -/
def Spelling (spell : List Char → Option (List Char)) : Prop :=
  ∀ host t, spell host = some t → ∀ c ∈ t, c ∈ host ∨ isUnreserved c = true

theorem spelling_some : Spelling some := by
  rintro host _ ⟨⟩ c hc
  exact .inl hc

namespace Names

/-- A host in brackets stays as it is. In any other one every label is as it was, or is written by
the tables. -/
theorem spell_cases (h : names.spell host = some t) :
    t = host ∨ host.head? ≠ some '[' ∧ ∃ labels, t = joinWith '.' labels ∧
      ∀ label ∈ labels, label ∈ splitAt '.' host ∨ ∀ c ∈ label, isUnreserved c = true := by
  unfold spell at h
  split at h
  · exact .inl (Option.some.inj h).symm
  · rename_i hhead
    obtain ⟨labels, hlabels, rfl⟩ := Option.map_eq_some_iff.1 h
    refine .inr ⟨fun hb => ?_, labels, rfl, fun label hlabel => ?_⟩
    · obtain ⟨rest, rfl⟩ := List.head?_eq_some_iff.1 hb
      exact hhead rest rfl
    · obtain ⟨s, hs, hf⟩ := exists_of_mem_mapM hlabels hlabel
      split at hf
      · obtain rfl := Option.some.inj hf
        exact .inl hs
      · exact .inr fun c hc => isUnreserved_of_isNameChar (names.label_plain hf c hc)

theorem spelling (names : Names) : Spelling names.spell := by
  intro host t h c hc
  rcases spell_cases h with rfl | ⟨-, labels, rfl, hlabels⟩
  · exact .inl hc
  · rcases mem_joinWith hc with ⟨label, hlabel, hc⟩ | rfl
    · exact (hlabels label hlabel).imp (fun hs => mem_of_mem_splitAt hs hc)
        fun hplain => hplain c hc
    · exact .inr (by decide)

theorem escaped_spell (h : names.spell host = some t) (he : Escaped host) : Escaped t := by
  rcases spell_cases h with rfl | ⟨-, labels, rfl, hlabels⟩
  · exact he
  · refine escaped_joinWith_point fun label hlabel => ?_
    exact (hlabels label hlabel).elim (escaped_piece he label) escaped_of_isUnreserved

theorem spell_bracketed (names : Names) (s : List Char) :
    names.spell ('[' :: s) = some ('[' :: s) := rfl

theorem resolve_spelled (names : Names) (host : List Char) : names.resolve true host =
    if host.head? = some '*' ∨ host.head? = some '.' then none else some host := by
  rw [resolve, Bool.true_or, if_pos rfl]

theorem mem_resolve (h : names.resolve spelled host = some t) (hc : c ∈ t) :
    c ∈ host ∨ isUnreserved c = true := by
  rw [resolve] at h
  split at h
  · split at h
    · cases h
    · rw [Option.some.inj h]
      exact .inl hc
  · rcases names.whole_plain h c hc with hc | rfl
    · exact .inr (isUnreserved_of_isNameChar hc)
    · exact .inr (by decide)

theorem resolve_ne_nil (h : names.resolve spelled host = some t) (hne : host ≠ []) : t ≠ [] := by
  rw [resolve] at h
  split at h
  · split at h
    · cases h
    · exact Option.some.inj h ▸ hne
  · exact names.whole_ne_nil h

end Names

end Url

end BuildClient
