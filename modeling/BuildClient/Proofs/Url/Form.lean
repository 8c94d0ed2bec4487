import BuildClient.Proofs.Url.Written

/-!
Form coding can be undone. If what was written is escaped once more, what is read is how it was
written.
-/
namespace BuildClient.Text.Form

open Percent Url

variable {c : Char} {s : List Char} {pairs : List (String × String)}

/-- Every `+` read as a space. -/
def spaced (s : List Char) : List Char := s.map fun c => if c = '+' then ' ' else c

theorem written_encodeText (s : String) : Written (encodeText s) := by
  rw [encodeText]
  induction s.toList with
  | nil => exact .nil
  | cons c s ih =>
    rw [List.flatMap_cons]
    refine Written.append ?_ ih
    split
    · exact .char (by decide) .nil
    · split
      · rename_i hu
        exact .char (inQuery_of_isUnreserved hu) .nil
      · rename_i hu
        exact written_escape (by simpa using hu)

theorem spaced_escape (c : Char) : spaced (escape c) = escape c := by
  have hid : ∀ d ∈ escape c, (if d = '+' then ' ' else d) = d := by
    intro d hd
    refine if_neg ?_
    rintro rfl
    rcases mem_escape hd with hu | hp
    · exact absurd hu (by decide)
    · exact absurd hp (by decide)
  rw [spaced, List.map_congr_left hid, List.map_id']

/-- What is written can be read back. -/
theorem decodeText_encodeText (s : String) : decodeText (encodeText s) = s := by
  have hb : bytes (spaced (encodeText s)) = Utf8.encode s := by
    rw [encodeText, Utf8.encode]
    induction s.toList with
    | nil => rw [List.flatMap_nil, spaced, List.map_nil, bytes, List.flatMap_nil]
    | cons c s ih =>
      rw [spaced] at ih
      rw [List.flatMap_cons, List.flatMap_cons, spaced, List.map_append, ← spaced]
      split
      · rename_i hc
        rw [hc, spaced, List.map_singleton, if_pos rfl, List.singleton_append,
          bytes_cons (by decide), ih]
      · split
        · rename_i hc hu
          have hne : c ≠ '+' ∧ c ≠ '%' := by
            constructor <;> rintro rfl <;> exact absurd hu (by decide)
          rw [spaced, List.map_singleton, if_neg hne.1, List.singleton_append, bytes_cons hne.2, ih]
        · rw [spaced_escape, bytes_escape, ih]
  rw [decodeText, ← spaced, decode, hb, Utf8.decodeLossy_encode]

/-- What is escaped once more is read as it was written. -/
theorem decodeText_encode {s : List Char} (h : Written s) :
    decodeText (Percent.encode isSafe s) = String.ofList (spaced s) := by
  have henc : spaced (Percent.encode isSafe s) =
      Percent.encode (fun c => isSafe c || c == ' ') (spaced s) := by
    have hchar : ∀ c ∈ s, spaced (if isSafe c then [c] else escape c) =
        if isSafe (if c = '+' then ' ' else c) || (if c = '+' then ' ' else c) == ' ' then
          [if c = '+' then ' ' else c] else escape (if c = '+' then ' ' else c) := by
      intro c hc
      by_cases hplus : c = '+'
      · subst hplus
        decide
      · have hne : (c == ' ') = false := by
          rw [beq_eq_false_iff_ne]
          rintro rfl
          exact absurd (h.mem hc) (by decide)
        rw [if_neg hplus, hne, Bool.or_false]
        split
        · rw [spaced, List.map_singleton, if_neg hplus]
        · exact spaced_escape c
    rw [Percent.encode, Percent.encode, spaced, List.map_flatMap, spaced, List.flatMap_map]
    exact List.flatMap_congr hchar
  rw [decodeText, ← spaced, henc, decode_encode (by decide)]

/-- How a text is written, with its spaces as they are. -/
def asWritten (s : String) : String := String.ofList (spaced (encodeText s))

theorem decode_asWritten (s : String) : decode (asWritten s).toList = s := by
  rw [asWritten, String.toList_ofList]
  exact decodeText_encodeText s

theorem mem_encodeText {s : String} (h : c ∈ encodeText s) :
    c = '+' ∨ isUnreserved c = true ∨ c = '%' := by
  obtain ⟨d, -, hc⟩ := List.mem_flatMap.1 h
  split at hc
  · exact .inl (List.mem_singleton.1 hc)
  · split at hc
    · rename_i hu
      rw [← List.mem_singleton.1 hc] at hu
      exact .inr (.inl hu)
    · exact .inr (mem_escape hc)

/-- The signs of a form do not occur in what is written between them. -/
theorem sign_not_mem (hc : c = '&' ∨ c = '=') (s : String) :
    c ∉ encodeText s ∧ c ∉ Percent.encode isSafe (encodeText s) := by
  have hsign : c ≠ '+' ∧ isUnreserved c = false ∧ c ≠ '%' := by
    rcases hc with rfl | rfl <;> decide
  have hnot : c ∉ encodeText s := by
    intro hm
    rcases mem_encodeText hm with h | h | h
    · exact hsign.1 h
    · rw [hsign.2.1] at h
      cases h
    · exact hsign.2.2 h
  refine ⟨hnot, fun hm => ?_⟩
  rcases mem_encode hm with ⟨hm, -⟩ | h | h
  · exact hnot hm
  · rw [hsign.2.1] at h
    cases h
  · exact hsign.2.2 h

theorem encode_encodePair (p : String × String) : Percent.encode isSafe (encodePair p) =
    Percent.encode isSafe (encodeText p.1) ++ '=' :: Percent.encode isSafe (encodeText p.2) := by
  rw [encodePair, encode_append, encode_cons (by decide)]

/-- The pairs of a form. -/
def read (s : List Char) : List (String × String) := (splitAt '&' s).map decodePair

theorem decodePair_append {a b : List Char} (h : '=' ∉ a) :
    decodePair (a ++ '=' :: b) = (decodeText a, decodeText b) := by
  rw [decodePair, cutFirst_append '=' b h]
  rfl

theorem written_encode (pairs : List (String × String)) : Written (encode pairs) := by
  refine written_joinWith fun piece hpiece => ?_
  obtain ⟨p, -, rfl⟩ := List.mem_map.1 hpiece
  exact (written_encodeText p.1).append (.char (by decide) (written_encodeText p.2))

/-- Pairs are read back from their form. -/
theorem read_encode (h : pairs ≠ []) : read (encode pairs) = pairs := by
  rw [read, encode, splitAt_joinWith '&' (by simpa using h), List.map_map]
  · refine List.map_id'' (fun p => ?_) pairs
    rw [Function.comp, encodePair, decodePair_append (sign_not_mem (.inr rfl) p.1).1,
      decodeText_encodeText, decodeText_encodeText]
  · intro piece hpiece
    obtain ⟨p, -, rfl⟩ := List.mem_map.1 hpiece
    simp [encodePair, (sign_not_mem (.inl rfl) p.1).1, (sign_not_mem (.inl rfl) p.2).1]

/-- Of a form that was escaped once more, the pairs are read as they were written. -/
theorem read_reescaped (h : pairs ≠ []) : read (Percent.encode isSafe (encode pairs)) =
    pairs.map fun p => (asWritten p.1, asWritten p.2) := by
  rw [read, encode, encode_joinWith (by decide), List.map_map,
    splitAt_joinWith '&' (by simpa using h), List.map_map]
  · refine List.map_congr_left fun p _ => ?_
    rw [Function.comp, Function.comp, encode_encodePair,
      decodePair_append (sign_not_mem (.inr rfl) p.1).2, decodeText_encode (written_encodeText p.1),
      decodeText_encode (written_encodeText p.2)]
    rfl
  · intro piece hpiece
    obtain ⟨p, -, rfl⟩ := List.mem_map.1 hpiece
    rw [Function.comp, encode_encodePair]
    simp [(sign_not_mem (.inl rfl) p.1).2, (sign_not_mem (.inl rfl) p.2).2]

end BuildClient.Text.Form
