import BuildClient.Proofs.Url.Escapes

/-! The last touch of an address: what it makes of the part before a slash depends on that part
alone. -/
namespace BuildClient

open Text

namespace Text.Percent

variable {s : List Char} {keep : Char → Bool}

theorem encode_cons {c : Char} (h : keep c = true) (s : List Char) :
    encode keep (c :: s) = c :: encode keep s := by
  rw [encode, List.flatMap_cons, if_pos h]
  rfl

/-- A text is not touched if all it holds may stand. -/
theorem encode_eq_self (h : ∀ c ∈ s, keep c = true) : encode keep s = s := by
  have hself : s.flatMap (fun c => if keep c then [c] else escape c) = s.flatMap fun c => [c] :=
    List.flatMap_congr fun c hc => by rw [if_pos (h c hc)]
  rw [encode, hself, List.flatMap_singleton']

theorem encode_append (keep : Char → Bool) (s t : List Char) :
    encode keep (s ++ t) = encode keep s ++ encode keep t := by
  rw [encode, List.flatMap_append]
  rfl

end Text.Percent

namespace Url

open Percent

variable {s t : List Char}

theorem isAlphanumeric_of_isHex {c : Char} (h : isHex c = true) : isAlphanumeric c = true :=
  forall_hex (by decide) h

theorem plainDigit_of_isHex {c : Char} (h : isHex c = true) : plainDigit c = c := by
  have hc := forall_hex (p := fun c => plainDigit c == c) (by decide) h
  exact eq_of_beq hc

theorem hexNat?_of_isHex {a b : Char} (ha : isHex a = true) (hb : isHex b = true) :
    ∃ n, hexNat? [a, b] = some n := by
  obtain ⟨x, hx⟩ := Option.isSome_iff_exists.1 ha
  obtain ⟨y, hy⟩ := Option.isSome_iff_exists.1 hb
  exact ⟨16 * (16 * 0 + x) + y, by simp [hexNat?, hx, hy]⟩

theorem decodeUnreserved?_cons {c : Char} (h : c ≠ '%') (s : List Char) :
    decodeUnreserved? (c :: s) = (decodeUnreserved? s).map (c :: ·) := by
  rw [decodeUnreserved?]
  rintro a b rest rfl
  exact absurd rfl h

theorem decodeUnreserved?_append_of_not_mem (h : '%' ∉ s) (t : List Char) :
    decodeUnreserved? (s ++ t) = (decodeUnreserved? t).map (s ++ ·) := by
  induction s with
  | nil => simp
  | cons c s ih =>
    rw [List.mem_cons, not_or] at h
    rw [List.cons_append, decodeUnreserved?_cons (Ne.symm h.1), ih h.2, Option.map_map]
    rfl

/-- A text whose every `%` starts an escape can be decoded. -/
theorem exists_decodeUnreserved? (h : Escaped s) : ∃ p, decodeUnreserved? s = some p := by
  induction h with
  | nil => exact ⟨[], by rw [decodeUnreserved?]⟩
  | @char c s hc _ ih =>
    obtain ⟨p, hp⟩ := ih
    exact ⟨c :: p, by rw [decodeUnreserved?_cons hc, hp]; rfl⟩
  | @escape a b s ha hb _ ih =>
    obtain ⟨p, hp⟩ := ih
    obtain ⟨n, hn⟩ := hexNat?_of_isHex ha hb
    rw [decodeUnreserved?,
      if_pos (by simp [isAlphanumeric_of_isHex ha, isAlphanumeric_of_isHex hb]),
      plainDigit_of_isHex ha, plainDigit_of_isHex hb, hn, hp]
    exact ⟨_, rfl⟩

theorem mem_of_decodeUnreserved? {p : List Char} (h : decodeUnreserved? s = some p) :
    ∀ c ∈ p, c ∈ s ∨ isUnreserved c = true := by
  fun_induction decodeUnreserved? s generalizing p with
  | case1 a b rest hab n hn ih =>
    obtain ⟨q, hq, rfl⟩ := Option.map_eq_some_iff.1 h
    intro c hc
    split at hc
    · rename_i hu
      rcases List.mem_cons.1 hc with rfl | hc
      · exact .inr hu
      · exact (ih hq c hc).imp_left fun hm => by simp [hm]
    · simp only [List.mem_cons] at hc ⊢
      rcases hc with rfl | rfl | rfl | hc
      · simp
      · simp
      · simp
      · exact (ih hq c hc).imp_left fun hm => by simp [hm]
  | case2 a b rest hab hn => cases h
  | case3 a b rest hab ih =>
    obtain ⟨q, hq, rfl⟩ := Option.map_eq_some_iff.1 h
    intro c hc
    rcases List.mem_cons.1 hc with rfl | hc
    · exact .inl List.mem_cons_self
    · exact (ih hq c hc).imp_left (List.mem_cons_of_mem '%')
  | case4 d rest hne ih =>
    obtain ⟨q, hq, rfl⟩ := Option.map_eq_some_iff.1 h
    intro c hc
    rcases List.mem_cons.1 hc with rfl | hc
    · exact .inl List.mem_cons_self
    · exact (ih hq c hc).imp_left (List.mem_cons_of_mem d)
  | case5 =>
    cases h
    simp

theorem decodeUnreserved?_slash (t : List Char) :
    decodeUnreserved? ('/' :: t) = (decodeUnreserved? t).map ('/' :: ·) :=
  decodeUnreserved?_cons (by decide) t

theorem isAlphanumeric_slash : isAlphanumeric '/' = false := by decide

/-- A `%` with less than two characters before the slash starts no escape. -/
theorem decodeUnreserved?_cons_append_slash {d : Char} {rest : List Char}
    (h : ∀ a b rest', d = '%' → rest = a :: b :: rest' → False) (t : List Char) :
    decodeUnreserved? (d :: (rest ++ '/' :: t)) =
      (decodeUnreserved? (rest ++ '/' :: t)).map (d :: ·) := by
  by_cases hd : d = '%'
  · subst hd
    match rest, h with
    | [], _ =>
      cases t with
      | nil =>
        rw [List.nil_append, decodeUnreserved?]
        simp
      | cons x t =>
        rw [List.nil_append, decodeUnreserved?, if_neg (by simp [isAlphanumeric_slash])]
    | [a], _ =>
      change decodeUnreserved? ('%' :: a :: '/' :: t) = _
      rw [decodeUnreserved?, if_neg (by simp [isAlphanumeric_slash])]
      rfl
    | a :: b :: rest', h => exact (h a b rest' rfl rfl).elim
  · exact decodeUnreserved?_cons hd _

/-- No escape reaches over a slash. -/
theorem decodeUnreserved?_append_slash (s t : List Char) :
    decodeUnreserved? (s ++ '/' :: t) =
      (decodeUnreserved? s).bind fun p => (decodeUnreserved? ('/' :: t)).map (p ++ ·) := by
  fun_induction decodeUnreserved? s with
  | case1 a b rest hab n hn ih =>
    change decodeUnreserved? ('%' :: a :: b :: (rest ++ '/' :: t)) = _
    rw [decodeUnreserved?, if_pos hab, hn]
    dsimp only
    rw [ih, Option.map_bind, Option.bind_map]
    congr 1
    funext p
    simp only [Function.comp, Option.map_map]
    congr 1
    funext q
    simp only [Function.comp]
    split <;> rfl
  | case2 a b rest hab hn =>
    change decodeUnreserved? ('%' :: a :: b :: (rest ++ '/' :: t)) = _
    rw [decodeUnreserved?, if_pos hab, hn]
    rfl
  | case3 a b rest hab ih =>
    change decodeUnreserved? ('%' :: a :: b :: (rest ++ '/' :: t)) = _
    rw [decodeUnreserved?, if_neg hab]
    rw [List.cons_append, List.cons_append] at ih
    rw [ih, Option.map_bind, Option.bind_map]
    congr 1
    funext p
    simp only [Function.comp, Option.map_map]
    rfl
  | case4 d rest hne ih =>
    rw [List.cons_append, decodeUnreserved?_cons_append_slash hne, ih, Option.map_bind,
      Option.bind_map]
    congr 1
    funext p
    simp only [Function.comp, Option.map_map]
    rfl
  | case5 =>
    rw [List.nil_append]
    simp

theorem isUnreserved_hexUpper {n : Nat} (h : n < 16) : isUnreserved (hexUpper n) = true :=
  forall_hex (by decide) (isHex_hexUpper h)

theorem mem_escape {c d : Char} (h : d ∈ escape c) : isUnreserved d = true ∨ d = '%' := by
  obtain ⟨b, -, hd⟩ := List.mem_flatMap.1 h
  have hb : b.toNat < 256 := b.toNat_lt
  simp only [escapeByte, List.mem_cons, List.not_mem_nil, or_false] at hd
  rcases hd with rfl | rfl | rfl
  · exact .inr rfl
  · exact .inl (isUnreserved_hexUpper (by omega))
  · exact .inl (isUnreserved_hexUpper (by omega))

theorem mem_encode {keep : Char → Bool} {d : Char} (h : d ∈ Percent.encode keep s) :
    (d ∈ s ∧ keep d = true) ∨ isUnreserved d = true ∨ d = '%' := by
  obtain ⟨c, hc, hd⟩ := List.mem_flatMap.1 h
  split at hd
  · rename_i hk
    rw [List.mem_singleton] at hd
    subst hd
    exact .inl ⟨hc, hk⟩
  · exact .inr (mem_escape hd)

section Start

variable {start : List Char} (hstart : ∀ c ∈ start, isSafe c = true ∧ c ≠ '%')
include hstart

theorem decodeUnreserved?_start (s t : List Char) :
    decodeUnreserved? (start ++ s ++ '/' :: t) =
      (decodeUnreserved? s).bind fun p =>
        (decodeUnreserved? t).map fun q => start ++ (p ++ '/' :: q) := by
  rw [List.append_assoc,
    decodeUnreserved?_append_of_not_mem fun hm => (hstart _ hm).2 rfl,
    decodeUnreserved?_append_slash, decodeUnreserved?_slash, Option.map_bind]
  congr 1
  funext p
  simp only [Function.comp, Option.map_map]
  rfl

theorem requote_of_undecoded {s t : List Char}
    (h : decodeUnreserved? (start ++ s ++ '/' :: t) = none) :
    requote (start ++ s ++ '/' :: t) =
      start ++ Percent.encode isSafe s ++ '/' :: Percent.encode isSafe t := by
  rw [requote, h]
  dsimp only
  rw [Percent.encode_append, Percent.encode_append, Percent.encode_cons (by decide),
    Percent.encode_eq_self fun c hc => (hstart c hc).1]

theorem requote_of_decoded {s t p q : List Char} (hs : decodeUnreserved? s = some p)
    (ht : decodeUnreserved? t = some q) :
    requote (start ++ s ++ '/' :: t) =
      start ++ Percent.encode (fun c => isSafe c || c == '%') p ++
        '/' :: Percent.encode (fun c => isSafe c || c == '%') q := by
  rw [requote, decodeUnreserved?_start hstart, hs, ht]
  dsimp only [Option.bind, Option.map]
  rw [Percent.encode_append, Percent.encode_append, Percent.encode_cons (by decide),
    Percent.encode_eq_self fun c hc => by simp [(hstart c hc).1], List.append_assoc]

omit hstart in
theorem mem_of_encode_decoded {s p : List Char} (hs : decodeUnreserved? s = some p) :
    ∀ c ∈ Percent.encode (fun c => isSafe c || c == '%') p,
      c ∈ s ∨ isUnreserved c = true ∨ c = '%' := by
  intro c hc
  rcases mem_encode hc with ⟨hm, -⟩ | h
  · exact (mem_of_decodeUnreserved? hs c hm).imp_right .inl
  · exact .inr h

/-- Of a plain start, a part before a slash and the rest, the first two are touched up without
regard to the rest. -/
theorem requote_append_slash (s : List Char) :
    ∃ p, (∀ c ∈ p, c ∈ s ∨ isUnreserved c = true ∨ c = '%') ∧
      ∀ t, Escaped t → ∃ q, requote (start ++ s ++ '/' :: t) = start ++ p ++ '/' :: q := by
  cases hs : decodeUnreserved? s with
  | none =>
    refine ⟨Percent.encode isSafe s, fun c hc => (mem_encode hc).imp_left And.left, fun t _ => ?_⟩
    exact ⟨_, requote_of_undecoded hstart (by rw [decodeUnreserved?_start hstart, hs]; rfl)⟩
  | some p =>
    refine ⟨_, mem_of_encode_decoded hs, fun t ht => ?_⟩
    obtain ⟨q, hq⟩ := exists_decodeUnreserved? ht
    exact ⟨_, requote_of_decoded hstart hs hq⟩

/-- The start stays, and nothing new gets between it and the slash. -/
theorem exists_requote (s t : List Char) :
    ∃ p q, requote (start ++ s ++ '/' :: t) = start ++ p ++ '/' :: q ∧
      ∀ c ∈ p, c ∈ s ∨ isUnreserved c = true ∨ c = '%' := by
  cases h : decodeUnreserved? (start ++ s ++ '/' :: t) with
  | none =>
    exact ⟨_, _, requote_of_undecoded hstart h, fun c hc => (mem_encode hc).imp_left And.left⟩
  | some r =>
    rw [decodeUnreserved?_start hstart] at h
    obtain ⟨p, hs, h⟩ := Option.bind_eq_some_iff.1 h
    obtain ⟨q, ht, -⟩ := Option.map_eq_some_iff.1 h
    exact ⟨_, _, requote_of_decoded hstart hs ht, mem_of_encode_decoded hs⟩

end Start

end Url

end BuildClient
