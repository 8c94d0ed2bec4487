import BuildClient.Proofs.Text.Utf8
import BuildClient.Proofs.Url.Requote

/-!
Queries in their written form: no step on the way to the service changes them, and what they stand
for can be read back.
-/
namespace BuildClient

open Text

namespace Text.Percent

variable {s t : List Char} {pieces : List (List Char)} {keep : Char → Bool}

theorem upperEscapes_cons {c : Char} (h : c ≠ '%') (s : List Char) :
    upperEscapes (c :: s) = c :: upperEscapes s := by
  rw [upperEscapes]
  rintro a b rest rfl
  exact absurd rfl h

theorem upperEscapes_escape {a b : Char} (ha : isHex a = true) (hb : isHex b = true)
    (s : List Char) :
    upperEscapes ('%' :: a :: b :: s) = '%' :: a.toUpper :: b.toUpper :: upperEscapes s := by
  rw [upperEscapes, if_pos (by simp [ha, hb])]

/-- Escapes are capitalised one by one. -/
theorem Escaped.upperEscapes_append (hs : Escaped s) (t : List Char) :
    upperEscapes (s ++ t) = upperEscapes s ++ upperEscapes t := by
  induction hs with
  | nil => rw [List.nil_append, upperEscapes, List.nil_append]
  | char h _ ih => rw [List.cons_append, upperEscapes_cons h, upperEscapes_cons h, ih,
      List.cons_append]
  | escape ha hb _ ih =>
    rw [List.cons_append, List.cons_append, List.cons_append, upperEscapes_escape ha hb,
      upperEscapes_escape ha hb, ih]
    rfl

theorem upperEscapes_of_not_mem (h : '%' ∉ s) : upperEscapes s = s := by
  induction s with
  | nil => rw [upperEscapes]
  | cons c s ih =>
    rw [List.mem_cons, not_or] at h
    rw [upperEscapes_cons (Ne.symm h.1), ih h.2]

theorem Escaped.escapeCount_eq (h : Escaped s) : escapeCount s = s.count '%' := by
  induction h with
  | nil => rw [escapeCount, List.count_nil]
  | @char c s h _ ih =>
    rw [escapeCount, List.count_cons_of_ne h, ih]
    rintro a b rest rfl
    exact absurd rfl h
  | @escape a b s ha hb _ ih =>
    have hne : ∀ {c : Char}, isHex c = true → c ≠ '%' := by
      rintro c hc rfl
      exact absurd hc (by decide)
    rw [escapeCount, if_pos (by simp [ha, hb]), List.count_cons_self,
      List.count_cons_of_ne (hne ha), List.count_cons_of_ne (hne hb), ih]

/-- A component without escapes is not touched if all it holds may stand. -/
theorem normalize_eq_self (h : ∀ c ∈ s, keep c = true) (hp : '%' ∉ s) : normalize keep s = s := by
  unfold normalize
  dsimp only
  rw [upperEscapes_of_not_mem hp]
  exact encode_eq_self fun c hc => by rw [h c hc, Bool.true_or]

theorem bytes_cons {c : Char} (h : c ≠ '%') (s : List Char) :
    bytes (c :: s) = String.utf8EncodeChar c ++ bytes s := by
  rw [bytes]
  rintro a b rest rfl
  exact absurd rfl h

theorem bytes_escapeByte (b : UInt8) (s : List Char) :
    bytes (escapeByte b ++ s) = b :: bytes s := by
  have hb : b.toNat < 256 := b.toNat_lt
  have hval : 16 * (b.toNat / 16) + b.toNat % 16 = b.toNat := by omega
  rw [escapeByte, List.cons_append, List.cons_append, List.cons_append, bytes,
    hexValue?_hexUpper (by omega), hexValue?_hexUpper (by omega)]
  dsimp only
  rw [hval, UInt8.ofNat_toNat, List.nil_append]

theorem bytes_escape (c : Char) (s : List Char) :
    bytes (escape c ++ s) = String.utf8EncodeChar c ++ bytes s := by
  rw [escape]
  induction String.utf8EncodeChar c with
  | nil => rfl
  | cons b bs ih => rw [List.flatMap_cons, List.append_assoc, bytes_escapeByte, ih,
      List.cons_append]

/-- Where `%` is escaped too, everything can be read back. -/
theorem decode_encode (h : keep '%' = false) (s : List Char) :
    decode (encode keep s) = String.ofList s := by
  have hb : bytes (encode keep s) = Utf8.encode (String.ofList s) := by
    rw [Utf8.encode, String.toList_ofList]
    induction s with
    | nil => rw [encode, List.flatMap_nil, bytes, List.flatMap_nil]
    | cons c s ih =>
      rw [encode] at ih
      rw [encode, List.flatMap_cons, List.flatMap_cons]
      split
      · rename_i hc
        rw [List.singleton_append, bytes_cons, ih]
        rintro rfl
        rw [h] at hc
        cases hc
      · rw [bytes_escape, ih]
  rw [decode, hb, Utf8.decodeLossy_encode]

theorem upperEscapes_joinWith (h : ∀ piece ∈ pieces, Escaped piece) :
    upperEscapes (joinWith '&' pieces) = joinWith '&' (pieces.map upperEscapes) := by
  induction pieces with
  | nil => rw [joinWith, upperEscapes, List.map_nil, joinWith]
  | cons piece rest ih =>
    cases rest with
    | nil => rfl
    | cons next rest =>
      have hrest := ih fun p hp => h p (List.mem_cons_of_mem piece hp)
      rw [joinWith, (h piece List.mem_cons_self).upperEscapes_append, upperEscapes_cons (by decide),
        hrest]
      · rfl
      · exact List.cons_ne_nil _ _

theorem encode_joinWith (h : keep '&' = true) (pieces : List (List Char)) :
    encode keep (joinWith '&' pieces) = joinWith '&' (pieces.map (encode keep)) := by
  induction pieces with
  | nil => rfl
  | cons piece rest ih =>
    cases rest with
    | nil => rfl
    | cons next rest =>
      rw [joinWith, encode_append, encode_cons h, ih]
      · rfl
      · exact List.cons_ne_nil _ _

end Text.Percent

namespace Url

open Text Percent

variable {s t : List Char} {c : Char}

/-- Characters of a query that stand for themselves, and escapes in capital digits of bytes that
may not. -/
inductive Written : List Char → Prop
  | nil : Written []
  | char {c : Char} {s : List Char} (h : inQuery c = true) (rest : Written s) : Written (c :: s)
  | escape {b : UInt8} {s : List Char} (h : isUnreserved (Char.ofNat b.toNat) = false)
      (rest : Written s) : Written (escapeByte b ++ s)

theorem ne_percent_of_inQuery (h : inQuery c = true) : c ≠ '%' := by
  rintro rfl
  exact absurd h (by decide)

theorem isSafe_of_inQuery (h : inQuery c = true) : isSafe c = true := by
  have hd : isDelimiter c = true → isSafe c = true := by
    intro hc
    rw [isDelimiter, List.contains_iff_mem] at hc
    have hall : "!$&'()*+,;=".toList.all isSafe = true := by decide
    exact List.all_eq_true.1 hall c hc
  simp only [inQuery, inPath, inUserInfo, Bool.or_eq_true, beq_iff_eq] at h
  rcases h with (((((h | h) | rfl) | rfl) | rfl) | rfl)
  · rw [isSafe, h, Bool.true_or]
  · exact hd h
  all_goals decide

theorem inQuery_of_isUnreserved (h : isUnreserved c = true) : inQuery c = true := by
  simp [inQuery, inPath, inUserInfo, h]

namespace Written

theorem append (hs : Written s) (ht : Written t) : Written (s ++ t) := by
  induction hs with
  | nil => exact ht
  | char h _ ih => exact .char h ih
  | escape h _ ih =>
    rw [List.append_assoc]
    exact .escape h ih

theorem of_chars (h : ∀ c ∈ s, inQuery c = true) : Written s := by
  induction s with
  | nil => exact .nil
  | cons c s ih =>
    exact .char (h c List.mem_cons_self) (ih fun d hd => h d (List.mem_cons_of_mem c hd))

theorem escaped (h : Written s) : Escaped s := by
  induction h with
  | nil => exact .nil
  | char h _ ih => exact .char (ne_percent_of_inQuery h) ih
  | escape _ _ ih => exact (escaped_escapeByte _).append ih

/-- What a written query may hold. -/
theorem mem (h : Written s) (hc : c ∈ s) : inQuery c = true ∨ c = '%' := by
  induction h with
  | nil => cases hc
  | char h _ ih =>
    rcases List.mem_cons.1 hc with rfl | hc
    · exact .inl h
    · exact ih hc
  | @escape b s _ _ ih =>
    rcases List.mem_append.1 hc with hc | hc
    · have hb : b.toNat < 256 := b.toNat_lt
      simp only [escapeByte, List.mem_cons, List.not_mem_nil, or_false] at hc
      rcases hc with rfl | rfl | rfl
      · exact .inr rfl
      · exact .inl (inQuery_of_isUnreserved (isUnreserved_hexUpper (by omega)))
      · exact .inl (inQuery_of_isUnreserved (isUnreserved_hexUpper (by omega)))
    · exact ih hc

/-- Its escapes stand, since none is that of an unreserved character. -/
theorem decodeUnreserved? (h : Written s) : decodeUnreserved? s = some s := by
  induction h with
  | nil => rw [Url.decodeUnreserved?]
  | char h _ ih => rw [decodeUnreserved?_cons (ne_percent_of_inQuery h), ih, Option.map_some]
  | @escape b s h _ ih =>
    have hb : b.toNat < 256 := b.toNat_lt
    have hx := isHex_hexUpper (n := b.toNat / 16) (by omega)
    have hy := isHex_hexUpper (n := b.toNat % 16) (by omega)
    have hval : hexNat? [hexUpper (b.toNat / 16), hexUpper (b.toNat % 16)] = some b.toNat := by
      have hsum : 16 * (b.toNat / 16) + b.toNat % 16 = b.toNat := by omega
      simp [hexNat?, hexValue?_hexUpper (show b.toNat / 16 < 16 by omega),
        hexValue?_hexUpper (show b.toNat % 16 < 16 by omega), hsum]
    rw [escapeByte, List.cons_append, List.cons_append, List.cons_append, List.nil_append,
      Url.decodeUnreserved?,
      if_pos (by rw [isAlphanumeric_of_isHex hx, isAlphanumeric_of_isHex hy]; rfl),
      plainDigit_of_isHex hx, plainDigit_of_isHex hy, hval, ih]
    dsimp only
    rw [Option.map_some, h, if_neg (by decide)]

/-- The last touch leaves it as it is, if escapes may stand. -/
theorem encode (h : Written s) : Percent.encode (fun c => isSafe c || c == '%') s = s := by
  refine encode_eq_self fun c hc => ?_
  rcases h.mem hc with hc | rfl
  · rw [isSafe_of_inQuery hc, Bool.true_or]
  · decide

/-- A component comes into its written form by having its escapes capitalised. -/
theorem normalize (h : Written (upperEscapes s)) :
    Percent.normalize inQuery s = upperEscapes s := by
  have hcount : escapeCount (upperEscapes s) == (upperEscapes s).count '%' := by
    rw [h.escaped.escapeCount_eq, beq_self_eq_true]
  unfold Percent.normalize
  dsimp only
  rw [hcount]
  refine encode_eq_self fun c hc => ?_
  rcases h.mem hc with hc | rfl
  · rw [hc, Bool.true_or]
  · decide

end Written

theorem written_joinWith {pieces : List (List Char)} (h : ∀ piece ∈ pieces, Written piece) :
    Written (joinWith '&' pieces) := by
  induction pieces with
  | nil => exact .nil
  | cons piece rest ih =>
    have hpiece := h piece List.mem_cons_self
    cases rest with
    | nil => exact hpiece
    | cons next rest =>
      exact hpiece.append (.char (by decide) (ih fun p hp => h p (List.mem_cons_of_mem piece hp)))

end Url

namespace Text.Percent

open Url

variable {s : List Char} {c : Char}

/-- A text without escapes stands for itself. -/
theorem decode_of_not_mem (h : '%' ∉ s) : decode s = String.ofList s := by
  have hkeep : encode (fun c => c != '%') s = s :=
    encode_eq_self fun c hc => bne_iff_ne.2 fun he => h (he ▸ hc)
  rw [← hkeep, decode_encode (by decide), hkeep]

theorem toNat_lt_of_isUnreserved (h : isUnreserved c = true) : c.toNat < 128 := by
  have hc : c.val.toNat = c.toNat := rfl
  simp only [isUnreserved, Char.isAlphanum, Char.isAlpha, Char.isUpper, Char.isLower, Char.isDigit,
    Bool.or_eq_true, Bool.and_eq_true, decide_eq_true_eq, ge_iff_le, UInt32.le_iff_toNat_le,
    beq_iff_eq] at h
  rcases h with ((((((h | h) | h) | rfl) | rfl) | rfl) | rfl)
  all_goals first | decide | (simp at h; omega)

/-- Of the bytes of a character, only that of an unreserved one is unreserved. -/
theorem isUnreserved_of_mem_utf8EncodeChar {b : UInt8} (hb : b ∈ String.utf8EncodeChar c)
    (h : isUnreserved (Char.ofNat b.toNat) = true) : isUnreserved c = true := by
  have hsmall : b.toNat < 128 := by
    have hlt := toNat_lt_of_isUnreserved h
    have hvalid : b.toNat.isValidChar := .inl (by have := b.toNat_lt; omega)
    rwa [Char.toNat_ofNat, if_pos hvalid] at hlt
  have hc : Char.ofNat c.toNat = c := Char.ofNat_toNat c
  have hval : c.val.toNat = c.toNat := rfl
  rw [String.utf8EncodeChar, hval] at hb
  generalize c.toNat = n at hb hc
  -- only a character of one byte has a byte below 128
  split at hb
  · rw [List.mem_singleton] at hb
    rw [← UInt8.toNat_inj, UInt8.toNat_ofNat', Nat.mod_eq_of_lt (by omega)] at hb
    rwa [hb, hc] at h
  · split at hb
    · simp only [List.mem_cons, List.not_mem_nil, or_false, ← UInt8.toNat_inj,
        UInt8.toNat_ofNat'] at hb
      omega
    · split at hb
      · simp only [List.mem_cons, List.not_mem_nil, or_false, ← UInt8.toNat_inj,
          UInt8.toNat_ofNat'] at hb
        omega
      · simp only [List.mem_cons, List.not_mem_nil, or_false, ← UInt8.toNat_inj,
          UInt8.toNat_ofNat'] at hb
        omega

theorem written_flatMap_escapeByte {bs : List UInt8}
    (h : ∀ b ∈ bs, isUnreserved (Char.ofNat b.toNat) = false) :
    Written (bs.flatMap escapeByte) := by
  induction bs with
  | nil => exact .nil
  | cons b bs ih =>
    exact .escape (h b List.mem_cons_self) (ih fun d hd => h d (List.mem_cons_of_mem b hd))

theorem written_escape (h : isUnreserved c = false) : Written (escape c) := by
  refine written_flatMap_escapeByte fun b hb => ?_
  rw [Bool.eq_false_iff] at h ⊢
  exact fun hu => h (isUnreserved_of_mem_utf8EncodeChar hb hu)

end Text.Percent

end BuildClient
