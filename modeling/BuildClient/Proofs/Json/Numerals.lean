import BuildClient.Json.Parser
import BuildClient.Json.Printer
import BuildClient.Proofs.Number.Digits
import BuildClient.Proofs.Number.Shortest

/-! A number that was written is read back, whatever follows that is no part of a number. -/
namespace BuildClient.Json

open Text Binary64

-- Powers are those that core defines.
attribute [local instance (2000)] instPowNat

variable {s ds part rest : List Char} {negative : Bool} {d : Decimal}

/-- What follows a number and is not read as part of it. -/
def EndsNumber (rest : List Char) : Prop :=
  ∀ c ∈ rest.head?, c.isDigit = false ∧ c ≠ '.' ∧ c ≠ 'e' ∧ c ≠ 'E'

/-- Digits, and at least one. -/
def Digits (ds : List Char) : Prop := ds ≠ [] ∧ ∀ c ∈ ds, c.isDigit = true

/-- Digits as a number starts with them: no zero leads but a zero alone. -/
def Leading (ds : List Char) : Prop := Digits ds ∧ (ds.head? = some '0' → ds = ['0'])

namespace Reader

theorem digits_append (h : ∀ c ∈ ds, c.isDigit = true) (hr : ∀ c ∈ rest.head?, c.isDigit = false) :
    digits (ds ++ rest) = (ds, rest) := by
  cases rest with
  | nil =>
    rw [digits, List.append_nil, List.takeWhile_eq_self_iff.2 h, List.dropWhile_eq_nil_iff.2 h]
  | cons c rest =>
    have hc : c.isDigit = false := hr c rfl
    rw [digits, List.takeWhile_append_of_pos h, List.dropWhile_append_of_pos h,
      List.takeWhile_cons_of_neg (by simp [hc]), List.dropWhile_cons_of_neg (by simp [hc]),
      List.append_nil]

theorem whole?_append (h : Leading ds) (hr : ∀ c ∈ rest.head?, c.isDigit = false) :
    whole? (ds ++ rest) = some (ds, rest) := by
  obtain ⟨⟨hne, hd⟩, hzero⟩ := h
  have hdigits := digits_append hd hr
  cases ds with
  | nil => exact absurd rfl hne
  | cons c ds =>
    by_cases hc : c = '0'
    · subst hc
      rw [hzero rfl]
      rfl
    · rw [List.cons_append] at hdigits ⊢
      rw [whole?, hdigits]
      simpa using hc

theorem fraction?_point (h : Digits ds) (hr : ∀ c ∈ rest.head?, c.isDigit = false) :
    fraction? ('.' :: (ds ++ rest)) = some (some ds, rest) := by
  rw [fraction?, digits_append h.2 hr]
  cases ds with
  | nil => exact absurd rfl h.1
  | cons c ds => rfl

theorem fraction?_none (hr : ∀ c ∈ rest.head?, c ≠ '.') : fraction? rest = some (none, rest) := by
  cases rest with
  | nil => rfl
  | cons c rest =>
    rw [fraction?]
    rintro r ⟨⟩
    exact hr _ rfl rfl

theorem power?_none (hr : ∀ c ∈ rest.head?, c ≠ 'e' ∧ c ≠ 'E') :
    power? rest = some (none, rest) := by
  cases rest with
  | nil => rfl
  | cons c rest =>
    obtain ⟨he, hE⟩ := hr c rfl
    rw [power?, if_neg (by simp [he, hE])]

/-- The sign of a power is always written. -/
theorem power?_append (h : Digits ds) (hr : ∀ c ∈ rest.head?, c.isDigit = false) :
    power? ('e' :: (if negative then '-' else '+') :: (ds ++ rest)) =
      some (some (if negative then -(digitsValue ds : ℤ) else digitsValue ds), rest) := by
  have hsign : Numeral.sign ((if negative then '-' else '+') :: (ds ++ rest)) =
      (negative, ds ++ rest) := by
    cases negative <;> rfl
  rw [power?, if_pos (.inl rfl), hsign]
  simp only
  rw [digits_append h.2 hr]
  cases ds with
  | nil => exact absurd rfl h.1
  | cons c ds => rfl

theorem number?_int (negative : Bool) (h : Leading ds) (hl : ds.length ≤ Numeral.maxDigits)
    (hr : EndsNumber rest) :
    number? negative (ds ++ rest) =
      some (.int (if negative then -(digitsValue ds : ℤ) else digitsValue ds), rest) := by
  rw [number?, whole?_append h fun c hc => (hr c hc).1]
  simp only [bind, Option.bind]
  rw [fraction?_none fun c hc => (hr c hc).2.1]
  simp only
  rw [power?_none fun c hc => (hr c hc).2.2]
  simp only
  rw [if_neg (by omega)]

theorem number?_fraction (negative : Bool) (h : Leading ds) (hp : Digits part)
    (hr : EndsNumber rest) :
    number? negative (ds ++ '.' :: (part ++ rest)) =
      some (.real (ofDecimal negative (digitsValue (ds ++ part)) (0 - part.length)), rest) := by
  rw [number?, whole?_append h (by simp)]
  simp only [bind, Option.bind]
  rw [fraction?_point hp fun c hc => (hr c hc).1]
  simp only
  rw [power?_none fun c hc => (hr c hc).2.2]
  rfl

theorem number?_power {ps : List Char} (negative down : Bool) (h : Leading ds) (hp : Digits ps)
    (hr : EndsNumber rest) :
    number? negative (ds ++ 'e' :: (if down then '-' else '+') :: (ps ++ rest)) =
      some (.real (ofDecimal negative (digitsValue ds)
        ((if down then -(digitsValue ps : ℤ) else digitsValue ps) - 0)), rest) := by
  rw [number?, whole?_append h (by simp)]
  simp only [bind, Option.bind]
  rw [fraction?_none (by simp)]
  simp only
  rw [power?_append hp fun c hc => (hr c hc).1]
  simp

theorem number?_both {ps : List Char} (negative down : Bool) (h : Leading ds) (hf : Digits part)
    (hp : Digits ps) (hr : EndsNumber rest) :
    number? negative
        (ds ++ '.' :: (part ++ 'e' :: (if down then '-' else '+') :: (ps ++ rest))) =
      some (.real (ofDecimal negative (digitsValue (ds ++ part))
        ((if down then -(digitsValue ps : ℤ) else digitsValue ps) - part.length)), rest) := by
  rw [number?, whole?_append h (by simp)]
  simp only [bind, Option.bind]
  rw [fraction?_point hf (by simp)]
  simp only
  rw [power?_append hp fun c hc => (hr c hc).1]
  rfl

end Reader

theorem digits_toDigits (n : ℕ) : Digits (Nat.toDigits 10 n) :=
  ⟨Nat.toDigits_ne_nil, fun _ => isDigit_toDigits⟩

/-- No number but zero starts with a zero. -/
theorem leading_toDigits (n : ℕ) : Leading (Nat.toDigits 10 n) := by
  refine ⟨digits_toDigits n, fun hz => ?_⟩
  obtain ⟨t, ht⟩ := List.head?_eq_some_iff.1 hz
  have hd : ∀ c ∈ t, c.isDigit = true := by
    intro c hc
    refine isDigit_toDigits (n := n) ?_
    rw [ht]
    exact List.mem_cons_of_mem _ hc
  have hn : n = digitsValue t := by
    have hv := digitsValue_toDigits n
    rw [ht, show '0' :: t = List.replicate 1 '0' ++ t from rfl, digitsValue_zeros_append 1 hd] at hv
    exact hv.symm
  rcases Nat.eq_zero_or_pos t.length with h0 | h0
  · rw [List.length_eq_zero_iff.1 h0] at ht
    exact ht
  · have hlt : n < 10 ^ t.length := hn ▸ digitsValue_lt hd
    have hle := (Nat.length_toDigits_le_iff (by decide) h0).2 hlt
    rw [ht, List.length_cons] at hle
    omega

theorem digits_padZeros (width n : ℕ) : Digits (Layout.padZeros width (Nat.toDigits 10 n)) := by
  refine ⟨by simp [Layout.padZeros], fun c hc => ?_⟩
  exact (List.mem_append.1 hc).elim isDigit_replicate_zero isDigit_toDigits

/-- The power of ten behind the digits, with its sign. -/
theorem signed_padZeros (width : ℕ) (lead : ℤ) :
    (if lead < 0 then -(digitsValue (Layout.padZeros width (Nat.toDigits 10 lead.natAbs)) : ℤ)
      else digitsValue (Layout.padZeros width (Nat.toDigits 10 lead.natAbs))) = lead := by
  rw [Layout.padZeros, digitsValue_zeros_append _ fun c => isDigit_toDigits, digitsValue_toDigits]
  split <;> omega

/-- A whole number with its zeros, and a zero after the point. -/
theorem number?_whole (negative : Bool) (n : ℕ) (h : Leading ds) (hz : digitsValue ds = 0 → n = 0)
    (hr : EndsNumber rest) :
    ∃ d : Decimal, d.value = (⟨digitsValue ds, n⟩ : Decimal).value ∧
      Reader.number? negative (ds ++ List.replicate n '0' ++ ['.', '0'] ++ rest) =
        some (.real (ofDecimal negative d.digits d.exp), rest) := by
  have hlead : Leading (ds ++ List.replicate n '0') := by
    refine ⟨⟨by simp [h.1.1], fun c hc => ?_⟩, fun h0 => ?_⟩
    · exact (List.mem_append.1 hc).elim (h.1.2 c) isDigit_replicate_zero
    · rw [List.head?_append_of_ne_nil _ h.1.1] at h0
      have hds := h.2 h0
      rw [hz (by rw [hds]; rfl), hds]
      rfl
  have hzero : Digits ['0'] := ⟨by simp, by simp⟩
  refine ⟨⟨digitsValue (ds ++ List.replicate n '0' ++ ['0']), -1⟩, ?_, ?_⟩
  · have hv : digitsValue (ds ++ List.replicate n '0' ++ ['0']) =
        10 ^ (n + 1) * digitsValue ds := by
      rw [← digitsValue_append_zeros (n + 1) h.1.2, List.append_assoc, List.replicate_succ']
    simp only [Decimal.value, hv]
    push_cast
    rw [zpow_natCast, pow_succ]
    ring
  · rw [List.append_assoc _ ['.', '0'] rest]
    exact Reader.number?_fraction negative hlead hzero hr

theorem number?_within (negative : Bool) {n : ℕ} (h : Leading ds) (hn : 0 < n) (hlt : n < ds.length)
    (hr : EndsNumber rest) :
    Reader.number? negative (ds.take n ++ '.' :: (ds.drop n ++ rest)) =
      some (.real (ofDecimal negative (digitsValue ds) (0 - (ds.length - n : ℕ))), rest) := by
  have htake : Leading (ds.take n) := by
    refine ⟨⟨by simp [h.1.1]; omega, fun c hc => h.1.2 c (List.mem_of_mem_take hc)⟩, fun h0 => ?_⟩
    rw [List.head?_take, if_neg (by omega)] at h0
    rw [h.2 h0, List.length_singleton] at hlt
    omega
  have hdrop : Digits (ds.drop n) :=
    ⟨by simp; omega, fun c hc => h.1.2 c (List.mem_of_mem_drop hc)⟩
  have hread := Reader.number?_fraction negative htake hdrop hr
  rw [List.take_append_drop, List.length_drop] at hread
  exact hread

theorem number?_below (negative : Bool) (n : ℕ) (h : Digits ds) (hr : EndsNumber rest) :
    Reader.number? negative ('0' :: '.' :: (List.replicate n '0' ++ ds) ++ rest) =
      some (.real (ofDecimal negative (digitsValue ds) (0 - (n + ds.length : ℕ))), rest) := by
  have hpart : Digits (List.replicate n '0' ++ ds) := by
    refine ⟨by simp [h.1], fun c hc => ?_⟩
    exact (List.mem_append.1 hc).elim isDigit_replicate_zero (h.2 c)
  have hzero : Leading ['0'] := ⟨⟨by simp, by simp⟩, fun _ => rfl⟩
  have hread := Reader.number?_fraction negative hzero hpart hr
  have hv : digitsValue (['0'] ++ (List.replicate n '0' ++ ds)) = digitsValue ds := by
    rw [← List.append_assoc, List.singleton_append, ← List.replicate_succ,
      digitsValue_zeros_append _ h.2]
  rw [hv, List.length_append, List.length_replicate] at hread
  exact hread

/-- One digit, a point if there are more, and a power of ten. -/
theorem number?_scientific (negative : Bool) (width : ℕ) (lead : ℤ) (hr : EndsNumber rest) :
    Leading ds →
    Reader.number? negative
        ((match ds with
          | [] => []
          | [c] => [c]
          | c :: cs => c :: '.' :: cs) ++ 'e' :: (if lead < 0 then '-' else '+') ::
            Layout.padZeros width (Nat.toDigits 10 lead.natAbs) ++ rest) =
      some (.real (ofDecimal negative (digitsValue ds) (lead - (ds.length - 1 : ℕ))), rest) := by
  intro h
  have hpower := digits_padZeros width lead.natAbs
  match ds, h with
  | [], h => exact absurd rfl h.1.1
  | [c], h =>
    have hread := Reader.number?_power negative (decide (lead < 0)) h hpower hr
    simp only [decide_eq_true_eq, signed_padZeros] at hread
    simpa using hread
  | c :: c' :: cs, h =>
    have hfirst : Leading [c] := by
      refine ⟨⟨by simp, fun a ha => h.1.2 a ?_⟩, fun h0 => ?_⟩
      · rw [List.mem_singleton.1 ha]
        exact List.mem_cons_self
      · rw [List.head?_singleton] at h0
        have := h.2 h0
        cases this
    have hrest : Digits (c' :: cs) := ⟨by simp, fun a ha => h.1.2 a (List.mem_cons_of_mem c ha)⟩
    have hread := Reader.number?_both negative (decide (lead < 0)) hfirst
      hrest hpower hr
    simp only [decide_eq_true_eq, signed_padZeros] at hread
    simpa using hread

/-- A decimal that is laid out is read as one of the same value. -/
theorem number?_place (negative : Bool) (form : Layout) (hz : d.digits = 0 → d.exp = 0)
    (hr : EndsNumber rest) :
    ∃ d' : Decimal, d'.value = d.value ∧ Reader.number? negative (form.place d ++ rest) =
      some (.real (ofDecimal negative d'.digits d'.exp), rest) := by
  obtain ⟨digits, exp⟩ := d
  have hlead := leading_toDigits digits
  have hpos : 0 < (Nat.toDigits 10 digits).length := Nat.length_toDigits_pos
  have hvalue := digitsValue_toDigits digits
  simp only [Layout.place]
  generalize Nat.toDigits 10 digits = ds at *
  subst hvalue
  by_cases hplain : form.plainFrom ≤ exp + ds.length - 1 ∧ exp + ds.length - 1 < form.plainBelow
  · rw [if_pos hplain]
    by_cases hexp : 0 ≤ exp
    · rw [if_pos hexp]
      obtain ⟨n, rfl⟩ := Int.eq_ofNat_of_zero_le hexp
      exact number?_whole negative n hlead (fun h0 => by simpa using hz h0) hr
    · rw [if_neg hexp]
      refine ⟨⟨digitsValue ds, exp⟩, rfl, ?_⟩
      by_cases hl : 0 ≤ exp + ds.length - 1
      · rw [if_pos hl]
        have hread := number?_within negative (n := (exp + ds.length - 1).toNat + 1)
          hlead (by omega) (by omega) hr
        have he : (0 : ℤ) - (ds.length - ((exp + ds.length - 1).toNat + 1) : ℕ) = exp := by omega
        rw [he] at hread
        rw [← hread]
        simp
      · rw [if_neg hl]
        have hread := number?_below negative (-(exp + ds.length - 1)).toNat.pred
          hlead.1 hr
        have he : (0 : ℤ) - ((-(exp + ds.length - 1)).toNat.pred + ds.length : ℕ) = exp := by
          rw [Nat.pred_eq_sub_one]
          omega
        rw [he] at hread
        exact hread
  · rw [if_neg hplain]
    refine ⟨⟨digitsValue ds, exp⟩, rfl, ?_⟩
    have hread := number?_scientific negative form.expWidth (exp + ds.length - 1) hr hlead
    have he : exp + ds.length - 1 - (ds.length - 1 : ℕ) = exp := by omega
    rw [he] at hread
    exact hread

/-- The digits of a finite value are read as that value, whichever sign it is given. -/
theorem number?_finite (negative : Bool) {m e : ℕ} (form : Layout)
    (hc : (finite false m e).Canonical) (hr : EndsNumber rest) :
    Reader.number? negative
        ((if m = 0 then form.place ⟨0, 0⟩ else form.place (Shortest.select m e)) ++ rest) =
      some (.real (finite negative m e), rest) := by
  split
  · rename_i hm
    subst hm
    have he : e = 0 := by
      obtain ⟨-, -, hfull | he⟩ := hc
      · exact absurd hfull (by decide)
      · exact he
    obtain ⟨d, hv, hread⟩ := number?_place negative (d := ⟨0, 0⟩) form (fun _ => rfl) hr
    have hd : d.digits = 0 := by
      rw [Decimal.value, Decimal.value, Nat.cast_zero, zero_mul] at hv
      have h10 : (10 : ℚ) ^ d.exp ≠ 0 := zpow_ne_zero _ (by norm_num)
      exact_mod_cast (mul_eq_zero.1 hv).resolve_right h10
    rw [hread, ofDecimal, if_pos hd, he]
  · rename_i hm
    have hpos : 0 < m := Nat.pos_of_ne_zero hm
    have hne := (Shortest.near_select m e).digits_ne_zero hpos hc
    obtain ⟨d, hv, hread⟩ := number?_place negative form (fun h => absurd h hne) hr
    rw [hread, ofDecimal_of_value_eq negative hpos hc hv]

namespace Reader

theorem head_of_number? {p : Number × List Char} (h : number? negative s = some p) :
    ∃ c t, s = c :: t ∧ c.isDigit = true := by
  rw [number?] at h
  cases hw : whole? s with
  | none =>
    rw [hw] at h
    cases h
  | some q =>
    cases s with
    | nil => cases hw
    | cons c t =>
      refine ⟨c, t, rfl, ?_⟩
      by_contra hc
      have hne : c ≠ '0' := fun h0 => hc (by rw [h0]; rfl)
      rw [whole?, digits, List.takeWhile_cons_of_neg (by simpa using hc)] at hw
      · cases hw
      · rintro t' ⟨⟩
        exact hne rfl

/-- What starts with a digit is a number. -/
theorem scalar?_of_isDigit (r : Reader) {c : Char} (h : c.isDigit = true) (t : List Char) :
    r.scalar? (c :: t) = (number? false (c :: t)).map fun p => (.number p.1, p.2) := by
  have hne : ∀ a : Char, a.isDigit = false → c ≠ a := by
    rintro a ha rfl
    rw [h] at ha
    cases ha
  rw [scalar?]
  · exact fun _ he => hne '"' (by decide) (List.cons.inj he).1
  · exact fun _ he => hne 'n' (by decide) (List.cons.inj he).1
  · exact fun _ he => hne 't' (by decide) (List.cons.inj he).1
  · exact fun _ he => hne 'f' (by decide) (List.cons.inj he).1
  · exact fun _ he => hne 'N' (by decide) (List.cons.inj he).1
  · exact fun _ he => hne 'I' (by decide) (List.cons.inj he).1
  · exact fun _ he => hne '-' (by decide) (List.cons.inj he).1
  · exact fun _ he => hne '-' (by decide) (List.cons.inj he).1

theorem scalar?_minus (r : Reader) {c : Char} (h : c.isDigit = true) (t : List Char) :
    r.scalar? ('-' :: c :: t) = (number? true (c :: t)).map fun p => (.number p.1, p.2) := by
  rw [scalar?]
  rintro t' he
  rw [(List.cons.inj he).1] at h
  exact absurd h (by decide)

/-- A number with its sign. -/
theorem scalar?_signed (r : Reader) {n : Number}
    (h : number? negative (s ++ rest) = some (n, rest)) :
    r.scalar? ((if negative then '-' :: s else s) ++ rest) = some (.number n, rest) := by
  obtain ⟨c, t, hct, hc⟩ := head_of_number? h
  cases negative with
  | true =>
    rw [if_pos rfl, List.cons_append, hct, scalar?_minus r hc, ← hct, h]
    rfl
  | false =>
    rw [if_neg (by decide), hct, scalar?_of_isDigit r hc, ← hct, h]
    rfl

theorem scalar?_intText (r : Reader) {i : ℤ}
    (hl : (Nat.toDigits 10 i.natAbs).length ≤ Numeral.maxDigits) (hr : EndsNumber rest) :
    r.scalar? (intText i ++ rest) = some (.number (.int i), rest) := by
  have hread := number?_int (decide (i < 0)) (leading_toDigits i.natAbs) hl hr
  have hv : (if i < 0 then -(digitsValue (Nat.toDigits 10 i.natAbs) : ℤ)
      else digitsValue (Nat.toDigits 10 i.natAbs)) = i := by
    rw [digitsValue_toDigits]
    split <;> omega
  simp only [decide_eq_true_eq, hv] at hread
  have hs := scalar?_signed r hread
  simpa only [intText, decide_eq_true_eq] using hs

theorem scalar?_finite (r : Reader) (form : Layout) {m e : ℕ} (hc : (finite negative m e).Canonical)
    (hr : EndsNumber rest) :
    r.scalar? ((form.write (finite negative m e)).toList ++ rest) =
      some (.number (.real (finite negative m e)), rest) := by
  have hs := scalar?_signed r (number?_finite negative form hc hr)
  rw [Layout.write, String.toList_ofList]
  exact hs

end Reader

end BuildClient.Json
