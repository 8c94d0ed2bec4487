import BuildClient.Proofs.Text.Split
import BuildClient.Proofs.Url.Location
import BuildClient.Proofs.Url.Written

/-!
Hosts with a zone. Its separator is a bare `%`, so the last touch of an address may take the start
of a zone for a broken escape. No other part of an authority can be mistaken.
-/
namespace BuildClient.Url

open Text Percent

variable {names : Names} {s t host zone : List Char} {a : Authority} {c x y : Char}

/-- The host has a zone that begins with two letters or digits which are not both hexadecimal. -/
def Stray (host : List Char) : Prop :=
  ∃ address x y zone, host = '[' :: (address ++ '%' :: x :: y :: zone) ∧ '%' ∉ address ∧
    isAlphanumeric x = true ∧ isAlphanumeric y = true ∧ ¬ (isHex x = true ∧ isHex y = true)

theorem decodeUnreserved?_escaped_append (h : Escaped s) (t : List Char) :
    decodeUnreserved? (s ++ t) = none ↔ decodeUnreserved? t = none := by
  induction h with
  | nil => rw [List.nil_append]
  | char hc _ ih => rw [List.cons_append, decodeUnreserved?_cons hc, Option.map_eq_none_iff, ih]
  | @escape a b s ha hb _ ih =>
    obtain ⟨n, hn⟩ := hexNat?_of_isHex ha hb
    rw [List.cons_append, List.cons_append, List.cons_append, decodeUnreserved?,
      if_pos (by simp [isAlphanumeric_of_isHex ha, isAlphanumeric_of_isHex hb]),
      plainDigit_of_isHex ha, plainDigit_of_isHex hb, hn]
    dsimp only
    rw [Option.map_eq_none_iff, ih]

theorem hexNat?_eq_none_iff : hexNat? [x, y] = none ↔ ¬ (isHex x = true ∧ isHex y = true) := by
  rw [isHex, isHex]
  cases hx : hexValue? x <;> cases hy : hexValue? y <;> simp [hexNat?, hx, hy]

theorem plainDigit_of_lt (h : c.toNat < 128) : plainDigit c = c := by
  have hall : ∀ n < 128, plainDigit (Char.ofNat n) = Char.ofNat n := by decide
  have hc := hall c.toNat h
  rwa [Char.ofNat_toNat] at hc

theorem decodeUnreserved?_bare
    (h : ∀ x y rest, s = x :: y :: rest → ¬ (isAlphanumeric x = true ∧ isAlphanumeric y = true)) :
    decodeUnreserved? ('%' :: s) = (decodeUnreserved? s).map ('%' :: ·) := by
  rcases s with _ | ⟨x, _ | ⟨y, rest⟩⟩
  · simp [decodeUnreserved?]
  · simp [decodeUnreserved?]
  · have hxy := h x y rest rfl
    rw [decodeUnreserved?, if_neg (by simpa using hxy)]

/-- Behind its separator a zone is mistaken just if it strays. -/
theorem decodeUnreserved?_zone (h : Escaped (zone ++ ']' :: t)) (hz : ∀ c ∈ zone, c.toNat < 128) :
    decodeUnreserved? ('%' :: (zone ++ ']' :: t)) = none ↔
      ∃ x y rest, zone = x :: y :: rest ∧ isAlphanumeric x = true ∧ isAlphanumeric y = true ∧
        ¬ (isHex x = true ∧ isHex y = true) := by
  have hbracket : isAlphanumeric ']' = false := by decide
  by_cases hs : ∃ x y rest,
    zone = x :: y :: rest ∧ isAlphanumeric x = true ∧ isAlphanumeric y = true
  · obtain ⟨x, y, rest, rfl, hx, hy⟩ := hs
    have hdigits : hexNat? [plainDigit x, plainDigit y] = hexNat? [x, y] := by
      rw [plainDigit_of_lt (hz x (by simp)), plainDigit_of_lt (hz y (by simp))]
    rw [List.cons_append, List.cons_append, decodeUnreserved?, if_pos (by simp [hx, hy]), hdigits]
    by_cases hhex : isHex x = true ∧ isHex y = true
    · have hne : ∀ {c : Char}, isHex c = true → c ≠ '%' := by
        rintro c hc rfl
        exact absurd hc (by decide)
      have hrest : Escaped (rest ++ ']' :: t) := (h.tail (hne hhex.1)).tail (hne hhex.2)
      obtain ⟨n, hn⟩ := hexNat?_of_isHex hhex.1 hhex.2
      obtain ⟨p, hp⟩ := exists_decodeUnreserved? hrest
      rw [hn]
      dsimp only
      rw [hp]
      refine iff_of_false (Option.some_ne_none _) ?_
      rintro ⟨x', y', rest', he, -, -, hnot⟩
      cases he
      exact hnot hhex
    · rw [hexNat?_eq_none_iff.2 hhex]
      exact iff_of_true rfl ⟨x, y, rest, rfl, hx, hy, hhex⟩
  · obtain ⟨p, hp⟩ := exists_decodeUnreserved? h
    rw [decodeUnreserved?_bare, hp]
    · refine iff_of_false (Option.some_ne_none _) ?_
      rintro ⟨x, y, rest, he, hx, hy, -⟩
      exact hs ⟨x, y, rest, he, hx, hy⟩
    · rintro x y rest he ⟨hx, hy⟩
      rcases zone with _ | ⟨_, _ | ⟨_, _⟩⟩
      · cases he
        rw [hbracket] at hx
        cases hx
      · cases he
        rw [hbracket] at hy
        cases hy
      · cases he
        exact hs ⟨_, _, _, rfl, hx, hy⟩

namespace Host

theorem toLower_ne_percent (h : c ≠ '%') : c.toLower ≠ '%' := by
  by_cases hu : c.isUpper = true
  · intro he
    have ha : c.toLower.isAlpha = true := by
      rw [Char.isAlpha_toLower_eq_isAlpha, Char.isAlpha, hu]
      rfl
    rw [he] at ha
    exact absurd ha (by decide)
  · rwa [Char.toLower_eq_of_not_isUpper hu]

theorem percent_not_mem_lower (h : '%' ∉ s) : '%' ∉ s.map Char.toLower := by
  intro hm
  obtain ⟨c, hc, he⟩ := List.mem_map.1 hm
  exact toLower_ne_percent (fun hp => h (hp ▸ hc)) he

theorem escaped_lower (h : Escaped s) : Escaped (s.map Char.toLower) := by
  have hhex : ∀ {c : Char}, isHex c = true → isHex c.toLower = true :=
    fun hc => forall_hex (p := fun c => isHex c.toLower) (by decide) hc
  induction h with
  | nil => exact .nil
  | char hc _ ih => exact .char (toLower_ne_percent hc) ih
  | escape ha hb _ ih => exact .escape (hhex ha) (hhex hb) ih

theorem escaped_name (s : List Char) : Escaped (name s).1 := by
  fun_induction name s with
  | case1 a b rest hab ih =>
    rw [Bool.and_eq_true] at hab
    exact .escape hab.1 hab.2 ih
  | case2 => exact .nil
  | case3 => exact .nil
  | case4 c rest hne hc ih => exact .char (by rintro rfl; exact hc (by simp)) ih
  | case5 => exact .nil

theorem bracket_not_mem_name (s : List Char) : '[' ∉ (name s).1 := by
  fun_induction name s with
  | case1 a b rest hab ih =>
    rw [Bool.and_eq_true] at hab
    simp only [List.mem_cons, not_or]
    refine ⟨by decide, ?_, ?_, ih⟩ <;> rintro rfl
    · exact absurd hab.1 (by decide)
    · exact absurd hab.2 (by decide)
  | case4 c rest hne hc ih =>
    simp only [List.mem_cons, not_or]
    exact ⟨by rintro rfl; exact hc (by simp), ih⟩
  | _ => simp

theorem normalize_of_head (h : host.head? ≠ some '[') : normalize host = host.map Char.toLower := by
  unfold normalize
  split
  · exact absurd rfl h
  · rfl

/-- Either the `%` of a host all start escapes, or the host has a zone. -/
theorem normalize_cases {p : List Char × Option Nat} (h : read? s = some p)
    (hspell : names.spell p.1 = some host) :
    Escaped (normalize host) ∨ ∃ address zone, normalize host =
      '[' :: (address ++ '%' :: (zone ++ [']'])) ∧ '%' ∉ address ∧ Escaped zone ∧
        ∀ c ∈ zone, c.toNat < 128 := by
  unfold read? at h
  split at h
  · cases h
    have hhead : host.head? ≠ some '[' := fun hh => by
      rcases names.spelling _ _ hspell '[' (List.mem_of_mem_head? hh) with hm | hm
      · exact bracket_not_mem_name s hm
      · exact absurd hm (by decide)
    rw [normalize_of_head hhead]
    exact .inl (escaped_lower (Names.escaped_spell hspell (escaped_name s)))
  · split at h
    · rename_i inner _
      split at h
      · rename_i address rest _
        split at h
        · obtain ⟨port, -, rfl⟩ := Option.map_eq_some_iff.1 h
          rw [List.cons_append, Names.spell_bracketed] at hspell
          cases hspell
          have hlast : (address ++ [']']).dropLast = address := List.dropLast_concat
          simp only [normalize, hlast]
          have hclean := not_mem_cutFirst '%' address
          split
          · rename_i before zone hcut
            rw [hcut] at hclean
            refine .inr ⟨before.map Char.toLower, Percent.normalize isUnreserved (zoneText zone),
              by simp, percent_not_mem_lower hclean, escaped_normalize (by decide)
                (fun c hc => forall_hex (by decide) hc) _, fun c hc => ?_⟩
            unfold Percent.normalize at hc
            rcases mem_encode hc with ⟨-, hc⟩ | hc | rfl
            · simp only [Bool.or_eq_true, Bool.and_eq_true, beq_iff_eq] at hc
              rcases hc with hc | ⟨-, rfl⟩
              · exact toNat_lt_of_isUnreserved hc
              · decide
            · exact toNat_lt_of_isUnreserved hc
            · decide
          · rename_i before hcut
            have hself : (cutFirst '%' address).1 = address := cutFirst_of_none (by rw [hcut])
            rw [hself] at hclean
            refine .inl (escaped_of_not_mem (percent_not_mem_lower ?_))
            simpa using hclean
        · cases h
      · cases h
    · cases h

end Host

/-- Behind the host stands at most a port, which holds no `%`. -/
theorem write_authority (a : Authority) : ∃ port, Escaped port ∧
    a.write = (a.userInfo.elim [] fun u => u ++ ['@']) ++ (a.host ++ port) := by
  rw [Authority.write]
  split
  · exact ⟨[], .nil, List.append_assoc ..⟩
  · exact ⟨[], .nil, List.append_assoc ..⟩
  · rename_i n _ _
    refine ⟨':' :: decimal n, .char (by decide) (escaped_of_not_mem fun h => ?_),
      List.append_assoc ..⟩
    exact absurd (Nat.isDigit_of_mem_toDigits (by decide) (by decide) h) (by decide)

theorem not_stray_of_escaped (h : Escaped host) : ¬ Stray host := by
  rintro ⟨address, x, y, zone, rfl, haddress, -, -, hnot⟩
  have hrest : Escaped ('%' :: x :: y :: zone) := by
    have htail := h.tail (by decide)
    clear h
    induction address with
    | nil => exact htail
    | cons c address ih =>
      rw [List.mem_cons, not_or] at haddress
      exact ih haddress.2 (htail.tail (Ne.symm haddress.1))
  cases hrest with
  | char h => exact absurd rfl h
  | escape hx hy => exact hnot ⟨hx, hy⟩

theorem not_stray_of_head (h : host.head? ≠ some '[') : ¬ Stray host := by
  rintro ⟨address, x, y, zone, rfl, -⟩
  exact h rfl

theorem stray_zone_iff {address : List Char} (h : '%' ∉ address) :
    Stray ('[' :: (address ++ '%' :: (zone ++ [']']))) ↔
      ∃ x y rest, zone = x :: y :: rest ∧ isAlphanumeric x = true ∧ isAlphanumeric y = true ∧
        ¬ (isHex x = true ∧ isHex y = true) := by
  constructor
  · rintro ⟨address', x, y, zone', he, h', hx, hy, hnot⟩
    have hcut := congrArg (cutFirst '%') (List.cons.inj he).2
    rw [cutFirst_append '%' _ h, cutFirst_append '%' _ h'] at hcut
    obtain ⟨-, hzone⟩ := Prod.mk.inj hcut
    have hzone := Option.some.inj hzone
    rcases zone with _ | ⟨_, _ | ⟨_, _⟩⟩
    · cases hzone
    · cases hzone
      exact absurd hy (by decide)
    · cases hzone
      exact ⟨_, _, _, rfl, hx, hy, hnot⟩
  · rintro ⟨x, y, rest, rfl, hx, hy, hnot⟩
    exact ⟨address, x, y, rest ++ [']'], rfl, h, hx, hy, hnot⟩

/-- The last touch makes something of an authority unless its host has a zone that strays. -/
theorem decodeUnreserved?_authority (h : Authority.read? names.spell s = some a) :
    decodeUnreserved? (Target.normalizeAuthority a).write = none ↔
      Stray (Target.normalizeAuthority a).host := by
  obtain ⟨p, host, hp, hspell, rfl⟩ := Authority.read?_eq_some h
  generalize ((cutLast '@' s).1.filter fun u => !u.isEmpty) = info
  obtain ⟨port, hport, hwrite⟩ := write_authority (Target.normalizeAuthority ⟨info, host, p.2⟩)
  have hinfo : ∀ info : Option (List Char), Escaped
      ((info.map (Percent.normalize inUserInfo)).elim [] fun u => u ++ ['@']) := by
    rintro (_ | u)
    · exact .nil
    · refine (escaped_normalize (by decide) (fun c hc => ?_) u).append (.char (by decide) .nil)
      exact forall_hex (by decide) hc
  rw [hwrite]
  dsimp only [Target.normalizeAuthority]
  rw [decodeUnreserved?_escaped_append (hinfo _)]
  rcases Host.normalize_cases hp hspell with hhost | ⟨address, zone, hhost, haddress, hzone, hsmall⟩
  · obtain ⟨q, hq⟩ := exists_decodeUnreserved? (hhost.append hport)
    rw [hq]
    exact iff_of_false (Option.some_ne_none _) (not_stray_of_escaped hhost)
  · have hopen : '%' ∉ '[' :: address := by simp [haddress]
    rw [hhost, stray_zone_iff haddress, ← List.cons_append, List.append_assoc,
      decodeUnreserved?_escaped_append (escaped_of_not_mem hopen), List.cons_append,
      List.append_assoc]
    exact decodeUnreserved?_zone (hzone.append (.char (by decide) hport)) hsmall

end BuildClient.Url
