import BuildClient.Proofs.Except
import BuildClient.Proofs.Url.Beneath
import BuildClient.Proofs.Url.Prepare

/-! Addresses without user information. None gets into an address that goes on from such a one, nor
into the form in which it is sent. -/
namespace BuildClient

open Text

namespace Url

open Text Percent Credentials

variable {names : Names} {api url sent : String} {params : List (String × String)}

/-- Nobody is named in front of the host. Blanks in front of an address do not count. -/
def Anonymous (url : String) : Prop := '@' ∉ location (trimStart url).toList

instance (url : String) : Decidable (Anonymous url) := inferInstanceAs (Decidable (_ ∉ _))

theorem mem_location_iff {c : Char} {s : List Char} : c ∈ location s ↔
    ∃ rest, dropScheme (clean s) = '/' :: '/' :: rest ∧
      c ∈ rest.takeWhile fun c => c != '/' && c != '?' && c != '#' := by
  rw [location]
  split
  · rename_i rest h
    constructor
    · exact fun hc => ⟨rest, h, hc⟩
    · rintro ⟨rest', h', hc⟩
      rw [h, List.cons.injEq, List.cons.injEq] at h'
      rwa [h'.2.2]
  · rename_i h
    constructor
    · intro hc
      cases hc
    · rintro ⟨rest, h', -⟩
      exact absurd h' (h rest)

/-- What follows a location takes nothing from it. -/
theorem mem_location_append_slash {c : Char} {s : List Char} (h : c ∈ location s) (t : List Char) :
    c ∈ location (s ++ '/' :: t) := by
  obtain ⟨rest, hrest, hc⟩ := mem_location_iff.1 h
  rw [mem_location_iff, clean_append_slash, dropScheme_append_slash, hrest]
  refine ⟨_, rfl, ?_⟩
  rw [List.append_eq, takeWhile_append_of_stop (by decide)]
  exact hc

/-- What goes on from an address without user information has none either. -/
theorem anonymous_of_beneath (h : Anonymous api) (hb : Beneath (join api ["apis"]) url) :
    Anonymous url := by
  obtain ⟨tail, hurl⟩ := hb
  have hjoin : (join api ["apis"]).toList =
      dropEndWhile isSlash api.toList ++ '/' :: 'a' :: "pis".toList := by
    simp [join, joinChars, segment, dropOuter, dropEndWhile, isSlash]
  obtain ⟨slashes, hapi, hslashes⟩ := append_of_dropEndWhile isSlash api.toList
  intro hmem
  apply h
  rw [trimStart, String.toList_ofList] at hmem ⊢
  rw [hurl, hjoin, List.append_assoc, List.cons_append,
    dropWhile_append_of_stop (by decide)] at hmem
  have hunreserved : ∀ x ∈ 'a' :: "pis".toList, isUnreserved x = true :=
    List.all_eq_true.1 (by decide)
  have hbase : '@' ∈ location ((dropEndWhile isSlash api.toList).dropWhile isBlank) := by
    rw [location_step hunreserved (by simp)] at hmem
    split at hmem
    · exact absurd hmem (by decide)
    · exact hmem
  rw [hapi]
  cases slashes with
  | nil => rwa [List.append_nil]
  | cons c slashes =>
    have hc : c = '/' := eq_of_beq (hslashes c List.mem_cons_self)
    rw [hc, dropWhile_append_of_stop (by decide)]
    exact mem_location_append_slash hbase slashes

theorem cutFirst_eq_some {sep : Char} {s r : List Char} (h : (cutFirst sep s).2 = some r) :
    s = (cutFirst sep s).1 ++ sep :: r := by
  induction s with
  | nil => cases h
  | cons c s ih =>
    rw [cutFirst] at h ⊢
    split
    · rename_i hc
      rw [if_pos hc] at h
      rw [hc, Option.some.inj h]
      rfl
    · rename_i hc
      rw [if_neg hc] at h
      exact congrArg (c :: ·) (ih h)

theorem cutScheme_eq_some {s scheme rest : List Char}
    (h : Components.cutScheme s = some (scheme, rest)) :
    IsScheme scheme ∧ s = scheme ++ ':' :: rest := by
  cases s with
  | nil => cases h
  | cons c s =>
    rw [Components.cutScheme] at h
    cases hr : (cutFirst ':' (c :: s)).2 with
    | none =>
      rw [show cutFirst ':' (c :: s) = ((cutFirst ':' (c :: s)).1, none) from Prod.ext rfl hr] at h
      cases h
    | some r =>
      have hcut : cutFirst ':' (c :: s) = ((cutFirst ':' (c :: s)).1, some r) := Prod.ext rfl hr
      rw [hcut] at h
      dsimp only at h
      split at h
      · rename_i hscheme
        obtain ⟨rfl, rfl⟩ := Prod.mk.inj (Option.some.inj h)
        rw [Bool.and_eq_true, List.all_eq_true] at hscheme
        have hwhole := cutFirst_eq_some hr
        refine ⟨⟨?_, hscheme.2⟩, hwhole⟩
        have hc : c ≠ ':' := by
          rintro rfl
          exact absurd hscheme.1 (by decide)
        exact ⟨c, (cutFirst ':' s).1, by rw [cutFirst, if_neg hc], hscheme.1⟩
      · cases h

theorem authority_readRest {scheme : Option (List Char)} {s authority : List Char}
    (h : (Components.readRest scheme s).authority = some authority) :
    ∃ r, s = '/' :: '/' :: r ∧ authority = r.takeWhile fun c => !Components.endsAuthority c := by
  unfold Components.readRest at h
  split at h
  rename_i found rest heq
  split at heq
  · rename_i r
    obtain ⟨hfound, -⟩ := Prod.mk.inj heq
    exact ⟨r, rfl, (Option.some.inj (hfound.trans h)).symm⟩
  · cases heq
    cases h

theorem readAuthority_eq_some {spell : List Char → Option (List Char)} {s : Option (List Char)}
    {a : Authority} (h : readAuthority spell s = .ok (some a)) :
    ∃ authority, s = some authority ∧ Authority.read? spell authority = some a := by
  unfold readAuthority at h
  split at h
  · cases h
  · cases h
  · split at h
    · rename_i ha
      cases h
      exact ⟨_, rfl, ha⟩
    · cases h

/-- An address with a scheme and an authority, taken apart. -/
theorem read_eq_some {s scheme authority : List Char}
    (hs : (Components.read s).scheme = some scheme)
    (ha : (Components.read s).authority = some authority) :
    IsScheme scheme ∧ ∃ r, s = scheme ++ "://".toList ++ r ∧
      authority = r.takeWhile fun c => !Components.endsAuthority c := by
  rw [Components.read] at hs ha
  cases hcut : Components.cutScheme s with
  | none =>
    rw [hcut] at hs
    dsimp only at hs
    split at hs <;> cases hs
  | some p =>
    obtain ⟨scheme', rest⟩ := p
    rw [hcut] at hs ha
    obtain rfl := Option.some.inj hs
    obtain ⟨hscheme, hwhole⟩ := cutScheme_eq_some hcut
    obtain ⟨r, hr, hauthority⟩ := authority_readRest ha
    refine ⟨hscheme, r, ?_, hauthority⟩
    rw [hwhole, hr, List.append_assoc]
    rfl

theorem isScheme_lower {scheme : List Char} (h : IsScheme scheme) :
    IsScheme (scheme.map Char.toLower) := by
  obtain ⟨⟨c, rest, rfl, hc⟩, hall⟩ := h
  refine ⟨⟨c.toLower, rest.map Char.toLower, rfl, ?_⟩, fun d hd => ?_⟩
  · rwa [Char.isAlpha_toLower_eq_isAlpha]
  · obtain ⟨x, hx, rfl⟩ := List.mem_map.1 hd
    by_cases hu : x.isUpper = true
    · have ha : x.toLower.isAlpha = true := by
        rw [Char.isAlpha_toLower_eq_isAlpha, Char.isAlpha, hu]
        rfl
      simp [Components.isSchemeChar, Char.isAlphanum, ha]
    · rw [Char.toLower_eq_of_not_isUpper hu]
      exact hall x hx

/-- An address that is read is one of its components, but for the host as it is looked up. -/
theorem target_read_eq_ok {t : Target} (h : Target.read names url = .ok t) :
    ∃ scheme authority spell a host, (Components.read url.toList).scheme = some scheme ∧
      (Components.read url.toList).authority = some authority ∧ Spelling spell ∧
      Authority.read? spell authority = some a ∧
      ∃ u, u = Target.ofComponents (scheme.map Char.toLower) a (Components.read url.toList) ∧
        host ≠ [] ∧ (∀ c ∈ host, c ∈ u.authority.host ∨ isUnreserved c = true) ∧
        t = { u with authority := { u.authority with host := host } } := by
  obtain ⟨found, hfound, h⟩ := bind_eq_ok.1 h
  split at h
  · cases h
  · cases h
  · rename_i scheme a hscheme
    obtain ⟨authority, hauthority, ha⟩ := readAuthority_eq_some hfound
    dsimp only at h
    split at h
    · cases h
    · rename_i hempty
      split at h
      · rename_i host hhost
        refine ⟨scheme, authority, _, a, host, hscheme, hauthority, ?_, ha, _, rfl,
          Names.resolve_ne_nil hhost (by simpa using hempty), fun c => Names.mem_resolve hhost,
          (Except.ok.inj h).symm⟩
        split
        · exact names.spelling
        · exact spelling_some
      · cases h

theorem inside_of_mem_authority {r : List Char} {c : Char}
    (h : c ∈ r.takeWhile fun c => !Components.endsAuthority c) : Inside c := by
  have hc := List.mem_takeWhile_imp h
  simp only [Components.endsAuthority, Bool.not_eq_true', Bool.or_eq_false_iff,
    beq_eq_false_iff_ne] at hc
  exact ⟨hc.1.1.2, hc.1.2, hc.2⟩

theorem kept_ne_at : Kept (· ≠ '@') := by
  refine ⟨?_, by decide, by decide, by decide, by decide⟩
  rintro c hc rfl
  exact absurd hc (by decide)

/-- However its host is spelled, an authority ends nowhere early. -/
theorem inside_write {spell : List Char → Option (List Char)} {scheme s host : List Char}
    {a : Authority} {c : Components} {u : Target} (hspell : Spelling spell)
    (h : Authority.read? spell s = some a) (hs : ∀ c ∈ s, Inside c)
    (hu : u = Target.ofComponents scheme a c)
    (hhost : ∀ d ∈ host, d ∈ u.authority.host ∨ isUnreserved d = true) :
    ∀ d ∈ Authority.write { u.authority with host := host }, Inside d := by
  have hread := kept_inside.host hspell h hs
  refine kept_inside.write (fun v hv => ⟨by decide, ?_⟩) fun d hd => ?_
  · rw [hu, Target.ofComponents] at hv
    split at hv
    · obtain ⟨v, -, rfl⟩ := Option.map_eq_some_iff.1 hv
      exact fun c => kept_inside.of_mem_normalize fun _ => inside_of_inUserInfo
    · obtain ⟨p, host, -, -, rfl⟩ := Authority.read?_eq_some h
      obtain ⟨hinfo, -⟩ := Option.filter_eq_some_iff.1 hv
      exact fun c hc => hs c (mem_of_mem_cutLast_first hinfo hc)
  · refine (hhost d hd).elim (fun hd => ?_) inside_of_isUnreserved
    rw [hu, Target.ofComponents] at hd
    split at hd
    · exact Host.kept_normalize kept_inside hread d hd
    · exact hread d hd

/-- An authority that names nobody is written without anybody. -/
theorem write_anonymous {spell : List Char → Option (List Char)} {scheme s host : List Char}
    {a : Authority} {c : Components} {u : Target} (hspell : Spelling spell)
    (h : Authority.read? spell s = some a) (hat : '@' ∉ s)
    (hu : u = Target.ofComponents scheme a c)
    (hhost : ∀ d ∈ host, d ∈ u.authority.host ∨ isUnreserved d = true) :
    ∀ d ∈ Authority.write { u.authority with host := host }, d ≠ '@' := by
  have hnobody : a.userInfo = none := by
    obtain ⟨p, host, -, -, rfl⟩ := Authority.read?_eq_some h
    rw [cutLast_of_not_mem hat]
    rfl
  have hread := kept_ne_at.host hspell h fun c hc he => hat (he ▸ hc)
  refine kept_ne_at.write (fun v hv => ?_) fun d hd => ?_
  · rw [hu, Target.ofComponents] at hv
    split at hv
    · rw [Target.normalizeAuthority, hnobody] at hv
      cases hv
    · rw [hnobody] at hv
      cases hv
  · refine (hhost d hd).elim (fun hd => ?_) (kept_ne_at.unreserved d)
    rw [hu, Target.ofComponents] at hd
    split at hd
    · exact Host.kept_normalize kept_ne_at hread d hd
    · exact hread d hd

theorem exists_write (t : Target) :
    ∃ rest, t.write = t.scheme ++ "://".toList ++ t.authority.write ++ '/' :: rest := by
  obtain ⟨path, hpath⟩ : ∃ path, Target.rootedPath t.path = '/' :: path := by
    rw [Target.rootedPath]
    split
    · rename_i h
      obtain ⟨rest, hr⟩ := List.head?_eq_some_iff.1 h
      exact ⟨rest, hr⟩
    · exact ⟨t.path, rfl⟩
  rw [Target.write, hpath]
  exact ⟨_, by simp only [List.append_assoc, List.cons_append]; rfl⟩

theorem isSafe_of_isScheme {scheme : List Char} (h : IsScheme scheme) :
    ∀ c ∈ scheme ++ "://".toList, isSafe c = true ∧ c ≠ '%' := by
  intro c hc
  rcases List.mem_append.1 hc with hc | hc
  · obtain ⟨-, hsafe, hmark⟩ := spec_of_isSchemeChar (h.2 c hc)
    refine ⟨hsafe, ?_⟩
    rintro rfl
    exact hmark (by decide)
  · have hcases : c = ':' ∨ c = '/' := by simpa using hc
    rcases hcases with rfl | rfl <;> decide

/-- What is sent for an address that names nobody names nobody. -/
theorem location_requote {t : Target} (hs : IsScheme t.scheme)
    (h : ∀ c ∈ t.authority.write, Inside c ∧ c ≠ '@') : '@' ∉ location (requote t.write) := by
  obtain ⟨rest, hwrite⟩ := exists_write t
  obtain ⟨p, q, hrequote, hp⟩ := exists_requote (isSafe_of_isScheme hs) t.authority.write rest
  have hall : ∀ {P : Char → Prop}, Kept P → (∀ c ∈ t.authority.write, P c) → ∀ c ∈ p, P c := by
    intro P hP hall c hc
    rcases hp c hc with hc | hc | rfl
    · exact hall c hc
    · exact hP.unreserved c hc
    · exact hP.percent
  rw [hwrite, hrequote, location_of_inside hs (hall kept_inside fun c hc => (h c hc).1)
    (by simp [Inside])]
  intro hat
  exact hall kept_ne_at (fun c hc => (h c hc).2) '@' (List.mem_of_mem_filter hat) rfl

/-- The authority of an address is a part of its location. -/
theorem mem_location_of_authority {scheme r : List Char} (hs : IsScheme scheme)
    (h : '@' ∈ r.takeWhile fun c => !Components.endsAuthority c) :
    '@' ∈ location (scheme ++ "://".toList ++ r) := by
  have hinside : ∀ c ∈ (r.takeWhile fun c => !Components.endsAuthority c).filter
      (fun c => c != '\t' && c != '\n' && c != '\r'), c != '/' && c != '?' && c != '#' := by
    intro c hc
    have hc := inside_of_mem_authority (List.mem_of_mem_filter hc)
    simp [hc.1, hc.2.1, hc.2.2]
  have hparts : r = r.takeWhile (fun c => !Components.endsAuthority c) ++
      r.dropWhile fun c => !Components.endsAuthority c := List.takeWhile_append_dropWhile.symm
  rw [location_of_scheme hs, hparts, List.filter_append, List.takeWhile_append_of_pos hinside]
  exact List.mem_append_left _ (List.mem_filter.2 ⟨h, by decide⟩)

/-- No user information gets into an address while it is brought into the form in which it is
sent. -/
theorem Anonymous.prepare (h : Anonymous url) (hp : Url.prepare names url params = .ok sent) :
    '@' ∉ location sent.toList := by
  rw [Url.prepare] at hp
  split at hp
  · obtain rfl := Except.ok.inj hp
    exact h
  · obtain ⟨t, ht, hp⟩ := bind_eq_ok.1 hp
    obtain rfl := Except.ok.inj hp
    obtain ⟨scheme, authority, spell, a, host, hs, ha, hspell, hread, u, hu, -, hhost, rfl⟩ :=
      target_read_eq_ok ht
    obtain ⟨hscheme, r, hwhole, rfl⟩ := read_eq_some hs ha
    have hat : '@' ∉ r.takeWhile fun c => !Components.endsAuthority c := by
      intro hmem
      apply h
      rw [hwhole]
      exact mem_location_of_authority hscheme hmem
    rw [String.toList_ofList, addQuery_eq]
    refine location_requote ?_ ?_
    · change IsScheme u.scheme
      rw [hu, Target.ofComponents]
      split <;> exact isScheme_lower hscheme
    · exact fun c hc =>
        ⟨inside_write hspell hread (fun c => inside_of_mem_authority) hu hhost c hc,
          write_anonymous hspell hread hat hu hhost c hc⟩

/-- Without user information in it, an address is sent with the lines that it came with. -/
theorem read_of_anonymous (h : '@' ∉ location sent.toList) :
    Credentials.read sent = (checkLocation (location sent.toList)).map fun _ => none := by
  rw [Credentials.read, ofLocation, cutLast_of_not_mem h]
  rfl

end Url

end BuildClient
