import BuildClient.Proofs.Query
import BuildClient.Proofs.Upload
import BuildClient.Proofs.Url.Sent

/-!
Escapes in the query of an upload. Values that were escaped once are read back by decoding once,
unless the host has a zone that strays; there they are still escaped after that.
-/
namespace BuildClient

open Text Percent Url

namespace Text.Percent

variable {s : List Char} {keep : Char → Bool}

/-- Every byte that is not unreserved as an escape. -/
def spell (v : String) : String := String.ofList (encode isUnreserved v.toList)

/-- The digits of escapes in capitals. -/
def capital (v : String) : String := String.ofList (upperEscapes v.toList)

/-- What the last touch of an address makes of a value when it no longer trusts the escapes. -/
def reescape (v : String) : String := String.ofList (encode isSafe v.toList)

theorem encode_eq_nil : encode keep s = [] ↔ s = [] := by
  cases s with
  | nil => exact iff_of_true rfl rfl
  | cons c s =>
    refine iff_of_false (fun h => ?_) (List.cons_ne_nil c s)
    rw [encode, List.flatMap_cons, List.append_eq_nil_iff] at h
    have hc := h.1
    split at hc
    · cases hc
    · rw [escape, List.flatMap_eq_nil_iff] at hc
      cases hb : String.utf8EncodeChar c with
      | nil => exact absurd hb (by simp)
      | cons b bs =>
        exact absurd (hc b (by rw [hb]; exact List.mem_cons_self)) (List.cons_ne_nil _ _)

theorem spell_eq_empty (v : String) : spell v = "" ↔ v = "" := by
  rw [spell, String.ofList_eq_empty_iff, encode_eq_nil, String.toList_eq_nil_iff]

theorem reescape_eq_empty (v : String) : reescape v = "" ↔ v = "" := by
  rw [reescape, String.ofList_eq_empty_iff, encode_eq_nil, String.toList_eq_nil_iff]

theorem upperEscapes_head (c : Char) (s : List Char) :
    ∃ rest, upperEscapes (c :: s) = c :: rest := by
  generalize hs : c :: s = t
  fun_cases upperEscapes t <;> cases hs <;> exact ⟨_, rfl⟩

theorem mem_upperEscapes {c : Char} (h : c ∈ s) : c ∈ upperEscapes s ∨ isHex c = true := by
  fun_induction upperEscapes s with
  | case1 a b rest hab ih =>
    rw [Bool.and_eq_true] at hab
    simp only [List.mem_cons] at h ⊢
    rcases h with rfl | rfl | rfl | h
    · exact .inl (.inl rfl)
    · exact .inr hab.1
    · exact .inr hab.2
    · exact (ih h).imp_left fun h => .inr (.inr (.inr h))
  | case2 a b rest hab ih =>
    rcases List.mem_cons.1 h with rfl | h
    · exact .inl List.mem_cons_self
    · exact (ih h).imp_left (List.mem_cons_of_mem _)
  | case3 d rest hne ih =>
    rcases List.mem_cons.1 h with rfl | h
    · exact .inl List.mem_cons_self
    · exact (ih h).imp_left (List.mem_cons_of_mem d)
  | case4 => cases h

theorem capital_eq_empty (v : String) : capital v = "" ↔ v = "" := by
  rw [capital, String.ofList_eq_empty_iff, ← String.toList_eq_nil_iff]
  cases v.toList with
  | nil => exact iff_of_true (by rw [upperEscapes]) rfl
  | cons c s =>
    obtain ⟨rest, hrest⟩ := upperEscapes_head c s
    rw [hrest]
    exact iff_of_false (List.cons_ne_nil _ _) (List.cons_ne_nil c s)

theorem Escaped.of_percent (h : Escaped ('%' :: s)) :
    ∃ a b rest, s = a :: b :: rest ∧ isHex a = true ∧ isHex b = true := by
  cases h with
  | char hc => exact absurd rfl hc
  | escape ha hb _ => exact ⟨_, _, _, rfl, ha, hb⟩

/-- Capitals make no escape out of what was none. -/
theorem escaped_of_upperEscapes (h : Escaped (upperEscapes s)) : Escaped s := by
  fun_induction upperEscapes s with
  | case1 a b rest hab ih =>
    rw [Bool.and_eq_true] at hab
    cases h with
    | char hc => exact absurd rfl hc
    | escape _ _ hrest => exact .escape hab.1 hab.2 (ih hrest)
  | case2 a b rest hab ih =>
    -- Neither `a` nor `b` begins an escape here, so both stay, and two digits would have to follow.
    exfalso
    obtain ⟨x, y, t, he, hx, hy⟩ := h.of_percent
    obtain ⟨u, hu⟩ := upperEscapes_head a (b :: rest)
    obtain ⟨rfl, -⟩ := List.cons.inj (hu.symm.trans he)
    have ha : a ≠ '%' := by
      rintro rfl
      exact absurd hx (by decide)
    obtain ⟨w, hw⟩ := upperEscapes_head b rest
    rw [upperEscapes_cons ha, hw] at he
    obtain rfl := (List.cons.inj (List.cons.inj he).2).1
    exact hab (by rw [hx, hy]; rfl)
  | case3 c rest hne ih =>
    by_cases hc : c = '%'
    · subst hc
      obtain ⟨x, y, t, he, -, -⟩ := h.of_percent
      rcases rest with _ | ⟨a, _ | ⟨b, rest⟩⟩
      · simp [upperEscapes] at he
      · simp [upperEscapes] at he
      · exact (hne a b rest rfl rfl).elim
    · exact .char hc (ih (h.tail hc))
  | case4 => exact .nil

theorem ampersand_not_mem_encode (h : keep '&' = false) (s : List Char) : '&' ∉ encode keep s := by
  intro hm
  rcases mem_encode hm with ⟨-, hk⟩ | hu | he
  · rw [h] at hk
    cases hk
  · exact absurd hu (by decide)
  · exact absurd he (by decide)

theorem ampersand_not_mem_spell (v : String) : '&' ∉ (spell v).toList := by
  rw [spell, String.toList_ofList]
  exact ampersand_not_mem_encode (by decide) _

theorem ampersand_not_mem_reescape (v : String) : '&' ∉ (reescape (spell v)).toList := by
  rw [reescape, String.toList_ofList]
  intro hm
  rcases mem_encode hm with ⟨hm, -⟩ | hu | he
  · exact ampersand_not_mem_spell v hm
  · exact absurd hu (by decide)
  · exact absurd he (by decide)

theorem decode_reescape (v : String) : decode (reescape v).toList = v := by
  rw [reescape, String.toList_ofList, decode_encode (by decide), String.ofList_toList]

theorem decode_spell (v : String) : decode (spell v).toList = v := by
  rw [spell, String.toList_ofList, decode_encode (by decide), String.ofList_toList]

end Text.Percent

namespace Url

theorem written_spell (v : String) : Written (spell v).toList := by
  rw [spell, String.toList_ofList]
  induction v.toList with
  | nil => exact .nil
  | cons c s ih =>
    rw [encode, List.flatMap_cons]
    refine Written.append ?_ ih
    split
    · rename_i hu
      exact .char (inQuery_of_isUnreserved hu) .nil
    · rename_i hu
      exact written_escape (by simpa using hu)

end Url

namespace Parameters

/-- The texts, each changed in the same way. -/
def mapTexts (f : String → String) (p : Parameters) : Parameters :=
  { p with
    secret := p.secret.map f, triggerType := p.triggerType.map f,
    authorName := p.authorName.map f, authorEmail := p.authorEmail.map f,
    committerName := p.committerName.map f, committerEmail := p.committerEmail.map f,
    commit := p.commit.map f, message := p.message.map f, asFile := p.asFile.map f }

@[simp] theorem text_mapTexts (f : String → String) (p : Parameters) (s : TextSetting) :
    (p.mapTexts f).text s = (p.text s).map f := by
  cases s <;> rfl

end Parameters

namespace Query

variable {p p₀ : Parameters} {scheme authority : List Char} {resource : String}
  {e : String × String} {f : String → String}

/-- The pairs of a query, with their escapes decoded once. -/
def decoded (query : List Char) : List (String × Option String) :=
  (read (String.ofList query)).map fun e => (decode e.1.toList, e.2.map fun v => decode v.toList)

/-- Every value of `p` that a query shows is that of `p₀`, escaped. The digits may be small. -/
def Escapes (p₀ p : Parameters) : Prop :=
  ∀ s ∈ shown, (p.text s.2).map capital = (p₀.text s.2).map spell

instance (p₀ p : Parameters) : Decidable (Escapes p₀ p) :=
  inferInstanceAs (Decidable (∀ s ∈ shown, _))

theorem unlessEmpty_map (hf : ∀ v, f v = "" ↔ v = "") (name : String) (value : Option String) :
    unlessEmpty name (value.map f) = (unlessEmpty name value).map fun e => (e.1, f e.2) := by
  cases value with
  | none => rfl
  | some v => by_cases hv : v = "" <;> simp [unlessEmpty, hf, hv]

theorem told_mapTexts (hf : ∀ v, f v = "" ↔ v = "") (p : Parameters) :
    told (p.mapTexts f) = (told p).map fun e => (e.1, f e.2) := by
  have hmessage : (p.message.map f).getD "" = f (p.message.getD "") := by
    cases p.message with
    | none => exact ((hf "").2 rfl).symm
    | some v => rfl
  simp only [told, Parameters.mapTexts, hmessage, unlessEmpty_map hf, List.map_cons,
    List.map_append]

/-- Names are made of letters and points. -/
theorem shown_plain {s : String × TextSetting} (hs : s ∈ shown) :
    ∀ c ∈ s.1.toList, isUnreserved c = true := by
  have hall : ∀ s ∈ shown, s.1.toList.all isUnreserved = true := by decide
  exact List.all_eq_true.1 (hall s hs)

theorem toList_write (p : Parameters) :
    (write p).toList = joinWith '&' ((told p).map writePair) := by
  rw [write, String.toList_ofList, pairs_eq_told]

theorem percent_not_mem_name (he : e ∈ told p) : '%' ∉ e.1.toList := by
  obtain ⟨s, hs, rfl⟩ := mem_told he
  exact fun hm => absurd (shown_plain hs _ hm) (by decide)

theorem escaped_value (h : Escapes p₀ p) (he : e ∈ told p) : Escaped e.2.toList := by
  obtain ⟨s, hs, rfl⟩ := mem_told he
  have hmap := h s hs
  cases hv : p.text s.2 with
  | none => exact .nil
  | some v =>
    rw [hv] at hmap
    obtain ⟨v₀, -, hcapital⟩ := Option.map_eq_some_iff.1 hmap.symm
    have hescaped := (written_spell v₀).escaped
    rw [hcapital, capital, String.toList_ofList] at hescaped
    exact escaped_of_upperEscapes hescaped

/-- On their way escaped values become what escaping in capitals would have made of them. -/
theorem upperEscapes_write (h : Escapes p₀ p) :
    upperEscapes (write p).toList = (write (p₀.mapTexts spell)).toList := by
  have hagree : Agree (p.mapTexts capital) (p₀.mapTexts spell) := by
    intro s hs
    rw [Parameters.text_mapTexts, Parameters.text_mapTexts, h s hs]
  have hname : ∀ e ∈ told p, Escaped e.1.toList :=
    fun e he => escaped_of_not_mem (percent_not_mem_name he)
  rw [← write_congr hagree, toList_write, toList_write, told_mapTexts capital_eq_empty,
    List.map_map, upperEscapes_joinWith, List.map_map]
  · congr 1
    refine List.map_congr_left fun e he => ?_
    simp only [Function.comp, writePair, capital, String.toList_ofList]
    rw [(hname e he).upperEscapes_append, upperEscapes_of_not_mem (percent_not_mem_name he),
      upperEscapes_cons (by decide)]
  · intro piece hpiece
    obtain ⟨e, he, rfl⟩ := List.mem_map.1 hpiece
    exact (hname e he).append (.char (by decide) (escaped_value h he))

theorem written_write (p₀ : Parameters) : Written (write (p₀.mapTexts spell)).toList := by
  rw [toList_write, told_mapTexts spell_eq_empty]
  refine written_joinWith fun piece hpiece => ?_
  obtain ⟨e', he', rfl⟩ := List.mem_map.1 hpiece
  obtain ⟨e, he, rfl⟩ := List.mem_map.1 he'
  obtain ⟨s, hs, rfl⟩ := mem_told he
  refine (Written.of_chars fun c hc => ?_).append (.char (by decide) (written_spell _))
  exact inQuery_of_isUnreserved (shown_plain hs c hc)

/-- So they hold nothing that would end the query. -/
theorem hash_not_mem_write (h : Escapes p₀ p) : '#' ∉ (write p).toList := by
  intro hm
  rcases mem_upperEscapes hm with hm | hm
  · rw [upperEscapes_write h] at hm
    rcases (written_write p₀).mem hm with hq | hq
    · exact absurd hq (by decide)
    · exact absurd hq (by decide)
  · exact absurd hm (by decide)

theorem write_ne_nil (p : Parameters) : (write p).toList ≠ [] := by
  rw [toList_write, told, List.map_cons]
  generalize List.map writePair _ = pieces
  cases pieces <;> simp [joinWith, writePair]

theorem wire_write (h : Escapes p₀ p) :
    wire (some (write p).toList) [] = (write (p₀.mapTexts spell)).toList := by
  have hwritten := written_write p₀
  rw [← upperEscapes_write h] at hwritten ⊢
  rw [wire_of_query, hwritten.normalize]

/-- Escaping a query escapes its values. -/
theorem encode_write (p : Parameters) :
    encode isSafe (write p).toList = (write (p.mapTexts reescape)).toList := by
  rw [toList_write, toList_write, told_mapTexts reescape_eq_empty, encode_joinWith (by decide),
    List.map_map, List.map_map]
  congr 1
  refine List.map_congr_left fun e he => ?_
  obtain ⟨s, hs, rfl⟩ := mem_told he
  have hname : encode isSafe s.1.toList = s.1.toList :=
    encode_eq_self fun c hc => isSafe_of_inQuery (inQuery_of_isUnreserved (shown_plain hs c hc))
  simp only [Function.comp, writePair, reescape, String.toList_ofList]
  rw [encode_append, hname, encode_cons (by decide)]

/-- What a query shows is decoded value by value. -/
theorem decoded_write (hf : ∀ v, f v = "" ↔ v = "") (hclean : ∀ v, '&' ∉ (f v).toList)
    (p : Parameters) : decoded (write (p.mapTexts f)).toList =
      (told p).map fun e => (e.1, some (decode (f e.2).toList)) := by
  have hp : Clean (p.mapTexts f) := by
    intro s _ v hv
    rw [Parameters.text_mapTexts] at hv
    obtain ⟨v₀, -, rfl⟩ := Option.map_eq_some_iff.1 hv
    exact hclean v₀
  rw [decoded, String.ofList_toList, read_write hp, told_mapTexts hf, List.map_map, List.map_map]
  refine List.map_congr_left fun e he => ?_
  simp only [Function.comp, Option.map_some]
  rw [decode_of_not_mem (percent_not_mem_name he), String.ofList_toList]

theorem decoded_spelled (p : Parameters) :
    decoded (write (p.mapTexts spell)).toList = (told p).map fun e => (e.1, some e.2) := by
  rw [decoded_write spell_eq_empty ampersand_not_mem_spell]
  simp only [decode_spell]

/-- Values that were escaped twice are read as they were escaped once. -/
theorem decoded_reescaped (p : Parameters) :
    decoded (encode isSafe (write (p.mapTexts spell)).toList) =
      (told p).map fun e => (e.1, some (spell e.2)) := by
  have hmap : (p.mapTexts spell).mapTexts reescape = p.mapTexts (reescape ∘ spell) := by
    simp only [Parameters.mapTexts, Option.map_map]
  have hempty : ∀ v, (reescape ∘ spell) v = "" ↔ v = "" :=
    fun v => (reescape_eq_empty (spell v)).trans (spell_eq_empty v)
  rw [encode_write, hmap, decoded_write hempty ampersand_not_mem_reescape]
  simp only [Function.comp, decode_reescape]

theorem plain_instantiate {path : List Char} (ho : WebOrigin scheme authority)
    (hr : Plain scheme authority path resource) :
    ∃ path', Plain scheme authority path' (join resource [instantiateBinary]) := by
  refine hr.join ho ?_
  intro part hpart c hc
  rw [List.mem_singleton.1 hpart] at hc
  have hall : instantiateBinary.toList.all isUnreserved = true := by decide
  exact .inl (List.all_eq_true.1 hall c hc)

theorem under_instantiateUrl (ho : WebOrigin scheme authority)
    (hr : Under scheme authority resource) (p : Parameters) :
    Under scheme authority (instantiateUrl resource p) := by
  obtain ⟨tail, hurl, htail⟩ := ho.under_join hr [instantiateBinary]
  refine ⟨tail ++ '?' :: (write p).toList, by simp [instantiateUrl, hurl], fun c hc => ?_⟩
  cases tail with
  | nil =>
    cases hc
    decide
  | cons d rest => exact htail c hc

end Query

namespace Upload

open Http

variable {p : Parameters} {scheme authority path : List Char} {resource : String}

/-- The settings of an upload change nothing but the address of its request. -/
theorem prepare_of_settings {e : Executor} (ho : WebOrigin scheme authority)
    (hr : Plain scheme authority path resource) {sent : String}
    (hsent : Url.prepare e.surroundings.names (Query.instantiateUrl resource p) [] = .ok sent)
    (source : Source) (length : ℤ) :
    prepare e resource p source length =
      (prepare e resource .empty source length).map fun r => { r with url := sent } := by
  have hunder := Query.under_instantiateUrl ho hr.under
  have hlocation : ∀ p, Credentials.location (Query.instantiateUrl resource p).toList =
      authority.filter fun c => c != '\t' && c != '\n' && c != '\r' := by
    intro p
    obtain ⟨path', hplain⟩ := Query.plain_instantiate ho hr
    have hurl : (Query.instantiateUrl resource p).toList =
        (join resource [Query.instantiateBinary]).toList ++ '?' :: (Query.write p).toList := by
      simp [Query.instantiateUrl]
    rw [hurl, hplain.location_append ho (by simp [Inside])]
  rcases @WebOrigin.prepare_under e.surroundings.names _ _ ho with hbad | ⟨location, hgood⟩
  · obtain ⟨x, hx⟩ := hbad _ [] (hunder p)
    rw [hx] at hsent
    cases hsent
  · obtain ⟨s, hs, hl⟩ := hgood _ [] (hunder p)
    obtain ⟨s₀, hs₀, hl₀⟩ := hgood _ [] (hunder .empty)
    rw [hs] at hsent
    cases hsent
    have hdraft : e.prepare
        ⟨"POST", Query.instantiateUrl resource p, [], headers, .stream (.ofSource source)⟩ =
        (e.prepare ⟨"POST", Query.instantiateUrl resource .empty, [], headers,
          .stream (.ofSource source)⟩).map fun r => { r with url := sent } :=
      prepare_elsewhere ⟨_, _, _, _, _⟩ ⟨_, _, _, _, _⟩ hs₀ hs rfl rfl rfl
        ((hlocation p).trans (hlocation .empty).symm) (hl.trans hl₀.symm)
    rw [prepare, prepare, hdraft]
    cases e.prepare ⟨"POST", Query.instantiateUrl resource .empty, [], headers,
      .stream (.ofSource source)⟩ with
    | error x => rfl
    | ok r =>
      simp only [Except.map, bind, Except.bind, pure, Except.pure]
      split <;> rfl

end Upload

namespace Query

variable {p p₀ : Parameters} {scheme authority path : List Char} {resource : String}

/-- An upload has an address just if the authority is served. What is read from the query of the
address, with escapes decoded once, are the values that were escaped, unless the host has a zone
that strays: then they are still escaped. Nothing else about the request depends on them. -/
theorem values_decoded_once (names : Names) (ho : WebOrigin scheme authority)
    (hr : Plain scheme authority path resource) (hp : Escapes p₀ p) :
    ((∃ sent, Url.prepare names (instantiateUrl resource p) [] = .ok sent) ↔
        Served names authority) ∧
      ∀ a, Authority.read? names.spell authority = some a →
        Reachable (Target.normalizeAuthority a).host →
        ∃ sent query, Url.prepare names (instantiateUrl resource p) [] = .ok sent ∧
          (∀ e : Http.Executor, e.surroundings.names = names → ∀ source length,
            Upload.prepare e resource p source length =
              (Upload.prepare e resource .empty source length).map
                fun r => { r with url := sent }) ∧
          fragmentOf sent = none ∧ queryOf sent = some query ∧
          (¬ Stray (Target.normalizeAuthority a).host →
            decoded query = (told p₀).map fun e => (e.1, some e.2)) ∧
          (Stray (Target.normalizeAuthority a).host →
            decoded query = (told p₀).map fun e => (e.1, some (spell e.2))) := by
  refine ⟨ho.served_iff (under_instantiateUrl ho hr.under p) [], fun a ha hh => ?_⟩
  obtain ⟨path', hplain⟩ := plain_instantiate ho hr
  have hurl : (instantiateUrl resource p).toList = (join resource [instantiateBinary]).toList ++
      (some (write p).toList).elim [] ('?' :: ·) := by
    simp [instantiateUrl]
  have hq : ∀ q ∈ some (write p).toList, '#' ∉ q := by
    rintro q ⟨⟩
    exact hash_not_mem_write hp
  have hwire := wire_write hp
  obtain ⟨sent, query, hsent, hfragment, hquery, hnot, hstray⟩ :=
    ho.prepare_plain ha hh hplain hq hurl (hwire ▸ written_write p₀) (hwire ▸ write_ne_nil _)
  rw [hwire] at hnot hstray
  refine ⟨sent, query, hsent, ?_, hfragment, hquery, ?_, ?_⟩
  · rintro e rfl
    exact Upload.prepare_of_settings ho hr hsent
  · intro hs
    rw [hnot hs, decoded_spelled]
  · intro hs
    rw [hstray hs, decoded_reescaped]

/-- A message with a space, a sign and a letter of two bytes. -/
def worded : Parameters :=
  { Parameters.empty with message := some "a b&é", asFile := some "100%" }

/-- The same, escaped in small digits. -/
def coded : Parameters :=
  { Parameters.empty with message := some "a%20b%26%c3%a9", asFile := some "100%25" }

theorem values_decoded_once_coded :
    Escapes worded coded ∧ ∃ sent query,
      Url.prepare .ascii (instantiateUrl "https://api:6443/x/" coded) [] = .ok sent ∧
        fragmentOf sent = none ∧ queryOf sent = some query ∧
        decoded query = [("commit", some "a b&é"), ("asFile", some "100%")] := by
  have ho : WebOrigin "https".toList "api:6443".toList :=
    ⟨by decide, by decide, List.all_iff_forall_prop.1 (by decide)⟩
  have ha : Authority.read? Names.ascii.spell "api:6443".toList =
      some ⟨none, "api".toList, some 6443⟩ := by
    decide +kernel
  have hhost : (Target.normalizeAuthority ⟨none, "api".toList, some 6443⟩).host = "api".toList := by
    decide +kernel
  have hh : Reachable (Target.normalizeAuthority ⟨none, "api".toList, some 6443⟩).host := by
    rw [hhost]
    exact ⟨by decide, by decide, by decide⟩
  have hr : Plain "https".toList "api:6443".toList "/x/".toList "https://api:6443/x/" :=
    ⟨by decide +kernel, List.all_iff_forall_prop.1 (by decide), by rintro c ⟨⟩; rfl⟩
  have hp : Escapes worded coded := by decide +kernel
  have hstray : ¬ Stray (Target.normalizeAuthority ⟨none, "api".toList, some 6443⟩).host := by
    rw [hhost]
    exact not_stray_of_head (by decide)
  obtain ⟨sent, query, hsent, -, hfragment, hquery, hdecoded, -⟩ :=
    (values_decoded_once .ascii ho hr hp).2 _ ha hh
  exact ⟨hp, sent, query, hsent, hfragment, hquery, hdecoded hstray⟩

/-- A zone gets the message of an upload escaped twice. -/
theorem zone_escapes_twice :
    Escapes { Parameters.empty with message := some "a b" }
        { Parameters.empty with message := some "a%20b" } ∧
      Url.prepare .ascii (instantiateUrl "http://[fe80::1%25eth0]:8443/x"
          { Parameters.empty with message := some "a%20b" }) [] =
        .ok "http://[fe80::1%25eth0]:8443/x/instantiatebinary?commit=a%2520b" ∧
      (queryOf "http://[fe80::1%25eth0]:8443/x/instantiatebinary?commit=a%2520b").map decoded =
        some [("commit", some "a%20b")] ∧
      told { Parameters.empty with message := some "a b" } = [("commit", "a b")] := by
  decide +kernel

end Query

end BuildClient
