import BuildClient.Http.Request
import BuildClient.Proofs.Url.Join
import BuildClient.Proofs.Url.Location

/-!
Absolute web addresses. Whether one can be brought into the form in which it is sent, and which
authorization it then carries, is decided by its scheme and its authority; its path, its query and
its fragment never matter.
-/
namespace BuildClient.Url

open Text Percent Components

variable {names : Names} {scheme authority s : List Char} {url : String}

/-- The address begins with the scheme and the authority, and the authority ends there. -/
def Under (scheme authority : List Char) (url : String) : Prop :=
  ∃ tail, url.toList = scheme ++ "://".toList ++ authority ++ tail ∧
    ∀ c ∈ tail.head?, endsAuthority c = true

/-- Scheme and authority of a web address. -/
structure WebOrigin (scheme authority : List Char) : Prop where
  web : isWeb (scheme.map Char.toLower) = true
  nonempty : authority ≠ []
  whole : ∀ c ∈ authority, endsAuthority c = false

/-- An address with `http` or `https` for its scheme, and with an authority. -/
def Absolute (url : String) : Prop :=
  ∃ scheme authority, WebOrigin scheme authority ∧ Under scheme authority url

theorem isWeb_cases (h : isWeb s = true) : s = "http".toList ∨ s = "https".toList := by
  simpa [isWeb] using h

theorem isAlpha_of_web (h : isWeb (scheme.map Char.toLower) = true) {c : Char} (hc : c ∈ scheme) :
    c.isAlpha = true := by
  rw [← Char.isAlpha_toLower_eq_isAlpha]
  have hm : c.toLower ∈ scheme.map Char.toLower := List.mem_map_of_mem hc
  rcases isWeb_cases h with h | h <;> rw [h] at hm
  · exact List.all_eq_true.1 (show "http".toList.all Char.isAlpha = true by decide) _ hm
  · exact List.all_eq_true.1 (show "https".toList.all Char.isAlpha = true by decide) _ hm

theorem isBlank_of_isAlpha {c : Char} (h : c.isAlpha = true) : isBlank c = false := by
  have hlt : c.toNat < 128 := by
    simp [Char.isAlpha, Char.isUpper, Char.isLower, UInt32.le_iff_toNat_le] at h
    have hc : c.val.toNat = c.toNat := rfl
    omega
  have hall : ∀ n < 128, (Char.ofNat n).isAlpha = true → isBlank (Char.ofNat n) = false := by decide
  have hn := hall c.toNat hlt
  rw [Char.ofNat_toNat] at hn
  exact hn h

theorem escaped_component {keep : Char → Bool} (hp : keep '%' = false)
    (hk : ∀ c, isUnreserved c = true → keep c = true) (s : List Char) :
    Escaped (Percent.normalize keep s) :=
  escaped_normalize hp (fun c hc => hk c (forall_hex (by decide) hc)) s

theorem escaped_ofComponents {a : Authority} {c : Components} (hw : isWeb scheme = true) :
    Escaped (Target.ofComponents scheme a c).path ∧ Escaped (Target.ofComponents scheme a c).query ∧
      Escaped (Target.ofComponents scheme a c).fragment := by
  have hinfo : ∀ c, isUnreserved c = true → inUserInfo c = true := fun c hc => by
    simp [inUserInfo, hc]
  have hpath : ∀ c, isUnreserved c = true → inPath c = true := fun c hc => by
    simp [inPath, hinfo c hc]
  have hquery : ∀ c, isUnreserved c = true → inQuery c = true := fun c hc => by
    simp [inQuery, hpath c hc]
  rw [Target.ofComponents, if_pos hw]
  exact ⟨escaped_component (by decide) hpath _, escaped_component (by decide) hquery _,
    escaped_component (by decide) hquery _⟩

/-- Behind its authority an address that is sent has a slash and then escapes only. -/
theorem write_eq {t : Target} (hp : Escaped t.path) (hq : Escaped t.query)
    (hf : Escaped t.fragment) :
    ∃ rest, Escaped rest ∧
      t.write = t.scheme ++ "://".toList ++ t.authority.write ++ '/' :: rest := by
  have hpath : ∃ path, Escaped path ∧ Target.rootedPath t.path = '/' :: path := by
    rw [Target.rootedPath]
    split
    · rename_i hs
      obtain ⟨rest, hr⟩ := List.head?_eq_some_iff.1 hs
      rw [hr] at hp
      exact ⟨rest, hp.tail (by decide), hr⟩
    · exact ⟨t.path, hp, rfl⟩
  have hmarked : ∀ (mark : Char) (s : List Char), mark ≠ '%' → Escaped s →
      Escaped (if s.isEmpty then [] else mark :: s) := by
    intro mark s hm hs
    split
    · exact .nil
    · exact .char hm hs
  obtain ⟨path, he, hr⟩ := hpath
  refine ⟨_, (he.append (hmarked '?' t.query (by decide) hq)).append
    (hmarked '#' t.fragment (by decide) hf), ?_⟩
  simp [Target.write, hr]

theorem escaped_addQuery {t : Target} {query : List Char} (ht : Escaped t.query)
    (hq : Escaped query) : Escaped (t.addQuery query).query := by
  rw [Target.addQuery]
  split
  · exact ht
  · dsimp only
    split
    · exact hq
    · exact ht.append (.char (by decide) hq)

theorem addQuery_eq (t : Target) (query : List Char) :
    t.addQuery query = { t with query := (t.addQuery query).query } := by
  rw [Target.addQuery]
  split <;> rfl

theorem readAuthority_of_some (h : authority ≠ []) {a : Authority}
    (ha : Authority.read? names.spell authority = some a) :
    readAuthority names.spell (some authority) = .ok (some a) := by
  rw [readAuthority, ha]
  exact h

theorem readAuthority_of_none (h : authority ≠ [])
    (ha : Authority.read? names.spell authority = none) :
    readAuthority names.spell (some authority) = .error .unparsable := by
  rw [readAuthority, ha]
  exact h

/-- What is joined begins with what was there, or with a slash. -/
theorem head?_joined {p : Char → Prop} {tail : List Char} (h : ∀ c ∈ tail.head?, p c) (hp : p '/')
    (parts : List (List Char)) :
    ∀ c ∈ (dropEndWhile isSlash tail ++ parts.flatMap segment).head?, p c := by
  intro c hc
  cases hd : dropEndWhile isSlash tail with
  | cons d rest =>
    rw [hd, List.cons_append, List.head?_cons, Option.mem_some_iff] at hc
    obtain ⟨rest', hr⟩ := dropEndWhile_prefix isSlash tail
    refine h c ?_
    rw [← hr, hd, hc]
    rfl
  | nil =>
    rw [hd, List.nil_append] at hc
    induction parts with
    | nil => cases hc
    | cons part parts ih =>
      rw [List.flatMap_cons] at hc
      by_cases hs : dropOuter isSlash part = []
      · rw [segment, hs] at hc
        exact ih hc
      · rw [segment_of_ne_nil hs, List.cons_append, List.head?_cons, Option.mem_some_iff] at hc
        rwa [← hc]

/-- A host that addresses can be sent to. -/
def Reachable (host : List Char) : Prop :=
  host ≠ [] ∧ host.head? ≠ some '*' ∧ host.head? ≠ some '.'

namespace WebOrigin

variable (ho : WebOrigin scheme authority)
include ho

theorem scheme_eq_cons : ∃ c rest, scheme = c :: rest ∧ c.isAlpha = true := by
  cases hs : scheme with
  | nil =>
    have hw := ho.web
    rw [hs] at hw
    exact absurd hw (by decide)
  | cons c rest => exact ⟨c, rest, rfl, isAlpha_of_web ho.web (by simp [hs])⟩

theorem isScheme : IsScheme scheme :=
  ⟨ho.scheme_eq_cons, fun c hc => by
    simp [isSchemeChar, Char.isAlphanum, isAlpha_of_web ho.web hc]⟩

theorem colon_not_mem : ':' ∉ scheme := fun h =>
  absurd (isAlpha_of_web ho.web h) (by decide)

theorem slash_not_mem : '/' ∉ authority := fun h => by
  have hs := ho.whole '/' h
  simp [endsAuthority] at hs

/-- Joining touches nothing up to the end of the authority. -/
theorem toList_join {tail : List Char}
    (h : url.toList = scheme ++ "://".toList ++ authority ++ tail) (parts : List String) :
    (join url parts).toList = scheme ++ "://".toList ++ authority ++
      (dropEndWhile isSlash tail ++ (parts.map String.toList).flatMap segment) := by
  obtain ⟨a, last, ha⟩ := List.eq_nil_or_concat authority |>.resolve_left ho.nonempty
  have hlast : (scheme ++ "://".toList ++ authority).getLast? = some last :=
    List.getLast?_eq_some_iff.2 ⟨scheme ++ "://".toList ++ a, by simp [ha]⟩
  have hslash : isSlash last = false := by
    rw [isSlash, beq_eq_false_iff_ne]
    rintro rfl
    exact ho.slash_not_mem (by simp [ha])
  rw [join, String.toList_ofList, joinChars, h, dropEndWhile_append_of_last hlast hslash,
    List.append_assoc]

/-- Parts that are joined to an address leave scheme and authority as they are. -/
theorem under_join (h : Under scheme authority url) (parts : List String) :
    Under scheme authority (join url parts) := by
  obtain ⟨tail, hurl, htail⟩ := h
  exact ⟨_, ho.toList_join hurl parts, head?_joined htail (by decide) _⟩

theorem cutScheme_eq {tail : List Char}
    (h : url.toList = scheme ++ "://".toList ++ authority ++ tail) :
    cutScheme url.toList = some (scheme, '/' :: '/' :: (authority ++ tail)) := by
  have hcut : cutFirst ':' url.toList = (scheme, some ('/' :: '/' :: (authority ++ tail))) := by
    rw [h, List.append_assoc, List.append_assoc]
    exact cutFirst_append ':' _ ho.colon_not_mem
  obtain ⟨c, rest, hs, hc⟩ := ho.scheme_eq_cons
  have hall : scheme.all isSchemeChar = true := List.all_eq_true.2 fun d hd => by
    simp [isSchemeChar, Char.isAlphanum, isAlpha_of_web ho.web hd]
  obtain ⟨rest', hu⟩ : ∃ rest', url.toList = c :: rest' := ⟨_, by rw [h, hs]; rfl⟩
  rw [hu] at hcut ⊢
  rw [cutScheme, hcut]
  simp only [hc, hall, Bool.and_self, if_true]

/-- The rest of the address is its path, its query and its fragment. -/
theorem read_eq {tail : List Char} (h : url.toList = scheme ++ "://".toList ++ authority ++ tail)
    (htail : ∀ c ∈ tail.head?, endsAuthority c = true) :
    Components.read url.toList = ⟨some scheme, some authority,
      (cutFirst '?' (cutFirst '#' tail).1).1, (cutFirst '?' (cutFirst '#' tail).1).2,
      (cutFirst '#' tail).2⟩ := by
  have htake : (authority ++ tail).takeWhile (fun c => !endsAuthority c) = authority := by
    rw [List.takeWhile_append_of_pos (by simpa using ho.whole)]
    cases tail with
    | nil => simp
    | cons c tail => simp [htail c (by simp)]
  have hdrop : (authority ++ tail).dropWhile (fun c => !endsAuthority c) = tail := by
    have hall : authority.dropWhile (fun c => !endsAuthority c) = [] :=
      List.dropWhile_eq_nil_iff.2 (by simpa using ho.whole)
    rw [List.dropWhile_append, hall, List.isEmpty_nil, if_pos rfl]
    cases tail with
    | nil => rfl
    | cons c tail => rw [List.dropWhile_cons_of_neg (by simp [htail c (by simp)])]
  rw [Components.read, ho.cutScheme_eq h]
  simp only [readRest, htake, hdrop]

theorem read_under (h : Under scheme authority url) :
    ∃ path query fragment,
      Components.read url.toList = ⟨some scheme, some authority, path, query, fragment⟩ := by
  obtain ⟨tail, hurl, htail⟩ := h
  exact ⟨_, _, _, ho.read_eq hurl htail⟩

theorem trimStart_under (h : Under scheme authority url) : trimStart url = url := by
  obtain ⟨tail, hurl, -⟩ := h
  obtain ⟨c, rest, hs, hc⟩ := ho.scheme_eq_cons
  have hd : url.toList.dropWhile isBlank = url.toList := by
    rw [hurl, hs]
    simp [isBlank_of_isAlpha hc]
  rw [trimStart, hd, String.ofList_toList]

theorem not_opaque_under (h : Under scheme authority url) : isOpaque url.toList = false := by
  obtain ⟨tail, hurl, -⟩ := h
  have ht : (url.toList.take 4).map Char.toLower = "http".toList := by
    rw [hurl, List.map_take, List.append_assoc, List.append_assoc, List.map_append]
    rcases isWeb_cases ho.web with hw | hw <;> rw [hw] <;> rfl
  simp [isOpaque, ht]

theorem inside_authority {c : Char} (hc : c ∈ authority) : Inside c := by
  have hw := ho.whole c hc
  simp only [endsAuthority, Bool.or_eq_false_iff, beq_eq_false_iff_ne] at hw
  exact ⟨hw.1.1.2, hw.1.2, hw.2⟩

theorem target_read_of_none (ha : Authority.read? names.spell authority = none)
    (h : Under scheme authority url) : Target.read names url = .error .unparsable := by
  obtain ⟨path, query, fragment, hc⟩ := ho.read_under h
  have hweb : (some scheme).all (fun s => isWeb (s.map Char.toLower)) = true := ho.web
  simp only [Target.read, hc, hweb, if_true, readAuthority_of_none ho.nonempty ha]
  rfl

/-- Unless the authority ends in a backslash, nothing behind it counts for the location. -/
theorem location_eq {tail : List Char} (htail : ∀ c ∈ tail.head?, ¬ Inside c) :
    Credentials.location (scheme ++ "://".toList ++ authority ++ tail) =
      authority.filter fun c => c != '\t' && c != '\n' && c != '\r' :=
  location_of_inside ho.isScheme (fun _ => ho.inside_authority) htail

/-- Whether an address is read depends on its host only. -/
theorem read_of_authority {a : Authority} (ha : Authority.read? names.spell authority = some a)
    (h : Under scheme authority url) :
    (Reachable (Target.normalizeAuthority a).host →
        Target.read names url = .ok
          (Target.ofComponents (scheme.map Char.toLower) a (Components.read url.toList))) ∧
      (¬ Reachable (Target.normalizeAuthority a).host →
        ∃ x, Target.read names url = .error x) := by
  obtain ⟨path, query, fragment, hc⟩ := ho.read_under h
  have hweb : (some scheme).all (fun s => isWeb (s.map Char.toLower)) = true := ho.web
  have hauthority : (Target.ofComponents (scheme.map Char.toLower) a
      ⟨some scheme, some authority, path, query, fragment⟩).authority =
        Target.normalizeAuthority a := by
    rw [Target.ofComponents, if_pos ho.web]
  simp only [Target.read, hc, hweb, if_true, readAuthority_of_some ho.nonempty ha, bind,
    Except.bind, Names.resolve_spelled, List.isEmpty_iff]
  rw [← hauthority]
  generalize Target.ofComponents (scheme.map Char.toLower) a
    ⟨some scheme, some authority, path, query, fragment⟩ = t
  by_cases hempty : t.authority.host = []
  · rw [if_pos hempty]
    exact ⟨fun hr => absurd hempty hr.1, fun _ => ⟨_, rfl⟩⟩
  · rw [if_neg hempty]
    by_cases hhead : t.authority.host.head? = some '*' ∨ t.authority.host.head? = some '.'
    · rw [if_pos hhead]
      exact ⟨fun hr => absurd hhead (not_or.2 hr.2), fun _ => ⟨_, rfl⟩⟩
    · rw [if_neg hhead]
      exact ⟨fun _ => rfl, fun hr => absurd ⟨hempty, not_or.1 hhead⟩ hr⟩

/-- Either no address can be read, or all can; then the authority is the same for all. -/
theorem read_target :
    (∀ url, Under scheme authority url → ∃ x, Target.read names url = .error x) ∨
      ∃ a : Authority, (∀ c ∈ a.write, Inside c) ∧
        ∀ url, Under scheme authority url → ∃ t, Target.read names url = .ok t ∧
          t.scheme = scheme.map Char.toLower ∧ t.authority = a ∧
          Escaped t.path ∧ Escaped t.query ∧ Escaped t.fragment := by
  have hweb := ho.web
  cases hr : Authority.read? names.spell authority with
  | none => exact .inl fun url h => ⟨_, ho.target_read_of_none hr h⟩
  | some a =>
    by_cases hhost : Reachable (Target.normalizeAuthority a).host
    · refine .inr ⟨_, inside_normalizeAuthority names.spelling hr fun c => ho.inside_authority,
      fun url h => ?_⟩
      have hc := (ho.read_of_authority hr h).1 hhost
      refine ⟨_, hc, ?_, ?_, escaped_ofComponents hweb⟩
      · rw [Target.ofComponents, if_pos hweb]
      · rw [Target.ofComponents, if_pos hweb]
    · exact .inl fun url h => (ho.read_of_authority hr h).2 hhost

/-- An address that can be read is sent. -/
theorem prepare_eq (h : Under scheme authority url) (params : List (String × String)) :
    prepare names url params = (Target.read names url).map fun t =>
      String.ofList (requote (t.addQuery (Form.encode params)).write) := by
  rw [prepare, ho.trimStart_under h, ho.not_opaque_under h]
  cases Target.read names url <;> rfl

/-- Either no address can be sent, or all can; then they all lead to the same location. -/
theorem prepare_under :
    (∀ url params, Under scheme authority url → ∃ x, prepare names url params = .error x) ∨
      ∃ location, ∀ url params, Under scheme authority url →
        ∃ sent, prepare names url params = .ok sent ∧
          Credentials.location sent.toList = location := by
  rcases ho.read_target with hbad | ⟨a, hinside, hgood⟩
  · refine .inl fun url params h => ?_
    obtain ⟨x, hx⟩ := hbad url h
    exact ⟨x, by rw [ho.prepare_eq h params, hx]; rfl⟩
  · have hstart : ∀ c ∈ scheme.map Char.toLower ++ "://".toList, isSafe c = true ∧ c ≠ '%' := by
      intro c hc
      rcases List.mem_append.1 hc with hc | hc
      · obtain ⟨d, hd, rfl⟩ := List.mem_map.1 hc
        have ha : d.toLower.isAlpha = true := by
          rw [Char.isAlpha_toLower_eq_isAlpha]
          exact isAlpha_of_web ho.web hd
        refine ⟨by simp [isSafe, isUnreserved, Char.isAlphanum, ha], fun he => ?_⟩
        rw [he] at ha
        exact absurd ha (by decide)
      · have hmem : c = ':' ∨ c = '/' := by simpa using hc
        rcases hmem with rfl | rfl <;> decide
    obtain ⟨p, hp, hq⟩ := requote_append_slash hstart a.write
    have hpi : ∀ c ∈ p, Inside c := by
      intro c hc
      rcases hp c hc with hc | hc | rfl
      · exact hinside c hc
      · exact inside_of_isUnreserved hc
      · decide
    refine .inr ⟨p.filter fun c => c != '\t' && c != '\n' && c != '\r', fun url params h => ?_⟩
    obtain ⟨t, ht, hscheme, hauthority, hpath, hquery, hfragment⟩ := hgood url h
    refine ⟨_, by rw [ho.prepare_eq h params, ht]; rfl, ?_⟩
    obtain ⟨rest, hrest, hwrite⟩ := write_eq (t := t.addQuery (Form.encode params))
      (by rw [addQuery_eq]; exact hpath) (escaped_addQuery hquery (Form.escaped_form params))
      (by rw [addQuery_eq]; exact hfragment)
    obtain ⟨q, hq⟩ := hq rest hrest
    rw [addQuery_eq] at hwrite
    rw [String.toList_ofList, addQuery_eq, hwrite, hscheme, hauthority, hq]
    exact location_of_inside (isScheme_of_web ho.web) hpi (by simp [Inside])

end WebOrigin

end BuildClient.Url
