import BuildClient.Proofs.Url.Prepare
import BuildClient.Proofs.Url.Zone

/-!
The query of an address that is sent. It arrives as it was written, unless the host of the address
has a zone that the last touch takes for a broken escape; then every escape is escaped once more.
-/
namespace BuildClient

open Text

namespace Url

open Percent

variable {names : Names} {scheme authority path s : List Char} {url : String} {a : Authority}
  {c : Char}

/-- A character that ends neither a path nor a query. -/
def Clear (c : Char) : Prop := c ≠ '?' ∧ c ≠ '#'

theorem Inside.clear (h : Inside c) : Clear c := h.2

/-- What follows the first `#` of an address. -/
def fragmentOf (url : String) : Option (List Char) := (cutFirst '#' url.toList).2

/-- What stands between the first `?` of an address and its fragment. -/
def queryOf (url : String) : Option (List Char) := (cutFirst '?' (cutFirst '#' url.toList).1).2

theorem queryOf_eq {front q : List Char} (hfront : ∀ c ∈ front, Clear c) (hq : '#' ∉ q) :
    fragmentOf (String.ofList (front ++ '?' :: q)) = none ∧
      queryOf (String.ofList (front ++ '?' :: q)) = some q := by
  have hf : '#' ∉ front ++ '?' :: q := by
    simp only [List.mem_append, List.mem_cons, not_or]
    exact ⟨fun h => (hfront _ h).2 rfl, by decide, hq⟩
  rw [fragmentOf, queryOf, String.toList_ofList, cutFirst_eq_self hf]
  refine ⟨rfl, ?_⟩
  rw [cutFirst_append '?' q fun h => (hfront _ h).1 rfl]

/-- Behind the authority stands a path of unreserved characters between slashes, and no more. -/
structure Plain (scheme authority path : List Char) (url : String) : Prop where
  toList : url.toList = scheme ++ "://".toList ++ authority ++ path
  plain : ∀ c ∈ path, isUnreserved c = true ∨ c = '/'
  rooted : ∀ c ∈ path.head?, c = '/'

/-- The authority can be read, and it names a host that addresses can be sent to. -/
def Served (names : Names) (authority : List Char) : Prop :=
  ∃ a, Authority.read? names.spell authority = some a ∧ Reachable (Target.normalizeAuthority a).host

namespace Plain

theorem under (h : Plain scheme authority path url) : Under scheme authority url :=
  ⟨path, h.toList, fun c hc => by rw [h.rooted c hc]; decide⟩

theorem location_append (ho : WebOrigin scheme authority) (h : Plain scheme authority path url)
    {tail : List Char} (ht : ∀ c ∈ tail.head?, ¬ Inside c) :
    Credentials.location (url.toList ++ tail) =
      authority.filter fun c => c != '\t' && c != '\n' && c != '\r' := by
  rw [h.toList, List.append_assoc]
  refine ho.location_eq fun c hc => ?_
  cases path with
  | nil => exact ht c hc
  | cons d path =>
    cases hc
    rw [h.rooted c rfl]
    decide

theorem location_eq (ho : WebOrigin scheme authority) (h : Plain scheme authority path url) :
    Credentials.location url.toList =
      authority.filter fun c => c != '\t' && c != '\n' && c != '\r' := by
  rw [← List.append_nil url.toList]
  exact h.location_append ho (by simp)

theorem not_mem (h : Plain scheme authority path url) (hu : isUnreserved c = false) (hc : c ≠ '/') :
    c ∉ path := by
  intro hm
  rcases h.plain c hm with h | h
  · rw [h] at hu
    cases hu
  · exact hc h

theorem mem_segment (hc : c ∈ segment s) : c ∈ s ∨ c = '/' := by
  by_cases hs : dropOuter isSlash s = []
  · rw [segment, hs] at hc
    cases hc
  · rw [segment_of_ne_nil hs] at hc
    rcases List.mem_cons.1 hc with rfl | hc
    · exact .inr rfl
    · have hpre := dropEndWhile_prefix isSlash (s.dropWhile isSlash)
      exact .inl ((List.dropWhile_suffix _).mem (hpre.mem hc))

/-- Plain parts leave an address plain. -/
theorem join (ho : WebOrigin scheme authority) (h : Plain scheme authority path url)
    {parts : List String}
    (hp : ∀ part ∈ parts, ∀ c ∈ part.toList, isUnreserved c = true ∨ c = '/') :
    ∃ path', Plain scheme authority path' (join url parts) := by
  refine ⟨_, ho.toList_join h.toList parts, fun c hc => ?_, head?_joined h.rooted rfl _⟩
  rcases List.mem_append.1 hc with hc | hc
  · have hpre := dropEndWhile_prefix isSlash path
    exact h.plain c (hpre.mem hc)
  · obtain ⟨part, hpart, hc⟩ := List.mem_flatMap.1 hc
    obtain ⟨t, ht, rfl⟩ := List.mem_map.1 hpart
    exact (mem_segment hc).elim (hp t ht c) .inr

end Plain

theorem mem_resolveSteps {steps done : List (List Char)} {step : List Char}
    (h : step ∈ steps.foldl resolveStep done) : step ∈ steps ∨ step ∈ done := by
  induction steps generalizing done with
  | nil => exact .inr h
  | cons first steps ih =>
    rw [List.foldl_cons] at h
    rcases ih h with h | h
    · exact .inl (List.mem_cons_of_mem first h)
    · rw [resolveStep] at h
      split at h
      · exact .inr h
      · split at h
        · exact .inr (List.mem_of_mem_tail h)
        · exact (List.mem_cons.1 h).imp_left fun hs => by rw [hs]; exact List.mem_cons_self

/-- Resolving a path adds nothing but slashes. -/
theorem mem_resolveDots (h : c ∈ resolveDots path) : c ∈ path ∨ c = '/' := by
  rw [resolveDots] at h
  refine (mem_joinWith h).imp_left ?_
  rintro ⟨piece, hp, hc⟩
  rw [List.mem_append, List.mem_append, List.mem_reverse] at hp
  rcases hp with (hp | hp) | hp
  · split at hp
    · rw [List.mem_singleton] at hp
      rw [hp] at hc
      cases hc
    · cases hp
  · rcases mem_resolveSteps hp with hp | hp
    · exact mem_of_mem_splitAt hp hc
    · cases hp
  · split at hp
    · rw [List.mem_singleton] at hp
      rw [hp] at hc
      cases hc
    · cases hp

/-- A plain path is in its written form. -/
theorem normalize_plain (h : ∀ c ∈ s, isUnreserved c = true ∨ c = '/') :
    Percent.normalize inPath s = s := by
  have hkeep : ∀ c ∈ s, inPath c = true := by
    intro c hc
    rcases h c hc with hc | rfl
    · simp [inPath, inUserInfo, hc]
    · decide
  exact normalize_eq_self hkeep fun hm => absurd (hkeep _ hm) (by decide)

/-- What an address with a plain path, and perhaps a query, is read as. -/
theorem WebOrigin.target_plain (ho : WebOrigin scheme authority)
    (ha : Authority.read? names.spell authority = some a)
    (hh : Reachable (Target.normalizeAuthority a).host) (hp : Plain scheme authority path url)
    {query : Option (List Char)} (hq : ∀ q ∈ query, '#' ∉ q) {url' : String}
    (hurl : url'.toList = url.toList ++ query.elim [] ('?' :: ·)) :
    Under scheme authority url' ∧ Target.read names url' =
      .ok ⟨scheme.map Char.toLower, Target.normalizeAuthority a, resolveDots path,
        Percent.normalize inQuery (query.getD []), []⟩ := by
  have htail :
      ∀ c ∈ (path ++ query.elim [] ('?' :: ·)).head?, Components.endsAuthority c = true := by
    intro c hc
    cases hpath : path with
    | cons d rest =>
      rw [hpath, List.cons_append, List.head?_cons, Option.mem_some_iff] at hc
      have hd := hp.rooted d (by rw [hpath]; rfl)
      rw [← hc, hd]
      decide
    | nil =>
      rw [hpath] at hc
      cases query with
      | none => cases hc
      | some q =>
        cases hc
        decide
  have hunder : Under scheme authority url' :=
    ⟨_, by rw [hurl, hp.toList, List.append_assoc], htail⟩
  refine ⟨hunder, ?_⟩
  have hread : Components.read url'.toList = ⟨some scheme, some authority, path, query, none⟩ := by
    have hhash : '#' ∉ path := hp.not_mem (by decide) (by decide)
    have hmark : '?' ∉ path := hp.not_mem (by decide) (by decide)
    rw [ho.read_eq (by rw [hurl, hp.toList, List.append_assoc]) htail]
    cases query with
    | none =>
      rw [Option.elim_none, List.append_nil, cutFirst_eq_self hhash, cutFirst_eq_self hmark]
    | some q =>
      have hrest : '#' ∉ path ++ '?' :: q := by
        simp only [List.mem_append, List.mem_cons, not_or]
        exact ⟨hhash, by decide, hq q rfl⟩
      rw [Option.elim_some, cutFirst_eq_self hrest, cutFirst_append '?' q hmark]
  rw [(ho.read_of_authority ha hunder).1 hh, hread, Target.ofComponents, if_pos ho.web]
  have hpath : Percent.normalize inPath (resolveDots path) = resolveDots path :=
    normalize_plain fun c hc => (mem_resolveDots hc).elim (hp.plain c) .inr
  have hfragment : Percent.normalize inQuery [] = [] := normalize_eq_self (by simp) (by simp)
  rw [hpath]
  dsimp only [Option.getD_none]
  rw [hfragment]

theorem clear_of_path (h : isUnreserved c = true ∨ c = '/') : Clear c := by
  rcases h with h | rfl
  · exact (inside_of_isUnreserved h).clear
  · exact ⟨by decide, by decide⟩

/-- Escaping clears nothing up before the query, and the query apart. -/
theorem encode_query {keep : Char → Bool} (hkeep : keep '?' = true) (hs : ∀ c ∈ s, Clear c)
    (q : List Char) : ∃ front, (∀ c ∈ front, Clear c) ∧
      Percent.encode keep (s ++ '?' :: q) = front ++ '?' :: Percent.encode keep q := by
  refine ⟨Percent.encode keep s, fun c hc => ?_, ?_⟩
  · rcases mem_encode hc with ⟨hc, -⟩ | hc | rfl
    · exact hs c hc
    · exact (inside_of_isUnreserved hc).clear
    · exact ⟨by decide, by decide⟩
  · rw [encode_append, encode_cons hkeep]

theorem clear_of_web {scheme : List Char} (hw : isWeb scheme = true) :
    ∀ c ∈ scheme ++ "://".toList, c ≠ '%' ∧ Clear c := by
  have hall :
      (scheme ++ "://".toList).all (fun c => c != '%' && (c != '?' && c != '#')) = true := by
    rcases isWeb_cases hw with rfl | rfl <;> decide
  intro c hc
  have hsafe := List.all_eq_true.1 hall c hc
  simp only [Bool.and_eq_true, bne_iff_ne] at hsafe
  exact hsafe

/-- A plain path has a slash in front of it when it is written. -/
theorem rootedPath_plain (hp : ∀ c ∈ path, isUnreserved c = true ∨ c = '/') :
    ∃ mid, (∀ c ∈ mid, isUnreserved c = true ∨ c = '/') ∧ Target.rootedPath path = '/' :: mid := by
  rw [Target.rootedPath]
  split
  · rename_i hs
    obtain ⟨rest, hr⟩ := List.head?_eq_some_iff.1 hs
    exact ⟨rest, fun c hc => hp c (by rw [hr]; exact List.mem_cons_of_mem _ hc), hr⟩
  · exact ⟨path, hp, rfl⟩

theorem write_query {t : Target} {mid : List Char} (hpath : Target.rootedPath t.path = '/' :: mid)
    (hf : t.fragment = []) (hne : t.query ≠ []) :
    t.write = t.scheme ++ "://".toList ++ t.authority.write ++ '/' :: (mid ++ '?' :: t.query) := by
  rw [Target.write, hpath, hf]
  simp [hne]

/-- The unreserved characters behind an authority are decoded already, so only those in it count. -/
theorem decodeUnreserved?_query {start authority mid query : List Char} (hstart : '%' ∉ start)
    (hmid : '%' ∉ mid) (hq : Written query) :
    decodeUnreserved? (start ++ authority ++ '/' :: (mid ++ '?' :: query)) =
      (decodeUnreserved? authority).map fun p => start ++ p ++ '/' :: mid ++ '?' :: query := by
  have hrest : decodeUnreserved? ('/' :: (mid ++ '?' :: query)) =
      some ('/' :: (mid ++ '?' :: query)) := by
    have hn : '%' ∉ '/' :: mid ++ ['?'] := by simp [hmid]
    have hcut : '/' :: (mid ++ '?' :: query) = '/' :: mid ++ ['?'] ++ query := by simp
    rw [hcut, decodeUnreserved?_append_of_not_mem hn, hq.decodeUnreserved?, Option.map_some]
  rw [List.append_assoc, decodeUnreserved?_append_of_not_mem hstart,
    decodeUnreserved?_append_slash, hrest]
  cases decodeUnreserved? authority <;> simp

/-- The last touch leaves a written query as it is, or escapes its escapes. -/
theorem requote_write {t : Target} (hw : isWeb t.scheme = true)
    (ha : ∀ c ∈ t.authority.write, Inside c)
    (hp : ∀ c ∈ t.path, isUnreserved c = true ∨ c = '/') (hf : t.fragment = [])
    (hq : Written t.query) (hne : t.query ≠ []) :
    ∃ front, (∀ c ∈ front, Clear c) ∧ requote t.write = front ++ '?' ::
      if decodeUnreserved? t.authority.write = none then Percent.encode isSafe t.query
      else t.query := by
  obtain ⟨mid, hmid, hpath⟩ := rootedPath_plain hp
  have hstart := clear_of_web hw
  have hfront : ∀ p, (∀ c ∈ p, Clear c) →
      ∀ c ∈ t.scheme ++ "://".toList ++ p ++ '/' :: mid, Clear c := by
    intro p hp c hc
    rw [List.mem_append, List.mem_append, List.mem_cons] at hc
    rcases hc with (hc | hc) | rfl | hc
    · exact (hstart c hc).2
    · exact hp c hc
    · exact clear_of_path (.inr rfl)
    · exact clear_of_path (hmid c hc)
  have hwrite := write_query hpath hf hne
  rw [requote, hwrite, decodeUnreserved?_query (fun h => (hstart _ h).1 rfl)
    (fun h => absurd (hmid _ h) (by decide)) hq]
  cases hd : decodeUnreserved? t.authority.write with
  | none =>
    obtain ⟨front, hclear, he⟩ := encode_query (show isSafe '?' = true by decide)
      (hfront t.authority.write fun c hc => (ha c hc).clear) t.query
    refine ⟨front, hclear, ?_⟩
    rw [Option.map_none, if_pos rfl, ← he]
    simp
  | some p =>
    have hp : ∀ c ∈ p, Clear c := fun c hc =>
      (mem_of_decodeUnreserved? hd c hc).elim (fun h => (ha c h).clear)
        fun h => (inside_of_isUnreserved h).clear
    obtain ⟨front, hclear, he⟩ := @encode_query _ (fun c => isSafe c || c == '%') (by decide)
      (hfront p hp) t.query
    refine ⟨front, hclear, ?_⟩
    rw [Option.map_some, if_neg (Option.some_ne_none _)]
    rw [hq.encode] at he
    exact he

/-- An address is sent just if its authority is served. -/
theorem WebOrigin.served_iff (ho : WebOrigin scheme authority) (h : Under scheme authority url)
    (params : List (String × String)) :
    (∃ sent, prepare names url params = .ok sent) ↔ Served names authority := by
  rw [ho.prepare_eq h]
  cases hr : Authority.read? names.spell authority with
  | none =>
    rw [ho.target_read_of_none hr h]
    refine iff_of_false (fun h => by cases h.choose_spec) ?_
    rintro ⟨a, ha, -⟩
    rw [hr] at ha
    cases ha
  | some a =>
    obtain ⟨hgood, hbad⟩ := ho.read_of_authority hr h
    by_cases hh : Reachable (Target.normalizeAuthority a).host
    · rw [hgood hh]
      exact iff_of_true ⟨_, rfl⟩ ⟨a, hr, hh⟩
    · obtain ⟨x, hx⟩ := hbad hh
      rw [hx]
      refine iff_of_false (fun h => by cases h.choose_spec) ?_
      rintro ⟨a', ha', hh'⟩
      rw [hr] at ha'
      cases ha'
      exact hh hh'

/-- The written query of an address with a query of its own, if any, and with parameters. -/
def wire (query : Option (List Char)) (params : List (String × String)) : List Char :=
  (Target.addQuery ⟨[], ⟨none, [], none⟩, [], Percent.normalize inQuery (query.getD []), []⟩
    (Form.encode params)).query

theorem wire_of_query (q : List Char) : wire (some q) [] = Percent.normalize inQuery q := rfl

theorem wire_of_params {params : List (String × String)} (h : Form.encode params ≠ []) :
    wire none params = Form.encode params := by
  have hnil : Percent.normalize inQuery [] = [] := normalize_eq_self (by simp) (by simp)
  rw [wire, Option.getD_none, hnil, Target.addQuery, if_neg (by simpa using h)]
  rfl

/-- An address with a plain path is sent without a fragment. Its written query arrives as it is,
or escaped once more if the host has a zone that strays. -/
theorem WebOrigin.prepare_plain (ho : WebOrigin scheme authority)
    (ha : Authority.read? names.spell authority = some a)
    (hh : Reachable (Target.normalizeAuthority a).host) (hp : Plain scheme authority path url)
    {query : Option (List Char)} (hq : ∀ q ∈ query, '#' ∉ q) {url' : String}
    (hurl : url'.toList = url.toList ++ query.elim [] ('?' :: ·)) {params : List (String × String)}
    (hw : Written (wire query params)) (hne : wire query params ≠ []) :
    ∃ sent q, prepare names url' params = .ok sent ∧
      fragmentOf sent = none ∧ queryOf sent = some q ∧
      (¬ Stray (Target.normalizeAuthority a).host → q = wire query params) ∧
      (Stray (Target.normalizeAuthority a).host →
        q = Percent.encode isSafe (wire query params)) := by
  obtain ⟨hunder, hread⟩ := ho.target_plain ha hh hp hq hurl
  have hadd : (Target.addQuery ⟨scheme.map Char.toLower, Target.normalizeAuthority a,
      resolveDots path, Percent.normalize inQuery (query.getD []), []⟩ (Form.encode params)) =
      ⟨scheme.map Char.toLower, Target.normalizeAuthority a, resolveDots path, wire query params,
        []⟩ := by
    rw [wire, Target.addQuery, Target.addQuery]
    split <;> rfl
  obtain ⟨front, hclear, hsent⟩ := requote_write (t := ⟨scheme.map Char.toLower,
    Target.normalizeAuthority a, resolveDots path, wire query params, []⟩) ho.web
    (inside_normalizeAuthority names.spelling ha fun c => ho.inside_authority)
    (fun c hc => (mem_resolveDots hc).elim (hp.plain c) .inr) rfl hw hne
  have hprepare : prepare names url' params = _ := ho.prepare_eq hunder params
  rw [hread, Except.map, hadd, hsent] at hprepare
  have hhash : '#' ∉ wire query params := fun hm =>
    (hw.mem hm).elim (fun h => absurd h (by decide)) fun h => absurd h (by decide)
  by_cases hs : Stray (Target.normalizeAuthority a).host
  · rw [if_pos ((decodeUnreserved?_authority ha).2 hs)] at hprepare
    have hencode : '#' ∉ Percent.encode isSafe (wire query params) := by
      intro hm
      rcases mem_encode hm with ⟨hm, -⟩ | hu | he
      · exact hhash hm
      · exact absurd hu (by decide)
      · exact absurd he (by decide)
    obtain ⟨hf, hquery⟩ := queryOf_eq hclear hencode
    exact ⟨_, _, hprepare, hf, hquery, fun h => absurd hs h, fun _ => rfl⟩
  · rw [if_neg fun h => hs ((decodeUnreserved?_authority ha).1 h)] at hprepare
    obtain ⟨hf, hquery⟩ := queryOf_eq hclear hhash
    exact ⟨_, _, hprepare, hf, hquery, fun _ => rfl, fun h => absurd h hs⟩

end Url

end BuildClient
