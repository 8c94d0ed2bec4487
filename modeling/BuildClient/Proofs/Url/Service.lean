import BuildClient.Proofs.Url.Beneath
import BuildClient.Proofs.Url.Landing
import BuildClient.Proofs.Url.Parts

/-!
The addresses of a service as they are sent. Words lead deeper step by step; at a regular service an
address is sent as it is resolved.
-/
namespace BuildClient

open Text

namespace Url

open Percent

variable {names : Names} {api ns plural name url url' sent sent' : String} {s t : List Char}
  {scheme authority path path' : List Char}

theorem stepCount_append_slashes (s : List Char) (h : ∀ c ∈ t, c = '/') :
    stepCount (s ++ t) = stepCount s := by
  induction t generalizing s with
  | nil => rw [List.append_nil]
  | cons c t ih =>
    obtain ⟨rfl, ht⟩ := List.forall_mem_cons.1 h
    have hnone : stepCount t = 0 := by simpa [stepCount_nil] using ih [] ht
    rw [stepCount_append_slash, hnone, Nat.add_zero]

/-- Slashes at the end of an address do not lead anywhere. -/
theorem stepCount_of_sameAddress (h : SameAddress sent sent') :
    stepCount sent.toList = stepCount sent'.toList := by
  have hdrop : ∀ s, stepCount (dropEndWhile isSlash s) = stepCount s := by
    intro s
    obtain ⟨slashes, hs, hslashes⟩ := append_of_dropEndWhile isSlash s
    have hcount := stepCount_append_slashes (dropEndWhile isSlash s)
      fun c hc => eq_of_beq (hslashes c hc)
    rwa [← hs, eq_comm] at hcount
  rw [← hdrop, h, hdrop]

/-- An address of the service, without the blanks that are not sent. -/
def service (api : String) (parts : List String) : List Char :=
  (trimStart (join api (["apis", buildApiVersion, "namespaces"] ++ parts))).toList

theorem service_collection (api ns plural : String) :
    (trimStart (collection api ns plural)).toList = service api [ns, plural] := by
  have hcollection : collection api ns plural =
      join api (["apis", buildApiVersion, "namespaces"] ++ [ns, plural]) := by
    simp [collection, namespaced, join, joinChars, segment, dropOuter_nil]
  rw [hcollection, service]

theorem service_namespaced (api ns plural name : String) :
    (trimStart (namespaced api ns plural name)).toList = service api [ns, plural, name] := rfl

theorem service_eq (api : String) :
    ∃ start, service api [] = start ++ "/apis/build.openshift.io/v1/namespaces".toList ∧
      ∀ parts, service api parts = service api [] ++ (parts.map String.toList).flatMap segment := by
  have hjoin : (join api (["apis", buildApiVersion, "namespaces"] ++ [])).toList =
      dropEndWhile isSlash api.toList ++
        '/' :: "apis/build.openshift.io/v1/namespaces".toList := by
    rw [join, String.toList_ofList, joinChars]
    congr 1
  have hstart : service api [] = (dropEndWhile isSlash api.toList).dropWhile isBlank ++
      '/' :: "apis/build.openshift.io/v1/namespaces".toList := by
    rw [service, trimStart, String.toList_ofList, hjoin, dropWhile_append_of_stop (by decide)]
  refine ⟨_, hstart, fun parts => ?_⟩
  have hparts : join api (["apis", buildApiVersion, "namespaces"] ++ parts) =
      join api ((["apis", buildApiVersion, "namespaces"] ++ []) ++ parts) := rfl
  rw [hstart, service, trimStart, String.toList_ofList, hparts, toList_join_append, hjoin,
    List.append_assoc, List.cons_append, dropWhile_append_of_stop (by decide), List.append_assoc,
    List.cons_append]

theorem service_append (api : String) (parts more : List String) :
    service api (parts ++ more) =
      service api parts ++ (more.map String.toList).flatMap segment := by
  obtain ⟨-, -, hparts⟩ := service_eq api
  rw [hparts, hparts parts, List.map_append, List.flatMap_append, List.append_assoc]

theorem length_service (api : String) (parts : List String) : 4 ≤ (service api parts).length := by
  obtain ⟨start, hroot, hparts⟩ := service_eq api
  have hlength : "/apis/build.openshift.io/v1/namespaces".toList.length = 38 := by decide +kernel
  rw [hparts, hroot, List.length_append, List.length_append, hlength]
  omega

theorem getLast?_service (api : String) (parts : List String) :
    (service api parts).getLast? ≠ some '/' := by
  intro hlast
  obtain ⟨before, hbefore⟩ := List.getLast?_eq_some_iff.1 hlast
  rw [service, trimStart, String.toList_ofList, join, String.toList_ofList] at hbefore
  generalize hwhole : joinChars _ _ = whole at hbefore
  obtain ⟨blanks, hblanks⟩ := List.dropWhile_suffix isBlank (l := whole)
  have hend : whole.getLast? = some '/' := by
    rw [← hblanks, hbefore, ← List.append_assoc, List.getLast?_concat]
  rw [← hwhole] at hend
  exact absurd (getLast?_joinChars hend) (by decide)

/-- A word that is one step of a path: more than dots, and without the marks that end a step. -/
def Word (w : String) : Prop := w ≠ "" ∧ w ≠ "." ∧ w ≠ ".." ∧ ∀ c ∈ w.toList, Inside c

instance (w : String) : Decidable (Word w) :=
  decidable_of_iff (w ≠ "" ∧ w ≠ "." ∧ w ≠ ".." ∧ w.toList.all (fun c => decide (Inside c)) = true)
    (by simp [Word])

namespace Word

variable {w w' : String}

theorem not_slash (h : Word w) : '/' ∉ w.toList := fun hm => (h.2.2.2 _ hm).1 rfl

theorem segment_eq (h : Word w) : segment w.toList = '/' :: w.toList := by
  have hself := dropOuter_eq_self h.not_slash
  rw [segment_of_ne_nil (by rw [hself]; simpa using h.1), hself]

theorem goes_on (h : Word w) : w.toList ≠ [] ∧ w.toList ∉ dotSteps := by
  obtain ⟨hne, hdot, hdots, -⟩ := h
  refine ⟨by simpa using hne, fun hm => ?_⟩
  rw [dotSteps, List.mem_cons, List.mem_singleton] at hm
  rcases hm with hm | hm
  · exact hdot (String.toList_inj.1 hm)
  · exact hdots (String.toList_inj.1 hm)

end Word

section Words

variable {words words' : List String} (hne : words ≠ []) (h : ∀ w ∈ words, Word w)
include hne h

theorem splitAt_words :
    splitAt '/' (joinWith '/' (words.map String.toList)) = words.map String.toList :=
  splitAt_joinWith '/' (by simpa using hne) fun _ hp => by
    obtain ⟨w, hw, rfl⟩ := List.mem_map.1 hp
    exact (h w hw).not_slash

theorem flatMap_segment_words :
    (words.map String.toList).flatMap segment = '/' :: joinWith '/' (words.map String.toList) := by
  induction words with
  | nil => exact absurd rfl hne
  | cons w words ih =>
    rw [List.forall_mem_cons] at h
    rw [List.map_cons, List.flatMap_cons, h.1.segment_eq]
    cases words with
    | nil => simp [joinWith]
    | cons w' words => rw [ih (List.cons_ne_nil w' words) h.2, List.cons_append]; rfl

theorem onward_words : Onward (joinWith '/' (words.map String.toList)) := by
  have hinside : ∀ c ∈ joinWith '/' (words.map String.toList), c ≠ '?' ∧ c ≠ '#' := by
    intro c hc
    rcases mem_joinWith hc with ⟨_, hp, hc⟩ | rfl
    · obtain ⟨w, hw, rfl⟩ := List.mem_map.1 hp
      exact ((h w hw).2.2.2 c hc).2
    · decide
  refine ⟨fun hm => (hinside _ hm).1 rfl, fun hm => (hinside _ hm).2 rfl, ?_⟩
  rw [splitAt_words hne h]
  exact List.forall_mem_map.2 fun w hw => (h w hw).goes_on

/-- As many words lead as deep. -/
theorem depth_service_eq (parts : List String) (h' : ∀ w ∈ words', Word w)
    (hlen : words.length = words'.length) :
    depth (service api (parts ++ words)) = depth (service api (parts ++ words')) := by
  have hne' : words' ≠ [] := by
    rintro rfl
    exact hne (List.length_eq_zero_iff.1 hlen)
  rw [service_append, service_append, flatMap_segment_words hne h, flatMap_segment_words hne' h']
  exact depth_append_eq (length_service api parts) (getLast?_service api parts)
    (onward_words hne h) (onward_words hne' h')
    (by rw [splitAt_words hne h, splitAt_words hne' h', List.length_map, List.length_map, hlen])

end Words

theorem word_of_kind (h : plural = buildConfigs ∨ plural = builds) : Word plural := by
  rcases h with rfl | rfl <;> decide +kernel

/-- A part that leads on leads deeper. -/
theorem depth_service_lt (parts : List String) (h : Upright (bare name).toList) :
    depth (service api parts) < depth (service api (parts ++ [name])) := by
  -- A part that leads on is more than slashes, so it is not left out.
  have hname : ¬ SlashesOnly name := by
    intro hs
    rw [bare_eq_empty_iff.2 hs] at h
    exact absurd h (by decide)
  have hhead : (bare name).toList.head? ≠ some '/' := fun hs => by
    rw [toList_bare] at hs
    exact isSlash_eq_false_iff.1 (head?_dropOuter hs) rfl
  rw [service_append, List.map_singleton, List.flatMap_singleton, segment_of_bare hname]
  exact depth_lt_append (length_service api parts) (getLast?_service api parts) hhead h

/-- A text of steps that need no escape, with slashes between them. -/
def Regular (s : String) : Prop := ∀ c ∈ s.toList, isUnreserved c = true ∨ c = '/'

instance (s : String) : Decidable (Regular s) :=
  decidable_of_iff (s.toList.all (fun c => isUnreserved c || c == '/') = true) (by simp [Regular])

theorem regular_of_kind (h : plural = buildConfigs ∨ plural = builds) : Regular plural := by
  rcases h with rfl | rfl <;> decide +kernel

/-- Behind the authority of a web address stands a regular path, and no more. -/
def RegularService (api : String) : Prop :=
  ∃ scheme authority path, WebOrigin scheme authority ∧ Plain scheme authority path api

/-- Where an address leads, once the steps that stay or go back are taken. -/
def landing (url : String) : List Char :=
  dropEndWhile isSlash (Target.rootedPath (resolveDots (Components.read url.toList).path))

theorem Plain.read_eq (ho : WebOrigin scheme authority) (h : Plain scheme authority path url) :
    Components.read url.toList = ⟨some scheme, some authority, path, none, none⟩ := by
  rw [ho.read_eq h.toList fun c hc => by rw [h.rooted c hc]; decide,
    cutFirst_eq_self (h.not_mem (by decide) (by decide)),
    cutFirst_eq_self (h.not_mem (by decide) (by decide))]

/-- Steps that go on are all kept. -/
theorem foldl_resolveStep {steps : List (List Char)} (h : ∀ step ∈ steps, step ∉ dotSteps)
    (done : List (List Char)) : steps.foldl resolveStep done = steps.reverse ++ done := by
  induction steps generalizing done with
  | nil => rfl
  | cons step steps ih =>
    have hstep := h step List.mem_cons_self
    rw [dotSteps, List.mem_cons, List.mem_singleton, not_or] at hstep
    rw [List.foldl_cons, ih fun step hs => h step (List.mem_cons_of_mem _ hs), resolveStep,
      if_neg hstep.1, if_neg hstep.2, List.reverse_cons, List.append_assoc, List.singleton_append]

/-- What is left of a path once the steps that stay or go back are taken. -/
def kept (path : List Char) : List (List Char) := ((splitAt '/' path).foldl resolveStep []).reverse

theorem kept_append {x : List Char} (hx : Onward x) (path : List Char) :
    kept (path ++ '/' :: x) = kept path ++ splitAt '/' x := by
  rw [kept, splitAt_append_sep, List.foldl_append,
    foldl_resolveStep fun step hs => (hx.steps step hs).2, List.reverse_append,
    List.reverse_reverse, kept]

/-- The steps of a rooted path; the first of them is nothing. -/
def rooted (steps : List (List Char)) : List (List Char) :=
  (if steps.head? = some [] then [] else [[]]) ++ steps

theorem exists_rooted (steps : List (List Char)) : ∃ rest, rooted steps = [] :: rest := by
  by_cases h : steps.head? = some []
  · obtain ⟨rest, rfl⟩ := List.head?_eq_some_iff.1 h
    exact ⟨rest, rfl⟩
  · exact ⟨steps, by rw [rooted, if_neg h]; rfl⟩

theorem rooted_append {steps more : List (List Char)} (h : more.head? ≠ some []) :
    rooted (steps ++ more) = rooted steps ++ more := by
  cases steps with
  | nil => simp [rooted, h]
  | cons step steps => rw [rooted, rooted, List.append_assoc]; rfl

/-- A path that ends in a dot step keeps its slash. -/
abbrev Opened (path : List Char) : Prop :=
  1 < (splitAt '/' path).length ∧ (splitAt '/' path).getLast?.any dotSteps.contains = true

theorem not_opened_append {x : List Char} (hx : Onward x) (path : List Char) :
    ¬ Opened (path ++ '/' :: x) := by
  rintro ⟨-, hopen⟩
  rw [splitAt_append_sep, List.getLast?_append, List.getLast?_eq_getLast_of_ne_nil
    (splitAt_ne_nil '/' x), Option.some_or, Option.any_some] at hopen
  exact (hx.steps _ (List.getLast_mem (splitAt_ne_nil '/' x))).2 (by simpa using hopen)

theorem resolveDots_of_rooted {path : List Char}
    (h : path.head? = some '/' ∨ (kept path).head? = some []) :
    resolveDots path =
      joinWith '/' (rooted (kept path) ++ if Opened path then [[]] else []) := by
  rw [resolveDots, ← kept, rooted]
  by_cases hk : (kept path).head? = some []
  · simp [hk, Opened]
  · simp [hk, h.resolve_right hk, Opened]

/-- Steps that go on stay behind those that are left of a path. -/
theorem resolveDots_append {path x : List Char} (h : ∀ c ∈ path.head?, c = '/')
    (hx : Onward x) :
    resolveDots (path ++ '/' :: x) = joinWith '/' (rooted (kept path)) ++ '/' :: x := by
  have hhead : (path ++ '/' :: x).head? = some '/' := by
    cases path with
    | nil => rfl
    | cons c path => exact congrArg some (h c rfl)
  have hfirst : (splitAt '/' x).head? ≠ some [] := fun hs =>
    (hx.steps [] (List.mem_of_head? hs)).1 rfl
  obtain ⟨rest, hrest⟩ := exists_rooted (kept path)
  rw [resolveDots_of_rooted (.inl hhead), if_neg (not_opened_append hx path), List.append_nil,
    kept_append hx, rooted_append hfirst, hrest,
    joinWith_append '/' (List.cons_ne_nil _ _) (splitAt_ne_nil '/' x), joinWith_splitAt]

/-- So what was sent for an address stands in front of such steps, but for a slash at its end. -/
theorem rootedPath_append {path x : List Char} (h : ∀ c ∈ path.head?, c = '/') (hx : Onward x) :
    ∃ before, (Target.rootedPath (resolveDots path) = before ∨
        Target.rootedPath (resolveDots path) = before ++ ['/']) ∧
      Target.rootedPath (resolveDots (path ++ '/' :: x)) = before ++ '/' :: x := by
  have hpath : path.head? = some '/' ∨ (kept path).head? = some [] := by
    cases path with
    | nil => exact .inr rfl
    | cons c path => exact .inl (congrArg some (h c rfl))
  rw [resolveDots_append h hx, resolveDots_of_rooted hpath]
  obtain ⟨rest, hrest⟩ := exists_rooted (kept path)
  rw [hrest]
  cases rest with
  | nil =>
    refine ⟨[], .inr ?_, rfl⟩
    split <;> rfl
  | cons step rest =>
    refine ⟨joinWith '/' ([] :: step :: rest), ?_, rfl⟩
    split
    · exact .inr (by rw [joinWith_append '/' (List.cons_ne_nil _ _) (List.cons_ne_nil _ _)]; rfl)
    · exact .inl (by rw [List.append_nil]; rfl)

/-- The last touch leaves a regular path alone. -/
theorem requote_regular {start : List Char} (hstart : ∀ c ∈ start, isSafe c = true ∧ c ≠ '%')
    (s : List Char) : ∃ p, (s ≠ [] → p ≠ []) ∧ (∀ c ∈ p, c ∈ s ∨ isUnreserved c = true ∨ c = '%') ∧
      ∀ mid, (∀ c ∈ mid, isUnreserved c = true ∨ c = '/') →
        requote (start ++ s ++ '/' :: mid) = start ++ p ++ '/' :: mid := by
  have hsafe : ∀ c, isUnreserved c = true ∨ c = '/' → isSafe c = true := by
    rintro c (h | rfl)
    · simp [isSafe, h]
    · decide
  cases hs : decodeUnreserved? s with
  | none =>
    refine ⟨Percent.encode isSafe s, mt (level_encode (by decide) s).eq_nil_iff.2,
      fun c hc => (mem_encode hc).imp_left And.left, fun mid hmid => ?_⟩
    rw [requote_of_undecoded hstart (by rw [decodeUnreserved?_start hstart, hs]; rfl),
      encode_eq_self fun c hc => hsafe c (hmid c hc)]
  | some p =>
    have hlevel := (level_decodeUnreserved? hs).trans
      (@level_encode (fun c => isSafe c || c == '%') (by decide) p)
    refine ⟨_, mt hlevel.eq_nil_iff.2, mem_of_encode_decoded hs, fun mid hmid => ?_⟩
    have hdecode : decodeUnreserved? mid = some mid := by
      have hmark : '%' ∉ mid := fun hm => absurd (hmid _ hm) (by decide)
      simpa [decodeUnreserved?] using decodeUnreserved?_append_of_not_mem hmark []
    have hself : Percent.encode (fun c => isSafe c || c == '%') mid = mid :=
      encode_eq_self fun c hc => by simp [hsafe c (hmid c hc)]
    rw [requote_of_decoded hstart hs hdecode, hself]

/-- All regular addresses at a service are sent with the same text in front of their paths, which
are resolved and no more. -/
theorem WebOrigin.prepare_regular (ho : WebOrigin scheme authority)
    (hserved : Served names authority) :
    ∃ start : List Char, (∀ c ∈ start.getLast?, c ≠ '/') ∧ start ≠ [] ∧
      ∀ path url, Plain scheme authority path url → prepare names url [] =
        .ok (String.ofList (start ++ Target.rootedPath (resolveDots path))) := by
  obtain ⟨a, ha, hh⟩ := hserved
  -- The last touch may rewrite the authority, but in the same way in front of every regular path.
  have hstart : ∀ c ∈ scheme.map Char.toLower ++ "://".toList, isSafe c = true ∧ c ≠ '%' :=
    isSafe_of_isScheme (isScheme_of_web ho.web)
  obtain ⟨p, hne, hp, hrequote⟩ := requote_regular hstart (Target.normalizeAuthority a).write
  have hinside := inside_normalizeAuthority names.spelling ha fun c => ho.inside_authority
  have hauthority : (Target.normalizeAuthority a).write ≠ [] := by
    have hhost := hh.1
    simp [Authority.write, hhost]
  refine ⟨scheme.map Char.toLower ++ "://".toList ++ p, ?_, by simp, fun path url h => ?_⟩
  · obtain ⟨before, last, hlast⟩ := (List.eq_nil_or_concat p).resolve_left (hne hauthority)
    intro c hc
    rw [List.concat_eq_append] at hlast
    rw [List.getLast?_append, hlast, List.getLast?_concat] at hc
    obtain rfl := Option.some.inj hc
    rcases hp last (by simp [hlast]) with hc | hc | rfl
    · exact (hinside last hc).1
    · exact not_slash_of_isUnreserved hc
    · decide
  · have hquery : ∀ q ∈ (none : Option (List Char)), '#' ∉ q := by simp
    obtain ⟨hunder, hread⟩ := ho.target_plain ha hh h hquery (List.append_nil _).symm
    have hplain : ∀ c ∈ resolveDots path, isUnreserved c = true ∨ c = '/' := fun c hc =>
      (mem_resolveDots hc).elim (h.plain c) .inr
    obtain ⟨mid, hmid, hpath⟩ := rootedPath_plain hplain
    have hempty : Percent.normalize inQuery [] = [] := normalize_eq_self (by simp) (by simp)
    rw [ho.prepare_eq hunder, hread, Except.map, Option.getD_none, hempty, hpath,
      ← hrequote mid hmid, Target.addQuery, if_pos (by rfl), Target.write, hpath]
    simp

/-- Regular addresses are sent to the same place just if they lead there. -/
theorem sameAddress_iff_landing (ho : WebOrigin scheme authority)
    (hp : Plain scheme authority path url) (hp' : Plain scheme authority path' url')
    (h : prepare names url [] = .ok sent) (h' : prepare names url' [] = .ok sent') :
    SameAddress sent sent' ↔ landing url = landing url' := by
  have hserved := (ho.served_iff hp.under []).1 ⟨sent, h⟩
  obtain ⟨start, hlast, hne, hprepare⟩ := ho.prepare_regular hserved
  obtain ⟨before, last, hstart⟩ := (List.eq_nil_or_concat start).resolve_left hne
  rw [List.concat_eq_append] at hstart
  have hend : start.getLast? = some last := by rw [hstart, List.getLast?_concat]
  have hslash : isSlash last = false := isSlash_eq_false_iff.2 (hlast last hend)
  rw [hprepare path url hp] at h
  rw [hprepare path' url' hp'] at h'
  rw [← Except.ok.inj h, ← Except.ok.inj h', SameAddress, String.toList_ofList,
    String.toList_ofList, dropEndWhile_append_of_last hend hslash,
    dropEndWhile_append_of_last hend hslash, List.append_cancel_left_eq, landing, landing,
    hp.read_eq ho, hp'.read_eq ho]

/-- Regular words are the last steps of what is sent for the address that they are joined to. -/
theorem words_last {resource : String} {words : List String} (hapi : RegularService resource)
    (hend : dropEndWhile isSlash resource.toList = resource.toList) (hne : words ≠ [])
    (h : ∀ w ∈ words, Word w) (hregular : ∀ w ∈ words, Regular w)
    (hsent : prepare names (join resource words) [] = .ok sent) :
    ∃ before, (prepare names resource [] = .ok (String.ofList before) ∨
        prepare names resource [] = .ok (String.ofList (before ++ ['/']))) ∧
      sent.toList = before ++ '/' :: joinWith '/' (words.map String.toList) := by
  obtain ⟨scheme, authority, path, ho, hplain⟩ := hapi
  have hjoin : (join resource words).toList =
      resource.toList ++ '/' :: joinWith '/' (words.map String.toList) := by
    rw [join, String.toList_ofList, joinChars, hend, flatMap_segment_words hne h]
  have hwords : Plain scheme authority (path ++ '/' :: joinWith '/' (words.map String.toList))
      (join resource words) := by
    refine ⟨by rw [hjoin, hplain.toList, List.append_assoc], fun c hc => ?_, fun c hc => ?_⟩
    · rcases List.mem_append.1 hc with hc | hc
      · exact hplain.plain c hc
      · rcases List.mem_cons.1 hc with rfl | hc
        · exact .inr rfl
        · rcases mem_joinWith hc with ⟨_, hp, hc⟩ | hc
          · obtain ⟨w, hw, rfl⟩ := List.mem_map.1 hp
            exact hregular w hw c hc
          · exact .inr hc
    · cases path with
      | nil => exact (Option.mem_some_iff.1 hc).symm
      | cons d path => exact hplain.rooted c hc
  obtain ⟨start, -, -, hprepare⟩ :=
    ho.prepare_regular ((ho.served_iff hwords.under []).1 ⟨_, hsent⟩)
  obtain ⟨before, hbefore, hafter⟩ := rootedPath_append hplain.rooted (onward_words hne h)
  rw [hprepare _ _ hwords, hafter] at hsent
  refine ⟨start ++ before, ?_, ?_⟩
  · rw [hprepare _ _ hplain]
    refine hbefore.imp (fun h => by rw [h]) fun h => by rw [h, List.append_assoc]
  · rw [← Except.ok.inj hsent, String.toList_ofList, List.append_assoc]

theorem plain_namespaced (ho : WebOrigin scheme authority)
    (h : Plain scheme authority path api) (hns : Regular ns) (hplural : Regular plural)
    (hname : Regular name) :
    ∃ path', Plain scheme authority path' (namespaced api ns plural name) := by
  have hfixed : ∀ word ∈ ["apis", buildApiVersion, "namespaces"], Regular word := by decide +kernel
  refine h.join ho fun part hpart => ?_
  have hcases : part ∈ ["apis", buildApiVersion, "namespaces"] ∨ part = ns ∨ part = plural ∨
      part = name := by
    simpa [or_assoc] using hpart
  rcases hcases with hpart | rfl | rfl | rfl
  · exact hfixed part hpart
  · exact hns
  · exact hplural
  · exact hname

theorem plain_collection (ho : WebOrigin scheme authority)
    (h : Plain scheme authority path api) (hns : Regular ns) (hplural : Regular plural) :
    ∃ path', Plain scheme authority path' (collection api ns plural) :=
  plain_namespaced ho h hns hplural (by decide)

end Url

end BuildClient
