import BuildClient.Proofs.Reaper
import BuildClient.Proofs.Remote
import BuildClient.Proofs.Url.Beneath

/-! Deleting a configuration at the service, request by request. -/
namespace BuildClient

open Http

variable {σ : Type} {e : Executor} {api ns name : String} {service : Service}

/-- What made a request fail: no answer, or one that is no success. -/
inductive Rejected (s : Sent) : Outcome → ClientError → Prop
  | fault (f : NetworkFault) : Rejected s (.fault f) (.undelivered s.method s.url f)
  | refusal {a : Response} {x : ClientError} (h : a.success = false)
      (told : a.refusal s.method (some s.url) = .ok x) : Rejected s (.answer a) x

theorem verdict_cases (s : Sent) {o : Outcome} (h : ∀ x, o ≠ .foreign x) :
    (∃ x, Rejected s o x ∧ s.verdict o = .error (.client x)) ∨
      (∃ during, Overwhelms o during ∧ s.verdict o = .error (.foreign (.stackExhausted during))) ∨
      ∃ a, o = .answer a ∧ a.success = true ∧ s.verdict o = .ok a := by
  cases o with
  | answer a =>
    cases ha : a.success with
    | true => exact .inr (.inr ⟨a, rfl, ha, by simp [Sent.verdict, ha]⟩)
    | false =>
      cases hr : a.refusal s.method (some s.url) with
      | ok x => exact .inl ⟨x, .refusal ha hr, by simp [Sent.verdict, ha, Response.failure, hr]⟩
      | error x =>
        obtain ⟨during, hdeep, rfl⟩ := Response.refusal_eq_error.1 hr
        exact .inr (.inl ⟨during, .answer ha hdeep,
          by simp [Sent.verdict, ha, Response.failure, hr]⟩)
  | fault f => exact .inl ⟨_, .fault f, rfl⟩
  | foreign x => exact absurd rfl (h x)

theorem found_cases (s : Sent) {o : Outcome} (h : ∀ x, o ≠ .foreign x) :
    (∃ x, Rejected s o x ∧ (∀ a, o = .answer a → a.status ≠ 404) ∧
        s.found o = .error (.client x)) ∨
      (∃ during, Overwhelms o during ∧ s.found o = .error (.foreign (.stackExhausted during))) ∨
      (∃ a, o = .answer a ∧ a.status = 404 ∧ a.Readable ∧ s.found o = .ok false) ∨
      ∃ a, o = .answer a ∧ a.success = true ∧ s.found o = .ok true := by
  cases o with
  | answer a =>
    cases ha : a.success with
    | true => exact .inr (.inr (.inr ⟨a, rfl, ha, by simp [Sent.found, ha]⟩))
    | false =>
      cases hr : a.refusal s.method (some s.url) with
      | error x =>
        obtain ⟨during, hdeep, rfl⟩ := Response.refusal_eq_error.1 hr
        exact .inr (.inl ⟨during, .answer ha hdeep,
          by simp [Sent.found, ha, Response.orAbsent, hr]⟩)
      | ok x =>
        by_cases h4 : a.status = 404
        · exact .inr (.inr (.inl ⟨a, rfl, h4, Response.readable_of_refusal hr,
            by simp [Sent.found, ha, Response.orAbsent, hr, h4]⟩))
        · refine .inl ⟨x, .refusal ha hr, ?_, by simp [Sent.found, ha, Response.orAbsent, hr, h4]⟩
          rintro b ⟨⟩
          exact h4
  | fault f => exact .inl ⟨_, .fault f, fun a ha => (by cases ha), rfl⟩
  | foreign x => exact absurd rfl (h x)

/-- The deletion of one build, as it was sent and what came of it. -/
structure Removal where
  ns : String
  name : String
  sent : Sent
  outcome : Outcome

namespace Removal

/-- Deleted now, or gone before. -/
def gone (r : Removal) : Bool :=
  match r.outcome with
  | .answer a => a.success || a.status == 404
  | _ => false

/-- The key of a build that is not gone, and why. -/
def failure? (r : Removal) : Option (String × ClientError) :=
  match r.outcome with
  | .answer a =>
    if r.gone then none
    else (a.refusal r.sent.method (some r.sent.url)).toOption.map (r.ns ++ "/" ++ r.name, ·)
  | .fault f => some (r.ns ++ "/" ++ r.name, .undelivered r.sent.method r.sent.url f)
  | .foreign _ => none

/-- The answer could not be read for what the service says. -/
def Stuck (r : Removal) : Prop := ∃ during, Overwhelms r.outcome during

/-- All builds must be gone in the end; else it is told which are not. -/
def ending (removals : List Removal) : Except Failure Bool :=
  if removals.all gone then .ok true
  else .error (.client (.unreaped (Dictionary.ofPairs (removals.filterMap failure?))))

/-- How deleting the builds of some places ends: with each of them tried, or at the first answer
that cannot be read. -/
inductive Ends (places : List (String × String)) : List Removal → Except Failure Bool → Prop
  | through {removals : List Removal} (each : removals.map (fun r => (r.ns, r.name)) = places)
      (read : ∀ r ∈ removals, ¬ r.Stuck) : Ends places removals (ending removals)
  | broken {done : List Removal} {last : Removal} {during : Json.Activity}
      (each : (done ++ [last]).map (fun r => (r.ns, r.name)) <+: places)
      (read : ∀ r ∈ done, ¬ r.Stuck) (stuck : Overwhelms last.outcome during) :
      Ends places (done ++ [last]) (.error (.foreign (.stackExhausted during)))

end Removal

/-- The requests of deleting the builds of a configuration, by how the service answers the first,
the second and so on, and whether all builds are gone in the end. -/
inductive Cleanup (e : Executor) (api ns name : String) (answer : ℕ → Outcome) :
    List Sent → Except Failure Bool → Prop
  | unlisted {s : Sent} {x : ClientError} (asked : Issued e (listing api ns name) s)
      (rejected : Rejected s (answer 0) x) : Cleanup e api ns name answer [s] (.error (.client x))
  | overwhelmed {s : Sent} {during : Json.Activity} (asked : Issued e (listing api ns name) s)
      (deep : Overwhelms (answer 0) during) :
      Cleanup e api ns name answer [s] (.error (.foreign (.stackExhausted during)))
  | unreadable {s : Sent} {a : Response} {x : Model.Fault}
      (asked : Issued e (listing api ns name) s) (answered : answer 0 = .answer a)
      (h : a.success = true)
      (decoded : Model.buildList.decodeBytes a.content = .error x) :
      Cleanup e api ns name answer [s] (.error (.client (.undecodable "BuildList" x)))
  | listed {s : Sent} {a : Response} {found : BuildList} {removals : List Removal}
      {result : Except Failure Bool} (asked : Issued e (listing api ns name) s)
      (answered : answer 0 = .answer a) (h : a.success = true)
      (decoded : Model.buildList.decodeBytes a.content = .ok found)
      (ends : Removal.Ends ((found.items.getD []).filterMap (Reaper.target? ns name)) removals
        result)
      (issued : ∀ r ∈ removals, Issued e (deletion api r.ns "builds" r.name) r.sent)
      (outcomes : removals.map Removal.outcome = (List.range' 1 removals.length).map answer) :
      Cleanup e api ns name answer (s :: removals.map Removal.sent) result

/-- The requests of deleting a configuration, and whether it was there. Its builds are deleted once
it is deleted itself. -/
inductive Deletion (e : Executor) (api ns name : String) (answer : ℕ → Outcome) :
    List Sent → Except Failure Bool → Prop
  | missing {s : Sent} {a : Response} (asked : Issued e (deletion api ns "buildconfigs" name) s)
      (answered : answer 0 = .answer a) (h : a.status = 404) (readable : a.Readable) :
      Deletion e api ns name answer [s] (.ok false)
  | rejected {s : Sent} {x : ClientError} (asked : Issued e (deletion api ns "buildconfigs" name) s)
      (rejected : Rejected s (answer 0) x) (h : ∀ a, answer 0 = .answer a → a.status ≠ 404) :
      Deletion e api ns name answer [s] (.error (.client x))
  | overwhelmed {s : Sent} {during : Json.Activity}
      (asked : Issued e (deletion api ns "buildconfigs" name) s)
      (deep : Overwhelms (answer 0) during) :
      Deletion e api ns name answer [s] (.error (.foreign (.stackExhausted during)))
  | deleted {s : Sent} {a : Response} {trace : List Sent} {result : Except Failure Bool}
      (asked : Issued e (deletion api ns "buildconfigs" name) s)
      (answered : answer 0 = .answer a) (h : a.success = true)
      (builds : Cleanup e api ns name (fun i => answer (i + 1)) trace result) :
      Deletion e api ns name answer (s :: trace) result

/-- What the store of the service says of a build, by what came of the request. -/
def Removal.attempt (r : Removal) : Reaper.Attempt := ⟨r.ns, r.name, r.sent.found r.outcome⟩

/-- Deleting one build at the service takes one request. -/
theorem remote_delete_apply {r : Request} (h : e.prepare (deletion api ns "builds" name) = .ok r)
    (service : Service) (w : World σ) :
    ∃ s log, Issued e (deletion api ns "builds" name) s ∧
      (BuildStore.remote e api).delete ns name service w =
        (s.found (service w.sent.length).outcome, ⟨w.sent ++ [s], log, w.store⟩) := by
  rw [remote_delete]
  exact found_plain (deletion_plain api ns "builds" name) h Log.debug .resources
    "Build already gone" [("namespace", .string ns), ("build", .string name)] service w

/-- Every attempt at the service is one request, and the requests are answered in their order. -/
theorem removals_of_attempts
    (hp : ∀ ns name, ∃ r, e.prepare (deletion api ns "builds" name) = .ok r)
    {w w' : World σ} {attempts : List Reaper.Attempt}
    (h : Reaper.Attempts (BuildStore.remote e api) service w attempts w') :
    ∃ removals : List Removal, attempts = removals.map Removal.attempt ∧
      w'.sent = w.sent ++ removals.map Removal.sent ∧
      (∀ r ∈ removals, Issued e (deletion api r.ns "builds" r.name) r.sent) ∧
      removals.map Removal.outcome =
        (List.range' w.sent.length removals.length).map fun i => (service i).outcome := by
  induction h with
  | nil w => exact ⟨[], rfl, by simp, by simp, rfl⟩
  | @cons w w₁ w₂ ns name answer log rest first others ih =>
    obtain ⟨r, hr⟩ := hp ns name
    obtain ⟨s, log', hs, hd⟩ := remote_delete_apply hr service w
    rw [hd] at first
    cases first
    obtain ⟨removals, rfl, hsent, hissued, houtcomes⟩ := ih
    refine ⟨⟨ns, name, s, (service w.sent.length).outcome⟩ :: removals, rfl, ?_, ?_, ?_⟩
    · rw [hsent]
      simp
    · simpa using ⟨hs, hissued⟩
    · rw [List.map_cons, houtcomes, List.length_cons, List.range'_succ, List.map_cons]
      simp

namespace Removal

theorem failure?_attempt (r : Removal) : r.attempt.failure? = r.failure? := by
  obtain ⟨ns, name, s, outcome⟩ := r
  cases outcome with
  | answer a =>
    cases hs : a.success <;> by_cases h : a.status = 404 <;>
      cases hr : a.refusal s.method (some s.url) <;>
      simp [attempt, Sent.found, Response.orAbsent, Reaper.Attempt.failure?, failure?, gone, hs, h,
        hr, Except.toOption]
  | fault f => rfl
  | foreign x => rfl

theorem failure?_eq_none_iff {r : Removal} (h : ∀ x, r.outcome ≠ .foreign x) (hread : ¬ r.Stuck) :
    r.failure? = none ↔ r.gone = true := by
  obtain ⟨ns, name, s, outcome⟩ := r
  cases outcome with
  | answer a =>
    cases hr : a.refusal s.method (some s.url) with
    | ok x => simp [failure?, hr, Except.toOption]
    | error x =>
      obtain ⟨during, hdeep, -⟩ := Response.refusal_eq_error.1 hr
      cases hs : a.success with
      | true => simp [failure?, gone, hs]
      | false => exact absurd ⟨during, .answer hs hdeep⟩ hread
  | fault f => simp [failure?, gone]
  | foreign x => exact absurd rfl (h x)

/-- Only an answer that cannot be read ends the work. -/
theorem overwhelms_of_fatal {r : Removal} {x : Foreign} (h : ∀ x, r.outcome ≠ .foreign x)
    (hx : r.attempt.answer = .error (.foreign x)) :
    ∃ during, Overwhelms r.outcome during ∧ x = .stackExhausted during := by
  rcases found_cases r.sent h with
    ⟨_, -, -, hf⟩ | ⟨during, ho, hf⟩ | ⟨_, -, -, -, hf⟩ | ⟨_, -, -, hf⟩
  all_goals
    rw [attempt, hf] at hx
    cases hx
  exact ⟨during, ho, rfl⟩

theorem fatal_of_stuck {r : Removal} (h : r.Stuck) : r.attempt.Fatal := by
  obtain ⟨ns, name, s, outcome⟩ := r
  obtain ⟨during, ho⟩ := h
  cases ho with
  | answer hs hdeep =>
    exact ⟨.stackExhausted during,
      by simp [attempt, Sent.found, hs, Response.orAbsent, hdeep.refusal]⟩

/-- What the reaper tells of the attempts is what becomes of the deletion. -/
theorem ending_eq {removals : List Removal} (h : ∀ r ∈ removals, ∀ x, r.outcome ≠ .foreign x)
    (hread : ∀ r ∈ removals, ¬ r.Stuck) :
    ((Reaper.report (removals.map attempt)).bind fun _ => .ok true) = ending removals := by
  have hf : (removals.map attempt).filterMap Reaper.Attempt.failure? =
      removals.filterMap failure? := by
    rw [List.filterMap_map]
    exact List.filterMap_congr fun r _ => failure?_attempt r
  have hall : removals.all gone = true ↔ removals.filterMap failure? = [] := by
    rw [List.all_eq_true, List.filterMap_eq_nil_iff]
    exact forall₂_congr fun r hr => (failure?_eq_none_iff (h r hr) (hread r hr)).symm
  rw [Reaper.report, hf, ending]
  cases hl : removals.filterMap failure? with
  | nil =>
    rw [if_pos (hall.2 hl)]
    rfl
  | cons p ps =>
    rw [if_neg fun ha => by rw [hall.1 ha] at hl; cases hl]
    rfl

end Removal

namespace Operations

variable {o : Operations σ}

theorem deleteSelf_apply {r : Request}
    (h : o.executor.prepare (deletion o.apiUrl ns "buildconfigs" name) = .ok r)
    (service : Service) (w : World σ) :
    ∃ s log, Issued o.executor (deletion o.apiUrl ns "buildconfigs" name) s ∧
      o.deleteSelf (Url.namespaced o.apiUrl ns "buildconfigs" name) service w =
        (s.found (service w.sent.length).outcome, ⟨w.sent ++ [s], log, w.store⟩) :=
  found_plain (deletion_plain o.apiUrl ns "buildconfigs" name) h Log.info .operations
    "Build config not found"
    [("namespace", Upload.text o.ns), ("build_config", Upload.text o.name)] service w

/-- Whether every plain request that stays at the place of the address can be sent. -/
theorem prepare_everywhere {d : Draft} {r : Request} (ha : Url.Absolute api) (hd : d.Plain)
    (hu : ∃ parts, d.url = Url.join api ("apis" :: parts)) (h : e.prepare d = .ok r) :
    ∀ d', d'.Plain → (∃ parts, d'.url = Url.join api ("apis" :: parts)) →
      ∃ r', e.prepare d' = .ok r' := by
  obtain ⟨scheme, authority, ho, hapi⟩ := ha
  obtain ⟨parts, hurl⟩ := hu
  rintro d' hd' ⟨parts', hurl'⟩
  refine prepare_of_prepared ho hd hd' ?_ ?_ ?_ h
  · rw [hurl]
    exact ho.under_join hapi _
  · rw [hurl']
    exact ho.under_join hapi _
  · rw [hurl, hurl', Url.location_join api parts, Url.location_join api parts']

end Operations

/-- The builds that the service lists, when the request for them is answered. -/
theorem remote_list_apply {answer : Except Failure BuildList} {w w₁ : World σ}
    (h : e.fetch Model.buildList (listing api ns name) service w = (answer, w₁)) :
    (BuildStore.remote e api).list ns [(Reaper.ownerKey, Labels.value name)] service w =
      (answer.map fun found => found.items.getD [], w₁) := by
  rw [remote_list, listDraft_owner]
  cases answer with
  | error x => exact Run.bind_of_error h
  | ok found => exact Run.bind_of_ok h

/-- Once they are listed, the builds are deleted one by one, whatever the service answers. -/
theorem reap_removals {candidates : List Build} {w w₁ : World σ}
    (hp : ∀ ns name, ∃ r, e.prepare (deletion api ns "builds" name) = .ok r)
    (hs : ∀ n x, (service n).outcome ≠ .foreign x)
    (hlist : (BuildStore.remote e api).list ns [(Reaper.ownerKey, Labels.value name)] service w =
      (.ok candidates, w₁)) :
    ∃ (removals : List Removal) (result : Except Failure (List String)) (w' : World σ),
      Reaper.reap (BuildStore.remote e api) ns name service w = (result, w') ∧
      w'.sent = w₁.sent ++ removals.map Removal.sent ∧
      Removal.Ends (candidates.filterMap (Reaper.target? ns name)) removals
        (result.bind fun _ => .ok true) ∧
      (∀ r ∈ removals, Issued e (deletion api r.ns "builds" r.name) r.sent) ∧
      removals.map Removal.outcome =
        (List.range' w₁.sent.length removals.length).map fun i => (service i).outcome := by
  obtain ⟨attempts, w₂, log, hrun, hcase⟩ := Reaper.reap_of_listed hlist
  obtain ⟨removals, rfl, hsent, hissued, houtcomes⟩ := removals_of_attempts hp hrun
  have hknown : ∀ r ∈ removals, ∀ x, r.outcome ≠ .foreign x := by
    intro r hr x hx
    have hm : r.outcome ∈ removals.map Removal.outcome := List.mem_map_of_mem hr
    rw [houtcomes] at hm
    obtain ⟨n, -, hn⟩ := List.mem_map.1 hm
    exact hs n x (hn.trans hx)
  have haddress : ∀ l : List Removal,
      (l.map Removal.attempt).map Reaper.Attempt.address = l.map fun r => (r.ns, r.name) := by
    intro l
    rw [List.map_map]
    rfl
  rcases hcase with ⟨haddr, hfatal, hreap⟩ | ⟨done, last, x, hdone, hpre, hfatal, hlast, hreap⟩
  · have hread : ∀ r ∈ removals, ¬ r.Stuck :=
      fun r hr hstuck => hfatal _ (List.mem_map_of_mem hr) (Removal.fatal_of_stuck hstuck)
    refine ⟨removals, _, _, hreap, hsent, ?_, hissued, houtcomes⟩
    rw [Removal.ending_eq hknown hread]
    exact .through (by rw [← haddr, haddress]) hread
  · rw [haddress] at hpre
    obtain ⟨before, lasts, rfl, rfl, hlasts⟩ := List.map_eq_append_iff.1 hdone
    obtain ⟨r, rfl, rfl⟩ := List.map_eq_singleton_iff.1 hlasts
    obtain ⟨during, hdeep, rfl⟩ := Removal.overwhelms_of_fatal (hknown r (by simp)) hlast
    refine ⟨before ++ [r], _, _, hreap, hsent, .broken hpre (fun q hq hstuck => ?_) hdeep, hissued,
      houtcomes⟩
    exact hfatal _ (List.mem_map_of_mem hq) (Removal.fatal_of_stuck hstuck)

/-- Deleting the builds at the service, when every request can be sent. -/
theorem cleanup_apply (hl : ∃ r, e.prepare (listing api ns name) = .ok r)
    (hp : ∀ ns name, ∃ r, e.prepare (deletion api ns "builds" name) = .ok r)
    (hs : ∀ n x, (service n).outcome ≠ .foreign x) (hname : name ≠ "") (w : World σ) :
    ∃ trace result w', w'.sent = w.sent ++ trace ∧
      Reaper.deleteBuilds (BuildStore.remote e api) ns (some name) service w = (result, w') ∧
      Cleanup e api ns name (fun i => (service (w.sent.length + i)).outcome) trace
        (result.bind fun _ => .ok true) := by
  obtain ⟨r, hr⟩ := hl
  obtain ⟨s, log, hs', hf⟩ := fetch_plain Model.buildList (listing_plain api ns name) hr service w
  have hreap : Reaper.deleteBuilds (BuildStore.remote e api : BuildStore σ) ns (some name) =
      Reaper.reap (BuildStore.remote e api) ns name := by
    rw [Reaper.deleteBuilds, Reaper.filled?_of_ne hname]
  rw [hreap]
  rcases verdict_cases s (hs w.sent.length) with
    ⟨x, hx, hv⟩ | ⟨during, hdeep, hv⟩ | ⟨a, ha, hok, hv⟩
  · rw [hv] at hf
    exact ⟨[s], _, _, rfl, Reaper.reap_of_unlisted (remote_list_apply hf), .unlisted hs' hx⟩
  · rw [hv] at hf
    exact ⟨[s], _, _, rfl, Reaper.reap_of_unlisted (remote_list_apply hf), .overwhelmed hs' hdeep⟩
  · rw [hv] at hf
    cases hd : Model.buildList.decodeBytes a.content with
    | error x =>
      have hdoc : a.document Model.buildList = .error (.client (.undecodable "BuildList" x)) := by
        rw [Response.document, hd]
        rfl
      rw [show (Except.ok a).bind (fun b => b.document Model.buildList) = _ from hdoc] at hf
      exact ⟨[s], _, _, rfl, Reaper.reap_of_unlisted (remote_list_apply hf),
        .unreadable hs' ha hok hd⟩
    | ok found =>
      have hdoc : a.document Model.buildList = .ok found := by
        rw [Response.document, hd]
        rfl
      rw [show (Except.ok a).bind (fun b => b.document Model.buildList) = _ from hdoc] at hf
      obtain ⟨removals, result, w', hrun, hsent, hends, hissued, houtcomes⟩ :=
        reap_removals hp hs (remote_list_apply hf)
      refine ⟨s :: removals.map Removal.sent, result, w', ?_, hrun, ?_⟩
      · simp [hsent]
      · refine .listed hs' ha hok hd hends hissued ?_
        have hlen : (w.sent ++ [s]).length = w.sent.length + 1 := by simp
        rw [houtcomes]
        simp only
        rw [hlen, ← List.map_add_range', List.map_map]
        rfl

namespace Operations

variable {o : Operations σ}

/-- Deleting a configuration at the service: which requests go out, in which order, and what it
gives, whatever the service answers. -/
theorem delete_deletion (hb : o.builds = none) (hns : o.ns = some ns) (hname : o.name = some name)
    (hns' : ns ≠ "") (hname' : name ≠ "") (ha : Url.Absolute o.apiUrl)
    (hp : ∃ r, o.executor.prepare (deletion o.apiUrl ns "buildconfigs" name) = .ok r)
    (hs : ∀ n x, (service n).outcome ≠ .foreign x) (w : World σ) :
    ∃ trace, (o.delete service w).2.sent = w.sent ++ trace ∧
      Deletion o.executor o.apiUrl ns name (fun i => (service (w.sent.length + i)).outcome) trace
        (o.delete service w).1 := by
  obtain ⟨r, hr⟩ := hp
  have heverywhere := prepare_everywhere ha (deletion_plain o.apiUrl ns "buildconfigs" name)
    ⟨_, rfl⟩ hr
  rw [delete_apply hb hns hname hns' hname']
  obtain ⟨s, log, hissued, hself⟩ := deleteSelf_apply hr service w
  rcases found_cases s (hs w.sent.length) with
    ⟨x, hx, h4, hf⟩ | ⟨during, hdeep, hf⟩ | ⟨a, hanswer, h4, hread, hf⟩ | ⟨a, hanswer, hok, hf⟩
  · rw [hf] at hself
    rw [Run.bind_of_error hself]
    exact ⟨[s], rfl, .rejected hissued hx h4⟩
  · rw [hf] at hself
    rw [Run.bind_of_error hself]
    exact ⟨[s], rfl, .overwhelmed hissued hdeep⟩
  · rw [hf] at hself
    rw [Run.bind_of_ok hself]
    exact ⟨[s], rfl, .missing hissued hanswer h4 hread⟩
  · rw [hf] at hself
    rw [Run.bind_of_ok hself, if_pos rfl]
    obtain ⟨trace, result, w', hsent, hrun, hcleanup⟩ := cleanup_apply
      (heverywhere _ (listing_plain o.apiUrl ns name) ⟨_, rfl⟩)
      (fun ns name => heverywhere _ (deletion_plain o.apiUrl ns "builds" name) ⟨_, rfl⟩)
      hs hname' (⟨w.sent ++ [s], log, w.store⟩ : World σ)
    have hanswers : (fun i => (service ((w.sent ++ [s]).length + i)).outcome) =
        fun i => (service (w.sent.length + (i + 1))).outcome := by
      funext i
      rw [List.length_append, List.length_singleton, Nat.add_assoc, Nat.add_comm 1 i]
    have hend : ((do
        let _ ← Reaper.deleteBuilds (BuildStore.remote o.executor o.apiUrl) ns (some name)
        pure true : Run σ Bool)) service ⟨w.sent ++ [s], log, w.store⟩ =
          (result.bind fun _ => .ok true, w') := by
      cases result with
      | error x => exact Run.bind_of_error hrun
      | ok keys => exact Run.bind_of_ok hrun
    rw [hend]
    refine ⟨s :: trace, ?_, .deleted hissued hanswer hok ?_⟩
    · simp [hsent]
    · rw [← hanswers]
      exact hcleanup

/-- The configuration `app` in the namespace `ns`. -/
def app : Operations Unit :=
  ⟨⟨some "t", true, none, none, .bare⟩, "https://host:8443/", some "ns", some "app", .empty, none⟩

/-- A service that deletes the configuration, lists a build of it and refuses everything else. -/
def halfway : Service
  | 0 => ⟨.all, .answer ⟨200, none, "{}".toUTF8.toList, 990⟩⟩
  | 1 => ⟨.all, .answer ⟨200, none, ("\x7b\"items\":[\x7b\"metadata\":\x7b\"name\":\"app-1\"," ++
      "\"annotations\":\x7b\"openshift.io/build-config.name\":\"app\"\x7d\x7d\x7d]\x7d"
      ).toUTF8.toList, 990⟩⟩
  | _ => ⟨.all, .answer ⟨409, none, [], 990⟩⟩

theorem halfway_known (n : ℕ) (x : Foreign) : (halfway n).outcome ≠ .foreign x := by
  match n with
  | 0 => exact nofun
  | 1 => exact nofun
  | n + 2 => exact nofun

theorem app_absolute : Url.Absolute app.apiUrl :=
  ⟨"https".toList, "host:8443".toList,
    ⟨by decide, by simp, by simp [Url.Components.endsAuthority]⟩, ['/'], by simp [app],
    by simp [Url.Components.endsAuthority]⟩

theorem app_prepared :
    ∃ r, app.executor.prepare (deletion app.apiUrl "ns" "buildconfigs" "app") = .ok r :=
  ⟨⟨"DELETE", "https://host:8443/apis/build.openshift.io/v1/namespaces/ns/buildconfigs/app",
    [("User-Agent", "buildconfig-operations"), ("Accept", "application/json"),
      ("Connection", "keep-alive"), ("Authorization", "Bearer t"), ("Content-Length", "0")],
    .none⟩, by decide +kernel⟩

theorem delete_deletion_halfway :
    app.builds = none ∧ app.ns = some "ns" ∧ app.name = some "app" ∧ "ns" ≠ "" ∧ "app" ≠ "" ∧
      Url.Absolute app.apiUrl ∧
      (∃ r, app.executor.prepare (deletion app.apiUrl "ns" "buildconfigs" "app") = .ok r) ∧
      (∀ n x, (halfway n).outcome ≠ .foreign x) ∧
      ∃ trace, (app.delete halfway (.start ())).2.sent = [] ++ trace ∧
        Deletion app.executor app.apiUrl "ns" "app" (fun i => (halfway (0 + i)).outcome) trace
          (app.delete halfway (.start ())).1 :=
  ⟨rfl, rfl, rfl, by decide, by decide, app_absolute, app_prepared, halfway_known,
    delete_deletion rfl rfl rfl (by decide) (by decide) app_absolute app_prepared halfway_known
      (.start ())⟩

/-- Two builds of the configuration. -/
def twoBuilds : Response :=
  ⟨200, none, ("\x7b\"items\":[\x7b\"metadata\":\x7b\"name\":\"app-1\"," ++
    "\"annotations\":\x7b\"openshift.io/build-config.name\":\"app\"\x7d\x7d\x7d," ++
    "\x7b\"metadata\":\x7b\"name\":\"app-2\"," ++
    "\"annotations\":\x7b\"openshift.io/build-config.name\":\"app\"\x7d\x7d\x7d]\x7d"
    ).toUTF8.toList, 990⟩

/-- A failure told inside of more arrays than the stack has room for. -/
def overgrown : Response := ⟨500, some "Error", Response.nested 1000, 990⟩

/-- A service that deletes the configuration, lists two builds of it and then fails. -/
def failing : Service
  | 0 => ⟨.all, .answer ⟨200, none, [], 990⟩⟩
  | 1 => ⟨.all, .answer twoBuilds⟩
  | _ => ⟨.all, .answer overgrown⟩

theorem failing_known (n : ℕ) (x : Foreign) : (failing n).outcome ≠ .foreign x := by
  match n with
  | 0 => exact nofun
  | 1 => exact nofun
  | n + 2 => exact nofun

theorem overwhelms_overgrown : Overwhelms (.answer overgrown) .array :=
  .answer (by decide) (Response.deep_nested (by decide))

theorem twoBuilds_targets {found : BuildList}
    (h : Model.buildList.decodeBytes twoBuilds.content = .ok found) :
    (found.items.getD []).filterMap (Reaper.target? "ns" "app") =
      [("ns", "app-1"), ("ns", "app-2")] := by
  have hall : ((Model.buildList.decodeBytes twoBuilds.content).map fun found =>
      (found.items.getD []).filterMap (Reaper.target? "ns" "app")).toOption =
        some [("ns", "app-1"), ("ns", "app-2")] := by decide +kernel
  rw [h] at hall
  exact Option.some.inj hall

/-- Whatever the builds of the deletions are, each is answered alike. -/
theorem overgrown_of_outcomes {removals : List Removal}
    (h : removals.map Removal.outcome =
      (List.range' 1 removals.length).map fun i => (failing (0 + (i + 1))).outcome) :
    ∀ r ∈ removals, r.outcome = .answer overgrown := by
  intro r hr
  have hm : r.outcome ∈ removals.map Removal.outcome := List.mem_map_of_mem hr
  rw [h] at hm
  obtain ⟨i, hi, he⟩ := List.mem_map.1 hm
  obtain ⟨i, rfl⟩ := Nat.exists_eq_add_of_le (List.mem_range'_1.1 hi).1
  rw [← he, show 0 + (1 + i + 1) = i + 2 by omega]
  rfl

theorem cleanup_failing {trace : List Sent} {result : Except Failure Bool}
    (h : Cleanup app.executor app.apiUrl "ns" "app" (fun i => (failing (0 + (i + 1))).outcome) trace
      result) : result = .error (.foreign (.stackExhausted .array)) ∧ trace.length = 2 := by
  cases h with
  | unlisted asked rejected =>
    cases rejected with
    | refusal hbad told => cases hbad
  | overwhelmed asked deep =>
    cases deep with
    | answer hbad hdeep => cases hbad
  | unreadable asked answered hok decoded =>
    cases answered
    have hall : (Model.buildList.decodeBytes twoBuilds.content).isOk = true := by decide +kernel
    rw [decoded] at hall
    cases hall
  | listed asked answered hok decoded ends issued outcomes =>
    cases answered
    rw [twoBuilds_targets decoded] at ends
    have hstuck : ∀ r ∈ _, Removal.Stuck r := fun r hr =>
      ⟨.array, (overgrown_of_outcomes outcomes r hr).symm ▸ overwhelms_overgrown⟩
    cases ends with
    | through each read =>
      rename_i removals
      cases removals with
      | nil => cases each
      | cons r rest => exact absurd (hstuck r (by simp)) (read r (by simp))
    | @broken done last during each read stuck =>
      obtain rfl : done = [] := List.eq_nil_iff_forall_not_mem.2 fun r hr =>
        read r hr (hstuck r (by simp [hr]))
      rw [overgrown_of_outcomes outcomes last (by simp)] at stuck
      rw [stuck.unique overwhelms_overgrown]
      exact ⟨rfl, rfl⟩

/-- The first build that cannot be deleted ends the work, with a failure that is none of the
client's own: the second one is not even tried. -/
theorem delete_failing :
    (app.delete failing (.start ())).1 = .error (.foreign (.stackExhausted .array)) ∧
      (app.delete failing (.start ())).2.sent.length = 3 := by
  obtain ⟨trace, htrace, h⟩ := delete_deletion rfl rfl rfl (by decide) (by decide) app_absolute
    app_prepared failing_known (.start ())
  rw [htrace]
  generalize (app.delete failing (.start ())).1 = result at h
  cases h with
  | missing asked answered h4 =>
    cases answered
    cases h4
  | rejected asked rejected h4 =>
    cases rejected with
    | refusal hbad told => cases hbad
  | overwhelmed asked deep =>
    cases deep with
    | answer hbad hdeep => cases hbad
  | deleted asked answered hok builds =>
    obtain ⟨hresult, hlength⟩ := cleanup_failing builds
    exact ⟨hresult, by simp [hlength, World.start]⟩

end Operations

end BuildClient
