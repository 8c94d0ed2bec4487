import BuildClient.Proofs.Deletion
import BuildClient.Proofs.Exchange
import BuildClient.Proofs.Faults

/-! Which answers are failures, what is told of them, and which of them mean that something is not
there. -/
namespace BuildClient

open Http Json Text

variable {σ α β : Type} {e : Executor} {d : Draft} {r : Request} {service : Service} {w : World σ}

namespace Http.Response

variable {a : Response} {s : CodePoints} {detail other : Option CodePoints}
  {method url : Option String} {m : Option (Model α)} {during : Activity}

/-- The status of a success. -/
def Fine (a : Response) : Prop := 200 ≤ a.status ∧ a.status < 300

theorem success_iff : a.success = true ↔ a.Fine := by
  simp [success, Fine]

theorem success_eq_false_iff : a.success = false ↔ ¬ a.Fine := by
  rw [← success_iff, Bool.not_eq_true]

/-- The body is a document with a message in it that is not blank. -/
def Says (a : Response) (s : CodePoints) : Prop :=
  ∃ members, Outline.read a.room a.text = .ok (.object members) ∧
    members.reverse.lookup (.ofString "message") = some (.text s) ∧ ∃ c ∈ s, c.isBlank = false

/-- What is told of a failure: the message in the body, else the reason, unless that is empty. -/
inductive Detail (a : Response) : Option CodePoints → Prop
  | message {s : CodePoints} (h : a.Says s) : Detail a (some s)
  | reason {s : String} (readable : a.Readable) (silent : ∀ t, ¬ a.Says t) (h : a.reason = some s)
      (filled : s ≠ "") : Detail a (some (.ofString s))
  | nothing (readable : a.Readable) (silent : ∀ t, ¬ a.Says t)
      (h : a.reason = none ∨ a.reason = some "") : Detail a none

/-- How a failure is worded. What was requested may not be known. -/
def wording (method url : Option String) (detail : Option CodePoints) : CodePoints :=
  .ofString (method.getD "?" ++ " " ++ url.getD "None" ++ " failed") ++
    detail.elim [] (CodePoints.ofString ": " ++ ·)

theorem allBlank_eq_false_iff : s.allBlank = false ↔ ∃ c ∈ s, c.isBlank = false := by
  simp [CodePoints.allBlank]

theorem filledText?_eq_some {v : Outline} {key : String} : v.filledText? key = some s ↔
    ∃ members, v = .object members ∧ members.reverse.lookup (.ofString key) = some (.text s) ∧
      ∃ c ∈ s, c.isBlank = false := by
  cases v with
  | text t => simp [Outline.filledText?]
  | other => simp [Outline.filledText?]
  | object members =>
    simp only [Outline.filledText?, Outline.object.injEq, exists_eq_left']
    split
    · rename_i t ht
      cases hb : t.allBlank with
      | true =>
        have hblank : ∀ c ∈ t, c.isBlank = true := by simpa [CodePoints.allBlank] using hb
        rw [if_pos rfl]
        refine iff_of_false nofun ?_
        rintro ⟨he, c, hc, hsolid⟩
        obtain rfl : t = s := by simpa using ht.symm.trans he
        rw [hblank c hc] at hsolid
        cases hsolid
      | false =>
        rw [if_neg Bool.false_ne_true]
        constructor
        · rintro ⟨⟩
          exact ⟨ht, allBlank_eq_false_iff.1 hb⟩
        · rintro ⟨he, -⟩
          simpa using ht.symm.trans he
    · rename_i hnone
      exact iff_of_false nofun fun h => hnone s h.1

theorem statusMessage_eq_some : a.statusMessage = .ok (some s) ↔ a.Says s := by
  rw [statusMessage, Says]
  cases Outline.read a.room a.text with
  | error fault => cases fault <;> simp
  | ok v => simp [filledText?_eq_some]

theorem statusMessage_eq_none : a.statusMessage = .ok none ↔ a.Readable ∧ ∀ s, ¬ a.Says s := by
  simp only [← statusMessage_eq_some, Readable]
  cases hm : a.statusMessage with
  | error x =>
    obtain ⟨during, hdeep, -⟩ := statusMessage_eq_error.1 hm
    exact iff_of_false nofun fun h => h.1 during hdeep
  | ok found =>
    have hread : ∀ during, ¬ a.Deep during := fun during hdeep => by
      rw [statusMessage_eq_error.2 ⟨during, hdeep, rfl⟩] at hm
      cases hm
    cases found <;> simp [hread]

theorem Says.unique {t : CodePoints} (hs : a.Says s) (ht : a.Says t) : s = t := by
  have h := (statusMessage_eq_some.2 hs).symm.trans (statusMessage_eq_some.2 ht)
  exact Option.some.inj (Except.ok.inj h)

theorem Says.readable (h : a.Says s) : a.Readable := by
  intro during hdeep
  obtain ⟨members, hread, -⟩ := h
  rw [show Outline.read a.room a.text = _ from hdeep] at hread
  cases hread

theorem Says.ne_nil (h : a.Says s) : s ≠ [] := by
  rintro rfl
  obtain ⟨members, -, -, c, hc, -⟩ := h
  cases hc

/-- An answer has one detail at most. -/
theorem Detail.unique (h : a.Detail detail) (h' : a.Detail other) : detail = other := by
  cases h with
  | message hs =>
    cases h' with
    | message ht => rw [hs.unique ht]
    | reason _ silent => exact absurd hs (silent _)
    | nothing _ silent => exact absurd hs (silent _)
  | reason _ silent hr filled =>
    cases h' with
    | message ht => exact absurd ht (silent _)
    | reason _ _ hr' => rw [Option.some.inj (hr.symm.trans hr')]
    | nothing _ _ hr' => rcases hr' with hr' | hr' <;> simp_all
  | nothing _ silent hr =>
    cases h' with
    | message ht => exact absurd ht (silent _)
    | reason _ _ hr' filled => rcases hr with hr | hr <;> simp_all
    | nothing => rfl

/-- An answer that is too deep to be read has no detail. -/
theorem Detail.readable (h : a.Detail detail) : a.Readable := by
  cases h with
  | message hs => exact hs.readable
  | reason hread => exact hread
  | nothing hread => exact hread

theorem refusal_of_detail (hfilled : detail ≠ some []) (hd : a.detail = .ok (detail.getD []))
    (method url : Option String) : a.refusal (method.getD "?") url =
      .ok (.refused (wording method url detail) a.status a.text) := by
  rw [refusal, hd, wording]
  cases detail with
  | none => simp [complaint, Except.map]
  | some s =>
    have hs : s ≠ [] := fun h => hfilled (by rw [h])
    simp [complaint, hs, Except.map]

/-- An answer that can be read has a detail, and a refusal tells it. -/
theorem exists_detail (h : a.Readable) : ∃ detail, a.Detail detail ∧
    ∀ method url : Option String, a.refusal (method.getD "?") url =
      .ok (.refused (wording method url detail) a.status a.text) := by
  have hdetail : ∀ m, a.statusMessage = .ok m →
      a.detail = .ok (m.getD (.ofString (a.reason.getD ""))) := by
    intro m hm
    rw [Response.detail, hm]
    rfl
  obtain ⟨m, hm⟩ : ∃ m, a.statusMessage = .ok m := by
    cases hm : a.statusMessage with
    | ok m => exact ⟨m, rfl⟩
    | error x =>
      obtain ⟨during, hdeep, -⟩ := statusMessage_eq_error.1 hm
      exact absurd hdeep (h during)
  cases m with
  | some s =>
    have hs := statusMessage_eq_some.1 hm
    exact ⟨some s, .message hs, refusal_of_detail (by simpa using hs.ne_nil) (hdetail _ hm)⟩
  | none =>
    obtain ⟨-, hsilent⟩ := statusMessage_eq_none.1 hm
    have hreason := hdetail _ hm
    by_cases hr : a.reason = none ∨ a.reason = some ""
    · refine ⟨none, .nothing h hsilent hr, refusal_of_detail (by simp) ?_⟩
      rw [hreason]
      rcases hr with hr | hr <;> rw [hr] <;> rfl
    · push Not at hr
      obtain ⟨s, hs⟩ := Option.ne_none_iff_exists'.1 hr.1
      have hfilled : s ≠ "" := fun he => hr.2 (he ▸ hs)
      refine ⟨some (.ofString s), .reason h hsilent hs hfilled, refusal_of_detail ?_ ?_⟩
      · simpa [CodePoints.ofString] using hfilled
      · rw [hreason, hs]
        rfl

/-- What is made of an answer, by its status, by whether its body can be read for what the service
says and by whether a document is asked for. -/
inductive Judged (a : Response) (method url : Option String) :
    Option (Model α) → Except Failure (Option α) → Prop
  | refused {m : Option (Model α)} {detail : Option CodePoints} (bad : ¬ a.Fine)
      (told : a.Detail detail) :
      Judged a method url m
        (.error (.client (.refused (wording method url detail) a.status a.text)))
  | overwhelmed {m : Option (Model α)} {during : Activity} (bad : ¬ a.Fine) (deep : a.Deep during) :
      Judged a method url m (.error (.foreign (.stackExhausted during)))
  | dropped (fine : a.Fine) : Judged a method url none (.ok none)
  | decoded {m : Model α} {x : α} (fine : a.Fine) (h : m.decodeBytes a.content = .ok x) :
      Judged a method url (some m) (.ok (some x))
  | undecodable {m : Model α} {fault : Model.Fault} (fine : a.Fine)
      (h : m.decodeBytes a.content = .error fault) :
      Judged a method url (some m) (.error (.client (.undecodable m.title fault)))

theorem handle_none (h : a.Fine) (method url : Option String) :
    (a.handle method url (none : Option (Model α)) : Run σ (Option α)) = pure none := by
  rw [handle, accept, success_iff.2 h]
  rfl

/-- Judging an answer sends nothing and leaves the store alone. -/
theorem handle_judged (a : Response) (method url : Option String) (m : Option (Model α))
    (service : Service) (w : World σ) :
    ∃ result log, a.handle method url m service w = (result, { w with log := log }) ∧
      Judged a method url m result := by
  obtain ⟨log, hc⟩ := accept_apply a (method.getD "?") url service w
  by_cases hfine : a.Fine
  · rw [success_iff.2 hfine, if_pos rfl] at hc
    cases m with
    | none => exact ⟨_, w.log, by rw [handle_none hfine]; rfl, .dropped hfine⟩
    | some m =>
      have hrun : a.handle method url (some m) service w =
          (some <$> a.decode m) service { w with log := log } := Run.bind_of_ok hc
      rw [hrun, Run.map_apply]
      cases hd : m.decodeBytes a.content with
      | ok x => exact ⟨.ok (some x), log, by rw [decode, hd]; rfl, .decoded hfine hd⟩
      | error fault =>
        exact ⟨.error (.client (.undecodable m.title fault)), log, by rw [decode, hd]; rfl,
          .undecodable hfine hd⟩
  · rw [success_eq_false_iff.2 hfine, if_neg (by decide), Response.failure] at hc
    by_cases hread : a.Readable
    · obtain ⟨detail, hdetail, hrefusal⟩ := exists_detail hread
      rw [hrefusal] at hc
      exact ⟨_, log, Run.bind_of_error hc, .refused hfine hdetail⟩
    · rw [Readable, not_forall_not] at hread
      obtain ⟨during, hdeep⟩ := hread
      rw [hdeep.refusal] at hc
      exact ⟨_, log, Run.bind_of_error hc, .overwhelmed hfine hdeep⟩

/-- An answer is refused just if its status is no success and its body can be read. -/
theorem Judged.refused_iff {result : Except Failure (Option α)} (h : Judged a method url m result) :
    (∃ x, result = .error (.client x) ∧ x.family = .api) ↔ ¬ a.Fine ∧ a.Readable := by
  cases h with
  | refused bad told => exact ⟨fun _ => ⟨bad, told.readable⟩, fun _ => ⟨_, rfl, rfl⟩⟩
  | overwhelmed bad deep => exact iff_of_false (by simp) fun h => h.2 _ deep
  | dropped fine => exact iff_of_false (by simp) fun h => h.1 fine
  | decoded fine => exact iff_of_false (by simp) fun h => h.1 fine
  | undecodable fine =>
    refine iff_of_false ?_ fun h => h.1 fine
    rintro ⟨x, ⟨⟩, ⟨⟩⟩

/-- What is no failure of the client is that the stack gives out. -/
theorem Judged.foreign_iff {result : Except Failure (Option α)} {x : Foreign}
    (h : Judged a method url m result) :
    result = .error (.foreign x) ↔
      ¬ a.Fine ∧ ∃ during, a.Deep during ∧ x = .stackExhausted during := by
  cases h with
  | refused bad told =>
    refine iff_of_false (by simp) ?_
    rintro ⟨-, during, hdeep, -⟩
    exact told.readable during hdeep
  | @overwhelmed m during bad deep =>
    constructor
    · rintro ⟨⟩
      exact ⟨bad, during, deep, rfl⟩
    · rintro ⟨-, during', hdeep, rfl⟩
      obtain rfl : during = during' := by simpa using deep.symm.trans hdeep
      rfl
  | dropped fine => exact iff_of_false (by simp) fun h => h.1 fine
  | decoded fine => exact iff_of_false (by simp) fun h => h.1 fine
  | undecodable fine => exact iff_of_false (by simp) fun h => h.1 fine

end Http.Response

/-- To fetch a document is to prepare the request, to send it and to judge the answer. -/
theorem Http.fetch_eq (e : Executor) (m : Model α) (d : Draft) :
    (some <$> e.fetch m d : Run σ (Option α)) = (do
      let r ← Run.ofForeign (e.prepare d)
      let a ← e.send r
      a.handle (some r.method) (some r.url) (some m)) := by
  simp [Executor.fetch, Executor.call, Response.handle]

theorem Http.call_eq (e : Executor) (d : Draft) :
    ((fun _ => none) <$> e.call d : Run σ (Option α)) = (do
      let r ← Run.ofForeign (e.prepare d)
      let a ← e.send r
      a.handle (some r.method) (some r.url) none) := by
  simp [Executor.call, Response.handle]

/-- A document that cannot be read is not an absent one. -/
theorem Http.Response.not_absent_of_document {a : Response} {m : Model α} {x : ClientError}
    (h : (a.document m).map some = .error (.client x)) : x.isNotFound = false := by
  obtain ⟨fault, -, he⟩ := mapError_eq_error.1 (map_eq_error.1 h)
  cases he
  rfl

theorem Http.Response.document_ne_none (a : Response) (m : Model α) :
    (a.document m).map some ≠ .ok none := by
  intro h
  obtain ⟨found, -, he⟩ := map_eq_ok.1 h
  cases he

/-- The drafted request goes out next, and this is the answer. -/
structure Answered (e : Executor) (draft : Except ClientError Draft) (service : Service)
    (w : World σ) (a : Response) : Prop where
  ready : ∃ d r, draft = .ok d ∧ e.prepare d = .ok r
  answer : (service w.sent.length).outcome = .answer a

/-- How a run ends that takes one answer for absence: by what came of its request, which is the last
thing it did unless the answer was a success. -/
inductive Closes (absent : β) (s : Sent) (log : List Log.Event) (w : World σ) :
    Outcome → Except Failure β × World σ → Prop
  | absent {a : Response} (h : a.status = 404) (readable : a.Readable) :
      Closes absent s log w (.answer a) (.ok absent, ⟨w.sent ++ [s], log, w.store⟩)
  | refused {a : Response} {x : ClientError} (bad : ¬ a.Fine) (h : a.status ≠ 404)
      (told : a.refusal s.method (some s.url) = .ok x) :
      Closes absent s log w (.answer a) (.error (.client x), ⟨w.sent ++ [s], log, w.store⟩)
  | overwhelmed {a : Response} {during : Activity} (bad : ¬ a.Fine) (deep : a.Deep during) :
      Closes absent s log w (.answer a) (.error (.foreign (.stackExhausted during)),
        ⟨w.sent ++ [s], log, w.store⟩)
  | passed {outcome : Outcome} {ended : Except Failure β × World σ}
      (h : ∀ a, outcome = .answer a → a.Fine) (present : ended.1 ≠ .ok absent) :
      Closes absent s log w outcome ended

/-- The run takes exactly the answer that there is no such thing for absence, and does no more then;
any other answer that is no success reaches the caller, and one that cannot be read ends the run. -/
structure Reports (e : Executor) (draft : Except ClientError Draft) (absent : β) (m : Run σ β) :
    Prop where
  absent_iff : ∀ service w, (m service w).1 = .ok absent ↔
    ∃ a, Answered e draft service w a ∧ a.status = 404 ∧ a.Readable
  alone : ∀ service w a, Answered e draft service w a → a.status = 404 → a.Readable →
    ∃ d s log, draft = .ok d ∧ Issued e d s ∧
      m service w = (.ok absent, ⟨w.sent ++ [s], log, w.store⟩)
  refused : ∀ service w a, Answered e draft service w a → ¬ a.Fine → a.status ≠ 404 → a.Readable →
    ∃ d s log detail, draft = .ok d ∧ Issued e d s ∧ a.Detail detail ∧
      m service w = (.error (.client (.refused
        (Response.wording (some s.method) (some s.url) detail) a.status a.text)),
        ⟨w.sent ++ [s], log, w.store⟩)
  overwhelmed : ∀ service w a during, Answered e draft service w a → ¬ a.Fine → a.Deep during →
    ∃ d s log, draft = .ok d ∧ Issued e d s ∧
      m service w = (.error (.foreign (.stackExhausted during)), ⟨w.sent ++ [s], log, w.store⟩)

theorem not_fine_of_absent {a : Response} (h : a.status = 404) : ¬ a.Fine := by
  rw [Response.Fine, h]
  decide

namespace Closes

variable {absent : β} {s : Sent} {log : List Log.Event} {outcome : Outcome} {a : Response}
  {ended : Except Failure β × World σ} {during : Activity}

theorem eq_of_absent (h : Closes absent s log w (.answer a) ended) (h4 : a.status = 404)
    (hread : a.Readable) : ended = (.ok absent, ⟨w.sent ++ [s], log, w.store⟩) := by
  cases h with
  | absent => rfl
  | refused _ hne => exact absurd h4 hne
  | overwhelmed _ hdeep => exact absurd hdeep (hread _)
  | passed hfine => exact absurd (hfine a rfl) (not_fine_of_absent h4)

theorem eq_of_refused {x : ClientError} (h : Closes absent s log w (.answer a) ended)
    (hbad : ¬ a.Fine) (hne : a.status ≠ 404) (hx : a.refusal s.method (some s.url) = .ok x) :
    ended = (.error (.client x), ⟨w.sent ++ [s], log, w.store⟩) := by
  cases h with
  | absent h4 => exact absurd h4 hne
  | refused _ _ told => rw [Except.ok.inj (told.symm.trans hx)]
  | overwhelmed _ hdeep => exact absurd hdeep (Response.readable_of_refusal hx _)
  | passed hfine => exact absurd (hfine a rfl) hbad

theorem eq_of_deep (h : Closes absent s log w (.answer a) ended) (hbad : ¬ a.Fine)
    (hdeep : a.Deep during) :
    ended = (.error (.foreign (.stackExhausted during)), ⟨w.sent ++ [s], log, w.store⟩) := by
  cases h with
  | absent _ hread => exact absurd hdeep (hread _)
  | refused _ _ told => exact absurd hdeep (Response.readable_of_refusal told _)
  | @overwhelmed _ during' _ hdeep' =>
    obtain rfl : during' = during := by simpa using hdeep'.symm.trans hdeep
    rfl
  | passed hfine => exact absurd (hfine a rfl) hbad

theorem answer_of_absent (h : Closes absent s log w outcome ended) (he : ended.1 = .ok absent) :
    ∃ a, outcome = .answer a ∧ a.status = 404 ∧ a.Readable := by
  cases h with
  | absent h4 hread => exact ⟨_, rfl, h4, hread⟩
  | refused => cases he
  | overwhelmed => cases he
  | passed _ present => exact absurd he present

/-- A run that gives something else of every success. -/
theorem of_orAbsent {f : Response → Except Failure β} (hf : ∀ a, f a ≠ .ok absent) (s : Sent)
    (log : List Log.Event) (w : World σ) (outcome : Outcome) :
    Closes absent s log w outcome (s.orAbsent absent f outcome, ⟨w.sent ++ [s], log, w.store⟩) := by
  cases outcome with
  | fault f => exact .passed (by simp) (by simp [Sent.orAbsent])
  | foreign x => exact .passed (by simp) (by simp [Sent.orAbsent])
  | answer a =>
    rw [Sent.orAbsent]
    by_cases hfine : a.Fine
    · rw [if_pos (Response.success_iff.2 hfine)]
      refine .passed ?_ (hf a)
      rintro _ ⟨⟩
      exact hfine
    · rw [Response.success_eq_false_iff.2 hfine, if_neg Bool.false_ne_true, Response.orAbsent]
      cases hr : a.refusal s.method (some s.url) with
      | error x =>
        obtain ⟨during, hdeep, rfl⟩ := Response.refusal_eq_error.1 hr
        exact .overwhelmed hfine hdeep
      | ok x =>
        dsimp only
        by_cases h4 : a.status = 404
        · rw [if_pos (by simpa using h4)]
          exact .absent h4 (Response.readable_of_refusal hr)
        · rw [if_neg (by simpa using h4)]
          exact .refused hfine h4 hr

end Closes

theorem Reports.of_closes {draft : Except ClientError Draft} {absent : β} {m : Run σ β}
    (unready : (∀ d r, draft = .ok d → e.prepare d ≠ .ok r) →
      ∀ service w, ∃ x, (m service w).1 = .error x)
    (closes : ∀ d r, draft = .ok d → e.prepare d = .ok r → ∀ service w, ∃ s log, Issued e d s ∧
      Closes absent s log w (service w.sent.length).outcome (m service w)) :
    Reports e draft absent m where
  absent_iff service w := by
    constructor
    · intro h
      by_cases hready : ∃ d r, draft = .ok d ∧ e.prepare d = .ok r
      · obtain ⟨d, r, hd, hr⟩ := hready
        obtain ⟨s, log, -, hc⟩ := closes d r hd hr service w
        obtain ⟨a, hout, h4, hread⟩ := hc.answer_of_absent h
        exact ⟨a, ⟨⟨d, r, hd, hr⟩, hout⟩, h4, hread⟩
      · obtain ⟨x, hx⟩ := unready (fun d r hd hr => hready ⟨d, r, hd, hr⟩) service w
        rw [hx] at h
        cases h
    · rintro ⟨a, ⟨⟨d, r, hd, hr⟩, hout⟩, h4, hread⟩
      obtain ⟨s, log, -, hc⟩ := closes d r hd hr service w
      rw [hout] at hc
      rw [hc.eq_of_absent h4 hread]
  alone := by
    rintro service w a ⟨⟨d, r, hd, hr⟩, hout⟩ h4 hread
    obtain ⟨s, log, hs, hc⟩ := closes d r hd hr service w
    rw [hout] at hc
    exact ⟨d, s, log, hd, hs, hc.eq_of_absent h4 hread⟩
  refused := by
    rintro service w a ⟨⟨d, r, hd, hr⟩, hout⟩ hbad hne hread
    obtain ⟨s, log, hs, hc⟩ := closes d r hd hr service w
    obtain ⟨detail, hdetail, hrefusal⟩ := Response.exists_detail hread
    rw [hout] at hc
    exact ⟨d, s, log, detail, hd, hs, hdetail,
      hc.eq_of_refused hbad hne (hrefusal (some s.method) (some s.url))⟩
  overwhelmed := by
    rintro service w a during ⟨⟨d, r, hd, hr⟩, hout⟩ hbad hdeep
    obtain ⟨s, log, hs, hc⟩ := closes d r hd hr service w
    rw [hout] at hc
    exact ⟨d, s, log, hd, hs, hc.eq_of_deep hbad hdeep⟩

/-- What follows a deletion of something that was there does not change how an absence is told. -/
theorem Closes.bind {m rest : Run σ Bool} {s : Sent} {log : List Log.Event} {outcome : Outcome}
    (h : Closes false s log w outcome (m service w))
    (hrest : ∀ w', (rest service w').1 ≠ .ok false) :
    Closes false s log w outcome
      ((m >>= fun deleted => if deleted then rest else pure false) service w) := by
  generalize hm : m service w = ended at h
  cases h with
  | absent h4 hread =>
    rw [Run.bind_of_ok hm]
    exact .absent h4 hread
  | refused hbad hne told =>
    rw [Run.bind_of_error hm]
    exact .refused hbad hne told
  | overwhelmed hbad hdeep =>
    rw [Run.bind_of_error hm]
    exact .overwhelmed hbad hdeep
  | passed hfine present =>
    obtain ⟨result, w'⟩ := ended
    rcases result with x | _ | _
    · rw [Run.bind_of_error hm]
      exact .passed hfine (by simp)
    · exact absurd rfl present
    · rw [Run.bind_of_ok hm]
      exact .passed hfine (hrest w')

namespace Operations

variable {o : Operations σ}

/-- The request that reads the configuration, and the one that deletes it. -/
def getDraft (o : Operations σ) : Except ClientError Draft :=
  o.resourceUrl.map fun url => ⟨"GET", url, [], [], .none⟩

def deleteDraft (o : Operations σ) : Except ClientError Draft :=
  o.resourceUrl.map fun url => ⟨"DELETE", url, [], [], .none⟩

theorem reports_deleteBuild (e : Executor) (api ns name : String) :
    Reports e (.ok (BuildStore.deleteDraft api ns name)) false
      ((BuildStore.remote e api : BuildStore σ).delete ns name) := by
  rw [deleteDraft_eq]
  apply Reports.of_closes
  · intro hunready service w
    cases hr : e.prepare (deletion api ns "builds" name) with
    | ok r => exact absurd hr (hunready _ r rfl)
    | error x =>
      rw [remote_delete, Run.recoverClient_of_foreign (Run.bind_of_error
        (call_of_unprepared hr service w))]
      exact ⟨_, rfl⟩
  · rintro d r ⟨⟩ hr service w
    obtain ⟨s, log, hs, hrun⟩ := remote_delete_apply hr service w
    rw [hrun, found_eq_orAbsent]
    exact ⟨s, log, hs, .of_orAbsent (by simp) s log w _⟩

theorem reports_delete (o : Operations σ) : Reports o.executor o.deleteDraft false o.delete := by
  apply Reports.of_closes
  · intro hunready service w
    rw [delete]
    cases hu : o.resourceUrl with
    | error x =>
      rw [Run.bind_of_error (Run.ofClient_of_error rfl)]
      exact ⟨_, rfl⟩
    | ok url =>
      rw [Run.bind_of_ok (Run.ofClient_of_ok rfl)]
      cases hr : o.executor.prepare ⟨"DELETE", url, [], [], .none⟩ with
      | ok r => exact absurd hr (hunready _ r (by rw [deleteDraft, hu]; rfl))
      | error x =>
        have hself : o.deleteSelf url service w = (.error (.foreign x), w) :=
          Run.recoverClient_of_foreign (Run.bind_of_error (call_of_unprepared hr service w))
        rw [Run.bind_of_error hself]
        exact ⟨_, rfl⟩
  · intro d r hd hr service w
    obtain ⟨url, hu, rfl⟩ := map_eq_ok.1 hd
    obtain ⟨s, log, hs, hself⟩ := found_plain ⟨rfl, rfl, upper_delete⟩ hr Log.info .operations
      "Build config not found"
      [("namespace", Upload.text o.ns), ("build_config", Upload.text o.name)] service w
    refine ⟨s, log, hs, ?_⟩
    rw [delete, hu, Run.bind_of_ok (Run.ofClient_of_ok rfl)]
    apply Closes.bind
    · change o.deleteSelf url service w = _ at hself
      rw [hself, found_eq_orAbsent]
      exact .of_orAbsent (by simp) s log w _
    · intro w'
      rw [Run.bind_pure_apply]
      cases (Reaper.deleteBuilds o.store (o.ns.getD "") o.name service w').1 <;> simp [Except.map]

theorem reports_get (o : Operations σ) : Reports o.executor o.getDraft none o.get := by
  apply Reports.of_closes
  · intro hunready service w
    rw [get]
    cases hu : o.resourceUrl with
    | error x =>
      obtain ⟨reason, rfl⟩ := misuse_of_resourceUrl hu
      rw [Run.recoverClient_of_client (Run.bind_of_error (Run.ofClient_of_error rfl))]
      exact ⟨_, rfl⟩
    | ok url =>
      cases hr : o.executor.prepare ⟨"GET", url, [], [], .none⟩ with
      | ok r => exact absurd hr (hunready _ r (by rw [getDraft, hu]; rfl))
      | error x =>
        rw [Run.recoverClient_of_foreign]
        · exact ⟨_, rfl⟩
        · rw [Run.bind_of_ok (Run.ofClient_of_ok rfl)]
          exact Run.bind_of_error (Run.bind_of_error (call_of_unprepared hr service w))
  · intro d r hd hr service w
    obtain ⟨url, hu, rfl⟩ := map_eq_ok.1 hd
    obtain ⟨s, log, hs, hfetch⟩ := fetch_plain Model.buildConfig ⟨rfl, rfl, upper_get⟩ hr service w
    have hsome : (do
          let url ← Run.ofClient o.resourceUrl
          let found ← o.executor.fetch Model.buildConfig ⟨"GET", url, [], [], .none⟩
          pure (some found) : Run σ (Option BuildConfig)) service w =
        ((s.verdict (service w.sent.length).outcome).bind fun a =>
          (a.document Model.buildConfig).map some, ⟨w.sent ++ [s], log, w.store⟩) := by
      rw [hu, Run.bind_of_ok (Run.ofClient_of_ok rfl), ← map_eq_pure_bind, Run.map_apply, hfetch]
      cases s.verdict (service w.sent.length).outcome <;> rfl
    obtain ⟨log', hrun⟩ := recover_absent hsome (fun _ _ => Response.not_absent_of_document)
      fun w' => ⟨w'.log, Run.pure_apply _ _ _⟩
    have hget : o.get service w = _ := hrun
    rw [hget]
    exact ⟨s, log', hs, .of_orAbsent (fun a => a.document_ne_none _) s log' w _⟩

/-- How answers are judged, wherever they are, and which of them are taken for absence. -/
structure JudgesAnswers (o : Operations σ) : Prop where
  judged : ∀ (α : Type) (a : Response) (method url : Option String) (m : Option (Model α)) service
    (w : World σ), ∃ result log, a.handle method url m service w = (result, { w with log := log }) ∧
      a.Judged method url m result
  /-- Whatever is asked for. -/
  refused_iff : ∀ (α : Type) (a : Response) (method url : Option String) (m : Option (Model α))
    service (w : World σ),
    (∃ x, (a.handle method url m service w).1 = .error (.client x) ∧ x.family = .api) ↔
      ¬ a.Fine ∧ a.Readable
  foreign_iff : ∀ (α : Type) (a : Response) (method url : Option String) (m : Option (Model α))
    service (w : World σ) x,
    (a.handle method url m service w).1 = .error (.foreign x) ↔
      ¬ a.Fine ∧ ∃ during, a.Deep during ∧ x = .stackExhausted during
  detail : ∀ a : Response, a.Readable → ∃! detail, a.Detail detail
  /-- The body is not looked at if no document is asked for. -/
  dropped : ∀ (α : Type) (a : Response) (method url : Option String), a.Fine →
    (a.handle method url none : Run σ (Option α)) = pure none
  /-- Every answer to the operations is judged so. -/
  fetched : ∀ (α : Type) (e : Executor) (m : Model α) (d : Draft),
    (some <$> e.fetch m d : Run σ (Option α)) = (do
      let r ← Run.ofForeign (e.prepare d)
      let a ← e.send r
      a.handle (some r.method) (some r.url) (some m))
  called : ∀ (α : Type) (e : Executor) (d : Draft),
    ((fun _ => none) <$> e.call d : Run σ (Option α)) = (do
      let r ← Run.ofForeign (e.prepare d)
      let a ← e.send r
      a.handle (some r.method) (some r.url) none)
  get : Reports o.executor o.getDraft none o.get
  delete : Reports o.executor o.deleteDraft false o.delete
  deleteBuild : ∀ e api ns name, Reports e (.ok (BuildStore.deleteDraft api ns name)) false
    ((BuildStore.remote e api : BuildStore σ).delete ns name)

/-- The status alone decides what is a failure. A failure is told with what the service says, unless
that is nested so deeply in the body that the stack gives out. -/
theorem answers_judged (o : Operations σ) : o.JudgesAnswers where
  judged _ a method url m service w := a.handle_judged method url m service w
  refused_iff _ a method url m service w := by
    obtain ⟨result, log, hrun, hjudged⟩ := a.handle_judged method url m service w
    rw [hrun]
    exact hjudged.refused_iff
  foreign_iff _ a method url m service w x := by
    obtain ⟨result, log, hrun, hjudged⟩ := a.handle_judged method url m service w
    rw [hrun]
    exact hjudged.foreign_iff
  detail a h := by
    obtain ⟨detail, hdetail, -⟩ := Response.exists_detail h
    exact ⟨detail, hdetail, fun _ h => h.unique hdetail⟩
  dropped _ _ method url h := Response.handle_none h method url
  fetched _ := fetch_eq
  called _ := call_eq
  get := reports_get o
  delete := reports_delete o
  deleteBuild := reports_deleteBuild

/-- It is not refused: what ends the exchange is no failure of the client. -/
theorem overgrown_escapes :
    overgrown.status = 500 ∧ (overgrown.handle (some "GET") (some "http://h/x") (some Model.build)
      (fun _ => ⟨.all, .answer overgrown⟩) (.start ())).1 =
        .error (.foreign (.stackExhausted .array)) := by
  obtain ⟨result, log, hrun, hjudged⟩ := overgrown.handle_judged (some "GET") (some "http://h/x")
    (some Model.build) (fun _ => ⟨.all, .answer overgrown⟩) (.start ())
  have hbad : ¬ overgrown.Fine := by simp [Response.Fine, overgrown]
  rw [hrun]
  exact ⟨rfl, hjudged.foreign_iff.2 ⟨hbad, .array, Response.deep_nested (by decide), rfl⟩⟩

end Operations

end BuildClient
