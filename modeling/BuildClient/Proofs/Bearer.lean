import BuildClient.Http.Exchange
import BuildClient.Proofs.Framing
import BuildClient.Proofs.Url.Anonymous

/-! A token stands in one header line of a request, and in nothing else of it. -/
namespace BuildClient.Http

open Text

variable {t₁ t₂ : Option String} {lines hs hs₁ hs₂ l₁ l₂ : Headers} {name value api : String}
  {line : String × String} {e : Executor} {d : Draft}

/-- The header lines that a token stands in. An empty token is none. -/
def bearer : Option String → Headers
  | none => []
  | some t => if t.isEmpty then [] else [("Authorization", "Bearer " ++ t)]

/-- A header line can hold the token. -/
def Sendable (token : Option String) : Prop := ∀ t ∈ token, '\r' ∉ t.toList ∧ '\n' ∉ t.toList

def Executor.withToken (e : Executor) (token : Option String) : Executor :=
  { e with token := token }

/-- Whom the machine lists for the service and all that is beneath its address. -/
def Surroundings.listed (around : Surroundings) (api : String) :
    Except Foreign (Option Url.Credentials) :=
  around.credentials (Url.Credentials.location (Url.join api ["apis"]).toList)

/-- The authorization of what is sent to the service. Whom the machine lists goes before the
token. -/
def Surroundings.authorization (around : Surroundings) (api : String) (token : Option String) :
    Headers :=
  match around.listed api with
  | .ok (some c) => c.authorization.toOption.toList.map fun value => ("Authorization", value)
  | _ => bearer token

theorem headers_withToken (e : Executor) (token : Option String) :
    (e.withToken token).headers =
      [("User-Agent", Executor.userAgent), ("Accept", "application/json"),
        ("Connection", "keep-alive")] ++ bearer token := by
  cases token with
  | none => rfl
  | some t =>
    rw [Executor.headers, Executor.authorization, bearer]
    change _ ++ List.map _ (if t.isEmpty then none else some ("Bearer " ++ t)).toList = _
    split <;> rfl

theorem mem_bearer {token : Option String} (h : line ∈ bearer token) :
    line.1 = "Authorization" := by
  cases token with
  | none => cases h
  | some t =>
    rw [bearer] at h
    split at h
    · cases h
    · rw [List.mem_singleton.1 h]

theorem length_bearer (token : Option String) : (bearer token).length ≤ 1 := by
  cases token with
  | none => exact Nat.zero_le 1
  | some t =>
    rw [bearer]
    split
    · exact Nat.zero_le 1
    · exact le_rfl

namespace Headers

/-- The lines that tell an authorization. -/
def authorization (hs : Headers) : Headers :=
  hs.filter fun line => sameName line.1 "Authorization"

/-- The lines that tell anything else. -/
def others (hs : Headers) : Headers := hs.remove "Authorization"

/-- Lines that say nothing about an authorization. -/
def Free (hs : Headers) : Prop := ∀ line ∈ hs, sameName line.1 "Authorization" = false

instance (hs : Headers) : Decidable (Free hs) := inferInstanceAs (Decidable (∀ line ∈ hs, _))

/-- Lines that are the same but for the authorization, which is told for each of the two. -/
structure Twins (l₁ l₂ hs₁ hs₂ : Headers) : Prop where
  first : hs₁.authorization = l₁
  second : hs₂.authorization = l₂
  others : hs₁.others = hs₂.others

section Lines

theorem authorization_cons_of_same (h : sameName line.1 "Authorization" = true) :
    authorization (line :: hs) = line :: hs.authorization := List.filter_cons_of_pos h

theorem authorization_cons_of_ne (h : sameName line.1 "Authorization" = false) :
    authorization (line :: hs) = hs.authorization := List.filter_cons_of_neg (by simp [h])

theorem others_cons_of_same (h : sameName line.1 "Authorization" = true) :
    others (line :: hs) = others hs := by
  rw [others, Headers.remove, List.filter_cons_of_neg (by simp [h]), others, Headers.remove]

theorem others_cons_of_ne (h : sameName line.1 "Authorization" = false) :
    others (line :: hs) = line :: others hs := by
  rw [others, Headers.remove, List.filter_cons_of_pos (by simp [h]), others, Headers.remove]

/-- A line of another name leaves the authorization alone, and stands among the others. -/
theorem set_of_ne (h : sameName name "Authorization" = false) (hs : Headers) :
    (hs.set name value).authorization = hs.authorization ∧
      (hs.set name value).others = hs.others.set name value := by
  have hnew : sameName (name, value).1 "Authorization" = false := h
  induction hs with
  | nil =>
    rw [Headers.set, authorization_cons_of_ne hnew, others_cons_of_ne hnew]
    exact ⟨rfl, rfl⟩
  | cons line hs ih =>
    rw [Headers.set]
    by_cases hline : sameName line.1 name = true
    · have hne : sameName line.1 "Authorization" = false := by rw [sameName_congr hline, h]
      rw [if_pos hline, authorization_cons_of_ne hnew, others_cons_of_ne hnew,
        authorization_cons_of_ne hne, others_cons_of_ne hne, Headers.set, if_pos hline]
      exact ⟨rfl, rfl⟩
    · rw [if_neg hline]
      cases hauth : sameName line.1 "Authorization" with
      | true =>
        rw [authorization_cons_of_same hauth, authorization_cons_of_same hauth,
          others_cons_of_same hauth, others_cons_of_same hauth]
        exact ⟨congrArg _ ih.1, ih.2⟩
      | false =>
        rw [authorization_cons_of_ne hauth, authorization_cons_of_ne hauth,
          others_cons_of_ne hauth, others_cons_of_ne hauth, Headers.set, if_neg hline]
        exact ⟨ih.1, congrArg _ ih.2⟩

/-- An authorization takes the place of the one that is there. -/
theorem set_authorization (h : hs.authorization.length ≤ 1) (value : String) :
    (hs.set "Authorization" value).authorization = [("Authorization", value)] ∧
      (hs.set "Authorization" value).others = hs.others := by
  have hnew : sameName ("Authorization", value).1 "Authorization" = true := sameName_self _
  induction hs with
  | nil =>
    rw [Headers.set, authorization_cons_of_same hnew, others_cons_of_same hnew]
    exact ⟨rfl, rfl⟩
  | cons line hs ih =>
    rw [Headers.set]
    cases hauth : sameName line.1 "Authorization" with
    | true =>
      rw [authorization_cons_of_same hauth, List.length_cons] at h
      have hnone : authorization hs = [] := List.length_eq_zero_iff.1 (by omega)
      rw [if_pos rfl, authorization_cons_of_same hnew, hnone, others_cons_of_same hnew,
        others_cons_of_same hauth]
      exact ⟨rfl, rfl⟩
    | false =>
      rw [authorization_cons_of_ne hauth] at h
      obtain ⟨hlines, hothers⟩ := ih h
      rw [if_neg (by simp), authorization_cons_of_ne hauth, others_cons_of_ne hauth, hlines,
        hothers, others_cons_of_ne hauth]
      exact ⟨rfl, rfl⟩

theorem authorization_remove_of_ne (h : sameName name "Authorization" = false) (hs : Headers) :
    (hs.remove name).authorization = hs.authorization := by
  rw [authorization, Headers.remove, List.filter_filter]
  refine List.filter_congr fun line _ => ?_
  cases hname : sameName line.1 name with
  | true =>
    rw [sameName_congr hname, h]
    rfl
  | false => simp

theorem others_remove (name : String) (hs : Headers) :
    (hs.remove name).others = hs.others.remove name := by
  rw [Headers.others, Headers.others, Headers.remove, Headers.remove, Headers.remove,
    Headers.remove, List.filter_filter, List.filter_filter]
  exact List.filter_congr fun line _ => Bool.and_comm _ _

theorem has_others (h : sameName name "Authorization" = false) (hs : Headers) :
    hs.others.has name = hs.has name := by
  rw [has, has, others, Headers.remove, List.any_filter]
  refine congrArg (List.any hs) (funext fun line => ?_)
  cases hname : sameName line.1 name with
  | true =>
    rw [sameName_congr hname, h]
    rfl
  | false => exact Bool.and_false _

/-- If the authorization can be sent, the other lines decide whether all can. -/
theorem check_others (h : hs.authorization.check = .ok ()) : hs.check = hs.others.check := by
  induction hs with
  | nil => rfl
  | cons line hs ih =>
    cases hauth : sameName line.1 "Authorization" with
    | true =>
      rw [authorization_cons_of_same hauth] at h
      obtain ⟨_, hline, hrest⟩ := bind_eq_ok.1 h
      rw [check, hline, others_cons_of_same hauth]
      exact ih hrest
    | false =>
      rw [authorization_cons_of_ne hauth] at h
      rw [others_cons_of_ne hauth, check, check, ih h]

end Lines

namespace Twins

theorem set (h : Twins l₁ l₂ hs₁ hs₂) (hn : sameName name "Authorization" = false) :
    Twins l₁ l₂ (hs₁.set name value) (hs₂.set name value) where
  first := (set_of_ne hn hs₁).1.trans h.first
  second := (set_of_ne hn hs₂).1.trans h.second
  others := by rw [(set_of_ne hn hs₁).2, (set_of_ne hn hs₂).2, h.others]

theorem setAll (h : Twins l₁ l₂ hs₁ hs₂) (hl : Free lines) :
    Twins l₁ l₂ (Headers.setAll lines hs₁) (Headers.setAll lines hs₂) := by
  induction lines generalizing hs₁ hs₂ with
  | nil => exact h
  | cons line lines ih =>
    obtain ⟨hline, hl⟩ := List.forall_mem_cons.1 hl
    exact ih (h.set hline) hl

theorem remove (h : Twins l₁ l₂ hs₁ hs₂) (hn : sameName name "Authorization" = false) :
    Twins l₁ l₂ (hs₁.remove name) (hs₂.remove name) where
  first := (authorization_remove_of_ne hn hs₁).trans h.first
  second := (authorization_remove_of_ne hn hs₂).trans h.second
  others := by rw [others_remove, others_remove, h.others]

theorem frame (h : Twins l₁ l₂ hs₁ hs₂) (method : String) (b : Body) :
    Twins l₁ l₂ (Http.frame method hs₁ b) (Http.frame method hs₂ b) := by
  cases b with
  | none =>
    have hother : sameName "Content-Length" "Authorization" = false := by decide
    have hhas : hs₁.has "Content-Length" = hs₂.has "Content-Length" := by
      rw [← has_others hother hs₁, h.others, has_others hother]
    rw [Http.frame, Http.frame, hhas]
    split
    · exact h
    · exact h.set hother
  | text s => exact h.set (by decide)
  | stream p => exact h.set (by decide)

/-- Another authorization takes the place of both. -/
theorem authorize (h : Twins l₁ l₂ hs₁ hs₂) (h₁ : l₁.length ≤ 1) (h₂ : l₂.length ≤ 1)
    (value : String) :
    Twins [("Authorization", value)] [("Authorization", value)]
      (hs₁.set "Authorization" value) (hs₂.set "Authorization" value) := by
  obtain ⟨hfirst, hothers₁⟩ := set_authorization (h.first ▸ h₁) value
  obtain ⟨hsecond, hothers₂⟩ := set_authorization (h.second ▸ h₂) value
  exact ⟨hfirst, hsecond, by rw [hothers₁, hothers₂, h.others]⟩

end Twins

theorem all_dropFinalBreak {p : Char → Bool} {s : List Char} (h : s.all p = true) :
    (dropFinalBreak s).all p = true := by
  rw [dropFinalBreak]
  split
  · exact List.all_eq_true.2 fun c hc => List.all_eq_true.1 h c (List.mem_of_mem_dropLast hc)
  · exact h

/-- A token without line breaks can be sent. -/
theorem check_bearer {token : Option String} (h : Sendable token) :
    (bearer token).check = .ok () := by
  cases token with
  | none => rfl
  | some t =>
    obtain ⟨hr, hn⟩ := h t rfl
    have hbody : ("earer ".toList ++ t.toList).all (fun c => !isBreak c) = true := by
      rw [List.all_append, Bool.and_eq_true]
      refine ⟨by decide, List.all_eq_true.2 fun c hc => ?_⟩
      have hc : c ≠ '\r' ∧ c ≠ '\n' := ⟨fun he => hr (he ▸ hc), fun he => hn (he ▸ hc)⟩
      simp [isBreak, hc.1, hc.2]
    have hvalue : validValue ("Bearer " ++ t) = true := by
      have hlist : ("Bearer " ++ t).toList = 'B' :: ("earer ".toList ++ t.toList) := by
        rw [String.toList_append]
        rfl
      rw [validValue, hlist]
      change (!isBlank 'B' && _) = true
      rw [all_dropFinalBreak hbody]
      decide
    rw [bearer]
    split
    · rfl
    · have hname : validName "Authorization" = true := by decide
      have hline : checkLine ("Authorization", "Bearer " ++ t) = .ok () := by
        rw [checkLine, if_neg (by simp [hname]), if_neg (by simp [hvalue])]
      rw [check, hline]
      rfl

theorem Twins.check (h : Twins (bearer t₁) (bearer t₂) hs₁ hs₂) (h₁ : Sendable t₁)
    (h₂ : Sendable t₂) : hs₁.check = hs₂.check := by
  have hfirst : hs₁.authorization.check = .ok () := h.first ▸ check_bearer h₁
  have hsecond : hs₂.authorization.check = .ok () := h.second ▸ check_bearer h₂
  rw [check_others hfirst, check_others hsecond, h.others]

end Headers

/-- Requests that are the same but for the authorization. -/
structure Request.Twins (l₁ l₂ : Headers) (r₁ r₂ : Request) : Prop where
  method : r₁.method = r₂.method
  url : r₁.url = r₂.url
  headers : Headers.Twins l₁ l₂ r₁.headers r₂.headers
  body : r₁.body = r₂.body

/-- Requests that went out and are the same but for the authorization. -/
structure Sent.Twins (l₁ l₂ : Headers) (s₁ s₂ : Sent) : Prop where
  method : s₁.method = s₂.method
  url : s₁.url = s₂.url
  headers : Headers.Twins l₁ l₂ s₁.headers s₂.headers
  body : s₁.body = s₂.body
  connectTimeout : s₁.connectTimeout = s₂.connectTimeout
  timeout : s₁.timeout = s₂.timeout

/-- Both fail alike, or both give results, which belong together. -/
inductive Paired {α ε : Type} (R : α → α → Prop) : Except ε α → Except ε α → Prop
  | error (x : ε) : Paired R (.error x) (.error x)
  | ok {a b : α} (h : R a b) : Paired R (.ok a) (.ok b)

/-- What is asked for beneath the address of a service, with no authorization of its own. -/
structure Draft.Discreet (api : String) (d : Draft) : Prop where
  beneath : Url.Beneath (Url.join api ["apis"]) d.url
  free : Headers.Free d.headers

/-- Two tokens for a service at an address without user information, and the authorizations that
come of them. -/
structure Surroundings.Authorizes (around : Surroundings) (api : String) (t₁ t₂ : Option String)
    (l₁ l₂ : Headers) : Prop where
  anonymous : Url.Anonymous api
  sendable₁ : Sendable t₁
  sendable₂ : Sendable t₂
  first : around.authorization api t₁ = l₁
  second : around.authorization api t₂ = l₂

/-- At an address without user information, whom the machine lists makes the authorization. -/
theorem authorize_of_anonymous {url : String} (h : '@' ∉ Url.Credentials.location url.toList)
    (listed : Option Url.Credentials) (hs : Headers) :
    authorize listed url hs = (do
      Url.Credentials.checkLocation (Url.Credentials.location url.toList)
      match listed with
      | none => pure hs
      | some c => pure (hs.set "Authorization" (← c.authorization))) := by
  rw [authorize, Url.read_of_anonymous h]
  cases Url.Credentials.checkLocation (Url.Credentials.location url.toList) with
  | error x => rfl
  | ok _ =>
    change (match listed.or none with | none => _ | some c => _) = _
    rw [Option.or_none]
    rfl

theorem twins_headers (e : Executor) (t₁ t₂ : Option String) :
    Headers.Twins (bearer t₁) (bearer t₂) (e.withToken t₁).headers (e.withToken t₂).headers := by
  have hfree : Headers.authorization [("User-Agent", Executor.userAgent),
      ("Accept", "application/json"), ("Connection", "keep-alive")] = [] := by decide
  have hlines : ∀ token, (e.withToken token).headers.authorization = bearer token := by
    intro token
    rw [headers_withToken, Headers.authorization, List.filter_append]
    refine congrArg₂ _ hfree (List.filter_eq_self.2 fun line hl => ?_)
    rw [mem_bearer hl]
    exact Headers.sameName_self _
  have hothers : ∀ token, (e.withToken token).headers.others = [("User-Agent", Executor.userAgent),
      ("Accept", "application/json"), ("Connection", "keep-alive")] := by
    intro token
    rw [headers_withToken, Headers.others, Headers.remove, List.filter_append]
    have hnone :
        (bearer token).filter (fun line => !Headers.sameName line.1 "Authorization") = [] := by
      refine List.filter_eq_nil_iff.2 fun line hl => ?_
      rw [mem_bearer hl, Headers.sameName_self]
      decide
    rw [hnone, List.append_nil]
    rfl
  exact ⟨hlines t₁, hlines t₂, (hothers t₁).trans (hothers t₂).symm⟩

/-- A token has a part in nothing but the authorization when a request is prepared. -/
theorem prepare_twins (h : e.surroundings.Authorizes api t₁ t₂ l₁ l₂) (hd : d.Discreet api) :
    Paired (Request.Twins l₁ l₂) ((e.withToken t₁).prepare d) ((e.withToken t₂).prepare d) := by
  obtain ⟨ha, h₁, h₂, rfl, rfl⟩ := h
  have hlines := ((twins_headers e t₁ t₂).setAll hd.free).frame (upper d.method) d.body.settle
  have hcheck := ((twins_headers e t₁ t₂).setAll hd.free).check h₁ h₂
  have hform : ∀ token, (e.withToken token).prepare d = (do
      let listed ← e.surroundings.listed api
      let url ← Url.prepare e.surroundings.names d.url d.params
      (Headers.setAll d.headers (e.withToken token).headers).check
      let lines ← authorize listed url (frame (upper d.method)
        (Headers.setAll d.headers (e.withToken token).headers) d.body.settle)
      pure ⟨upper d.method, url, lines, d.body.settle⟩) := by
    intro token
    rw [Executor.prepare, hd.beneath.location_eq]
    rfl
  rw [hform, hform, hcheck]
  unfold Surroundings.authorization
  cases e.surroundings.listed api with
  | error x => exact .error x
  | ok listed =>
  cases hu : Url.prepare e.surroundings.names d.url d.params with
  | error x => exact .error x
  | ok url =>
  have hat := (Url.anonymous_of_beneath ha hd.beneath).prepare hu
  simp only [bind, Except.bind, authorize_of_anonymous hat]
  cases (Headers.setAll d.headers (e.withToken t₂).headers).check with
  | error x => exact .error x
  | ok _ =>
  cases Url.Credentials.checkLocation (Url.Credentials.location url.toList) with
  | error x => exact .error x
  | ok _ =>
  cases listed with
  | none => exact .ok ⟨rfl, rfl, hlines, rfl⟩
  | some c =>
    simp only
    cases c.authorization with
    | error x => exact .error x
    | ok value =>
      exact .ok ⟨rfl, rfl, hlines.authorize (length_bearer t₁) (length_bearer t₂) value, rfl⟩

/-- Neither has it when the length of the body is declared. -/
theorem Request.Twins.declareLength {r₁ r₂ : Request} (h : Request.Twins l₁ l₂ r₁ r₂) (length : ℤ) :
    Request.Twins l₁ l₂ (r₁.declareLength length) (r₂.declareLength length) where
  method := h.method
  url := h.url
  headers := (h.headers.remove (by decide)).set (by decide)
  body := h.body

end BuildClient.Http
