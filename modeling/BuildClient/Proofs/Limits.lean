import BuildClient.Proofs.Requests
import BuildClient.Proofs.Timeouts
import BuildClient.Proofs.Token

/-! The limits of time on a request: the executor's, or on an upload its own. What was called before
does not matter. -/
namespace BuildClient

open Http

variable {σ : Type} {e : Executor}

namespace Http

/-- On the connection, and on the answer. -/
def Executor.limits (e : Executor) : Option Number × Option Number := (e.connectTimeout, e.timeout)

def Sent.limits (s : Sent) : Option Number × Option Number := (s.connectTimeout, s.timeout)

end Http

/-- A store that the executor sends for, or one that does its work without a service. -/
inductive BuildStore.Of (e : Executor) : BuildStore σ → Prop
  | remote (api : String) : Of e (.remote e api)
  | silent {store : BuildStore σ}
      (list : ∀ ns labels, Run.Sends (fun _ => False) (store.list ns labels))
      (delete : ∀ ns name, Run.Sends (fun _ => False) (store.delete ns name)) : Of e store

theorem BuildStore.Of.limited {store : BuildStore σ} (h : store.Of e) (ns : String)
    (name : Option String) :
    Run.Sends (fun s => s.limits = e.limits) (Reaper.deleteBuilds store ns name) := by
  cases h with
  | remote api => exact remote_reaping_sends (fun _ _ _ _ => rfl) (fun _ _ _ _ _ _ _ => rfl) name
  | silent hlist hdelete => exact silent_reaping_sends hlist hdelete ns name

namespace Operations

variable {o : Operations σ}

theorem store_of (hb : ∀ store ∈ o.builds, store.Of o.executor) : o.store.Of o.executor := by
  rw [store]
  cases h : o.builds with
  | none => exact .remote o.apiUrl
  | some store => exact hb store h

/-- An upload, from a stream or from a file. -/
def Call.uploads : Call → Bool
  | .fromStream _ | .fromFile _ _ => true
  | _ => false

/-- The limits on the requests of a call. The timeout of an upload, if one is set, takes the place
of the executor's. -/
def limits (o : Operations σ) (call : Call) : Except Foreign (Option Number × Option Number) :=
  if call.uploads then
    o.parameters.timeoutSeconds.map fun own =>
      (o.executor.connectTimeout, own.elim o.executor.timeout fun seconds => some (.real seconds))
  else .ok o.executor.limits

theorem limits_of_executorFor (h : Upload.executorFor o.executor o.parameters = .ok e) {call : Call}
    (hc : call.uploads = true) : o.limits call = .ok e.limits := by
  rw [Upload.executorFor_eq] at h
  rw [limits, if_pos hc]
  cases hown : o.parameters.timeoutSeconds with
  | error x =>
    rw [hown] at h
    cases h
  | ok own =>
    rw [hown] at h
    obtain rfl := Except.ok.inj h
    cases own <;> rfl

theorem uploadEnters_limited (o : Operations σ) {call : Call} (hc : call.uploads = true)
    (source : Source) (length : ℤ) :
    o.UploadEnters (fun s => o.limits call = .ok s.limits) source length :=
  fun _ _ _ _ _ requested => limits_of_executorFor (Upload.request_eq_ok_iff.1 requested).1 hc

/-- Every request of a call has the limits that the object says. -/
theorem ask_limited (hb : ∀ store ∈ o.builds, store.Of o.executor) (call : Call) :
    Run.Sends (fun s => o.limits call = .ok s.limits) (o.ask call) := by
  have husual : ∀ s : Sent, s.limits = o.executor.limits → Except.ok o.executor.limits =
      (.ok s.limits : Except Foreign _) := fun s h => by rw [h]
  cases call with
  | get => exact .map _ (get_sends fun _ _ _ _ _ => rfl)
  | instantiate q => exact .map _ (instantiate_sends fun _ _ _ _ _ _ _ => rfl)
  | trigger t => exact .map _ (trigger_sends fun _ _ _ _ _ _ _ _ _ => rfl)
  | fromStream source => exact .map _ (fromStream_sends (o.uploadEnters_limited rfl source _))
  | fromFile files path =>
    exact .map _ (fromFile_sends fun file _ => o.uploadEnters_limited rfl file.source _)
  | delete =>
    exact .map _ (delete_sends (fun _ _ _ _ _ => rfl) (((store_of hb).limited _ _).mono husual))
  | deleteBuilds ns name => exact .map _ (((store_of hb).limited ns name).mono husual)

/-- A call of a script: the changes before it, and what it sent. -/
structure Record where
  changes : List Change
  call : Call
  sent : List Sent

/-- The calls of a script, one after the other. -/
def Script.records (o : Operations σ) : Script → Service → World σ → List Record
  | stop, _, _ => []
  | step changes call next, service, w =>
    match (o.applyAll changes).ask call service w with
    | (told, w') =>
      ⟨changes, call, w'.sent.drop w.sent.length⟩ :: (next told).records o service w'

section Step

variable {changes : List Change} {call : Call} {next : Except Failure Answer → Script}
  {service : Service} {w w' : World σ} {told : Except Failure Answer}
  (h : (o.applyAll changes).ask call service w = (told, w'))
include h

theorem Script.records_step : (step changes call next).records o service w =
    ⟨changes, call, w'.sent.drop w.sent.length⟩ :: (next told).records o service w' := by
  rw [records, h]

theorem Script.run_step_world : ((step changes call next).run o service w).2 =
    ((next told).run o service w').2 := by
  have hattempt : Run.attempt ((o.applyAll changes).ask call) service w = (.ok told, w') := by
    rw [Run.attempt, h]
  rw [run, Run.bind_of_ok hattempt]
  cases hrest : (next told).run o service w' with | mk result w'' =>
  cases result with
  | error x => rw [Run.bind_of_error hrest]
  | ok others =>
    rw [Run.bind_of_ok hrest]
    rfl

end Step

/-- Every request of a script has the limits that the object says of which it was asked, and no
request is sent besides. -/
theorem calls_limited (o : Operations σ) (hb : ∀ store ∈ o.builds, store.Of o.executor)
    (script : Script) (service : Service) (w : World σ) :
    (script.run o service w).2.sent =
        w.sent ++ (script.records o service w).flatMap Record.sent ∧
      ∀ r ∈ script.records o service w, ∀ s ∈ r.sent,
        (o.applyAll r.changes).limits r.call = .ok s.limits := by
  -- What a call leaves behind is where the rest of the script starts, so the world is arbitrary.
  induction script generalizing w with
  | stop => exact ⟨(List.append_nil _).symm, nofun⟩
  | step changes call next ih =>
    have hbuilds :
        ∀ store ∈ (o.applyAll changes).builds, store.Of (o.applyAll changes).executor := by
      rw [(o.applyAll_fixed changes).2, executor_applyAll]
      exact hb
    obtain ⟨trace, htrace, hlimits⟩ := ask_limited hbuilds call service w
    cases hask : (o.applyAll changes).ask call service w with | mk told w' =>
    rw [hask] at htrace
    obtain ⟨hsent, hothers⟩ := ih told w'
    have hown : w'.sent.drop w.sent.length = trace := by rw [htrace, List.drop_left]
    rw [Script.run_step_world hask, Script.records_step hask, hown, hsent, htrace,
      List.flatMap_cons, List.append_assoc]
    exact ⟨rfl, List.forall_mem_cons.2 ⟨hlimits, hothers⟩⟩

/-- Operations that wait three seconds for a connection and ten for an answer. -/
def patient : Operations Unit :=
  ⟨⟨none, true, some (.int 10), some (.int 3), .bare⟩, "http://h", some "ns", some "app", .empty,
    none⟩

/-- Two uploads with timeouts of their own, one of them zero, and then what is no upload. -/
def hasty : Script :=
  .step [.parameter (.timeout (some (.int 0)) .seconds)]
    (.fromStream (File.sound []).source) fun _ =>
  .step [.parameter (.timeout (some (.int 1)) .minutes)]
    (.fromFile (fun _ => .ok (some (.sound []))) (.read "void")) fun _ =>
  .step [.parameter (.timeout (some (.int 1)) .minutes)] .get fun _ => .stop

theorem calls_limited_hasty :
    (∀ store ∈ patient.builds, store.Of patient.executor) ∧
      (hasty.run patient obliging (.start ())).2.sent =
        [] ++ (hasty.records patient obliging (.start ())).flatMap Record.sent ∧
      (∀ r ∈ hasty.records patient obliging (.start ()), ∀ s ∈ r.sent,
        (patient.applyAll r.changes).limits r.call = .ok s.limits) ∧
      (hasty.records patient obliging (.start ())).map (fun r => r.sent.map Sent.limits) =
        [[(some (.int 3), some (.real .zero))], [(some (.int 3), some (.real (.ofNat 60)))],
          [(some (.int 3), some (.int 10))]] := by
  have hb : ∀ store ∈ patient.builds, store.Of patient.executor := nofun
  obtain ⟨hsent, hlimits⟩ := calls_limited patient hb hasty obliging (.start ())
  exact ⟨hb, hsent, hlimits, by decide +kernel⟩

end Operations

end BuildClient
