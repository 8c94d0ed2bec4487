import Mathlib.Data.List.Basic
import BuildClient.Proofs.Calls
import BuildClient.Proofs.Dictionary
import BuildClient.Reaper

/-!
Reaping, call by call: which builds are attempted, in which order, and what is told of it. Nothing
is assumed of the store; it may keep a state, send requests and answer as it likes.
-/
namespace BuildClient

variable {σ : Type} {store : BuildStore σ} {service : Http.Service}

namespace Reaper

/-- The deletion of one build that was tried, and what the store said. -/
structure Attempt where
  ns : String
  name : String
  answer : Except Failure Bool

namespace Attempt

def address (a : Attempt) : String × String := (a.ns, a.name)

def call (a : Attempt) : BuildStore.Call := .delete a.ns a.name a.answer

/-- A failure that is none of the client's own ends the work. -/
def Fatal (a : Attempt) : Prop := ∃ x : Foreign, a.answer = .error (.foreign x)

/-- The key of the build, if it was deleted. -/
def deleted? (a : Attempt) : Option String :=
  match a.answer with
  | .ok true => some (a.ns ++ "/" ++ a.name)
  | _ => none

/-- The key of the build with the client's failure, if there was one. -/
def failure? (a : Attempt) : Option (String × ClientError) :=
  match a.answer with
  | .error (.client e) => some (a.ns ++ "/" ++ a.name, e)
  | _ => none

end Attempt

/-- What is told of attempts that all came to an end: the keys of the deleted builds, unless there
was a failure; then all failures, and for a build that failed twice the later one. -/
def report (attempts : List Attempt) : Except Failure (List String) :=
  match attempts.filterMap Attempt.failure? with
  | [] => .ok (attempts.filterMap Attempt.deleted?)
  | failures => .error (.client (.unreaped (Dictionary.ofPairs failures)))

/-- The store answers deletions one after the other; in between nothing but the log changes. -/
inductive Attempts (store : BuildStore σ) (service : Http.Service) :
    World σ → List Attempt → World σ → Prop
  | nil (w : World σ) : Attempts store service w [] w
  | cons {w w₁ w₂ : World σ} {ns name : String} {answer : Except Failure Bool}
      {log : List Log.Event} {rest : List Attempt}
      (first : store.delete ns name service w = (answer, w₁))
      (others : Attempts store service { w₁ with log := log } rest w₂) :
      Attempts store service w (⟨ns, name, answer⟩ :: rest) w₂

namespace Tally

def add (t : Tally) (a : Attempt) : Tally :=
  match a.answer with
  | .ok true => t.delete (key a.address)
  | .error (.client e) => t.fail (key a.address) e
  | _ => t

theorem foldl_add_deleted (attempts : List Attempt) (t : Tally) :
    (attempts.foldl add t).deleted = t.deleted ++ attempts.filterMap Attempt.deleted? := by
  induction attempts generalizing t with
  | nil => simp
  | cons a attempts ih =>
    rw [List.foldl_cons, ih]
    obtain ⟨ns, name, answer⟩ := a
    rcases answer with (e | x) | (_ | _) <;>
      simp [add, delete, fail, List.filterMap_cons, Attempt.deleted?, Attempt.address, key]

theorem foldl_add_failures (attempts : List Attempt) (t : Tally) :
    (attempts.foldl add t).failures =
      Dictionary.insertAll (attempts.filterMap Attempt.failure?) t.failures := by
  induction attempts generalizing t with
  | nil => rfl
  | cons a attempts ih =>
    rw [List.foldl_cons, ih]
    obtain ⟨ns, name, answer⟩ := a
    rcases answer with (e | x) | (_ | _) <;>
      simp [add, delete, fail, List.filterMap_cons, Attempt.failure?, Attempt.address, key,
        Dictionary.insertAll]

end Tally

theorem conclude_tally (attempts : List Attempt) (w : World σ) :
    conclude (attempts.foldl Tally.add .empty) service w = (report attempts, w) := by
  have hd := Tally.foldl_add_deleted attempts .empty
  have hf := Tally.foldl_add_failures attempts .empty
  rw [conclude, hf, hd, report]
  cases h : attempts.filterMap Attempt.failure? with
  | nil => rfl
  | cons p ps =>
    have hne : Dictionary.insertAll (p :: ps) Tally.empty.failures ≠ [] :=
      fun he => by simpa using Dictionary.ofPairs_eq_nil_iff.1 he
    simp only [List.isEmpty_iff, hne, if_false]
    rfl

theorem attempt_of_fatal {w w₁ : World σ} {ns name : String} {x : Foreign} (t : Tally)
    (h : store.delete ns name service w = (.error (.foreign x), w₁)) :
    attempt store t (ns, name) service w = (.error (.foreign x), w₁) :=
  Run.recoverClient_of_foreign (Run.bind_of_error h)

/-- Any other answer counts, and the work goes on. -/
theorem attempt_of_not_fatal {w w₁ : World σ} {ns name : String} {answer : Except Failure Bool}
    (t : Tally) (h : store.delete ns name service w = (answer, w₁))
    (hf : ¬ Attempt.Fatal ⟨ns, name, answer⟩) :
    ∃ log, attempt store t (ns, name) service w =
      (.ok (t.add ⟨ns, name, answer⟩), { w₁ with log := log }) := by
  rcases answer with (e | x) | found
  · obtain ⟨log, hn⟩ := Run.note_apply Log.warning .reaper "Failed to delete build"
      [("build", .string (key (ns, name))), ("error", .string e.text)] service w₁
    refine ⟨log, ?_⟩
    rw [attempt, Run.recoverClient_of_client (Run.bind_of_error h), Run.bind_of_ok hn]
    rfl
  · exact absurd ⟨x, rfl⟩ hf
  · refine ⟨w₁.log, ?_⟩
    rw [attempt, Run.recoverClient_of_ok (Run.bind_of_ok h)]
    cases found <;> rfl

/-- Every build is attempted in turn, up to an answer that ends the work. -/
theorem attemptAll_apply (store : BuildStore σ) (service : Http.Service)
    (addresses : List (String × String)) (t : Tally) (w : World σ) :
    ∃ attempts w', Attempts store service w attempts w' ∧
      ((attempts.map Attempt.address = addresses ∧ (∀ a ∈ attempts, ¬ a.Fatal) ∧
          attemptAll store addresses t service w = (.ok (attempts.foldl Tally.add t), w')) ∨
        ∃ done last x, attempts = done ++ [last] ∧ attempts.map Attempt.address <+: addresses ∧
          (∀ a ∈ done, ¬ a.Fatal) ∧ last.answer = .error (.foreign x) ∧
          attemptAll store addresses t service w = (.error (.foreign x), w')) := by
  induction addresses generalizing t w with
  | nil => exact ⟨[], w, .nil w, .inl ⟨rfl, by simp, rfl⟩⟩
  | cons address rest ih =>
    obtain ⟨ns, name⟩ := address
    cases h : store.delete ns name service w with | mk answer w₁ =>
    by_cases hf : Attempt.Fatal ⟨ns, name, answer⟩
    · obtain ⟨x, rfl⟩ := hf
      have hlog : Attempts store service { w₁ with log := w₁.log } [] w₁ := .nil w₁
      refine ⟨_, w₁, .cons h hlog, .inr ⟨[], ⟨ns, name, _⟩, x, rfl, ?_, by simp, rfl, ?_⟩⟩
      · simp [Attempt.address]
      · rw [attemptAll, Run.bind_of_error (attempt_of_fatal t h)]
    · obtain ⟨log, ha⟩ := attempt_of_not_fatal t h hf
      obtain ⟨attempts, w', hrest, hcase⟩ := ih (t.add ⟨ns, name, answer⟩) { w₁ with log := log }
      refine ⟨⟨ns, name, answer⟩ :: attempts, w', .cons h hrest, ?_⟩
      rw [attemptAll, Run.bind_of_ok ha]
      rcases hcase with ⟨hm, hall, hr⟩ | ⟨done, last, x, rfl, hpre, hall, hlast, hr⟩
      · exact .inl ⟨by simp [hm, Attempt.address], by simpa [hf] using hall, hr⟩
      · refine .inr ⟨⟨ns, name, answer⟩ :: done, last, x, rfl, ?_, by simpa [hf] using hall,
          hlast, hr⟩
        simpa [Attempt.address] using hpre

theorem attempt_mirrors (store : BuildStore σ) (t : Tally) (address : String × String) :
    Run.Mirrors (attempt store t address) (attempt store.recorded t address) :=
  .recoverClient (.bind (.recorded _ _) fun _ => .pure _) fun _ =>
    .bind (.note _ _ _ _) fun _ => .pure _

theorem attemptAll_mirrors (store : BuildStore σ) (addresses : List (String × String)) (t : Tally) :
    Run.Mirrors (attemptAll store addresses t) (attemptAll store.recorded addresses t) := by
  induction addresses generalizing t with
  | nil => exact .pure t
  | cons address rest ih => exact .bind (attempt_mirrors store t address) ih

theorem conclude_mirrors (t : Tally) :
    Run.Mirrors (conclude t : Run σ (List String)) (conclude t) := by
  unfold conclude
  split
  · exact .pure _
  · exact .throw _

/-- Whether calls are written down or not makes no difference to reaping. -/
theorem deleteBuilds_mirrors (store : BuildStore σ) (ns : String) (name : Option String) :
    Run.Mirrors (deleteBuilds store ns name) (deleteBuilds store.recorded ns name) := by
  unfold deleteBuilds
  split
  · exact .pure _
  · refine .bind (.bind (.recorded _ _) fun _ => .pure _) fun builds => ?_
    refine .bind (attemptAll_mirrors store _ _) fun t => ?_
    exact .bind (.note _ _ _ _) fun _ => conclude_mirrors t

/-- The namespace that a build reports, else the given one. -/
def ownNamespace (ns : String) (b : Build) : String :=
  match b.metadata.ns with
  | some own => if own = "" then ns else own
  | none => ns

/-- Where a listed build is deleted, if it has a name and its annotation holds the name of the
configuration in full. -/
def target? (ns name : String) (b : Build) : Option (String × String) :=
  match b.metadata.name with
  | some own =>
    if Dictionary.get? "openshift.io/build-config.name" b.metadata.annotations = some name ∧
        own ≠ "" then
      some (ownNamespace ns b, own)
    else none
  | none => none

theorem filled?_of_ne {s : String} (h : s ≠ "") : filled? (some s) = some s := by
  simp [filled?, Option.filter, h]

theorem deleteBuilds_of_ne {ns name : String} (h : name ≠ "") :
    deleteBuilds store ns (some name) = reap store ns name := by
  rw [deleteBuilds, filled?_of_ne h]

theorem filled?_empty : filled? (some "") = none := rfl

theorem getD_filled? (ns : String) (b : Build) :
    (filled? b.metadata.ns).getD ns = ownNamespace ns b := by
  unfold ownNamespace
  cases b.metadata.ns with
  | none => rfl
  | some own =>
    by_cases h : own = ""
    · simp [h, filled?_empty]
    · simp [h, filled?_of_ne]

theorem targets_eq (ns name : String) (candidates : List Build) :
    (candidates.filter (ownedBy name)).filterMap (address? ns) =
      candidates.filterMap (target? ns name) := by
  rw [List.filterMap_filter]
  refine List.filterMap_congr fun b _ => ?_
  simp only [ownedBy, address?, target?, ownerKey, getD_filled?, beq_iff_eq]
  cases b.metadata.name with
  | none => simp [filled?]
  | some own =>
    by_cases h : own = ""
    · simp [h, filled?_empty]
    · simp [h, filled?_of_ne]

/-- The calls of reaping the builds of a configuration, with their answers, and what is told at the
end. -/
inductive Reaping (ns : String) :
    Option String → List BuildStore.Call → Except Failure (List String) → Prop
  | unnamed {name : Option String} (h : name = none ∨ name = some "") : Reaping ns name [] (.ok [])
  | unlisted {name : String} {x : Failure} (h : name ≠ "") :
      Reaping ns (some name)
        [.list ns [("openshift.io/build-config.name", String.ofList (name.toList.take 63))]
          (.error x)]
        (.error x)
  | finished {name : String} {candidates : List Build} {attempts : List Attempt} (h : name ≠ "")
      (each : attempts.map Attempt.address = candidates.filterMap (target? ns name))
      (counted : ∀ a ∈ attempts, ¬ a.Fatal) :
      Reaping ns (some name)
        (.list ns [("openshift.io/build-config.name", String.ofList (name.toList.take 63))]
          (.ok candidates) :: attempts.map Attempt.call)
        (report attempts)
  | ended {name : String} {candidates : List Build} {done : List Attempt} {last : Attempt}
      {x : Foreign} (h : name ≠ "")
      (each : (done ++ [last]).map Attempt.address <+: candidates.filterMap (target? ns name))
      (counted : ∀ a ∈ done, ¬ a.Fatal) (fatal : last.answer = .error (.foreign x)) :
      Reaping ns (some name)
        (.list ns [("openshift.io/build-config.name", String.ofList (name.toList.take 63))]
          (.ok candidates) :: (done ++ [last]).map Attempt.call)
        (.error (.foreign x))

theorem attempts_calls {w w' : World (σ × List BuildStore.Call)} {attempts : List Attempt}
    (h : Attempts store.recorded service w attempts w') :
    w'.store.2 = w.store.2 ++ attempts.map Attempt.call := by
  induction h with
  | nil w => simp
  | cons first others ih =>
    rename_i w w₁ w₂ ns name answer log rest
    have hc := Run.recorded_calls (store.delete ns name) (.delete ns name) service w
    change (store.recorded.delete ns name service w).2.store.2 =
      w.store.2 ++ [.delete ns name (store.recorded.delete ns name service w).1] at hc
    rw [first] at hc
    rw [ih, hc]
    simp [Attempt.call]

theorem eq_of_filled? {name : Option String} {s : String} (h : filled? name = some s) :
    name = some s ∧ s ≠ "" := by
  obtain ⟨hn, hs⟩ := Option.filter_eq_some_iff.1 h
  exact ⟨hn, by simpa using hs⟩

theorem eq_of_filled?_none {name : Option String} (h : filled? name = none) :
    name = none ∨ name = some "" := by
  cases name with
  | none => exact .inl rfl
  | some s =>
    by_cases hs : s = ""
    · exact .inr (by rw [hs])
    · rw [filled?_of_ne hs] at h
      cases h

theorem reap_of_unlisted {ns name : String} {x : Failure} {w w₁ : World σ}
    (h : store.list ns [(ownerKey, Labels.value name)] service w = (.error x, w₁)) :
    reap store ns name service w = (.error x, w₁) :=
  Run.bind_of_error (Run.bind_of_error h)

/-- Once the builds are listed, the attempts decide. -/
theorem reap_of_listed {ns name : String} {candidates : List Build} {w w₁ : World σ}
    (h : store.list ns [(ownerKey, Labels.value name)] service w = (.ok candidates, w₁)) :
    ∃ attempts w₂ log, Attempts store service w₁ attempts w₂ ∧
      ((attempts.map Attempt.address = candidates.filterMap (target? ns name) ∧
          (∀ a ∈ attempts, ¬ a.Fatal) ∧
          reap store ns name service w = (report attempts, { w₂ with log := log })) ∨
        ∃ done last x, attempts = done ++ [last] ∧
          attempts.map Attempt.address <+: candidates.filterMap (target? ns name) ∧
          (∀ a ∈ done, ¬ a.Fatal) ∧ last.answer = .error (.foreign x) ∧
          reap store ns name service w = (.error (.foreign x), { w₂ with log := log })) := by
  have hm : matching store ns name service w = (.ok (candidates.filter (ownedBy name)), w₁) :=
    Run.bind_of_ok h
  obtain ⟨attempts, w₂, hrun, hcase⟩ := attemptAll_apply store service
    ((candidates.filter (ownedBy name)).filterMap (address? ns)) .empty w₁
  rw [reap, Run.bind_of_ok hm, ← targets_eq]
  rcases hcase with ⟨haddr, hall, ha⟩ | ⟨done, last, x, hdone, hpre, hall, hlast, ha⟩
  · obtain ⟨log, hn⟩ := Run.note_apply Log.info .reaper "Reaped builds of build config"
      [("build_config", .string name), ("namespace", .string ns),
        ("deleted", .int (attempts.foldl Tally.add .empty).deleted.length)] service w₂
    refine ⟨attempts, w₂, log, hrun, .inl ⟨haddr, hall, ?_⟩⟩
    rw [Run.bind_of_ok ha, Run.bind_of_ok hn, conclude_tally]
  · exact ⟨attempts, w₂, w₂.log, hrun,
      .inr ⟨done, last, x, hdone, hpre, hall, hlast, Run.bind_of_error ha⟩⟩

theorem reap_calls {name : String} (hname : name ≠ "") (store : BuildStore σ) (ns : String)
    (service : Http.Service) (w : World (σ × List BuildStore.Call)) :
    ∃ calls, (reap store.recorded ns name service w).2.store.2 = w.store.2 ++ calls ∧
      Reaping ns (some name) calls (reap store.recorded ns name service w).1 := by
  cases hlist : store.recorded.list ns [(ownerKey, Labels.value name)] service w with
  | mk answer w₁ =>
  have hcall := Run.recorded_calls (store.list ns [(ownerKey, Labels.value name)])
    (.list ns [(ownerKey, Labels.value name)]) service w
  change (store.recorded.list ns [(ownerKey, Labels.value name)] service w).2.store.2 =
    w.store.2 ++ [.list ns _ (store.recorded.list ns _ service w).1] at hcall
  rw [hlist] at hcall
  cases answer with
  | error x =>
    rw [reap_of_unlisted hlist]
    exact ⟨_, hcall, .unlisted hname⟩
  | ok candidates =>
    obtain ⟨attempts, w₂, log, hrun, hcase⟩ := reap_of_listed hlist
    have hcalls : w₂.store.2 = w.store.2 ++ (.list ns [(ownerKey, Labels.value name)]
        (.ok candidates) :: attempts.map Attempt.call) := by
      rw [attempts_calls hrun, hcall]
      simp
    rcases hcase with ⟨haddr, hall, hr⟩ | ⟨done, last, x, rfl, hpre, hall, hlast, hr⟩
    · rw [hr]
      exact ⟨_, hcalls, .finished hname haddr hall⟩
    · rw [hr]
      exact ⟨_, hcalls, .ended hname hpre hall hlast⟩

/-- The calls that reaping makes of any store, and what it gives. -/
theorem deleteBuilds_reaping (store : BuildStore σ) (ns : String) (name : Option String)
    (service : Http.Service) (w : World σ) :
    ∃ calls, deleteBuilds store.recorded ns name service (w.beside []) =
        ((deleteBuilds store ns name service w).1,
          (deleteBuilds store ns name service w).2.beside calls) ∧
      Reaping ns name calls (deleteBuilds store ns name service w).1 := by
  obtain ⟨calls, hrun⟩ := deleteBuilds_mirrors store ns name service w []
  rw [List.nil_append] at hrun
  refine ⟨calls, hrun, ?_⟩
  cases hname : filled? name with
  | none =>
    rw [deleteBuilds, hname] at hrun ⊢
    have hc : calls = [] := congrArg (fun r => r.2.store.2) hrun.symm
    rw [hc]
    exact .unnamed (eq_of_filled?_none hname)
  | some s =>
    obtain ⟨rfl, hs⟩ := eq_of_filled? hname
    obtain ⟨calls', hc, hreap⟩ := reap_calls hs store ns service (w.beside [])
    have hrecorded : deleteBuilds store.recorded ns (some s) = reap store.recorded ns s := by
      rw [deleteBuilds, hname]
    rw [← hrecorded, hrun] at hc hreap
    have he : calls = calls' := hc
    rw [he]
    exact hreap

end Reaper

end BuildClient
