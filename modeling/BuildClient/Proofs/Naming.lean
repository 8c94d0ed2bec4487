import BuildClient.Proofs.Requests
import BuildClient.Proofs.Url.Aim

/-! What a deletion names. A name that leads on is deleted below the collections of its namespace; a
name of nothing but slashes is left out, and its whole collection deleted. -/
namespace BuildClient

open Http

variable {σ : Type} {e : Executor} {api ns name : String} {P : Sent → Prop}

theorem Http.enters_plain {d : Draft} (hd : d.Plain)
    (h : ∀ s, s.method = d.method →
      Url.prepare e.surroundings.names d.url d.params = .ok s.url → P s) :
    e.Enters P d := by
  intro r demand hr
  obtain ⟨hmethod, -, hurl⟩ := prepare_plain hd hr
  exact h _ hmethod hurl

namespace Operations

variable {o : Operations σ}

/-- The request deletes the object of the name in the collection: the configuration, or a build. -/
structure Deletes (o : Operations σ) (ns plural name : String) (s : Sent) : Prop where
  kind : plural = "buildconfigs" ∧ o.ns = some ns ∧ o.name = some name ∨ plural = "builds"
  ns_ne : ns ≠ ""
  name_ne : name ≠ ""
  url : Url.prepare o.executor.surroundings.names (Url.namespaced o.apiUrl ns plural name) [] =
    .ok s.url

/-- If the request is a deletion, it deletes some object. -/
def Aimed (o : Operations σ) (s : Sent) : Prop :=
  s.method = "DELETE" → ∃ ns plural name, Deletes o ns plural name s

theorem sends_reap (o : Operations σ) (hns : ns ≠ "") (name : Option String) :
    Run.Sends (Aimed o)
      (Reaper.deleteBuilds (BuildStore.remote o.executor o.apiUrl : BuildStore σ) ns name) := by
  refine BuildStore.remote_reaping_sends (fun labels => ?_) (fun ns' name' h h' => ?_) name
  · refine enters_plain (listDraft_plain o.apiUrl ns labels) fun s hg _ hm => ?_
    exact absurd (hg.symm.trans hm) (show "GET" ≠ "DELETE" by decide)
  · refine enters_plain (deletion_plain o.apiUrl ns' "builds" name') fun s _ hu _ => ?_
    exact ⟨ns', "builds", name', .inr rfl, h hns, h', hu⟩

theorem sends_delete (hb : o.builds = none) : Run.Sends (Aimed o) o.delete := by
  rcases o.address_cases with ⟨reason, ha⟩ | ⟨ns, name, ⟨hns, hns'⟩, ⟨hname, hname'⟩, ha⟩
  · refine .of_silent fun service w => ?_
    rw [delete, Run.bind_of_error (Run.ofClient_of_error (resourceUrl_of_error ha))]
  · refine delete_sends (fun resource hr => ?_) ?_
    · obtain rfl := Except.ok.inj ((resourceUrl_of_ok ha).symm.trans hr)
      refine enters_plain (deletion_plain o.apiUrl ns "buildconfigs" name) fun s _ hu _ => ?_
      exact ⟨ns, "buildconfigs", name, .inl ⟨rfl, hns, hname⟩, hns', hname', hu⟩
    · rw [store, hb, hns, Option.getD_none]
      exact sends_reap o hns' o.name

/-- Operations on the configuration of a name. -/
def named (name : String) : Operations Unit :=
  ⟨⟨none, true, none, none, .bare⟩, "http://h", some "ns", some name, .empty, none⟩

/-- A service that takes every request for a success. -/
def obliging : Service := fun _ => ⟨.all, .answer ⟨200, some "OK", "\x7b\x7d".toUTF8.toList, 990⟩⟩

end Operations

end BuildClient
