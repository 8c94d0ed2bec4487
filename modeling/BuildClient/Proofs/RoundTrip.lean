import BuildClient.Proofs.Wire.Document

/-! Documents that are read, written and read again. -/
namespace BuildClient

open Json Text Wire

namespace Model

variable {α : Type} {m : Model α} {a : α} {s t : String}

theorem decodeText_eq_ok : m.decodeText s = .ok a ↔
    ∃ v, reader.parse? s = some v ∧ m.codec.read v = .ok a := by
  rw [decodeText]
  cases reader.parse? s with
  | none => simp
  | some v => cases hv : m.codec.read v <;> simp [Model.read, hv, Except.mapError]

theorem encode_eq_ok : m.encode a = .ok t ↔ ∃ w, m.codec.write a = .ok w ∧ style.print w = t :=
  map_eq_ok

/-- What becomes of a text that is read and written. -/
def rewritten (m : Model α) (s : String) : Option String :=
  (m.decodeText s).toOption.bind fun a => (m.encode a).toOption

theorem rewritten_eq_some :
    m.rewritten s = some t ↔ ∃ a, m.decodeText s = .ok a ∧ m.encode a = .ok t := by
  rw [rewritten, Option.bind_eq_some_iff]
  simp only [toOption_eq_some]

/-- The numbers of documents that have no numeral are left blank. -/
def form : Layout := ⟨-4, 16, 2, "null", "null", "null"⟩

theorem blanks_form : Blanks form := ⟨rfl, rfl, rfl⟩

theorem style_eq : style = compact form := rfl

theorem reads_of_decodeText (h : m.decodeText s = .ok a) : m.codec.Reads reader 0 a := by
  obtain ⟨v, hv, hread⟩ := decodeText_eq_ok.1 h
  exact ⟨v, Reader.legible_of_parse? hv, hread⟩

/-- What was read is written, and the text comes back just when the data does. -/
theorem text_returns_iff (hm : m.codec.Lawful reader 0) (h : m.decodeText s = .ok a) :
    ∃ t, m.encode a = .ok t ∧
      ((∃ b, m.decodeText t = .ok b ∧ m.encode b = .ok t) ↔ m.codec.Returns a) := by
  obtain ⟨w, hw, hlegible, -⟩ := hm a (reads_of_decodeText h)
  have hparse := hlegible.parse?_print blanks_form
  refine ⟨style.print w, encode_eq_ok.2 ⟨w, hw, rfl⟩, ?_⟩
  constructor
  · rintro ⟨b, hb, ht⟩
    obtain ⟨v, hv, hread⟩ := decodeText_eq_ok.1 hb
    rw [style_eq, hparse] at hv
    obtain rfl : w.blanked = v := Option.some.inj hv
    obtain ⟨w', hw', he⟩ := encode_eq_ok.1 ht
    obtain ⟨u, hu, hlegible', -⟩ := hm b ⟨_, hlegible.blanked, hread⟩
    obtain rfl := Except.ok.inj (hw'.symm.trans hu)
    exact ⟨w, b, w', hw, hread, hw', (hlegible'.print_eq_iff blanks_form hlegible).1 he⟩
  · rintro ⟨w₀, b, w', hw₀, hread, hw', he⟩
    obtain rfl := Except.ok.inj (hw.symm.trans hw₀)
    obtain ⟨u, hu, hlegible', -⟩ := hm b ⟨_, hlegible.blanked, hread⟩
    obtain rfl := Except.ok.inj (hw'.symm.trans hu)
    exact ⟨b, decodeText_eq_ok.2 ⟨_, hparse, hread⟩,
      encode_eq_ok.2 ⟨w', hw', (hlegible'.print_eq_iff blanks_form hlegible).2 he⟩⟩

end Model

/-- The kinds of documents. -/
inductive Kind where
  | objectMeta
  | build
  | buildConfig
  | buildList
  | buildRequest
  | webHookTrigger

namespace Kind

/-- What a document of the kind holds. -/
def Data : Kind → Type
  | objectMeta => ObjectMeta
  | build => Build
  | buildConfig => BuildConfig
  | buildList => BuildList
  | buildRequest => BuildRequest
  | webHookTrigger => WebHookTrigger

def model : (k : Kind) → Model k.Data
  | objectMeta => .objectMeta
  | build => .build
  | buildConfig => .buildConfig
  | buildList => .buildList
  | buildRequest => .buildRequest
  | webHookTrigger => .webHookTrigger

/-- Nothing undeclared is taken for something else when the text of the data is read. -/
def Faithful : (k : Kind) → k.Data → Prop
  | objectMeta => ObjectMeta.Faithful
  | build => ManagedObject.Faithful
  | buildConfig => ManagedObject.Faithful
  | buildList => BuildList.Faithful
  | buildRequest => BuildRequest.Faithful
  | webHookTrigger => WebHookTrigger.Faithful

theorem lawful (k : Kind) : k.model.codec.Lawful Model.reader 0 := by
  cases k with
  | objectMeta => exact metaCodec_lawful (by decide)
  | build => exact managedCodec_lawful (by decide)
  | buildConfig => exact managedCodec_lawful (by decide)
  | buildList => exact listCodec_lawful (by decide)
  | buildRequest => exact requestCodec_lawful (by decide)
  | webHookTrigger => exact triggerCodec_lawful (by decide)

theorem returns_iff_faithful (k : Kind) {a : k.Data} (h : k.model.codec.Reads Model.reader 0 a) :
    k.model.codec.Returns a ↔ k.Faithful a := by
  cases k with
  | objectMeta => exact metaCodec_returns (by decide) h
  | build => exact managedCodec_returns (by decide) h
  | buildConfig => exact managedCodec_returns (by decide) h
  | buildList => exact listCodec_returns (by decide) h
  | buildRequest => exact requestCodec_returns (by decide) h
  | webHookTrigger => exact triggerCodec_returns (by decide) h

/-- Every document that is read can be written; its text is read and written alike just when it
holds nothing undeclared that its own text gives another meaning. -/
theorem text_comes_back_iff (k : Kind) {s : String} {a : k.Data}
    (h : k.model.decodeText s = .ok a) :
    ∃ t, k.model.encode a = .ok t ∧
      ((∃ b, k.model.decodeText t = .ok b ∧ k.model.encode b = .ok t) ↔ k.Faithful a) := by
  obtain ⟨t, ht, hiff⟩ := Model.text_returns_iff k.lawful h
  refine ⟨t, ht, hiff.trans ?_⟩
  exact k.returns_iff_faithful (Model.reads_of_decodeText h)

/-- A trigger whose undeclared members keep their meaning. -/
theorem text_comes_back_trigger : ∃ a,
    Model.webHookTrigger.decodeText "\x7b\"allow_env\":\"No\",\"tries\":[1.50,NaN]\x7d" = .ok a ∧
      WebHookTrigger.Faithful a := by
  have hfirst : Model.webHookTrigger.rewritten
      "\x7b\"allow_env\":\"No\",\"tries\":[1.50,NaN]\x7d" =
        some "\x7b\"allowEnv\":false,\"tries\":[1.5,null]\x7d" := by decide +kernel
  have hagain : Model.webHookTrigger.rewritten "\x7b\"allowEnv\":false,\"tries\":[1.5,null]\x7d" =
      some "\x7b\"allowEnv\":false,\"tries\":[1.5,null]\x7d" := by decide +kernel
  obtain ⟨a, ha, hwrite⟩ := Model.rewritten_eq_some.1 hfirst
  obtain ⟨t, ht, hiff⟩ := text_comes_back_iff .webHookTrigger ha
  obtain rfl := Except.ok.inj (ht.symm.trans hwrite)
  exact ⟨a, ha, hiff.1 (Model.rewritten_eq_some.1 hagain)⟩

/-- A trigger whose own text cannot be read: its undeclared member stands under the other spelling
of a declared one that is left out. -/
theorem trigger_rejects_own_text : ∃ a,
    Model.webHookTrigger.decodeText "\x7b\"allowEnv\":null,\"allow_env\":\"maybe\"\x7d" = .ok a ∧
      Model.webHookTrigger.encode a = .ok "\x7b\"allow_env\":\"maybe\"\x7d" ∧
      ∀ b, Model.webHookTrigger.decodeText "\x7b\"allow_env\":\"maybe\"\x7d" ≠ .ok b := by
  have hfirst : Model.webHookTrigger.rewritten
      "\x7b\"allowEnv\":null,\"allow_env\":\"maybe\"\x7d" =
        some "\x7b\"allow_env\":\"maybe\"\x7d" := by decide +kernel
  have hagain : (Model.webHookTrigger.decodeText
      "\x7b\"allow_env\":\"maybe\"\x7d").isOk = false := by decide +kernel
  obtain ⟨a, ha, hwrite⟩ := Model.rewritten_eq_some.1 hfirst
  refine ⟨a, ha, hwrite, fun b hb => ?_⟩
  rw [hb] at hagain
  cases hagain

end Kind

end BuildClient
