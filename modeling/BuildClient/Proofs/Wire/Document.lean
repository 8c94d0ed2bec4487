import BuildClient.Proofs.Json.ReadBack
import BuildClient.Proofs.Wire.Record
import BuildClient.Wire.Document

/-! Which documents come back from their own texts. -/
namespace BuildClient

open Json Text Wire

variable {depth : ℕ}

namespace ObjectMeta

/-- Nothing undeclared is taken for something else when the text of the metadata is read. -/
structure Faithful (m : ObjectMeta) : Prop where
  finite : Finite m.extra
  version : m.resourceVersion = none → Vacant "resource_version" m.extra
  created : m.creationTimestamp = none → Vacant "creation_timestamp" m.extra

end ObjectMeta

namespace ManagedObject

/-- Nothing undeclared is taken for something else, in the object or its metadata. -/
structure Faithful (o : ManagedObject) : Prop where
  finite : Finite o.extra
  version : o.apiVersion = none → Vacant "api_version" o.extra
  metadata : o.metadata.Faithful

end ManagedObject

namespace BuildList

/-- Nothing undeclared is taken for something else, in the list or its items. -/
structure Faithful (l : BuildList) : Prop where
  finite : Finite l.extra
  version : l.apiVersion = none → Vacant "api_version" l.extra
  items : ∀ items ∈ l.items, ∀ o ∈ items, ManagedObject.Faithful o

end BuildList

namespace BuildRequest

/-- Nothing undeclared is taken for something else, in the request or its metadata. -/
structure Faithful (q : BuildRequest) : Prop where
  finite : Finite q.extra
  version : q.apiVersion = none → Vacant "api_version" q.extra
  metadata : q.metadata.Faithful

end BuildRequest

namespace WebHookTrigger

/-- Nothing undeclared is taken for something else when the text of the trigger is read. -/
structure Faithful (t : WebHookTrigger) : Prop where
  finite : Finite t.extra
  allowEnv : t.allowEnv = none → Vacant "allow_env" t.extra

end WebHookTrigger

namespace Wire

theorem tooDeep_eq_false (h : depth ≤ 200) : Model.reader.tooDeep depth = false := by
  simpa [Model.reader, Reader.tooDeep] using h

theorem textField_lawful (h : depth ≤ 200) (key : String) (other : Option String) :
    (textField key other).Lawful Model.reader depth where
  codec := Codec.text_lawful
  absent := ⟨.null, .null (tooDeep_eq_false h), rfl⟩
  blank a ha := by
    cases a with
    | none => exact ⟨rfl, rfl⟩
    | some s => cases ha

theorem textsField_lawful (h : depth ≤ 200) (key : String) :
    (textsField key).Lawful Model.reader depth where
  codec := Codec.texts_lawful
  absent := ⟨.object [], .object (tooDeep_eq_false h) (by simp), rfl⟩
  blank a ha := by cases ha

theorem treeField_lawful (h : depth ≤ 200) (key : String) :
    (treeField key).Lawful Model.reader depth where
  codec := Codec.tree_lawful
  absent := ⟨.object [], .object (tooDeep_eq_false h) (by simp), rfl⟩
  blank a ha := by cases ha

theorem textField_kept {key : String} {other : Option String} {o : Option String}
    {extra : Dictionary Extra} : (textField key other).Kept o extra ↔
      (o = none → ∀ k ∈ other, Vacant k extra) := by
  refine ⟨fun h ho => h.vacant (by rw [ho]; rfl), fun h => ⟨fun hw => h ?_, Codec.text_returns o⟩⟩
  cases o with
  | none => rfl
  | some s => cases hw

theorem textsField_kept {key : String} {d : Dictionary String} {extra : Dictionary Extra}
    (h : Codec.texts.Reads Model.reader depth d) : (textsField key).Kept d extra :=
  ⟨fun hw => (by cases hw), Codec.texts_returns h⟩

theorem treeField_kept {key : String} {d : Dictionary Value} {extra : Dictionary Extra}
    (h : Codec.tree.Reads Model.reader depth d) : (treeField key).Kept d extra :=
  ⟨fun hw => (by cases hw), Codec.tree_returns h⟩

theorem metaFields_lawful (h : depth ≤ 200) : Lawful Model.reader depth metaFields where
  each := by
    have htext := textField_lawful h
    have htexts := textsField_lawful h
    simp [metaFields, htext, htexts]
  keys := by decide
  others := by decide

theorem metaCodec_lawful (h : depth < 200) : metaCodec.Lawful Model.reader depth :=
  Codec.via_lawful (fun _ => rfl) (Record.codec_lawful (metaFields_lawful h))

/-- Metadata comes back from its text just when it is faithful. -/
theorem metaCodec_returns (h : depth < 200) {m : ObjectMeta}
    (hm : metaCodec.Reads Model.reader depth m) : metaCodec.Returns m ↔ m.Faithful := by
  obtain ⟨hreads, hiff⟩ := Record.via_codec_returns (fun _ => rfl) (metaFields_lawful h) hm
  simp only [metaFields, Row.entries, List.forall_mem_cons] at hreads
  refine hiff.trans ?_
  constructor
  · intro hf
    have hkept := hf.kept
    simp only [metaFields, Row.entries, List.forall_mem_cons] at hkept
    obtain ⟨-, -, -, hversion, hcreated, -⟩ := hkept
    exact ⟨hf.finite, fun hv => textField_kept.1 hversion hv _ rfl,
      fun hv => textField_kept.1 hcreated hv _ rfl⟩
  · intro hf
    obtain ⟨-, -, -, -, -, hlabels, hannotations, -⟩ := hreads
    refine ⟨hf.finite, ?_⟩
    simp only [metaFields, Row.entries, List.forall_mem_cons]
    refine ⟨textField_kept.2 (by simp), textField_kept.2 (by simp), textField_kept.2 (by simp),
      textField_kept.2 ?_, textField_kept.2 ?_, textsField_kept hlabels,
      textsField_kept hannotations, by simp⟩
    · rintro hv k ⟨⟩
      exact hf.version hv
    · rintro hv k ⟨⟩
      exact hf.created hv

theorem metaField_lawful (h : depth < 200) : metaField.Lawful Model.reader depth where
  codec := metaCodec_lawful h
  absent := ⟨.object [], .object (tooDeep_eq_false (by omega)) (by simp), rfl⟩
  blank _ ha := absurd ha Record.write_ne_null

theorem metaField_kept (h : depth < 200) {m : ObjectMeta} {extra : Dictionary Extra}
    (hm : metaCodec.Reads Model.reader depth m) : metaField.Kept m extra ↔ m.Faithful := by
  rw [← metaCodec_returns h hm]
  exact ⟨fun hk => hk.returns, fun hr => ⟨fun hw => absurd hw Record.write_ne_null, hr⟩⟩

theorem managedFields_lawful (h : depth < 200) : Lawful Model.reader depth managedFields where
  each := by
    have hle : depth ≤ 200 := by omega
    have htext := textField_lawful hle
    have htree := treeField_lawful hle
    simp [managedFields, versionField, kindField, htext, htree, metaField_lawful h]
  keys := by decide
  others := by decide

theorem managedCodec_lawful (h : depth + 1 < 200) : managedCodec.Lawful Model.reader depth :=
  Codec.via_lawful (fun _ => rfl) (Record.codec_lawful (managedFields_lawful h))

/-- An object comes back from its text just when it is faithful. -/
theorem managedCodec_returns (h : depth + 1 < 200) {o : ManagedObject}
    (ho : managedCodec.Reads Model.reader depth o) : managedCodec.Returns o ↔ o.Faithful := by
  obtain ⟨hreads, hiff⟩ := Record.via_codec_returns (fun _ => rfl) (managedFields_lawful h) ho
  simp only [managedFields, Row.entries, List.forall_mem_cons] at hreads
  obtain ⟨-, -, hmeta, hspec, hstatus, -⟩ := hreads
  refine hiff.trans ?_
  constructor
  · intro hf
    have hkept := hf.kept
    simp only [managedFields, Row.entries, List.forall_mem_cons] at hkept
    obtain ⟨hversion, -, hkept, -⟩ := hkept
    exact ⟨hf.finite, fun hv => textField_kept.1 hversion hv _ rfl,
      (metaField_kept h hmeta).1 hkept⟩
  · intro hf
    refine ⟨hf.finite, ?_⟩
    simp only [managedFields, Row.entries, List.forall_mem_cons]
    refine ⟨textField_kept.2 ?_, textField_kept.2 (by simp), (metaField_kept h hmeta).2 hf.metadata,
      treeField_kept hspec, treeField_kept hstatus, by simp⟩
    rintro hv k ⟨⟩
    exact hf.version hv

theorem itemsField_lawful (h : depth + 2 < 200) : itemsField.Lawful Model.reader depth where
  codec := Codec.list_lawful (managedCodec_lawful h)
  absent := ⟨.null, .null (tooDeep_eq_false (by omega)), rfl⟩
  blank a ha := by
    cases a with
    | none => exact ⟨rfl, rfl⟩
    | some l =>
      obtain ⟨ws, -, he⟩ := Codec.list_write_some.1 ha
      cases he

theorem itemsField_kept (h : depth + 2 < 200) {o : Option (List Build)} {extra : Dictionary Extra}
    (ho : managedCodec.list.Reads Model.reader depth o) :
    itemsField.Kept o extra ↔ ∀ items ∈ o, ∀ b ∈ items, ManagedObject.Faithful b := by
  have hkept : itemsField.Kept o extra ↔ managedCodec.list.Returns o :=
    ⟨fun hk => hk.returns, fun hr => ⟨fun _ k hk => (by cases hk), hr⟩⟩
  rw [hkept]
  cases o with
  | none => simpa using Codec.list_returns_none
  | some l =>
    obtain ⟨-, hreads⟩ := Codec.list_reads ho
    rw [Codec.list_returns_some]
    constructor
    · rintro hr items ⟨⟩ b hb
      exact (managedCodec_returns h (hreads b hb)).1 (hr b hb)
    · exact fun hf b hb => (managedCodec_returns h (hreads b hb)).2 (hf l rfl b hb)

theorem listFields_lawful (h : depth + 2 < 200) : Lawful Model.reader depth listFields where
  each := by
    have hle : depth ≤ 200 := by omega
    have htext := textField_lawful hle
    simp [listFields, versionField, kindField, htext, itemsField_lawful h]
  keys := by decide
  others := by decide

theorem listCodec_lawful (h : depth + 3 < 200) : listCodec.Lawful Model.reader depth :=
  Codec.via_lawful (fun _ => rfl) (Record.codec_lawful (listFields_lawful h))

/-- A list comes back from its text just when it is faithful. -/
theorem listCodec_returns (h : depth + 3 < 200) {l : BuildList}
    (hl : listCodec.Reads Model.reader depth l) : listCodec.Returns l ↔ l.Faithful := by
  obtain ⟨hreads, hiff⟩ := Record.via_codec_returns (fun _ => rfl) (listFields_lawful h) hl
  simp only [listFields, Row.entries, List.forall_mem_cons] at hreads
  obtain ⟨-, -, hitems, -⟩ := hreads
  refine hiff.trans ?_
  constructor
  · intro hf
    have hkept := hf.kept
    simp only [listFields, Row.entries, List.forall_mem_cons] at hkept
    obtain ⟨hversion, -, hkept, -⟩ := hkept
    exact ⟨hf.finite, fun hv => textField_kept.1 hversion hv _ rfl,
      (itemsField_kept h hitems).1 hkept⟩
  · intro hf
    refine ⟨hf.finite, ?_⟩
    simp only [listFields, Row.entries, List.forall_mem_cons]
    refine ⟨textField_kept.2 ?_, textField_kept.2 (by simp), (itemsField_kept h hitems).2 hf.items,
      by simp⟩
    rintro hv k ⟨⟩
    exact hf.version hv

theorem requestFields_lawful (h : depth < 200) : Lawful Model.reader depth requestFields where
  each := by
    have hle : depth ≤ 200 := by omega
    have htext := textField_lawful hle
    simp [requestFields, versionField, kindField, htext, metaField_lawful h]
  keys := by decide
  others := by decide

theorem requestCodec_lawful (h : depth + 1 < 200) : requestCodec.Lawful Model.reader depth :=
  Codec.via_lawful (fun _ => rfl) (Record.codec_lawful (requestFields_lawful h))

/-- A request comes back from its text just when it is faithful. -/
theorem requestCodec_returns (h : depth + 1 < 200) {q : BuildRequest}
    (hq : requestCodec.Reads Model.reader depth q) : requestCodec.Returns q ↔ q.Faithful := by
  obtain ⟨hreads, hiff⟩ := Record.via_codec_returns (fun _ => rfl) (requestFields_lawful h) hq
  simp only [requestFields, Row.entries, List.forall_mem_cons] at hreads
  obtain ⟨-, -, hmeta, -⟩ := hreads
  refine hiff.trans ?_
  constructor
  · intro hf
    have hkept := hf.kept
    simp only [requestFields, Row.entries, List.forall_mem_cons] at hkept
    obtain ⟨hversion, -, hkept, -⟩ := hkept
    exact ⟨hf.finite, fun hv => textField_kept.1 hversion hv _ rfl,
      (metaField_kept h hmeta).1 hkept⟩
  · intro hf
    refine ⟨hf.finite, ?_⟩
    simp only [requestFields, Row.entries, List.forall_mem_cons]
    refine ⟨textField_kept.2 ?_, textField_kept.2 (by simp), (metaField_kept h hmeta).2 hf.metadata,
      by simp⟩
    rintro hv k ⟨⟩
    exact hf.version hv

/-- The member of a trigger that is no text. -/
def allowEnvField : Field := ⟨"allowEnv", some "allow_env", Option Bool, .truth, none⟩

theorem allowEnvField_lawful (h : depth ≤ 200) : allowEnvField.Lawful Model.reader depth where
  codec := Codec.truth_lawful
  absent := ⟨.null, .null (tooDeep_eq_false h), rfl⟩
  blank a ha := by
    cases a with
    | none => exact ⟨rfl, rfl⟩
    | some b => cases ha

theorem triggerFields_lawful (h : depth ≤ 200) : Lawful Model.reader depth triggerFields where
  each := by
    have hallow := allowEnvField_lawful h
    rw [allowEnvField] at hallow
    simp [triggerFields, textField_lawful h, hallow]
  keys := by decide
  others := by decide

theorem triggerCodec_lawful (h : depth < 200) : triggerCodec.Lawful Model.reader depth :=
  Codec.via_lawful (fun _ => rfl) (Record.codec_lawful (triggerFields_lawful h))

/-- A trigger comes back from its text just when it is faithful. -/
theorem triggerCodec_returns (h : depth < 200) {t : WebHookTrigger}
    (ht : triggerCodec.Reads Model.reader depth t) : triggerCodec.Returns t ↔ t.Faithful := by
  obtain ⟨-, hiff⟩ := Record.via_codec_returns (fun _ => rfl) (triggerFields_lawful h) ht
  refine hiff.trans ?_
  constructor
  · intro hf
    have hkept := hf.kept
    simp only [triggerFields, Row.entries, List.forall_mem_cons] at hkept
    obtain ⟨-, hallow, -⟩ := hkept
    exact ⟨hf.finite, fun ha => hallow.vacant (by rw [ha]; rfl) _ rfl⟩
  · intro hf
    refine ⟨hf.finite, ?_⟩
    simp only [triggerFields, Row.entries, List.forall_mem_cons]
    refine ⟨textField_kept.2 (by simp), ⟨fun hw => ?_, Codec.truth_returns t.allowEnv⟩, by simp⟩
    rintro k ⟨⟩
    refine hf.allowEnv ?_
    cases ha : t.allowEnv with
    | none => rfl
    | some b =>
      rw [ha] at hw
      cases hw

end Wire

end BuildClient
