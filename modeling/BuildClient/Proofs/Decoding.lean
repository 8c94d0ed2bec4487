import BuildClient.Failure
import BuildClient.Proofs.Json.Depth
import BuildClient.Proofs.RoundTrip
import BuildClient.Proofs.Wire.Defects

/-! Which texts are documents of a kind, and what is told of those that are not. -/
namespace BuildClient

open Json Text Wire

namespace Wire

/-- A text that may be missing. -/
def textShape : Shape := .optional .string

def metaShape : Shape := .document
  [("name", none, textShape), ("namespace", none, textShape), ("uid", none, textShape),
   ("resourceVersion", some "resource_version", textShape),
   ("creationTimestamp", some "creation_timestamp", textShape),
   ("labels", none, .each .string), ("annotations", none, .each .string)]

def managedShape : Shape := .document
  [("apiVersion", some "api_version", textShape), ("kind", none, textShape),
   ("metadata", none, metaShape), ("spec", none, .tree), ("status", none, .tree)]

def listShape : Shape := .document
  [("apiVersion", some "api_version", textShape), ("kind", none, textShape),
   ("items", none, .optional (.array managedShape))]

def requestShape : Shape := .document
  [("apiVersion", some "api_version", textShape), ("kind", none, textShape),
   ("metadata", none, metaShape)]

def triggerShape : Shape := .document
  [("secret", none, textShape), ("allowEnv", some "allow_env", .optional .boolean)]

theorem textField_declares (key : String) (other : Option String) :
    (textField key other).Declares (key, other, textShape) := ⟨rfl, rfl, .text⟩

theorem textsField_declares (key : String) :
    (textsField key).Declares (key, none, .each .string) := ⟨rfl, rfl, .texts⟩

theorem treeField_declares (key : String) : (treeField key).Declares (key, none, .tree) :=
  ⟨rfl, rfl, .tree⟩

theorem metaCodec_judges : Judges metaCodec.read metaShape := by
  have hfields : List.Forall₂ Field.Declares metaFields _ :=
    .cons (textField_declares _ _) <| .cons (textField_declares _ _) <|
      .cons (textField_declares _ _) <| .cons (textField_declares _ _) <|
      .cons (textField_declares _ _) <| .cons (textsField_declares _) <|
      .cons (textsField_declares _) .nil
  exact (Judges.record hfields).map _

theorem metaField_declares : metaField.Declares ("metadata", none, metaShape) :=
  ⟨rfl, rfl, metaCodec_judges⟩

theorem managedCodec_judges : Judges managedCodec.read managedShape := by
  have hfields : List.Forall₂ Field.Declares managedFields _ :=
    .cons (textField_declares _ _) <| .cons (textField_declares _ _) <|
      .cons metaField_declares <| .cons (treeField_declares _) <|
      .cons (treeField_declares _) .nil
  exact (Judges.record hfields).map _

theorem listCodec_judges : Judges listCodec.read listShape := by
  have hitems : itemsField.Declares ("items", none, .optional (.array managedShape)) :=
    ⟨rfl, rfl, managedCodec_judges.list⟩
  have hfields : List.Forall₂ Field.Declares listFields _ :=
    .cons (textField_declares _ _) <| .cons (textField_declares _ _) <| .cons hitems .nil
  exact (Judges.record hfields).map _

theorem requestCodec_judges : Judges requestCodec.read requestShape := by
  have hfields : List.Forall₂ Field.Declares requestFields _ :=
    .cons (textField_declares _ _) <| .cons (textField_declares _ _) <|
      .cons metaField_declares .nil
  exact (Judges.record hfields).map _

theorem triggerCodec_judges : Judges triggerCodec.read triggerShape := by
  have hallow : Field.Declares ⟨"allowEnv", some "allow_env", Option Bool, .truth, none⟩
      ("allowEnv", some "allow_env", .optional .boolean) := ⟨rfl, rfl, .truth⟩
  have hfields : List.Forall₂ Field.Declares triggerFields _ :=
    .cons (textField_declares _ _) <| .cons hallow .nil
  exact (Judges.record hfields).map _

end Wire

/-- What reads documents, but for its limit of depth. -/
def Model.unlimited : Reader := ⟨none, false⟩

namespace Kind

/-- What a document of the kind looks like. -/
def shape : Kind → Shape
  | objectMeta => metaShape
  | build => managedShape
  | buildConfig => managedShape
  | buildList => listShape
  | buildRequest => requestShape
  | webHookTrigger => triggerShape

theorem judges (k : Kind) : Judges k.model.codec.read k.shape := by
  cases k with
  | objectMeta => exact metaCodec_judges
  | build => exact managedCodec_judges
  | buildConfig => exact managedCodec_judges
  | buildList => exact listCodec_judges
  | buildRequest => exact requestCodec_judges
  | webHookTrigger => exact triggerCodec_judges

/-- What comes of a text that should be a document of the kind. -/
inductive Decoded (k : Kind) (s : String) : Except ClientError k.Data → Prop
  | data {v : Value} {a : k.Data} (parsed : Model.unlimited.parse? s = some v)
      (room : v.Within 200) (fits : Fits k.shape v) : Decoded k s (.ok a)
  /-- All that is wrong is told in order, and where. -/
  | defective {v : Value} {ds : List Defect} (parsed : Model.unlimited.parse? s = some v)
      (room : v.Within 200) (misfit : ¬ Fits k.shape v) (listed : Lists (Misfit k.shape v) ds)
      (located : ∀ d ∈ ds, ∃ t u, Leads d.path v u ∧ Wrong t u d.problem) :
      Decoded k s (.error (.undecodable k.model.title (.defective ds)))
  | tooDeep {v : Value} (parsed : Model.unlimited.parse? s = some v) (deep : ¬ v.Within 200) :
      Decoded k s (.error (.undecodable k.model.title .malformed))
  | malformed (unread : Model.unlimited.parse? s = none) :
      Decoded k s (.error (.undecodable k.model.title .malformed))

theorem decoded (k : Kind) (s : String) :
    k.Decoded s ((k.model.decodeText s).mapError (.undecodable k.model.title)) := by
  have hlimit : ∀ v, Model.reader.parse? s = some v ↔
      Model.unlimited.parse? s = some v ∧ v.Within 200 := fun _ => Reader.parse?_limited_iff
  rw [Model.decodeText]
  cases hparse : Model.reader.parse? s with
  | some v =>
    obtain ⟨hparsed, hroom⟩ := (hlimit v).1 hparse
    cases hread : k.model.codec.read v with
    | ok a =>
      have hfits := k.judges.ok_iff.1 ⟨a, hread⟩
      simp only [Model.read, hread, Except.mapError]
      exact .data hparsed hroom hfits
    | error ds =>
      have hlists := k.judges.lists v
      rw [hread] at hlists
      simp only [Model.read, hread, Except.mapError]
      refine .defective hparsed hroom (fun hfits => ?_) hlists fun d hd => ?_
      · obtain ⟨a, ha⟩ := k.judges.ok_iff.2 hfits
        rw [hread] at ha
        cases ha
      · obtain ⟨place, hmisfit⟩ := hlists.mem hd
        exact hmisfit.leads
  | none =>
    cases hfree : Model.unlimited.parse? s with
    | none => exact .malformed hfree
    | some v =>
      refine .tooDeep hfree fun hroom => ?_
      have hsome := (hlimit v).2 ⟨hfree, hroom⟩
      rw [hparse] at hsome
      cases hsome

/-- Documents are judged by their shape alone, whichever way they come. -/
structure JudgesShape (k : Kind) : Prop where
  text : ∀ s, k.Decoded s ((k.model.decodeText s).mapError (.undecodable k.model.title))
  bytes : ∀ bytes s, Utf8.decode bytes = .ok s → k.model.decodeBytes bytes = k.model.decodeText s
  undecodable : ∀ bytes x, Utf8.decode bytes = .error x →
    k.model.decodeBytes bytes = .error .malformed
  value : ∀ v, (∃ a, k.model.read v = .ok a) ↔ Fits k.shape v
  /-- Other members than the declared ones do not matter. -/
  undeclared : ∀ ms, Fits k.shape (.object (ms.filter fun m => k.shape.spellings.contains m.1)) ↔
    Fits k.shape (.object ms)
  family : ∀ fault, (ClientError.undecodable k.model.title fault).family = .serialization

theorem shape_judged (k : Kind) : k.JudgesShape where
  text := k.decoded
  bytes bytes s h := by rw [Model.decodeBytes, h]
  undecodable bytes x h := by rw [Model.decodeBytes, h]
  value v := by
    rw [← k.judges.ok_iff, Model.read]
    simp only [mapError_eq_ok]
  undeclared ms := by cases k <;> exact fits_known_iff
  family _ := rfl

/-- Empty lists in each other. -/
def nested : ℕ → Value
  | 0 => .array []
  | n + 1 => .array [nested n]

theorem inside_nested (n : ℕ) : Inside n (nested n) (.array []) := by
  induction n with
  | zero => exact .here _
  | succ n ih => exact .item (List.mem_singleton.2 rfl) ih

theorem blanked_nested (n : ℕ) : (nested n).blanked = nested n := by
  induction n with
  | zero => rfl
  | succ n ih => rw [nested, Value.blanked, Value.blankedItems, ih, Value.blankedItems]

theorem legible_nested (n depth : ℕ) : Legible Model.unlimited depth (nested n) := by
  induction n generalizing depth with
  | zero => exact .array rfl (by simp)
  | succ n ih =>
    refine .array rfl fun v hv => ?_
    rw [List.mem_singleton.1 hv]
    exact ih (depth + 1)

/-- An object with an undeclared member in which empty lists stand in each other. -/
def deep (n : ℕ) : Value := .object [("x", nested n)]

theorem parse?_deep (n : ℕ) :
    Model.unlimited.parse? (Model.style.print (deep n)) = some (deep n) := by
  have hlegible : Legible Model.unlimited 0 (deep n) := by
    refine .object rfl fun m hm => ?_
    rw [List.mem_singleton.1 hm]
    exact legible_nested n 1
  have hblanked : (deep n).blanked = deep n := by
    rw [deep, Value.blanked, Value.blankedMembers_eq]
    simp [Dictionary.mapValues, blanked_nested]
  rw [Model.style_eq, hlegible.parse?_print Model.blanks_form, hblanked]

/-- A text can be rejected for what is in an undeclared member, if that is nested deep enough. -/
theorem deep_text_rejected : ∃ v, Model.unlimited.parse? (Model.style.print (deep 200)) = some v ∧
    Fits objectMeta.shape v ∧
      objectMeta.model.decodeText (Model.style.print (deep 200)) = .error .malformed := by
  refine ⟨deep 200, parse?_deep 200, ?_, ?_⟩
  · exact objectMeta.judges.ok_iff.1 ⟨_, rfl⟩
  · have hdeep : ¬ (deep 200).Within 200 := by
      intro hroom
      have hle := hroom 201 _ (.member (List.mem_singleton.2 rfl) (inside_nested 200))
      omega
    have hunread : Model.reader.parse? (Model.style.print (deep 200)) = none := by
      rw [Option.eq_none_iff_forall_ne_some]
      intro v hv
      obtain ⟨hparsed, hroom⟩ := Reader.parse?_limited_iff.1 hv
      obtain rfl := Option.some.inj ((parse?_deep 200).symm.trans hparsed)
      exact hdeep hroom
    rw [Model.decodeText, hunread]

end Kind

end BuildClient
