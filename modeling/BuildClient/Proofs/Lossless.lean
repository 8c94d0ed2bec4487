import BuildClient.Proofs.RoundTrip
import BuildClient.Proofs.Wire.Restated

/-! What a document becomes when it is read and written: nothing of it is lost but what is null. -/
namespace BuildClient

open Json Text Wire

variable {α β : Type}

namespace Wire

variable {c : Codec α} {P Q : Value → Prop} {g : Value → Value} {added : List (String × Value)}
  {inner : String → Value → Value} {key : String} {fs : List Field}

theorem Codec.Restates.mono (h : c.Restates P g) (hm : ∀ v, Q v → P v) : c.Restates Q g :=
  fun v a hv hread => h v a (hm _ hv) hread

theorem Codec.Restates.via {into : α → β} {back : β → α} (h : c.Restates P g)
    (hback : ∀ a, back (into a) = a) : (c.via into back).Restates P g := by
  intro v b hv hread
  obtain ⟨a, ha, rfl⟩ := map_eq_ok.1 hread
  rw [Codec.via_write hback]
  exact h v a hv ha

/-- Records are read from objects only. -/
theorem solid_of_read {into : Record fs → β} {back : β → Record fs} {v : Value} {b : β}
    (h : ((Record.codec fs).via into back).read v = .ok b) : v.isNull = false := by
  obtain ⟨rec, hrec, -⟩ := map_eq_ok.1 h
  obtain ⟨members, rfl, -⟩ := Record.read_eq_ok.1 hrec
  rfl

theorem textField_restates {other : Option String} (hg : ∀ v, g v = v)
    (h : key ∉ Dictionary.keys added) : (textField key other).Restates P g added where
  codec := by
    obtain rfl : g = id := funext hg
    exact Codec.text_restates.mono fun _ _ => trivial
  absent := ⟨.null, rfl, fun u => iff_of_false (fun hm => h (List.mem_map_of_mem hm))
    (by simp [Value.isNull])⟩

theorem textsField_restates (hg : ∀ v, g v = v)
    (h : ∀ u, (key, u) ∈ added ↔ u = .object []) : (textsField key).Restates P g added where
  codec := by
    obtain rfl : g = id := funext hg
    exact Codec.texts_restates.mono fun _ _ => trivial
  absent := ⟨.object [], rfl, fun u => (h u).trans (by simp [Value.isNull])⟩

theorem treeField_restates (hg : ∀ v, g v = v)
    (h : ∀ u, (key, u) ∈ added ↔ u = .object []) : (treeField key).Restates P g added where
  codec := by
    obtain rfl : g = id := funext hg
    exact Codec.tree_restates.mono fun _ _ => trivial
  absent := ⟨.object [], rfl, fun u => (h u).trans (by simp [Value.isNull])⟩

/-- Other spellings of declared members. -/
def otherNames : List String :=
  ["api_version", "resource_version", "creation_timestamp", "allow_env"]

/-- No member is under the other spelling of a declared one. -/
def Plain (v : Value) : Prop := ∀ name ∈ otherNames, v.member? name = none

/-- Data that holds what a record does is written as the tidied document, if no member of the
document is under another spelling. -/
theorem restates_of_restating {P : String → Value → Prop} {into : Record fs → β}
    {back : β → Record fs} (hfs : Restating fs P added inner) (hback : ∀ a, back (into a) = a)
    (hnames : ∀ f ∈ fs, ∀ k ∈ f.other, k ∈ otherNames) (hplain : ∀ v, Q v → Plain v)
    (hP : ∀ v, Q v → ∀ f ∈ fs, ∀ u, v.member? f.key = some u → P f.key u) :
    ((Record.codec fs).via into back).Restates Q (tidy added inner) :=
  ((Record.codec_restates hfs).mono fun v hv =>
    ⟨fun f hf k hk => hplain v hv k (hnames f hf k hk), hP v hv⟩).via hback

/-- The tidied metadata of an object that has none. -/
def bareMeta : Value := .object [("labels", .object []), ("annotations", .object [])]

def tidyMeta : Value → Value :=
  tidy [("labels", .object []), ("annotations", .object [])] fun _ v => v

def tidyManaged : Value → Value :=
  tidy [("metadata", bareMeta), ("spec", .object []), ("status", .object [])] fun k v =>
    if k = "metadata" then tidyMeta v else v

def tidyList : Value → Value :=
  tidy [] fun k v => if k = "items" then onItems tidyManaged v else v

def tidyRequest : Value → Value :=
  tidy [("metadata", bareMeta)] fun k v => if k = "metadata" then tidyMeta v else v

def tidyTrigger : Value → Value :=
  tidy [] fun k v => if k = "allowEnv" then .bool (stands v) else v

theorem metaFields_restating : Restating metaFields (fun _ _ => True)
    [("labels", .object []), ("annotations", .object [])] fun _ v => v where
  keys := by decide
  each := by
    have htext : ∀ key other, key ≠ "labels" → key ≠ "annotations" →
        (textField key other).Restates (fun _ => True) (fun v => v)
          [("labels", .object []), ("annotations", .object [])] := fun key other h h' =>
      textField_restates (fun _ => rfl) (by simp [Dictionary.keys, h, h'])
    have htexts : ∀ key, key = "labels" ∨ key = "annotations" →
        (textsField key).Restates (fun _ => True) (fun v => v)
          [("labels", .object []), ("annotations", .object [])] := fun key h =>
      textsField_restates (fun _ => rfl) fun u => by rcases h with rfl | rfl <;> simp
    simp [metaFields, htext, htexts]
  others _ _ _ := rfl
  declared := by decide
  nodup := by decide

theorem metaCodec_restates : metaCodec.Restates Plain tidyMeta :=
  restates_of_restating metaFields_restating (fun _ => rfl) (by decide) (fun _ => id)
    fun _ _ _ _ _ _ => trivial

theorem metaField_restates (hg : ∀ v, g v = tidyMeta v) (hp : ∀ v, P v → Plain v)
    (h : ∀ u, ("metadata", u) ∈ added ↔ u = bareMeta) : metaField.Restates P g added where
  codec := by
    obtain rfl : g = tidyMeta := funext hg
    exact metaCodec_restates.mono hp
  absent := ⟨bareMeta, rfl, fun u => (h u).trans (by simp [bareMeta, Value.isNull])⟩

/-- The objects of an object with metadata: itself, and those. -/
def managedPositions (v : Value) : List Value := v :: (v.member? "metadata").toList

theorem managedFields_restating : Restating managedFields (fun k v => k = "metadata" → Plain v)
    [("metadata", bareMeta), ("spec", .object []), ("status", .object [])] fun k v =>
      if k = "metadata" then tidyMeta v else v where
  keys := by decide
  each := by
    simp only [managedFields, versionField, kindField, List.forall_mem_cons, List.not_mem_nil,
      false_imp_iff, implies_true, and_true]
    refine ⟨textField_restates ?_ ?_, textField_restates ?_ ?_, metaField_restates ?_ ?_ ?_,
      treeField_restates ?_ ?_, treeField_restates ?_ ?_⟩ <;>
      simp [textField, treeField, metaField, Dictionary.keys]
  others k v h := by
    have hk : k ≠ "metadata" := fun he => h metaField (by simp [managedFields]) he.symm
    rw [if_neg hk]
  declared := by decide
  nodup := by decide

theorem plain_of_positions {v : Value} (hv : ∀ u ∈ managedPositions v, Plain u) :
    Plain v ∧ ∀ u, v.member? "metadata" = some u → Plain u := by
  refine ⟨hv v List.mem_cons_self, fun u hu => hv u (List.mem_cons_of_mem v ?_)⟩
  rw [hu]
  exact List.mem_singleton_self u

theorem managedCodec_restates :
    managedCodec.Restates (fun v => ∀ u ∈ managedPositions v, Plain u) tidyManaged :=
  restates_of_restating managedFields_restating (fun _ => rfl) (by decide)
    (fun _ hv => (plain_of_positions hv).1)
    fun _ hv _ _ u hu hk => (plain_of_positions hv).2 u (hk ▸ hu)

theorem itemsField_restates (hg : ∀ v, g v = onItems tidyManaged v)
    (hp : ∀ v, P v → ∀ u ∈ itemsOf v, ∀ t ∈ managedPositions u, Plain t)
    (h : "items" ∉ Dictionary.keys added) : itemsField.Restates P g added where
  codec := by
    obtain rfl : g = onItems tidyManaged := funext hg
    exact (Codec.list_restates managedCodec_restates fun _ _ hr => solid_of_read hr).mono hp
  absent := ⟨.null, rfl, fun u => iff_of_false (fun hm => h (List.mem_map_of_mem hm))
    (by simp [Value.isNull])⟩

theorem listFields_restating : Restating listFields
    (fun k v => k = "items" → ∀ u ∈ itemsOf v, ∀ t ∈ managedPositions u, Plain t) [] fun k v =>
      if k = "items" then onItems tidyManaged v else v where
  keys := by decide
  each := by
    simp only [listFields, versionField, kindField, List.forall_mem_cons, List.not_mem_nil,
      false_imp_iff, implies_true, and_true]
    refine ⟨textField_restates ?_ ?_, textField_restates ?_ ?_, itemsField_restates ?_ ?_ ?_⟩ <;>
      simp [textField, itemsField, Dictionary.keys]
  others k v h := by
    have hk : k ≠ "items" := fun he => h itemsField (by simp [listFields]) he.symm
    rw [if_neg hk]
  declared := by decide
  nodup := by decide

/-- The objects of a list: itself, and those of its items. -/
def listPositions (v : Value) : List Value :=
  v :: ((v.member? "items").elim [] itemsOf).flatMap managedPositions

theorem listCodec_restates :
    listCodec.Restates (fun v => ∀ u ∈ listPositions v, Plain u) tidyList := by
  refine restates_of_restating listFields_restating (fun _ => rfl) (by decide)
    (fun v hv => hv v List.mem_cons_self) fun v hv f _ items hitems hk u hu t ht => ?_
  refine hv t (List.mem_cons_of_mem v (List.mem_flatMap.2 ⟨u, ?_, ht⟩))
  rw [← hk, hitems]
  exact hu

theorem requestFields_restating : Restating requestFields (fun k v => k = "metadata" → Plain v)
    [("metadata", bareMeta)] fun k v => if k = "metadata" then tidyMeta v else v where
  keys := by decide
  each := by
    simp only [requestFields, versionField, kindField, List.forall_mem_cons, List.not_mem_nil,
      false_imp_iff, implies_true, and_true]
    refine ⟨textField_restates ?_ ?_, textField_restates ?_ ?_, metaField_restates ?_ ?_ ?_⟩ <;>
      simp [textField, metaField, Dictionary.keys]
  others k v h := by
    have hk : k ≠ "metadata" := fun he => h metaField (by simp [requestFields]) he.symm
    rw [if_neg hk]
  declared := by decide
  nodup := by decide

theorem requestCodec_restates :
    requestCodec.Restates (fun v => ∀ u ∈ managedPositions v, Plain u) tidyRequest :=
  restates_of_restating requestFields_restating (fun _ => rfl) (by decide)
    (fun _ hv => (plain_of_positions hv).1)
    fun _ hv _ _ u hu hk => (plain_of_positions hv).2 u (hk ▸ hu)

theorem allowEnvField_restates (hg : ∀ v, g v = .bool (stands v))
    (h : "allowEnv" ∉ Dictionary.keys added) : allowEnvField.Restates P g added where
  codec := by
    obtain rfl : g = fun v => .bool (stands v) := funext hg
    exact Codec.truth_restates.mono fun _ _ => trivial
  absent := ⟨.null, rfl, fun u => iff_of_false (fun hm => h (List.mem_map_of_mem hm))
    (by simp [Value.isNull])⟩

theorem triggerFields_restating : Restating triggerFields (fun _ _ => True) [] fun k v =>
    if k = "allowEnv" then .bool (stands v) else v where
  keys := by decide
  each := by
    simp only [triggerFields, List.forall_mem_cons, List.not_mem_nil,
      false_imp_iff, implies_true, and_true]
    refine ⟨textField_restates ?_ ?_, allowEnvField_restates ?_ ?_⟩ <;>
      simp [textField, Dictionary.keys]
  others k v h := by
    have hk : k ≠ "allowEnv" := fun he => h allowEnvField (by simp [triggerFields, allowEnvField])
      he.symm
    rw [if_neg hk]
  declared := by decide
  nodup := by decide

theorem triggerCodec_restates : triggerCodec.Restates Plain tidyTrigger :=
  restates_of_restating triggerFields_restating (fun _ => rfl) (by decide) (fun _ => id)
    fun _ _ _ _ _ _ => trivial

/-- A tidied document is finite if the document is. -/
theorem finite_tidy {v : Value} (hadded : ∀ m ∈ added, m.2.Finite)
    (hinner : ∀ k u, u.Finite → (inner k u).Finite) (h : v.Finite) :
    (tidy added inner v).Finite := by
  cases v with
  | object members =>
    have each : ∀ m ∈ members, m.2.Finite := by cases h with | object each => exact each
    refine .object fun m hm => ?_
    rcases mem_tidied.1 (show (m.1, m.2) ∈ _ from hm) with ⟨t, ht, -, he⟩ | ⟨ha, -⟩
    · exact he ▸ hinner m.1 t (each _ ht)
    · exact hadded m ha
  | _ => exact h

theorem finite_onItems {v : Value} (hg : ∀ u, u.Finite → (g u).Finite) (h : v.Finite) :
    (onItems g v).Finite := by
  cases v with
  | array items =>
    have each : ∀ u ∈ items, u.Finite := by cases h with | array each => exact each
    refine .array fun w hw => ?_
    obtain ⟨u, hu, rfl⟩ := List.mem_map.1 hw
    exact hg u (each u hu)
  | _ => exact h

theorem finite_nothing : (Value.object []).Finite := .object (by simp)

theorem finite_bareMeta : bareMeta.Finite := .object (by simp [finite_nothing])

theorem finite_tidyMeta {v : Value} (h : v.Finite) : (tidyMeta v).Finite :=
  finite_tidy (by simp [finite_nothing]) (fun _ _ => id) h

theorem finite_onMeta (k : String) {v : Value} (h : v.Finite) :
    (if k = "metadata" then tidyMeta v else v).Finite := by
  split
  · exact finite_tidyMeta h
  · exact h

theorem finite_tidyManaged {v : Value} (h : v.Finite) : (tidyManaged v).Finite :=
  finite_tidy (by simp [finite_nothing, finite_bareMeta]) (fun k _ => finite_onMeta k) h

theorem finite_tidyList {v : Value} (h : v.Finite) : (tidyList v).Finite := by
  refine finite_tidy (by simp) (fun k u hu => ?_) h
  split
  · exact finite_onItems (fun _ => finite_tidyManaged) hu
  · exact hu

theorem finite_tidyRequest {v : Value} (h : v.Finite) : (tidyRequest v).Finite :=
  finite_tidy (by simp [finite_bareMeta]) (fun k _ => finite_onMeta k) h

theorem finite_tidyTrigger {v : Value} (h : v.Finite) : (tidyTrigger v).Finite := by
  refine finite_tidy (by simp) (fun k u hu => ?_) h
  split
  · exact .bool _
  · exact hu

end Wire

namespace Kind

/-- The document as it is written again. Wherever a document of some kind stands, members that are
null are left out, containers that are missing are added, and truth values are spelled as such;
everything else stays as it is. -/
def tidied : Kind → Value → Value
  | objectMeta => tidyMeta
  | build => tidyManaged
  | buildConfig => tidyManaged
  | buildList => tidyList
  | buildRequest => tidyRequest
  | webHookTrigger => tidyTrigger

/-- The document, and the documents of some kind within it. -/
def positions : Kind → Value → List Value
  | objectMeta => fun v => [v]
  | build => managedPositions
  | buildConfig => managedPositions
  | buildList => listPositions
  | buildRequest => managedPositions
  | webHookTrigger => fun v => [v]

theorem restates (k : Kind) :
    k.model.codec.Restates (fun v => ∀ u ∈ k.positions v, Plain u) k.tidied := by
  cases k with
  | objectMeta => exact metaCodec_restates.mono fun v hv => hv v List.mem_cons_self
  | build => exact managedCodec_restates
  | buildConfig => exact managedCodec_restates
  | buildList => exact listCodec_restates
  | buildRequest => exact requestCodec_restates
  | webHookTrigger => exact triggerCodec_restates.mono fun v hv => hv v List.mem_cons_self

theorem solid (k : Kind) {v : Value} {a : k.Data} (h : k.model.codec.read v = .ok a) :
    v.isNull = false := by
  cases k <;> exact solid_of_read h

theorem finite_tidied (k : Kind) {v : Value} (h : v.Finite) : (k.tidied v).Finite := by
  cases k with
  | objectMeta => exact finite_tidyMeta h
  | build => exact finite_tidyManaged h
  | buildConfig => exact finite_tidyManaged h
  | buildList => exact finite_tidyList h
  | buildRequest => exact finite_tidyRequest h
  | webHookTrigger => exact finite_tidyTrigger h

/-- Whatever is read from a document is written as that document, tidied. -/
theorem document_tidied (k : Kind) {s : String} {v : Value} {a : k.Data}
    (hv : Model.reader.parse? s = some v) (ha : k.model.decodeText s = .ok a)
    (hplain : ∀ u ∈ k.positions v.settle, ∀ name ∈
      ["api_version", "resource_version", "creation_timestamp", "allow_env"], u.member? name = none)
    (hfinite : v.settle.Finite) :
    ∃ t u, k.model.encode a = .ok t ∧ Model.reader.parse? t = some u ∧
      u.Alike (k.tidied v.settle) := by
  obtain ⟨v', hv', hread⟩ := Model.decodeText_eq_ok.1 ha
  obtain rfl : v = v' := Option.some.inj (hv.symm.trans hv')
  obtain ⟨w, hw, -, halike⟩ := k.restates v a hplain hread
  obtain ⟨w', hw', hlegible, -⟩ := k.lawful a (Model.reads_of_decodeText ha)
  obtain rfl : w = w' := Except.ok.inj (hw.symm.trans hw')
  have hsame := halike (k.solid hread)
  have hblank : w.blanked = w := (Value.Finite.of_alike hsame (k.finite_tidied hfinite)).blanked
  have hparse := hlegible.parse?_print Model.blanks_form
  rw [hblank] at hparse
  exact ⟨_, w, Model.encode_eq_ok.2 ⟨w, hw, rfl⟩, hparse, hsame⟩

/-- The text of a list of one build, with nulls at every depth. -/
def listedText : String :=
  "\x7b\"items\":[\x7b\"metadata\":\x7b\"name\":\"b\",\"uid\":null\x7d," ++
    "\"spec\":\x7b\"x\":null\x7d,\"note\":[1,null]\x7d],\"kind\":null,\"pages\":2\x7d"

/-- The list that the text stands for. -/
def listed : Value :=
  .object [
    ("items", .array [.object [
      ("metadata", .object [("name", .string "b"), ("uid", .null)]),
      ("spec", .object [("x", .null)]),
      ("note", .array [.number (.int 1), .null])]]),
    ("kind", .null),
    ("pages", .number (.int 2))]

theorem finite_listed : listed.Finite := by
  have hmeta : (Value.object [("name", .string "b"), ("uid", .null)]).Finite :=
    .object (by simp [Value.Finite.string, Value.Finite.null])
  have hspec : (Value.object [("x", .null)]).Finite := .object (by simp [Value.Finite.null])
  have hnote : (Value.array [.number (.int 1), .null]).Finite :=
    .array (by simp [Value.Finite.int, Value.Finite.null])
  refine .object ?_
  simp only [List.forall_mem_cons, List.not_mem_nil, false_imp_iff, implies_true, and_true]
  refine ⟨.array ?_, .null, .int 2⟩
  simp only [List.forall_mem_cons, List.not_mem_nil, false_imp_iff, implies_true, and_true]
  exact .object (by simp [hmeta, hspec, hnote])

theorem document_tidied_listed : ∃ a,
    Model.reader.parse? listedText = some listed ∧ Model.buildList.decodeText listedText = .ok a ∧
    (∀ u ∈ positions .buildList listed.settle, ∀ name ∈
      ["api_version", "resource_version", "creation_timestamp", "allow_env"],
        u.member? name = none) ∧
    listed.settle.Finite ∧
    ∃ t u, Model.buildList.encode a = .ok t ∧ Model.reader.parse? t = some u ∧
      u.Alike (.object [
        ("items", .array [.object [
          ("metadata", .object [
            ("name", .string "b"), ("labels", .object []), ("annotations", .object [])]),
          ("spec", .object [("x", .null)]),
          ("note", .array [.number (.int 1), .null]),
          ("status", .object [])]]),
        ("pages", .number (.int 2))]) := by
  have hread : Model.reader.parse? listedText = some listed := by cbv
  have hplain : ∀ u ∈ positions .buildList listed.settle, ∀ name ∈
      ["api_version", "resource_version", "creation_timestamp", "allow_env"],
        u.member? name = none := by decide +kernel
  have hok : (Model.buildList.decodeText listedText).isOk = true := by decide +kernel
  have hsettled : listed.settle = listed := by rfl
  have hfinite : listed.settle.Finite := hsettled ▸ finite_listed
  cases ha : Model.buildList.decodeText listedText with
  | error e => simp [ha, Except.isOk, Except.toBool] at hok
  | ok a => exact ⟨a, hread, rfl, hplain, hfinite,
      document_tidied .buildList hread ha hplain hfinite⟩

end Kind

end BuildClient
