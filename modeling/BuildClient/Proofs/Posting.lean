import BuildClient.Proofs.Exchange
import BuildClient.Proofs.Lengths
import BuildClient.Proofs.RoundTrip

/-! What is posted to start a build: the request as it is written, with version and kind filled in
where they are missing. -/
namespace BuildClient

open Json Text Wire Http

variable {σ : Type} {key : String} {other o : Option String} {fs : List Field}
  {members ms : List (String × Value)} {q : BuildRequest}

namespace Wire

/-- The text that a member gives; a member that is missing or null gives none. -/
inductive Gives : Option Value → Option String → Prop
  | absent : Gives none none
  | null : Gives (some .null) none
  | text (s : String) : Gives (some (.string s)) (some s)

theorem gives_of_read {v : Value} (h : Codec.text.read v = .ok o) : Gives (some v) o := by
  cases v with
  | null => cases h; exact .null
  | string s => cases h; exact .text s
  | bool b => cases h
  | number n => cases h
  | array items => cases h
  | object members => cases h

/-- A text is read of its member, or else of the member under the other spelling. -/
theorem textField_read (h : (textField key other).read members = .ok o) :
    Gives ((Dictionary.getLast? key members).or
      (other.bind fun k => Dictionary.getLast? k members)) o := by
  have hread : ∀ k v, Dictionary.getLast? k members = some v →
      (textField key other).spelling? members = some k → Gives (some v) o := by
    intro k v hv hk
    rw [Field.read, hk] at h
    simp only [hv] at h
    exact gives_of_read (Checked.within_eq_ok.1 h)
  cases hkey : Dictionary.getLast? key members with
  | some v => exact hread key v hkey (by simp [Field.spelling?, textField, hkey])
  | none =>
    cases hother : other.bind fun k => Dictionary.getLast? k members with
    | some v =>
      obtain ⟨k, rfl, hk⟩ := Option.bind_eq_some_iff.1 hother
      exact hread k v hk (by simp [Field.spelling?, textField, hkey, hk])
    | none =>
      have hnone : (textField key other).spelling? members = none := by
        cases other with
        | none => simp [Field.spelling?, textField, hkey]
        | some k =>
          have hk : Dictionary.getLast? k members = none := by simpa using hother
          simp [Field.spelling?, textField, hkey, hk]
      rw [Field.read_absent hnone] at h
      cases h
      exact .absent

/-- A text as a member, if there is one. -/
def textMember (key : String) (o : Option String) : List (String × Value) :=
  (o.map fun s => (key, .string s)).toList

theorem write_textField {row : Row (textField key other :: fs)} :
    Row.write (textField key other :: fs) row = .ok ms ↔
      ∃ rest, Row.write fs row.2 = .ok rest ∧ textMember key row.1 ++ rest = ms := by
  have hmember : ∀ (o : Option String) (w : Value) (rest : List (String × Value)),
      Codec.text.write o = .ok w →
        (if w.isNull then rest else (key, w) :: rest) = textMember key o ++ rest := by
    intro o w rest hw
    cases hw
    cases o <;> rfl
  rw [Row.write_cons]
  constructor
  · rintro ⟨w, rest, hw, hrest, rfl⟩
    exact ⟨rest, hrest, (hmember row.1 w rest hw).symm⟩
  · rintro ⟨rest, hrest, rfl⟩
    exact ⟨_, rest, rfl, hrest, hmember row.1 _ rest rfl⟩

/-- Metadata are never left out. -/
theorem write_metaField {row : Row [metaField]} : Row.write [metaField] row = .ok ms ↔
    ∃ w, metaCodec.write row.1 = .ok w ∧ [("metadata", w)] = ms := by
  have hsolid : ∀ w, metaCodec.write row.1 = .ok w → w.isNull = false := by
    intro w hw
    by_contra hnull
    obtain rfl := Value.eq_null_of_isNull (Bool.of_not_eq_false hnull)
    exact Record.write_ne_null hw
  rw [Row.write_cons]
  constructor
  · rintro ⟨w, rest, hw, hrest, rfl⟩
    cases hrest
    exact ⟨w, hw, by simp [hsolid w hw, metaField]⟩
  · rintro ⟨w, hw, rfl⟩
    exact ⟨w, [], hw, rfl, by simp [hsolid w hw, metaField]⟩

/-- What is written of the declared members of a request. -/
theorem write_requestFields {row : Row requestFields} :
    Row.write requestFields row = .ok ms ↔
      ∃ w, metaCodec.write row.2.2.1 = .ok w ∧
        textMember "apiVersion" row.1 ++ (textMember "kind" row.2.1 ++ [("metadata", w)]) = ms := by
  have hfirst : Row.write requestFields row = .ok ms ↔
      ∃ rest, Row.write [kindField, metaField] row.2 = .ok rest ∧
        textMember "apiVersion" row.1 ++ rest = ms := write_textField
  have hsecond : ∀ rest, Row.write [kindField, metaField] row.2 = .ok rest ↔
      ∃ last, Row.write [metaField] row.2.2 = .ok last ∧
        textMember "kind" row.2.1 ++ last = rest := fun _ => write_textField
  rw [hfirst]
  constructor
  · rintro ⟨rest, hrest, rfl⟩
    obtain ⟨last, hlast, rfl⟩ := (hsecond rest).1 hrest
    obtain ⟨w, hw, rfl⟩ := write_metaField.1 hlast
    exact ⟨w, hw, rfl⟩
  · rintro ⟨w, hw, rfl⟩
    exact ⟨_, (hsecond _).2 ⟨_, write_metaField.2 ⟨w, hw, rfl⟩, rfl⟩, rfl⟩

end Wire

namespace BuildRequest

/-- What stands in the posted request for a member: its own text, unless that is missing, null or
empty. -/
inductive Filled (fallback : String) : Option Value → String → Prop
  | own {s : String} (h : s ≠ "") : Filled fallback (some (.string s)) s
  | empty : Filled fallback (some (.string "")) fallback
  | null : Filled fallback (some .null) fallback
  | absent : Filled fallback none fallback

theorem filled_orElse {member : Option Value} (h : Gives member o) (fallback : String) :
    Filled fallback member (orElse o fallback) := by
  cases h with
  | absent => exact .absent
  | null => exact .null
  | text s =>
    by_cases hs : s = ""
    · subst s
      exact .empty
    · have he : orElse (some s) fallback = s := by simp [orElse, hs]
      rw [he]
      exact .own hs

theorem withApiVersion_idempotent (q : BuildRequest) :
    q.withApiVersion.withApiVersion = q.withApiVersion := by
  have horElse : ∀ (o : Option String) (fallback : String),
      orElse (some (orElse o fallback)) fallback = orElse o fallback := by
    intro o fallback
    cases o with
    | none => simp [orElse]
    | some s => by_cases hs : s = "" <;> simp [orElse, hs]
  simp [withApiVersion, horElse]

/-- What a request has from its document. -/
structure ReadFrom (q : BuildRequest) (members : List (String × Value)) : Prop where
  version : Gives ((Dictionary.getLast? "apiVersion" members).or
    (Dictionary.getLast? "api_version" members)) q.apiVersion
  kind : Gives (Dictionary.getLast? "kind" members) q.kind
  extra : q.extra = Record.undeclared requestFields members

theorem readFrom_of_read (h : requestCodec.read (.object members) = .ok q) :
    q.ReadFrom members := by
  obtain ⟨rec, hrec, rfl⟩ := map_eq_ok.1 h
  obtain ⟨members', hmembers, hrow, hextra⟩ := Record.read_eq_ok.1 hrec
  obtain rfl : members = members' := Value.object.inj hmembers
  obtain ⟨hversion, hrest⟩ := Row.read_cons.1 hrow
  obtain ⟨hkind, -⟩ := Row.read_cons.1 hrest
  refine ⟨textField_read hversion, ?_, hextra⟩
  have hgiven := textField_read hkind
  rwa [Option.bind_none, Option.or_none] at hgiven

/-- However version and kind are filled in, the same members are written after them. -/
theorem exists_rest (hq : q.ReadFrom members)
    (hw : ∃ w, metaCodec.write q.metadata = .ok w) :
    ∃ rest, ∀ version kind,
      requestCodec.write { q with apiVersion := version, kind := kind } =
        .ok (.object (textMember "apiVersion" version ++ (textMember "kind" kind ++ rest))) ∧
      (Dictionary.keys (textMember "apiVersion" version ++
        (textMember "kind" kind ++ rest))).Nodup := by
  obtain ⟨w, hw⟩ := hw
  refine ⟨("metadata", w) :: Record.shown requestFields members, ?_⟩
  intro version kind
  have hrow : Row.write requestFields (version, kind, q.metadata, ()) =
      .ok (textMember "apiVersion" version ++ (textMember "kind" kind ++ [("metadata", w)])) :=
    write_requestFields.2 ⟨w, hw, rfl⟩
  have hkeys : (requestFields.map Field.key).Nodup := by decide
  refine ⟨(Record.write_eq_ok hq.extra).2 ⟨_, hrow, ?_⟩, ?_⟩
  · simp
  · have hnodup : (Dictionary.keys (_ ++ Record.shown requestFields members)).Nodup :=
      Record.nodup_written hkeys hrow
    simpa using hnodup

theorem mapValues_textMember (key : String) (o : Option String) :
    Dictionary.mapValues Value.blanked (textMember key o) = textMember key o := by
  cases o <;> rfl

theorem legible_of_mem_textMember {m : String × Value} (h : m ∈ textMember key o) :
    Legible Model.reader 1 m.2 := by
  cases o with
  | none => cases h
  | some s =>
    obtain rfl : m = (key, .string s) := by simpa [textMember] using h
    exact .string rfl s

/-- Filling in texts leaves a document legible. -/
theorem legible_refilled {version kind : Option String} {rest : List (String × Value)}
    (h : Legible Model.reader 0
      (.object (textMember "apiVersion" version ++ (textMember "kind" kind ++ rest))))
    (version' kind' : Option String) : Legible Model.reader 0
      (.object (textMember "apiVersion" version' ++ (textMember "kind" kind' ++ rest))) := by
  cases h with
  | object hd each =>
    refine .object hd ?_
    intro m hm
    rcases List.mem_append.1 hm with hm | hm
    · exact legible_of_mem_textMember hm
    rcases List.mem_append.1 hm with hm | hm
    · exact legible_of_mem_textMember hm
    · exact each m (by simp [hm])

theorem blanked_refilled (version kind : Option String) (rest : List (String × Value)) :
    Dictionary.mapValues Value.blanked
        (textMember "apiVersion" version ++ (textMember "kind" kind ++ rest)) =
      textMember "apiVersion" version ++
        (textMember "kind" kind ++ Dictionary.mapValues Value.blanked rest) := by
  rw [Dictionary.mapValues_append, Dictionary.mapValues_append, mapValues_textMember,
    mapValues_textMember]

/-- The text of what is written, with version and kind filled in somehow. -/
theorem exists_texts {v : Value} (hl : Legible Model.reader 0 v)
    (hread : requestCodec.read v = .ok q) (hq : q.ReadFrom members) :
    ∃ rest, ∀ version kind, ∃ text,
      Model.buildRequest.encode { q with apiVersion := version, kind := kind } = .ok text ∧
      Model.reader.parse? text =
        some (.object (textMember "apiVersion" version ++ (textMember "kind" kind ++ rest))) ∧
      (Dictionary.keys (textMember "apiVersion" version ++
        (textMember "kind" kind ++ rest))).Nodup := by
  obtain ⟨w, hw, hlegible, -⟩ := requestCodec_lawful (by decide) q ⟨v, hl, hread⟩
  obtain ⟨ms, hms, -⟩ := (Record.write_eq_ok hq.extra).1 hw
  obtain ⟨u, hu, -⟩ := write_requestFields.1 hms
  obtain ⟨rest, hrest⟩ := exists_rest hq ⟨u, hu⟩
  refine ⟨Dictionary.mapValues Value.blanked rest, ?_⟩
  intro version kind
  obtain ⟨hwrite, hnodup⟩ := hrest version kind
  have hself := (hrest q.apiVersion q.kind).1
  obtain rfl := Except.ok.inj (hw.symm.trans hself)
  have hparse := (legible_refilled hlegible version kind).parse?_print Model.blanks_form
  have hblank := blanked_refilled version kind rest
  rw [Value.blanked, Value.blankedMembers_eq, hblank] at hparse
  refine ⟨_, Model.encode_eq_ok.2 ⟨_, hwrite, rfl⟩, hparse, ?_⟩
  rw [← hblank, Dictionary.keys_mapValues]
  exact hnodup

end BuildRequest

namespace Operations

/-- The text is posted once to start a build, as soon as all else is ready. -/
def Posts (o : Operations σ) (q : BuildRequest) (text : String) : Prop :=
  ∀ service w,
    (∃ x, o.readyToInstantiate q = .error x) ∧ (o.instantiate q service w).2.sent = w.sent ∨
    (∃ ready, o.readyToInstantiate q = .ok ready) ∧
      ∃ s, (o.instantiate q service w).2.sent = w.sent ++ [s] ∧ s.method = "POST" ∧
        s.body = .text text

theorem posts_of_encode (o : Operations σ) {text : String}
    (h : Model.buildRequest.encode q.withApiVersion = .ok text) : o.Posts q text := by
  intro service w
  have hs := instantiate_settles (o := o) q service w
  obtain ⟨trace, htrace, heach⟩ := sends_instantiate (o := o) q service w
  generalize o.instantiate q service w = ended at hs htrace
  cases hs with
  | stopped log hb => exact .inl ⟨⟨_, hb⟩, rfl⟩
  | @sent e r result log hb after =>
    refine .inr ⟨⟨_, hb⟩, _, rfl, ?_⟩
    obtain rfl : [_] = trace := List.append_cancel_left htrace
    obtain ⟨text', htext, hposts⟩ := heach _ List.mem_cons_self
    obtain rfl : text = text' := Except.ok.inj (h.symm.trans htext)
    exact ⟨hposts.method, hposts.body⟩

end Operations

/-- Whatever a request was read from, it is posted as it is written itself, but for its version and
its kind: these are its own, and filled in where they are missing, null or empty. Metadata and
undeclared members are the same, and filling in a second time changes nothing. -/
theorem BuildRequest.posted_as_written {text : String}
    (hparse : Model.reader.parse? text = some (.object members))
    (hq : Model.buildRequest.decodeText text = .ok q) :
    ∃ written posted version kind rest,
      Model.buildRequest.encode q = .ok written ∧
      Model.reader.parse? written = some (.object
        (textMember "apiVersion" q.apiVersion ++ (textMember "kind" q.kind ++ rest))) ∧
      Model.buildRequest.encode q.withApiVersion = .ok posted ∧
      Model.reader.parse? posted = some (.object
        (("apiVersion", .string version) :: ("kind", .string kind) :: rest)) ∧
      (Dictionary.keys
        (("apiVersion", .string version) :: ("kind", .string kind) :: rest)).Nodup ∧
      Filled "build.openshift.io/v1" ((Dictionary.getLast? "apiVersion" members).or
        (Dictionary.getLast? "api_version" members)) version ∧
      Filled "BuildRequest" (Dictionary.getLast? "kind" members) kind ∧
      (∀ (σ : Type) (o : Operations σ), o.Posts q posted) ∧
      q.withApiVersion.withApiVersion = q.withApiVersion := by
  obtain ⟨v, hv, hread⟩ := Model.decodeText_eq_ok.1 hq
  obtain rfl : .object members = v := Option.some.inj (hparse.symm.trans hv)
  have hfrom := readFrom_of_read hread
  obtain ⟨rest, htexts⟩ := exists_texts (Reader.legible_of_parse? hparse) hread hfrom
  obtain ⟨written, hwritten, hown, -⟩ := htexts q.apiVersion q.kind
  obtain ⟨posted, hposted, hfilled, hnodup⟩ :=
    htexts (some (orElse q.apiVersion buildApiVersion)) (some (orElse q.kind "BuildRequest"))
  exact ⟨written, posted, _, _, rest, hwritten, hown, hposted, hfilled, hnodup,
    filled_orElse hfrom.version _, filled_orElse hfrom.kind _,
    fun _ o => o.posts_of_encode hposted, withApiVersion_idempotent q⟩

/-- A request whose version is empty under its own name, and not under another. -/
def twiceVersionedText : String :=
  "\x7b\"apiVersion\":\"\",\"api_version\":\"v0\",\"kind\":null," ++
    "\"env\":[\x7b\"a\":null\x7d],\"metadata\":\x7b\"name\":\"n\",\"uid\":null\x7d\x7d"

def twiceVersioned : List (String × Value) :=
  [("apiVersion", .string ""), ("api_version", .string "v0"), ("kind", .null),
    ("env", .array [.object [("a", .null)]]),
    ("metadata", .object [("name", .string "n"), ("uid", .null)])]

theorem BuildRequest.posted_as_written_twice : ∃ q posted rest,
    Model.reader.parse? twiceVersionedText = some (.object twiceVersioned) ∧
    Model.buildRequest.decodeText twiceVersionedText = .ok q ∧
    Model.buildRequest.encode q.withApiVersion = .ok posted ∧
    Model.reader.parse? posted = some (.object
      (("apiVersion", .string "build.openshift.io/v1") :: ("kind", .string "BuildRequest") ::
        rest)) := by
  have hparse : Model.reader.parse? twiceVersionedText = some (.object twiceVersioned) := by cbv
  have hok : (Model.buildRequest.decodeText twiceVersionedText).isOk = true := by decide +kernel
  cases hq : Model.buildRequest.decodeText twiceVersionedText with
  | error x => simp [hq, Except.isOk, Except.toBool] at hok
  | ok q =>
    obtain ⟨written, posted, version, kind, rest, -, -, hposted, hread, -, hversion, hkind, -⟩ :=
      posted_as_written hparse hq
    have hversion' : (Dictionary.getLast? "apiVersion" twiceVersioned).or
        (Dictionary.getLast? "api_version" twiceVersioned) = some (.string "") := rfl
    have hkind' : Dictionary.getLast? "kind" twiceVersioned = some .null := rfl
    rw [hversion'] at hversion
    rw [hkind'] at hkind
    cases hkind
    cases hversion with
    | own hne => exact absurd rfl hne
    | empty => exact ⟨q, posted, rest, hparse, rfl, hposted, hread⟩

end BuildClient
