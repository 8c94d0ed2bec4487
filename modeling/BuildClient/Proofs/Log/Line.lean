import BuildClient.Log.Line
import BuildClient.Proofs.Json.ReadBack
import BuildClient.Proofs.Json.Unbroken
import BuildClient.Proofs.Log.Calendar

/-!
One record is one line. What was added for the record stands apart from its own members, so nothing
that is added can take their place.
-/
namespace BuildClient

open Json Text

namespace Json.Value

variable {v : Value}

/-- A text, a whole number, a truth value or nothing. -/
inductive Plain : Value → Prop
  | null : Plain .null
  | bool (b : Bool) : Plain (.bool b)
  | int (i : ℤ) : Plain (.number (.int i))
  | string (s : String) : Plain (.string s)

theorem Plain.finite (h : v.Plain) : v.Finite := by
  cases h with
  | null => exact .null
  | bool b => exact .bool b
  | int i => exact .int i
  | string s => exact .string s

theorem Plain.legible {r : Reader} {depth : ℕ} (h : v.Plain) (short : v.isShort = true)
    (room : r.tooDeep depth = false) : Legible r depth v := by
  cases h with
  | null => exact .null room
  | bool b => exact .bool room b
  | int i => exact .int room (of_decide_eq_true short)
  | string s => exact .string room s

/-- A whole number is short if it stays below a power of ten. -/
theorem isShort_int_iff {i : ℤ} : (int i).isShort = true ↔ i.natAbs < 10 ^ Numeral.maxDigits := by
  rw [int, isShort, Number.isShort, decide_eq_true_eq]
  exact Nat.length_toDigits_le_iff (by decide) (by decide)

end Json.Value

namespace Log.Record

variable {r : Record} {reader : Reader} {timestamp message name : String}

/-- A name that no record has by itself, and that is not private. -/
def Given (name : String) : Prop := name ∉ ownNames ∧ ∀ rest, name.toList ≠ '_' :: rest

theorem isAdded_iff : isAdded name = true ↔ Given name := by
  have hhead : name.toList.head? ≠ some '_' ↔ ∀ rest, name.toList ≠ '_' :: rest := by
    rw [Ne, List.head?_eq_some_iff, not_exists]
  rw [Given, ← hhead]
  simp [isAdded]

theorem mem_added {a : String × Value} : a ∈ r.added ↔ a ∈ r.attributes ∧ Given a.1 := by
  rw [added, List.mem_filter, isAdded_iff]

theorem added_eq_nil_iff : r.added = [] ↔ ∀ a ∈ r.attributes, ¬ Given a.1 := by
  simp only [List.eq_nil_iff_forall_not_mem, mem_added, not_and]

/-- The report of a failure that was logged along, if there is one. -/
def reported (r : Record) : Option Value := r.failure.map fun f => .string (report f)

/-- What a document tells of a record. -/
structure Tells (v : Value) (r : Record) (timestamp message : String) : Prop where
  /-- It is one object without repeated keys … -/
  single : ∃ members, v = .object members ∧ (Dictionary.keys members).Nodup
  /-- … and with no other keys than these. -/
  names : ∀ k, (v.member? k).isSome →
    k ∈ ["timestamp", "level", "logger", "message", "extra", "exception"]
  timestamp : v.member? "timestamp" = some (.string timestamp)
  level : v.member? "level" = some (.string r.level)
  logger : v.member? "logger" = some (.string r.logger)
  message : v.member? "message" = some (.string message)
  no_extra : v.member? "extra" = none ↔ ∀ a ∈ r.attributes, ¬ Given a.1
  /-- What was added keeps its order, its names and its values. -/
  extra : ∀ e, v.member? "extra" = some e → ∃ members, e = .object members ∧
    members.Sublist r.attributes ∧ ∀ a, a ∈ members ↔ a ∈ r.attributes ∧ Given a.1
  exception : v.member? "exception" = r.reported

/-- The keys of a document differ, and all in it is text but what was added. -/
theorem exists_document (r : Record) (timestamp message : String) :
    ∃ members, r.document timestamp message = .object members ∧
      (Dictionary.keys members).Nodup ∧
        ∀ m ∈ members, (∃ s, m.2 = .string s) ∨ m.2 = .object r.added := by
  refine ⟨_, rfl, ?nodup, fun m hm => ?_⟩
  case nodup => by_cases h : r.added.isEmpty <;> cases r.failure <;> simp [Dictionary.keys, h]
  simp only [List.mem_append, List.mem_cons, List.not_mem_nil, or_false, List.mem_map] at hm
  rcases hm with ((rfl | rfl | rfl | rfl) | hm) | ⟨f, -, rfl⟩
  · exact .inl ⟨_, rfl⟩
  · exact .inl ⟨_, rfl⟩
  · exact .inl ⟨_, rfl⟩
  · exact .inl ⟨_, rfl⟩
  · split at hm
    · exact absurd hm List.not_mem_nil
    · obtain rfl := List.mem_singleton.1 hm
      exact .inr rfl
  · exact .inl ⟨_, rfl⟩

theorem member?_document (r : Record) (timestamp message k : String) :
    (r.document timestamp message).member? k =
      if k = "timestamp" then some (.string timestamp)
      else if k = "level" then some (.string r.level)
      else if k = "logger" then some (.string r.logger)
      else if k = "message" then some (.string message)
      else if k = "extra" then (if r.added = [] then none else some (.object r.added))
      else if k = "exception" then r.reported
      else none := by
  obtain ⟨members, hd, hn, -⟩ := r.exists_document timestamp message
  rw [hd, Value.member?, ← Dictionary.get?_eq_getLast? hn]
  obtain rfl := Value.object.inj hd
  by_cases hk : k = "extra" <;> by_cases h : r.added = [] <;> cases hf : r.failure <;>
    simp [Dictionary.get?_cons, reported, hk, h, hf]

theorem tells_document (r : Record) (timestamp message : String) :
    Tells (r.document timestamp message) r timestamp message := by
  have hmember := r.member?_document timestamp message
  obtain ⟨members, hd, hn, -⟩ := r.exists_document timestamp message
  refine ⟨⟨members, hd, hn⟩, fun k hk => ?names, hmember _, hmember _, hmember _, hmember _, ?none,
    fun e he => ?extra, hmember _⟩
  case names =>
    rw [hmember] at hk
    simp only [List.mem_cons, List.not_mem_nil, or_false]
    by_contra hother
    simp only [not_or] at hother
    obtain ⟨h₁, h₂, h₃, h₄, h₅, h₆⟩ := hother
    rw [if_neg h₁, if_neg h₂, if_neg h₃, if_neg h₄, if_neg h₅, if_neg h₆] at hk
    cases hk
  case none =>
    rw [hmember, ← added_eq_nil_iff]
    by_cases h : r.added = [] <;> simp [h]
  case extra =>
    rw [hmember] at he
    by_cases h : r.added = []
    · simp [h] at he
    · have he : Value.object r.added = e := by simpa [h] using he
      exact ⟨r.added, he.symm, List.filter_sublist, fun a => mem_added⟩

theorem finite_document (timestamp message : String) (h : ∀ a ∈ r.added, a.2.Finite) :
    (r.document timestamp message).Finite := by
  obtain ⟨members, hd, -, heach⟩ := r.exists_document timestamp message
  rw [hd]
  refine .object fun m hm => ?_
  rcases heach m hm with ⟨s, hs⟩ | hextra
  · rw [hs]
    exact .string s
  · rw [hextra]
    exact .object h

theorem legible_document (timestamp message : String) (room : reader.tooDeep 2 = false)
    (h : ∀ a ∈ r.added, Legible reader 2 a.2) :
    Legible reader 0 (r.document timestamp message) := by
  have hroom : ∀ depth ≤ 2, reader.tooDeep depth = false := by
    intro depth hle
    cases hmax : reader.maxDepth with
    | none => simp [Reader.tooDeep, hmax]
    | some limit =>
      simp only [Reader.tooDeep, hmax, decide_eq_false_iff_not] at room ⊢
      omega
  obtain ⟨members, hd, -, heach⟩ := r.exists_document timestamp message
  rw [hd]
  refine .object (hroom 0 (by decide)) fun m hm => ?_
  rcases heach m hm with ⟨s, hs⟩ | hextra
  · rw [hs]
    exact .string (hroom 1 (by decide)) s
  · rw [hextra]
    exact .object (hroom 1 (by decide)) h

theorem isShort_document :
    (r.document timestamp message).isShort = true ↔ ∀ a ∈ r.added, a.2.isShort = true := by
  rw [document, Value.isShort, Value.membersShort_iff]
  by_cases h : r.added = [] <;> cases r.failure <;>
    simp [h, Value.isShort, Value.membersShort_iff]

theorem spaced_style : Spaced style where
  comma := ⟨[' '], by simp [style, Style.standard], by simp [Reader.isGap]⟩
  colon := ⟨[' '], by simp [style, Style.standard], by simp [Reader.isGap]⟩
  nothing := rfl
  yes := rfl
  no := rfl
  text := rfl

theorem even_style : style.Even where
  comma := by decide
  colon := by decide
  reals := ⟨by decide, by decide, by decide⟩
  nothing := by decide
  yes := by decide
  no := by decide
  text := unbroken_quoted

/-- The document of a record stands in its line, and nothing else does. -/
theorem line_of_document (timestamp message : String) (room : reader.tooDeep 2 = false)
    (h : ∀ a ∈ r.added, Legible reader 2 a.2 ∧ a.2.Finite) :
    Unbroken (style.print (r.document timestamp message)).toList ∧
      reader.parse? (style.print (r.document timestamp message)) =
        some (r.document timestamp message) := by
  constructor
  · rw [Style.print, String.toList_ofList]
    exact unbroken_chars even_style _
  · have hlegible := legible_document timestamp message room fun a ha => (h a ha).1
    have hfinite := finite_document timestamp message fun a ha => (h a ha).2
    exact hlegible.parse?_print_of_finite spaced_style hfinite

/-- The moment of the record has a date. -/
def Dated (r : Record) : Prop := ∃ m, Moment.ofNumber r.created = .ok m ∧ m.Dated

theorem exists_timestamp_iff : (∃ s, r.timestamp = .ok s) ↔ r.Dated := by
  simp only [timestamp, bind_eq_ok, Dated, ← Moment.exists_write_iff]
  exact ⟨fun ⟨s, m, hm, hs⟩ => ⟨m, hm, s, hs⟩, fun ⟨m, hm, s, hs⟩ => ⟨s, m, hm, hs⟩⟩

theorem write_of_undated {f : Moment.Fault} (ht : r.timestamp = .error f) :
    r.write = .error (.time f) := by
  rw [write, ht]
  rfl

theorem write_of_message_error {f : Fault} (ht : r.timestamp = .ok timestamp)
    (hm : r.message = .error f) : r.write = .error f := by
  rw [write, ht, hm]
  rfl

theorem write_of_ok (ht : r.timestamp = .ok timestamp) (hm : r.message = .ok message) :
    r.write = if (r.document timestamp message).isShort
      then .ok (style.print (r.document timestamp message)) else .error .tooManyDigits := by
  rw [write, ht, hm]
  rfl

theorem message_of_not_mem (h : messageMethod ∉ Dictionary.keys r.attributes) :
    r.message = (fillTemplate r.template r.args).mapError .template := by
  rw [Record.message, Dictionary.get?_eq_none_iff.2 h]

/-- An attribute in the place of the message's method keeps the record from being written. -/
theorem write_of_shadowed {u : Value} (ht : r.timestamp = .ok timestamp)
    (h : r.attributes.get? messageMethod = some u) :
    r.write = .error (.notCallable (Template.kindOf u)) := by
  refine write_of_message_error ht ?_
  rw [Record.message, h]

/-- All that can come of writing a record: a fault that the record is to blame for, or its line. -/
inductive Written (reader : Reader) (r : Record) : Except Fault String → Prop
  | undated {f : Moment.Fault} (undated : ¬ r.Dated) (time : r.timestamp = .error f) :
      Written reader r (.error (.time f))
  | unrendered {f : Template.Fault} (dated : r.Dated)
      (render : fillTemplate r.template r.args = .error f) :
      Written reader r (.error (.template f))
  | lengthy {message : String} {a : String × Value} (dated : r.Dated)
      (render : fillTemplate r.template r.args = .ok message) (mem : a ∈ r.attributes)
      (given : Given a.1) (long : a.2.isShort = false) : Written reader r (.error .tooManyDigits)
  | line {timestamp message line : String} {v : Value} (dated : r.Dated)
      (time : r.timestamp = .ok timestamp) (render : fillTemplate r.template r.args = .ok message)
      (short : ∀ a ∈ r.attributes, Given a.1 → a.2.isShort = true)
      (unbroken : Unbroken line.toList) (read : reader.parse? line = some v)
      (tells : Tells v r timestamp message) : Written reader r (.ok line)

theorem written_of_legible (room : reader.tooDeep 2 = false)
    (unshadowed : messageMethod ∉ Dictionary.keys r.attributes)
    (h : ∀ a ∈ r.added, a.2.isShort = true → Legible reader 2 a.2 ∧ a.2.Finite) :
    Written reader r r.write := by
  have hmessage := message_of_not_mem unshadowed
  cases ht : r.timestamp with
  | error f =>
    have hundated : ¬ r.Dated := by
      rintro hdated
      obtain ⟨s, hs⟩ := exists_timestamp_iff.2 hdated
      rw [ht] at hs
      cases hs
    rw [write_of_undated ht]
    exact .undated hundated ht
  | ok timestamp =>
    have hdated : r.Dated := exists_timestamp_iff.1 ⟨timestamp, ht⟩
    cases hrender : fillTemplate r.template r.args with
    | error f =>
      rw [hrender] at hmessage
      rw [write_of_message_error ht hmessage]
      exact .unrendered hdated hrender
    | ok message =>
      rw [hrender] at hmessage
      rw [write_of_ok ht hmessage]
      split
      · rename_i hshort
        have heach := isShort_document.1 hshort
        obtain ⟨hunbroken, hread⟩ :=
          line_of_document timestamp message room fun a ha => h a ha (heach a ha)
        exact .line hdated ht hrender (fun a ha hgiven => heach a (mem_added.2 ⟨ha, hgiven⟩))
          hunbroken hread (tells_document r timestamp message)
      · rename_i hlong
        rw [isShort_document] at hlong
        push Not at hlong
        obtain ⟨a, ha, hlong⟩ := hlong
        obtain ⟨hmem, hgiven⟩ := mem_added.1 ha
        exact .lengthy hdated hrender hmem hgiven (Bool.eq_false_iff.2 hlong)

/-- Everything that was added is a text, a whole number, a truth value or nothing. -/
def Plain (r : Record) : Prop := ∀ a ∈ r.attributes, Given a.1 → a.2.Plain

/-- A record is written in one line that tells of the record and of all that was added for it, if
its moment has a date, its message can be rendered and its numbers are short; otherwise the fault
says which of them fails. -/
theorem written_in_line (reader : Reader) (room : reader.tooDeep 2 = false) (r : Record)
    (plain : r.Plain) (unshadowed : messageMethod ∉ Dictionary.keys r.attributes) :
    Written reader r r.write := by
  refine written_of_legible room unshadowed fun a ha short => ?_
  obtain ⟨hmem, hgiven⟩ := mem_added.1 ha
  have hplain := plain a hmem hgiven
  exact ⟨hplain.legible short room, hplain.finite⟩

/-- A record of a broken message, with attributes that are named like its own members. -/
def broken : Record :=
  ⟨.int 951782400, "ERROR", "app", .string "said %s", [.string "\"a\\\n"],
    [("level", .string "mine"), ("lineno", .int 7), ("_seen", .null), ("key\n", .bool true),
      ("count", .int (-5))], some (none, ⟨"called\n", .client (.transport "cut\noff")⟩)⟩

theorem written_in_line_broken : broken.Plain ∧
    messageMethod ∉ Dictionary.keys broken.attributes ∧
    ∃ line v, broken.write = .ok line ∧ Unbroken line.toList ∧
      Reader.parse? ⟨none, true⟩ line = some v ∧
      Tells v broken "2000-02-29T00:00:00+00:00" "said \"a\\\n" := by
  have hplain : broken.Plain := by
    intro a ha _
    simp only [broken, List.mem_cons, List.not_mem_nil, or_false] at ha
    rcases ha with rfl | rfl | rfl | rfl | rfl
    · exact .string "mine"
    · exact .int 7
    · exact .null
    · exact .bool true
    · exact .int (-5)
  have hshown : messageMethod ∉ Dictionary.keys broken.attributes := by decide
  have htime : broken.timestamp = .ok "2000-02-29T00:00:00+00:00" := by decide +kernel
  have hrender : fillTemplate broken.template broken.args = .ok "said \"a\\\n" := by decide +kernel
  have hdated : broken.Dated := exists_timestamp_iff.1 ⟨_, htime⟩
  have hwritten := written_in_line ⟨none, true⟩ rfl broken hplain hshown
  generalize broken.write = result at hwritten ⊢
  cases hwritten with
  | undated undated time => exact absurd hdated undated
  | unrendered dated render => rw [hrender] at render; cases render
  | lengthy dated render mem given long =>
    have hshort : ∀ a ∈ broken.attributes, a.2.isShort = true := by decide
    rw [hshort _ mem] at long
    cases long
  | line dated time render short unbroken read tells =>
    obtain rfl := Except.ok.inj (htime.symm.trans time)
    obtain rfl := Except.ok.inj (hrender.symm.trans render)
    exact ⟨hplain, hshown, _, _, rfl, unbroken, read, tells⟩

/-- A record with nothing about it. -/
def ordinary : Record := ⟨.int 0, "INFO", "app", .string "m", [], [], none⟩

/-- A record of the first second of year 10000. -/
def late : Record := { ordinary with created := .int 253402300800 }

/-- A record with a number that has one digit too many. -/
def lengthy : Record := { ordinary with attributes := [("n", .int (10 ^ Numeral.maxDigits))] }

/-- A record with an attribute in the place of the message's method. -/
def shadowing : Record := { ordinary with attributes := [("getMessage", .string "x")] }

theorem lengthy_message : lengthy.message = .ok "m" := by
  have hrender : fillTemplate lengthy.template lengthy.args = .ok "m" := by decide +kernel
  rw [message_of_not_mem (by decide), hrender]
  rfl

theorem lengthy_not_short : (lengthy.document timestamp message).isShort ≠ true := by
  intro h
  have hmem : ("n", Value.int (10 ^ Numeral.maxDigits)) ∈ lengthy.added :=
    mem_added.2 ⟨List.mem_singleton_self _, isAdded_iff.1 rfl⟩
  have hshort := Value.isShort_int_iff.1 (isShort_document.1 h _ hmem)
  have hten : (10 : ℤ).natAbs = 10 := rfl
  rw [Int.natAbs_pow, hten] at hshort
  exact lt_irrefl _ hshort

/-- Records of plain texts and numbers that have no line. -/
theorem records_without_line :
    (late.Plain ∧ late.write = .error (.time (.yearOutOfRange 10000))) ∧
      (lengthy.Plain ∧ lengthy.write = .error .tooManyDigits) ∧
      shadowing.Plain ∧ shadowing.write = .error (.notCallable "str") := by
  -- Attributes do not change the moment of a record.
  have htime : ordinary.timestamp = .ok "1970-01-01T00:00:00+00:00" := by decide +kernel
  have hlengthy : lengthy.timestamp = .ok "1970-01-01T00:00:00+00:00" := htime
  have hshadowing : shadowing.timestamp = .ok "1970-01-01T00:00:00+00:00" := htime
  refine ⟨⟨nofun, write_of_undated (by decide +kernel)⟩, ⟨?_, ?_⟩, ?_, ?_⟩
  · intro a ha _
    obtain rfl := List.mem_singleton.1 ha
    exact .int _
  · rw [write_of_ok hlengthy lengthy_message, if_neg lengthy_not_short]
  · intro a ha _
    obtain rfl := List.mem_singleton.1 ha
    exact .string "x"
  · exact write_of_shadowed hshadowing rfl

end Log.Record

end BuildClient
