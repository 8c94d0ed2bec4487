import BuildClient.Proofs.Json.Alike
import BuildClient.Proofs.Json.Legible
import BuildClient.Proofs.Json.Texts

/-!
What is written is read back, whatever gaps are left between its parts. Where numbers that are not
finite are written as blanks, everything else comes back as it was.
-/
namespace BuildClient.Json

open Text

-- Powers are those that core defines.
attribute [local instance (2000)] instPowNat

variable {r : Reader} {depth : ℕ} {v : Value} {rest : List Char}

/-- What starts a value: no gap, and not the end of a container. -/
def Starts (s : List Char) : Prop :=
  ∃ c t, s = c :: t ∧ Reader.isGap c = false ∧ c ≠ ']' ∧ c ≠ '}'

theorem Starts.skip {s : List Char} (h : Starts s) : Reader.skip s = s := by
  obtain ⟨c, t, rfl, hc, -⟩ := h
  rw [Reader.skip, List.dropWhile_cons_of_neg (by simp [hc])]

theorem isGap_of_isDigit {c : Char} (h : c.isDigit = true) : Reader.isGap c = false := by
  rw [Reader.isGap]
  simp only [Bool.or_eq_false_iff, beq_eq_false_iff_ne]
  refine ⟨⟨⟨?_, ?_⟩, ?_⟩, ?_⟩ <;> rintro rfl <;> revert h <;> decide

theorem starts_of_number? {negative : Bool} {s : List Char} {p : Number × List Char}
    (h : Reader.number? negative s = some p) :
    Starts s ∧ s.head? ≠ some '[' ∧ s.head? ≠ some '{' := by
  obtain ⟨c, t, rfl, hc⟩ := Reader.head_of_number? h
  have hne : ∀ a : Char, a.isDigit = false → c ≠ a := by
    rintro a ha rfl
    rw [hc] at ha
    cases ha
  refine ⟨⟨c, t, rfl, isGap_of_isDigit hc, hne _ (by decide), hne _ (by decide)⟩, ?_, ?_⟩
  · simpa using hne '[' (by decide)
  · simpa using hne '{' (by decide)

theorem starts_of_scalar? {s : List Char} {p : Value × List Char} (h : r.scalar? s = some p) :
    Starts s ∧ s.head? ≠ some '[' ∧ s.head? ≠ some '{' := by
  unfold Reader.scalar? at h
  split at h
  case h_9 =>
    obtain ⟨q, hq, -⟩ := Option.map_eq_some_iff.1 h
    exact starts_of_number? hq
  all_goals exact ⟨⟨_, _, rfl, by decide, by decide, by decide⟩, by simp, by simp⟩

theorem value?_of_scalar? {s : List Char} {p : Value × List Char} (fuel : ℕ)
    (hd : r.tooDeep depth = false) (h : r.scalar? s = some p) :
    r.value? (fuel + 1) depth s = some p := by
  obtain ⟨-, hl, hb⟩ := starts_of_scalar? h
  rw [Reader.value?, if_neg (by simp [hd]), h]
  · rintro t rfl
    exact hl rfl
  · rintro t rfl
    exact hb rfl

theorem starts_of_value? {fuel : ℕ} {s : List Char} {p : Value × List Char}
    (h : r.value? fuel depth s = some p) : Starts s := by
  cases fuel with
  | zero => cases h
  | succ fuel =>
    unfold Reader.value? at h
    split at h
    · cases h
    · split at h
      · exact ⟨_, _, rfl, by decide, by decide, by decide⟩
      · exact ⟨_, _, rfl, by decide, by decide, by decide⟩
      · exact (starts_of_scalar? h).1

theorem endsNumber_cons {c : Char} (h : c.isDigit = false ∧ c ≠ '.' ∧ c ≠ 'e' ∧ c ≠ 'E')
    (rest : List Char) : EndsNumber (c :: rest) := by
  rintro d ⟨⟩
  exact h

theorem scalar?_null (rest : List Char) :
    r.scalar? ("null".toList ++ rest) = some (.null, rest) := rfl

theorem scalar?_bool (b : Bool) (rest : List Char) :
    r.scalar? ((if b then "true" else "false").toList ++ rest) = some (.bool b, rest) := by
  cases b <;> rfl

theorem scalar?_quoted (s : String) (rest : List Char) :
    r.scalar? (quoted s ++ rest) = some (.string s, rest) := by
  have h := Reader.text?_quoted r s rest
  simp only [quoted, List.cons_append, List.append_assoc, List.nil_append]
  rw [Reader.scalar?, h]
  rfl

/-- The standard notation, with any gaps behind its commas and colons. -/
structure Spaced (style : Style) : Prop where
  comma : ∃ gap, style.comma.toList = ',' :: gap ∧ ∀ c ∈ gap, Reader.isGap c = true
  colon : ∃ gap, style.colon.toList = ':' :: gap ∧ ∀ c ∈ gap, Reader.isGap c = true
  nothing : style.nothing = "null"
  yes : style.yes = "true"
  no : style.no = "false"
  text : style.text = quoted

variable {style : Style}

theorem tailChars_eq {items : List Value} (h : items ≠ []) :
    style.tailChars items = style.comma.toList ++ style.itemChars items := by
  cases items with
  | nil => exact absurd rfl h
  | cons v items => rw [Style.tailChars, Style.itemChars, List.append_assoc]

theorem memberTailChars_eq {members : List (String × Value)} (h : members ≠ []) :
    style.memberTailChars members = style.comma.toList ++ style.memberListChars members := by
  cases members with
  | nil => exact absurd rfl h
  | cons m members => rw [Style.memberTailChars, Style.memberListChars, List.append_assoc]

/-- A value is read back with no more steps than its text has characters. -/
def ReadsBack (r : Reader) (style : Style) (depth : ℕ) (v : Value) : Prop :=
  ∀ (fuel : ℕ) (rest : List Char), (style.chars v).length ≤ fuel → EndsNumber rest →
    r.value? fuel depth (style.chars v ++ rest) = some (v, rest)

theorem readsBack_of_scalar? (hd : r.tooDeep depth = false)
    (h : ∀ rest, EndsNumber rest → r.scalar? (style.chars v ++ rest) = some (v, rest)) :
    ReadsBack r style depth v := by
  intro fuel rest hf hr
  obtain ⟨⟨c, t, hc, -⟩, -⟩ := starts_of_scalar? (h [] (by rintro c ⟨⟩))
  rw [List.append_nil] at hc
  obtain ⟨n, rfl⟩ : ∃ n, fuel = n + 1 := ⟨fuel - 1, by rw [hc, List.length_cons] at hf; omega⟩
  exact value?_of_scalar? n hd (h rest hr)

theorem Spaced.endsNumber_tailChars (hs : Spaced style) (items : List Value) (rest : List Char) :
    EndsNumber (style.tailChars items ++ ']' :: rest) := by
  cases items with
  | nil => exact endsNumber_cons (by decide) rest
  | cons v items =>
    obtain ⟨gap, hgap, -⟩ := hs.comma
    rw [tailChars_eq (List.cons_ne_nil v items), hgap]
    exact endsNumber_cons (by decide) _

theorem Spaced.endsNumber_memberTailChars (hs : Spaced style) (members : List (String × Value))
    (rest : List Char) : EndsNumber (style.memberTailChars members ++ '}' :: rest) := by
  cases members with
  | nil => exact endsNumber_cons (by decide) rest
  | cons m members =>
    obtain ⟨gap, hgap, -⟩ := hs.comma
    rw [memberTailChars_eq (List.cons_ne_nil m members), hgap]
    exact endsNumber_cons (by decide) _

theorem skip_gap {gap : List Char} (h : ∀ c ∈ gap, Reader.isGap c = true) (s : List Char) :
    Reader.skip (gap ++ s) = Reader.skip s := List.dropWhile_append_of_pos h

theorem items?_gap {gap : List Char} (h : ∀ c ∈ gap, Reader.isGap c = true) (fuel : ℕ)
    (s : List Char) : r.items? fuel depth (gap ++ s) = r.items? fuel depth s := by
  cases fuel with
  | zero => rfl
  | succ fuel => rw [Reader.items?, Reader.items?, skip_gap h]

theorem members?_gap {gap : List Char} (h : ∀ c ∈ gap, Reader.isGap c = true) (fuel : ℕ)
    (s : List Char) : r.members? fuel depth (gap ++ s) = r.members? fuel depth s := by
  cases fuel with
  | zero => rfl
  | succ fuel => rw [Reader.members?, Reader.members?, skip_gap h]

theorem items?_itemChars (hs : Spaced style) {items : List Value}
    (h : ∀ v ∈ items, ReadsBack r style depth v) (hne : items ≠ []) {fuel : ℕ}
    (hf : (style.itemChars items).length < fuel) (rest : List Char) :
    r.items? fuel depth (style.itemChars items ++ ']' :: rest) = some (items, rest) := by
  -- Each item and its comma take more characters than the one step they cost.
  induction items generalizing fuel with
  | nil => exact absurd rfl hne
  | cons v items ih =>
    obtain ⟨n, rfl⟩ : ∃ n, fuel = n + 1 := ⟨fuel - 1, by omega⟩
    rw [Style.itemChars, List.length_append] at hf
    have hv := h v List.mem_cons_self n _ (by omega) (hs.endsNumber_tailChars items rest)
    rw [Style.itemChars, List.append_assoc, Reader.items?, (starts_of_value? hv).skip, hv]
    simp only
    by_cases hi : items = []
    · subst hi
      rfl
    · obtain ⟨gap, hcomma, hgap⟩ := hs.comma
      rw [tailChars_eq hi, hcomma] at hf ⊢
      rw [List.cons_append, List.cons_append, List.append_assoc, Reader.skip_cons (by decide)]
      simp only
      rw [items?_gap hgap, ih (fun u hu => h u (List.mem_cons_of_mem v hu)) hi
        (by simp at hf; omega)]
      rfl

theorem members?_memberListChars (hs : Spaced style) {members : List (String × Value)}
    (h : ∀ m ∈ members, ReadsBack r style depth m.2) (hne : members ≠ []) {fuel : ℕ}
    (hf : (style.memberListChars members).length < fuel) (rest : List Char) :
    r.members? fuel depth (style.memberListChars members ++ '}' :: rest) =
      some (members, rest) := by
  induction members generalizing fuel with
  | nil => exact absurd rfl hne
  | cons m members ih =>
    obtain ⟨k, v⟩ := m
    obtain ⟨n, rfl⟩ : ∃ n, fuel = n + 1 := ⟨fuel - 1, by omega⟩
    obtain ⟨colonGap, hcolon, hcolonGap⟩ := hs.colon
    have hm : style.memberChars (k, v) = '"' :: (k.toList.flatMap escapeChar ++ '"' ::
        ':' :: (colonGap ++ style.chars v)) := by
      simp [Style.memberChars, hs.text, hcolon, quoted]
    rw [Style.memberListChars, hm] at hf ⊢
    simp only [List.length_append, List.length_cons] at hf
    have hv := h (k, v) List.mem_cons_self n _ (by dsimp only; omega)
      (hs.endsNumber_memberTailChars members rest)
    simp only [List.cons_append, List.append_assoc]
    rw [Reader.members?, Reader.skip_cons (by decide)]
    simp only
    rw [Reader.text?_quoted]
    simp only
    rw [Reader.skip_cons (by decide)]
    simp only
    rw [skip_gap hcolonGap, (starts_of_value? hv).skip, hv]
    simp only
    by_cases hi : members = []
    · subst hi
      rfl
    · obtain ⟨gap, hcomma, hgap⟩ := hs.comma
      rw [memberTailChars_eq hi, hcomma] at hf ⊢
      rw [List.cons_append, List.cons_append, List.append_assoc, Reader.skip_cons (by decide)]
      simp only
      rw [members?_gap hgap, ih (fun u hu => h u (List.mem_cons_of_mem _ hu)) hi
        (by simp at hf; omega)]
      rfl

theorem value?_brackets (fuel : ℕ) (hd : r.tooDeep depth = false) {s : List Char}
    (hs : Starts s) {p : List Value × List Char} (h : r.items? fuel (depth + 1) s = some p) :
    r.value? (fuel + 1) depth ('[' :: s) = some (.array p.1, p.2) := by
  rw [Reader.value?, if_neg (by simp [hd]), hs.skip]
  obtain ⟨c, t, rfl, -, hc, -⟩ := hs
  split
  · rename_i he
    exact absurd (List.cons.inj he).1 hc
  · rw [h]
    rfl

theorem value?_braces (fuel : ℕ) (hd : r.tooDeep depth = false) {s : List Char}
    (hs : Starts s) {p : List (String × Value) × List Char}
    (h : r.members? fuel (depth + 1) s = some p) :
    r.value? (fuel + 1) depth ('{' :: s) = some (.object p.1, p.2) := by
  rw [Reader.value?, if_neg (by simp [hd]), hs.skip]
  obtain ⟨c, t, rfl, -, -, hc⟩ := hs
  split
  · rename_i he
    exact absurd (List.cons.inj he).1 hc
  · rw [h]
    rfl

theorem readsBack_array (hs : Spaced style) (hd : r.tooDeep depth = false) {items : List Value}
    (h : ∀ v ∈ items, ReadsBack r style (depth + 1) v) :
    ReadsBack r style depth (.array items) := by
  intro fuel rest hf hr
  rw [Style.chars, List.length_append, List.length_cons, List.length_singleton] at hf
  obtain ⟨n, rfl⟩ : ∃ n, fuel = n + 1 := ⟨fuel - 1, by omega⟩
  rw [Style.chars, List.append_assoc, List.cons_append, List.singleton_append]
  cases items with
  | nil =>
    rw [Reader.value?, if_neg (by simp [hd])]
    rfl
  | cons v items =>
    have hlen : (style.itemChars (v :: items)).length < n := by omega
    have hitems := items?_itemChars hs h (List.cons_ne_nil v items) hlen rest
    have hstart : Starts (style.itemChars (v :: items) ++ ']' :: rest) := by
      rw [Style.itemChars, List.append_assoc]
      exact starts_of_value?
        (h v List.mem_cons_self _ _ (Nat.le_refl _) (hs.endsNumber_tailChars items rest))
    exact value?_brackets n hd hstart hitems

theorem readsBack_object (hs : Spaced style) (hd : r.tooDeep depth = false)
    {members : List (String × Value)} (h : ∀ m ∈ members, ReadsBack r style (depth + 1) m.2) :
    ReadsBack r style depth (.object members) := by
  intro fuel rest hf hr
  rw [Style.chars, List.length_append, List.length_cons, List.length_singleton] at hf
  obtain ⟨n, rfl⟩ : ∃ n, fuel = n + 1 := ⟨fuel - 1, by omega⟩
  rw [Style.chars, List.append_assoc, List.cons_append, List.singleton_append]
  cases members with
  | nil =>
    rw [Reader.value?, if_neg (by simp [hd])]
    rfl
  | cons m members =>
    have hlen : (style.memberListChars (m :: members)).length < n := by omega
    have hmembers := members?_memberListChars hs h (List.cons_ne_nil m members) hlen rest
    have hstart : Starts (style.memberListChars (m :: members) ++ '}' :: rest) := by
      rw [Style.memberListChars, Style.memberChars, hs.text]
      exact ⟨'"', _, rfl, by decide, by decide, by decide⟩
    exact value?_braces n hd hstart hmembers

/-- What is legible and finite is read back from its text. -/
theorem Legible.readsBack (hs : Spaced style) (h : Legible r depth v) (hv : v.Finite) :
    ReadsBack r style depth v := by
  induction h with
  | null h =>
    refine readsBack_of_scalar? h fun rest _ => ?_
    rw [Style.chars, hs.nothing]
    exact scalar?_null rest
  | bool h b =>
    refine readsBack_of_scalar? h fun rest _ => ?_
    rw [Style.chars, hs.yes, hs.no]
    exact scalar?_bool b rest
  | int h short => exact readsBack_of_scalar? h fun rest hr => Reader.scalar?_intText r short hr
  | real h canonical =>
    cases hv with
    | real s m e =>
      exact readsBack_of_scalar? h fun rest hr => Reader.scalar?_finite r style.reals canonical hr
  | string h s =>
    refine readsBack_of_scalar? h fun rest _ => ?_
    rw [Style.chars, hs.text]
    exact scalar?_quoted s rest
  | array h each ih =>
    cases hv with
    | array finite => exact readsBack_array hs h fun v hv => ih v hv (finite v hv)
  | object h each ih =>
    cases hv with
    | object finite => exact readsBack_object hs h fun m hm => ih m hm (finite m hm)

/-- A printed value is read as it was. -/
theorem Legible.parse?_print_of_finite (hs : Spaced style) (h : Legible r 0 v) (hv : v.Finite) :
    r.parse? (style.print v) = some v := by
  have hread := h.readsBack hs hv (2 * (style.chars v).length + 2) [] (by omega) (by rintro c ⟨⟩)
  rw [List.append_nil] at hread
  rw [Reader.parse?, Style.print, String.toList_ofList, Reader.parseChars?,
    (starts_of_value? hread).skip, hread]
  rfl

/-- The standard notation with nothing around its commas and colons. -/
def compact (form : Layout) : Style := .standard "," ":" form

variable {form : Layout}

theorem spaced_compact (form : Layout) : Spaced (compact form) where
  comma := ⟨[], by simp [compact, Style.standard], by simp⟩
  colon := ⟨[], by simp [compact, Style.standard], by simp⟩
  nothing := rfl
  yes := rfl
  no := rfl
  text := rfl

/-- What is no finite number is written as the word for nothing. -/
structure Blanks (form : Layout) : Prop where
  nan : form.nan = "null"
  infinity : form.infinity = "null"
  negativeInfinity : form.negativeInfinity = "null"

theorem itemChars_map {f : Value → Value} {items : List Value} {style : Style}
    (h : ∀ v ∈ items, style.chars (f v) = style.chars v) :
    style.itemChars (items.map f) = style.itemChars items := by
  have htail : ∀ l : List Value, (∀ v ∈ l, style.chars (f v) = style.chars v) →
      style.tailChars (l.map f) = style.tailChars l := by
    intro l hl
    induction l with
    | nil => rfl
    | cons v l ih =>
      rw [List.map_cons, Style.tailChars, Style.tailChars, hl v List.mem_cons_self,
        ih fun u hu => hl u (List.mem_cons_of_mem v hu)]
  cases items with
  | nil => rfl
  | cons v items =>
    rw [List.map_cons, Style.itemChars, Style.itemChars, h v List.mem_cons_self,
      htail items fun u hu => h u (List.mem_cons_of_mem v hu)]

theorem memberListChars_mapValues {f : Value → Value} {members : List (String × Value)}
    {style : Style} (h : ∀ m ∈ members, style.chars (f m.2) = style.chars m.2) :
    style.memberListChars (Dictionary.mapValues f members) = style.memberListChars members := by
  have hmember : ∀ m : String × Value, style.chars (f m.2) = style.chars m.2 →
      style.memberChars (m.1, f m.2) = style.memberChars m := by
    rintro ⟨k, v⟩ hm
    rw [Style.memberChars, Style.memberChars, hm]
  have htail : ∀ l : List (String × Value), (∀ m ∈ l, style.chars (f m.2) = style.chars m.2) →
      style.memberTailChars (Dictionary.mapValues f l) = style.memberTailChars l := by
    intro l hl
    induction l with
    | nil => rfl
    | cons m l ih =>
      rw [Dictionary.mapValues_cons, Style.memberTailChars, Style.memberTailChars,
        hmember m (hl m List.mem_cons_self), ih fun u hu => hl u (List.mem_cons_of_mem m hu)]
  cases members with
  | nil => rfl
  | cons m members =>
    rw [Dictionary.mapValues_cons, Style.memberListChars, Style.memberListChars,
      hmember m (h m List.mem_cons_self), htail members fun u hu => h u (List.mem_cons_of_mem m hu)]

theorem chars_ofNumber (hb : Blanks form) (n : Number) :
    (compact form).chars (Value.ofNumber n) = (compact form).chars (.number n) := by
  cases n with
  | int i => rfl
  | real x =>
    cases x with
    | finite s m e => rfl
    | nan =>
      rw [Style.chars, Style.number]
      exact (congrArg String.toList hb.nan).symm
    | infinite s =>
      rw [Style.chars, Style.number]
      cases s
      · exact (congrArg String.toList hb.infinity).symm
      · exact (congrArg String.toList hb.negativeInfinity).symm

/-- Blanks do not change the text. -/
theorem chars_blanked (hb : Blanks form) (v : Value) :
    (compact form).chars v.blanked = (compact form).chars v := by
  induction v using Value.induction with
  | null => rfl
  | bool b => rfl
  | number n => exact chars_ofNumber hb n
  | string s => rfl
  | array items ih =>
    rw [Value.blanked, Value.blankedItems_eq, Style.chars, Style.chars, itemChars_map ih]
  | object members ih =>
    rw [Value.blanked, Value.blankedMembers_eq, Style.chars, Style.chars,
      memberListChars_mapValues ih]

/-- A printed value is read as what its text stands for. -/
theorem Legible.parse?_print (hb : Blanks form) (h : Legible r 0 v) :
    r.parse? ((compact form).print v) = some v.blanked := by
  rw [Style.print, ← chars_blanked hb v]
  exact h.blanked.parse?_print_of_finite (spaced_compact form) (Value.finite_blanked v)

/-- Texts are equal when they stand for the same. -/
theorem Legible.print_eq_iff (hb : Blanks form) {w : Value} (hv : Legible r 0 v)
    (hw : Legible r 0 w) :
    (compact form).print v = (compact form).print w ↔ v.blanked = w.blanked := by
  constructor
  · intro h
    have hread := hv.parse?_print hb
    rw [h, hw.parse?_print hb] at hread
    exact (Option.some.inj hread).symm
  · intro h
    rw [Style.print, Style.print, ← chars_blanked hb v, h, chars_blanked hb w]

end BuildClient.Json
