import Mathlib
import BuildClient.Http.Request
import BuildClient.Proofs.Except

/-! How a prepared request tells where its body ends: not at all, by a length, or by chunks. -/
namespace BuildClient.Http

open Text

namespace Headers

variable {name other value : String} {hs lines : Headers} {line : String × String}

/-- What the lines say under the name, whatever its spelling. -/
def values (name : String) (hs : Headers) : List String :=
  (hs.filter fun line => sameName line.1 name).map Prod.snd

theorem sameName_self (name : String) : sameName name name = true := beq_self_eq_true _

/-- Names that are the same differ from the same names. -/
theorem sameName_congr {name' : String} (h : sameName name name' = true) (other : String) :
    sameName name other = sameName name' other := by
  have hfold : fold name = fold name' := eq_of_beq h
  rw [sameName, sameName, hfold]

theorem values_cons_of_ne (h : sameName line.1 name = false) :
    values name (line :: hs) = values name hs := by
  rw [values, List.filter_cons_of_neg (by simp [h]), values]

theorem values_cons_of_same (h : sameName line.1 name = true) :
    values name (line :: hs) = line.2 :: values name hs := by
  rw [values, List.filter_cons_of_pos (by simpa using h), List.map_cons, values]

theorem values_of_ne (h : ∀ line ∈ hs, sameName line.1 name = false) : values name hs = [] := by
  rw [values, List.filter_eq_nil_iff.2 (by simpa using h), List.map_nil]

theorem values_eq_nil_iff : values name hs = [] ↔ hs.has name = false := by
  simp [values, has]

/-- A new line under one name changes nothing under another. -/
theorem values_set_of_ne (h : sameName other name = false) :
    values name (hs.set other value) = values name hs := by
  induction hs with
  | nil => exact values_cons_of_ne h
  | cons line rest ih =>
    rw [set]
    by_cases hother : sameName line.1 other = true
    · have hne : sameName line.1 name = false := by rw [sameName_congr hother name, h]
      rw [if_pos hother, values_cons_of_ne hne]
      exact values_cons_of_ne h
    · rw [if_neg hother]
      by_cases hline : sameName line.1 name = true
      · rw [values_cons_of_same hline, values_cons_of_same hline, ih]
      · rw [Bool.not_eq_true] at hline
        rw [values_cons_of_ne hline, values_cons_of_ne hline, ih]

theorem values_set_self (h : values name hs = []) : values name (hs.set name value) = [value] := by
  induction hs with
  | nil => exact values_cons_of_same (sameName_self name)
  | cons line rest ih =>
    rw [set]
    by_cases hline : sameName line.1 name = true
    · rw [values_cons_of_same hline] at h
      cases h
    · rw [Bool.not_eq_true] at hline
      rw [values_cons_of_ne hline] at h
      rw [if_neg (by simp [hline]), values_cons_of_ne hline, ih h]

theorem values_setAll_of_ne (h : ∀ line ∈ lines, sameName line.1 name = false) :
    values name (setAll lines hs) = values name hs := by
  induction lines generalizing hs with
  | nil => rfl
  | cons line lines ih =>
    have hstep : values name (setAll lines (hs.set line.1 line.2)) =
        values name (hs.set line.1 line.2) := ih fun l hl => h l (List.mem_cons_of_mem line hl)
    rw [values_set_of_ne (h line List.mem_cons_self)] at hstep
    exact hstep

theorem values_remove_self : values name (hs.remove name) = [] := by
  rw [values_eq_nil_iff, has, remove, List.any_eq_false]
  intro line hline
  have hne := (List.mem_filter.1 hline).2
  simpa using hne

theorem values_remove_of_ne (h : sameName other name = false) :
    values name (hs.remove other) = values name hs := by
  have hkeep : ∀ line : String × String,
      (sameName line.1 name && !sameName line.1 other) = sameName line.1 name := by
    intro line
    by_cases hline : sameName line.1 other = true
    · rw [sameName_congr hline, h, Bool.false_and]
    · simp [hline]
  simp only [values, remove, List.filter_filter, hkeep]

/-- No line tells the end of a body. -/
def Unframed (hs : Headers) : Prop :=
  ∀ line ∈ hs, sameName line.1 "Content-Length" = false ∧
    sameName line.1 "Transfer-Encoding" = false

instance (hs : Headers) : Decidable (Unframed hs) :=
  inferInstanceAs (Decidable (∀ line ∈ hs, _ ∧ _))

end Headers

/-- How the end of a body is told. -/
inductive Framing where
  | unframed
  | length (bytes : ℕ)
  | chunked

namespace Framing

def lengths : Framing → List String
  | length bytes => [toString bytes]
  | _ => []

def codings : Framing → List String
  | chunked => ["chunked"]
  | _ => []

/-- What the method and the body ask for. -/
def ofBody (method : String) : Body → Framing
  | .none => if lengthFree method then unframed else length 0
  | .text s => length (Utf8.size s)
  | .stream _ => chunked

end Framing

/-- The lines tell the end of the body in this way, once, and in no other. -/
structure Framed (f : Framing) (hs : Headers) : Prop where
  lengths : hs.values "Content-Length" = f.lengths
  codings : hs.values "Transfer-Encoding" = f.codings

namespace Framed

variable {f : Framing} {hs lines : Headers} {name value method : String} {n : ℕ}

theorem set (h : Framed f hs) (hl : Headers.sameName name "Content-Length" = false)
    (hc : Headers.sameName name "Transfer-Encoding" = false) : Framed f (hs.set name value) :=
  ⟨(Headers.values_set_of_ne hl).trans h.lengths, (Headers.values_set_of_ne hc).trans h.codings⟩

theorem setAll (h : Framed f hs) (hl : Headers.Unframed lines) :
    Framed f (Headers.setAll lines hs) :=
  ⟨(Headers.values_setAll_of_ne fun line h' => (hl line h').1).trans h.lengths,
    (Headers.values_setAll_of_ne fun line h' => (hl line h').2).trans h.codings⟩

theorem set_length (h : Framed .unframed hs) (value : String) :
    (hs.set "Content-Length" value).values "Content-Length" = [value] ∧
      (hs.set "Content-Length" value).values "Transfer-Encoding" = [] :=
  ⟨Headers.values_set_self h.lengths,
    (Headers.values_set_of_ne (by decide)).trans h.codings⟩

/-- Lines that tell nothing yet are told the end of the body. -/
theorem frame (h : Framed .unframed hs) (method : String) (b : Body) :
    Framed (.ofBody method b) (frame method hs b) := by
  have hfree : hs.has "Content-Length" = false := Headers.values_eq_nil_iff.1 h.lengths
  cases b with
  | none =>
    rw [Http.frame, Framing.ofBody, hfree, Bool.or_false]
    split
    · exact h
    · exact ⟨(h.set_length "0").1, (h.set_length "0").2⟩
  | text s => exact ⟨(h.set_length _).1, (h.set_length _).2⟩
  | stream p =>
    exact ⟨(Headers.values_set_of_ne (by decide)).trans h.lengths,
      Headers.values_set_self h.codings⟩

theorem authorize {listed : Option Url.Credentials} {url : String} (h : Framed f hs)
    (ha : authorize listed url hs = .ok lines) : Framed f lines := by
  rw [Http.authorize] at ha
  obtain ⟨carried, -, hfound⟩ := bind_eq_ok.1 ha
  generalize listed.or carried = found at hfound
  cases found with
  | none =>
    obtain rfl : hs = lines := Except.ok.inj hfound
    exact h
  | some c =>
    obtain ⟨value, -, hvalue⟩ := bind_eq_ok.1 hfound
    obtain rfl : hs.set "Authorization" value = lines := Except.ok.inj hvalue
    exact h.set (by decide) (by decide)

end Framed

variable {e : Executor} {d : Draft} {r : Request}

/-- What a draft becomes when it is prepared. -/
theorem prepare_eq_ok (h : e.prepare d = .ok r) :
    r.method = upper d.method ∧ r.body = d.body.settle ∧
      ∃ listed, authorize listed r.url
        (frame r.method (Headers.setAll d.headers e.headers) r.body) = .ok r.headers := by
  rw [Executor.prepare] at h
  obtain ⟨listed, -, h⟩ := bind_eq_ok.1 h
  obtain ⟨url, -, h⟩ := bind_eq_ok.1 h
  obtain ⟨-, -, h⟩ := bind_eq_ok.1 h
  obtain ⟨lines, ha, h⟩ := bind_eq_ok.1 h
  obtain rfl := Except.ok.inj h
  exact ⟨rfl, rfl, listed, ha⟩

theorem Executor.headers_unframed (e : Executor) : e.headers.Unframed := by
  have hfixed : Headers.Unframed
      [("User-Agent", userAgent), ("Accept", "application/json"),
        ("Connection", "keep-alive")] := by decide
  have hname : Headers.sameName "Authorization" "Content-Length" = false ∧
      Headers.sameName "Authorization" "Transfer-Encoding" = false := by decide
  intro line hline
  rcases List.mem_append.1 hline with h | h
  · exact hfixed line h
  · obtain ⟨a, -, rfl⟩ := List.mem_map.1 h
    exact hname

/-- A request tells the end of its body in the way that fits its method and its body, unless its
own lines tell something. -/
theorem framed_of_prepare (hd : d.headers.Unframed) (h : e.prepare d = .ok r) :
    Framed (.ofBody r.method r.body) r.headers := by
  obtain ⟨-, -, _, hlines⟩ := prepare_eq_ok h
  have hown : Framed .unframed e.headers :=
    ⟨Headers.values_of_ne fun line hl => (e.headers_unframed line hl).1,
      Headers.values_of_ne fun line hl => (e.headers_unframed line hl).2⟩
  exact ((hown.setAll hd).frame r.method r.body).authorize hlines

/-- A declared length takes the place of chunks. -/
theorem Framed.declareLength (h : Framed .chunked r.headers) (n : ℕ) :
    Framed (.length n) (r.declareLength n).headers := by
  have hfree : (r.headers.remove "Transfer-Encoding").values "Content-Length" = [] :=
    (Headers.values_remove_of_ne (by decide)).trans h.lengths
  exact ⟨Headers.values_set_self hfree,
    (Headers.values_set_of_ne (by decide)).trans Headers.values_remove_self⟩

end BuildClient.Http
