import BuildClient.Json.Printer
import BuildClient.Proofs.Json.Value
import BuildClient.Proofs.Number.Digits

/-! A document's text has no control characters, so it takes one line. -/
namespace BuildClient

open Json Text

variable {c : Char} {s t : List Char}

/-- No character is a control. -/
def Unbroken (s : List Char) : Prop := ∀ c ∈ s, 0x20 ≤ c.toNat

instance (s : List Char) : Decidable (Unbroken s) := List.decidableBAll _ s

theorem unbroken_nil : Unbroken [] := fun _ h => absurd h List.not_mem_nil

theorem unbroken_cons : Unbroken (c :: s) ↔ 0x20 ≤ c.toNat ∧ Unbroken s := List.forall_mem_cons

theorem unbroken_append : Unbroken (s ++ t) ↔ Unbroken s ∧ Unbroken t := List.forall_mem_append

theorem Unbroken.append (hs : Unbroken s) (ht : Unbroken t) : Unbroken (s ++ t) :=
  unbroken_append.2 ⟨hs, ht⟩

theorem unbroken_of_isDigit (h : ∀ c ∈ s, c.isDigit = true) : Unbroken s := by
  intro c hc
  have hd := h c hc
  simp only [Char.isDigit, Bool.and_eq_true, decide_eq_true_eq, UInt32.le_iff_toNat_le] at hd
  exact Nat.le_trans (by decide) hd.1

theorem unbroken_toDigits (n : ℕ) : Unbroken (Nat.toDigits 10 n) :=
  unbroken_of_isDigit fun _ => isDigit_toDigits

theorem unbroken_zeros (n : ℕ) : Unbroken (List.replicate n '0') :=
  unbroken_of_isDigit fun _ => isDigit_replicate_zero

namespace Layout

variable {form : Layout}

/-- One digit, and a point if there are more. -/
theorem unbroken_mantissa (s : List Char) : Unbroken s →
    Unbroken (match s with
      | [] => []
      | [c] => [c]
      | c :: cs => c :: '.' :: cs) := by
  intro h
  match s, h with
  | [], h => exact h
  | [c], h => exact h
  | c :: c' :: cs, h =>
    obtain ⟨hc, hcs⟩ := unbroken_cons.1 h
    exact unbroken_cons.2 ⟨hc, unbroken_cons.2 ⟨by decide, hcs⟩⟩

theorem unbroken_place (form : Layout) (d : Decimal) : Unbroken (form.place d) := by
  have hdigits := unbroken_toDigits d.digits
  simp only [place]
  generalize Nat.toDigits 10 d.digits = ds at *
  split
  · split
    · exact (hdigits.append (unbroken_zeros _)).append (by decide)
    · split
      · rw [← List.take_append_drop ((d.exp + ds.length - 1).toNat + 1) ds] at hdigits
        obtain ⟨htake, hdrop⟩ := unbroken_append.1 hdigits
        exact htake.append (unbroken_cons.2 ⟨by decide, hdrop⟩)
      · have hpart := (unbroken_zeros (-(d.exp + ds.length - 1)).toNat.pred).append hdigits
        exact unbroken_cons.2 ⟨by decide, unbroken_cons.2 ⟨by decide, hpart⟩⟩
  · have hpower : Unbroken (padZeros form.expWidth
        (Nat.toDigits 10 (d.exp + ds.length - 1).natAbs)) :=
      (unbroken_zeros _).append (unbroken_toDigits _)
    refine (unbroken_mantissa ds hdigits).append
      (unbroken_cons.2 ⟨?mark, unbroken_cons.2 ⟨?sign, hpower⟩⟩)
    case mark => decide
    case sign => split <;> decide

/-- The words for what is no finite number have no controls. -/
structure Legends (form : Layout) : Prop where
  nan : Unbroken form.nan.toList
  infinity : Unbroken form.infinity.toList
  negativeInfinity : Unbroken form.negativeInfinity.toList

theorem unbroken_write (h : form.Legends) (x : Binary64) : Unbroken (form.write x).toList := by
  cases x with
  | nan => exact h.nan
  | infinite s =>
    cases s
    · exact h.infinity
    · exact h.negativeInfinity
  | finite s m e =>
    have hbody :
        Unbroken (if m = 0 then form.place ⟨0, 0⟩ else form.place (Shortest.select m e)) := by
      split <;> exact unbroken_place form _
    rw [write, String.toList_ofList]
    cases s
    · exact hbody
    · exact unbroken_cons.2 ⟨by decide, hbody⟩

end Layout

namespace Json

theorem unbroken_escapeChar (c : Char) : Unbroken (escapeChar c) := by
  rw [escapeChar]
  split
  · rename_i l h
    have hl : 0x20 ≤ l.toNat := by
      unfold escapeLetter? at h
      split at h
      all_goals
        first
        | (cases h; done)
        | (cases h; decide)
    exact unbroken_cons.2 ⟨by decide, unbroken_cons.2 ⟨hl, unbroken_nil⟩⟩
  · split
    · rename_i hc
      have hcode : ∀ n < 0x20, Unbroken ('\\' :: 'u' :: hexPadded 4 n) := by decide
      exact hcode c.toNat hc
    · rename_i hc
      exact unbroken_cons.2 ⟨by omega, unbroken_nil⟩

/-- Whatever a text holds, between quotes it has no controls. -/
theorem unbroken_quoted (s : String) : Unbroken (quoted s) := by
  rw [quoted, List.cons_append]
  refine unbroken_cons.2 ⟨by decide, Unbroken.append ?_ (by decide)⟩
  intro d hd
  obtain ⟨c, -, hc⟩ := List.mem_flatMap.1 hd
  exact unbroken_escapeChar c d hc

theorem unbroken_intText (i : ℤ) : Unbroken (intText i) := by
  rw [intText]
  split
  · exact unbroken_cons.2 ⟨by decide, unbroken_toDigits _⟩
  · exact unbroken_toDigits _

/-- No part of the notation has controls. -/
structure Style.Even (style : Style) : Prop where
  comma : Unbroken style.comma.toList
  colon : Unbroken style.colon.toList
  reals : style.reals.Legends
  nothing : Unbroken style.nothing.toList
  yes : Unbroken style.yes.toList
  no : Unbroken style.no.toList
  text : ∀ s, Unbroken (style.text s)

variable {style : Style}

theorem unbroken_itemChars (hs : style.Even) {items : List Value}
    (h : ∀ v ∈ items, Unbroken (style.chars v)) : Unbroken (style.itemChars items) := by
  have htail : ∀ l : List Value, (∀ v ∈ l, Unbroken (style.chars v)) →
      Unbroken (style.tailChars l) := by
    intro l hl
    induction l with
    | nil => exact unbroken_nil
    | cons v l ih =>
      obtain ⟨hv, hrest⟩ := List.forall_mem_cons.1 hl
      exact (hs.comma.append hv).append (ih hrest)
  cases items with
  | nil => exact unbroken_nil
  | cons v items =>
    obtain ⟨hv, hrest⟩ := List.forall_mem_cons.1 h
    exact hv.append (htail items hrest)

theorem unbroken_memberListChars (hs : style.Even) {members : List (String × Value)}
    (h : ∀ m ∈ members, Unbroken (style.chars m.2)) :
    Unbroken (style.memberListChars members) := by
  have hmember : ∀ m : String × Value, Unbroken (style.chars m.2) →
      Unbroken (style.memberChars m) := by
    rintro ⟨k, v⟩ hm
    exact ((hs.text k).append hs.colon).append hm
  have htail : ∀ l : List (String × Value), (∀ m ∈ l, Unbroken (style.chars m.2)) →
      Unbroken (style.memberTailChars l) := by
    intro l hl
    induction l with
    | nil => exact unbroken_nil
    | cons m l ih =>
      obtain ⟨hm, hrest⟩ := List.forall_mem_cons.1 hl
      exact (hs.comma.append (hmember m hm)).append (ih hrest)
  cases members with
  | nil => exact unbroken_nil
  | cons m members =>
    obtain ⟨hm, hrest⟩ := List.forall_mem_cons.1 h
    exact (hmember m hm).append (htail members hrest)

/-- Whatever a value holds, its text has no controls. -/
theorem unbroken_chars (hs : style.Even) (v : Value) : Unbroken (style.chars v) := by
  induction v using Value.induction with
  | null => exact hs.nothing
  | bool b =>
    cases b
    · exact hs.no
    · exact hs.yes
  | number n =>
    cases n with
    | int i => exact unbroken_intText i
    | real x => exact Layout.unbroken_write hs.reals x
  | string s => exact hs.text s
  | array items ih =>
    exact (unbroken_cons.2 ⟨by decide, unbroken_itemChars hs ih⟩).append (by decide)
  | object members ih =>
    exact (unbroken_cons.2 ⟨by decide, unbroken_memberListChars hs ih⟩).append (by decide)

end Json

end BuildClient
