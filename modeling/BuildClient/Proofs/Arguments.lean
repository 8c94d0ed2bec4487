import BuildClient.CommandLine.Arguments
import BuildClient.Proofs.Dictionary
import BuildClient.Proofs.Except

/-! What the words of an accepted line give: to each switch its value, and to the operand its
word. -/
namespace BuildClient.Arguments

/-- A switch that takes a value, and where its value belongs. -/
def Match.Takes (m : Match) (target : String) (kind : ValueKind) : Prop :=
  ∃ s required, m.switch = some s ∧ s.effect = .value target kind required

/-- A value, what it was given under, if not as the operand, and where it belongs. -/
structure Entry where
  spelling : Option String
  target : String
  value : String
deriving DecidableEq, Repr

namespace Entry

def pair (e : Entry) : String × String := (e.target, e.value)

/-- Entries in turn; of those with one target the last counts. -/
def values (entries : List Entry) : Dictionary String := Dictionary.ofPairs (entries.map pair)

end Entry

/-- The values that items give, in turn. The value of a switch stands in its own word or is the
next word; the first other word is the operand, if one is missing. -/
inductive Given : Option String → List Item → List Entry → Prop
  | nil : Given none [] []
  | attached {operand : Option String} {text target : String} {m : Match} {kind : ValueKind}
      {value : List Char} {rest : List Item} {entries : List Entry}
      (takes : m.Takes target kind) (explicit : m.explicit = some value)
      (accepted : kind.accepts (String.ofList value) = true)
      (others : Given operand rest entries) : Given operand (.switch text m :: rest)
        (⟨some (String.ofList m.spelling), target, String.ofList value⟩ :: entries)
  | next {operand : Option String} {text target value : String} {m : Match} {kind : ValueKind}
      {rest : List Item} {entries : List Entry} (takes : m.Takes target kind)
      (explicit : m.explicit = none) (accepted : kind.accepts value = true)
      (others : Given operand rest entries) :
      Given operand (.switch text m :: .word value :: rest)
        (⟨some (String.ofList m.spelling), target, value⟩ :: entries)
  | operand {target text : String} {rest : List Item} {entries : List Entry}
      (others : Given none rest entries) :
      Given (some target) (.word text :: rest) (⟨none, target, text⟩ :: entries)
  | dashes {operand : Option String} {rest : List Item} {entries : List Entry}
      (others : Given operand rest entries) : Given operand (.dashes :: rest) entries

variable {g : Grammar} {st st' : State} {items rest : List Item} {text : String} {m : Match}
  {operand : Option String} {entries : List Entry}

def State.give (st : State) (target value : String) : State :=
  { st with values := st.values.insert target value }

/-- Only a value is taken up; all else that a switch can do ends the reading. -/
theorem perform_eq_ok {s : Switch} {value : Option String} (h : perform st s value = .ok st') :
    ∃ target kind required, s.effect = .value target kind required ∧
      kind.accepts (value.getD "") = true ∧
      st' = st.give target (value.getD "") := by
  rw [perform] at h
  cases he : s.effect with
  | help =>
    rw [he] at h
    cases h
  | version =>
    rw [he] at h
    cases h
  | value target kind required =>
    rw [he] at h
    dsimp only at h
    split at h
    · exact ⟨target, kind, required, rfl, ‹_›, (Except.ok.inj h).symm⟩
    · cases h

theorem takesValue_of_perform {s : Switch} {value : Option String}
    (h : perform st s value = .ok st') : s.takesValue = true := by
  obtain ⟨target, kind, required, he, -⟩ := perform_eq_ok h
  rw [Switch.takesValue, he]

theorem performAll_singleton (st : State) (s : Switch) (value : Option String) :
    performAll st [(s, value)] = perform st s value := by
  rw [performAll]
  cases perform st s value <;> rfl

/-- Switches without values do not get on. -/
theorem performAll_row {s : Switch} {value : Option String} {row : List (Switch × Option String)}
    (h : performAll st ((s, value) :: row) = .ok st') : s.takesValue = true := by
  obtain ⟨st₁, h₁, -⟩ := bind_eq_ok.1 h
  exact takesValue_of_perform h₁

/-- A switch without a value stands first in its row. -/
theorem unfold_flag {fuel : ℕ} {s : Switch} {spelling : List Char} {equals : Bool}
    {value : Option (List Char)} {row : List (Switch × Option String)} {tail : Tail}
    (hs : s.takesValue = false) (h : unfold g fuel s spelling equals value = .ok (row, tail)) :
    (∃ more, row = (s, none) :: more) ∨ ∃ v, fuel = 0 ∧ row = [(s, some v)] := by
  cases value with
  | none =>
    have hnone : unfold g fuel s spelling equals none = .ok ([(s, none)], .done) := by
      cases fuel <;> simp [unfold, hs]
    exact .inl ⟨[], (Prod.mk.inj (Except.ok.inj (hnone.symm.trans h))).1.symm⟩
  | some value =>
    cases fuel with
    | zero => exact .inr ⟨_, rfl, (Prod.mk.inj (Except.ok.inj h)).1.symm⟩
    | succ fuel =>
      simp only [unfold, hs, Bool.false_eq_true, if_false] at h
      cases value with
      | nil => cases h
      | cons c rest =>
        dsimp only at h
        split at h
        · cases h
        · cases hf : g.find? ['-', c] with
          | none =>
            rw [hf] at h
            exact .inl ⟨[], (Prod.mk.inj (Except.ok.inj h)).1.symm⟩
          | some t =>
            rw [hf] at h
            obtain ⟨p, -, hp⟩ := map_eq_ok.1 h
            exact .inl ⟨p.1, (Prod.mk.inj hp).1.symm⟩

theorem unfold_of_takesValue {s : Switch} (hs : s.takesValue = true) (fuel : ℕ)
    (spelling : List Char) (equals : Bool) (value : Option (List Char)) :
    unfold g fuel s spelling equals value = .ok (match value with
      | none => ([], .next s)
      | some value => ([(s, some (String.ofList value))], .done)) := by
  cases value <;> cases fuel <;> simp [unfold, hs]

/-- What becomes of a switch: nothing knows it, or its value is taken. -/
inductive Taken (st : State) (text : String) (m : Match) : List Item → State → List Item → Prop
  | unknown {rest : List Item} : Taken st text m rest (st.addExtras [text]) rest
  | attached {target : String} {kind : ValueKind} {value : List Char} {rest : List Item}
      (takes : m.Takes target kind) (explicit : m.explicit = some value)
      (accepted : kind.accepts (String.ofList value) = true) :
      Taken st text m rest (st.give target (String.ofList value)) rest
  | next {target value : String} {kind : ValueKind} {rest : List Item}
      (takes : m.Takes target kind) (explicit : m.explicit = none)
      (accepted : kind.accepts value = true) :
      Taken st text m (.word value :: rest) (st.give target value) rest

theorem takeSwitch_taken (h : takeSwitch g st text m items = .ok (st', rest)) :
    Taken st text m items st' rest := by
  rw [takeSwitch] at h
  cases hm : m.switch with
  | none =>
    rw [hm] at h
    obtain ⟨rfl, rfl⟩ := Prod.mk.inj (Except.ok.inj h)
    exact .unknown
  | some s =>
    rw [hm] at h
    obtain ⟨⟨row, tail⟩, hu, h⟩ := bind_eq_ok.1 h
    have htakes : ∀ {st₁ st₂ : State} {value : Option String}, perform st₁ s value = .ok st₂ →
        ∃ target kind, m.Takes target kind ∧ kind.accepts (value.getD "") = true ∧
          st₂ = st₁.give target (value.getD "") := by
      intro st₁ st₂ value hp
      obtain ⟨target, kind, required, he, haccepts, hst⟩ := perform_eq_ok hp
      exact ⟨target, kind, ⟨s, required, hm, he⟩, haccepts, hst⟩
    cases hs : s.takesValue with
    | false =>
      have hrow : ∀ st₁ st₂ more, performAll st₁ (row ++ more) ≠ .ok st₂ := by
        intro st₁ st₂ more hp
        rcases unfold_flag hs hu with ⟨others, rfl⟩ | ⟨v, -, rfl⟩
        · exact absurd (performAll_row hp) (by simp [hs])
        · exact absurd (performAll_row hp) (by simp [hs])
      cases tail with
      | done =>
        obtain ⟨st₁, hp, -⟩ := bind_eq_ok.1 h
        exact absurd ((List.append_nil row).symm ▸ hp) (hrow _ _ [])
      | extra word =>
        obtain ⟨st₁, hp, -⟩ := bind_eq_ok.1 h
        exact absurd ((List.append_nil row).symm ▸ hp) (hrow _ _ [])
      | next last =>
        dsimp only at h
        split at h
        · obtain ⟨st₁, hp, -⟩ := bind_eq_ok.1 h
          exact absurd hp (hrow _ _ _)
        · cases h
    | true =>
      rw [unfold_of_takesValue hs] at hu
      cases hx : m.explicit with
      | none =>
        rw [hx] at hu
        obtain ⟨rfl, rfl⟩ := Prod.mk.inj (Except.ok.inj hu)
        dsimp only at h
        split at h
        · obtain ⟨st₁, hp, hend⟩ := bind_eq_ok.1 h
          obtain ⟨rfl, rfl⟩ := Prod.mk.inj (Except.ok.inj hend)
          rw [List.nil_append, performAll_singleton] at hp
          obtain ⟨target, kind, ht, ha, rfl⟩ := htakes hp
          exact .next ht hx ha
        · cases h
      | some value =>
        rw [hx] at hu
        obtain ⟨rfl, rfl⟩ := Prod.mk.inj (Except.ok.inj hu)
        obtain ⟨st₁, hp, hend⟩ := bind_eq_ok.1 h
        obtain ⟨rfl, rfl⟩ := Prod.mk.inj (Except.ok.inj hend)
        rw [performAll_singleton] at hp
        obtain ⟨target, kind, ht, ha, rfl⟩ := htakes hp
        exact .attached ht hx ha

namespace Taken

theorem operandDone (h : Taken st text m items st' rest) : st'.operandDone = st.operandDone := by
  cases h <;> rfl

theorem extras (h : Taken st text m items st' rest) (hx : st'.extras = []) : st.extras = [] := by
  cases h with
  | unknown => exact (List.append_eq_nil_iff.1 hx).1
  | attached => exact hx
  | next => exact hx

/-- A switch that is known gives its value to its target, in front of what else is given. -/
theorem given {before after : List Item} (h : Taken st text m items st' (before ++ after))
    (hx : st'.extras = []) (hg : Given operand before entries) :
    ∃ (e : Entry) (more : List Item), items = more ++ after ∧
      Given operand (.switch text m :: more) (e :: entries) ∧
      st'.values = st.values.insert e.target e.value := by
  generalize hrest : before ++ after = rest at h
  cases h with
  | unknown => exact absurd (List.append_eq_nil_iff.1 hx).2 (List.cons_ne_nil _ _)
  | attached takes explicit accepted =>
    exact ⟨_, before, hrest.symm, .attached takes explicit accepted hg, rfl⟩
  | @next target value kind rest takes explicit accepted =>
    exact ⟨_, .word value :: before, by rw [← hrest]; rfl, .next takes explicit accepted hg, rfl⟩

end Taken

theorem Given.of_skipDashes (h : Given operand (skipDashes items) entries) :
    Given operand items entries := by
  cases items with
  | nil => exact h
  | cons item rest =>
    cases item with
    | dashes => exact .dashes h
    | _ => exact h

/-- An operand touches no extras, and is looked for only once. -/
theorem takeOperand_some {st₁ : State} (h : takeOperand g st items = .ok (some (st₁, rest))) :
    st.operandDone = false ∧ st₁.extras = st.extras := by
  rw [takeOperand] at h
  split at h
  · cases h
  · rename_i hdone
    refine ⟨by simpa using hdone, ?_⟩
    split at h
    · obtain ⟨rfl, -⟩ := Prod.mk.inj (Option.some.inj (Except.ok.inj h))
      rfl
    · dsimp only at h
      split at h
      all_goals
        split at h
        · obtain ⟨rfl, -⟩ := Prod.mk.inj (Option.some.inj (Except.ok.inj h))
          rfl
        · cases h
    · cases h

/-- Extras stay. -/
theorem finish_extras (h : finish g st items = .ok st') (hx : st'.extras = []) :
    st.extras = [] := by
  obtain ⟨found, hf, h⟩ := bind_eq_ok.1 h
  cases found with
  | none =>
    obtain rfl := Except.ok.inj h
    exact (List.append_eq_nil_iff.1 hx).1
  | some found =>
    obtain rfl := Except.ok.inj h
    exact (takeOperand_some hf).2 ▸ (List.append_eq_nil_iff.1 hx).1

/-- The turns of the reading of a line, up to its last state. -/
inductive Turns (g : Grammar) (st' : State) : State → List Item → Prop
  | finish {st : State} {items : List Item} (h : finish g st items = .ok st') : Turns g st' st items
  | switch {st st₁ : State} {text : String} {m : Match} {items rest : List Item}
      (h : takeSwitch g st text m items = .ok (st₁, rest)) (others : Turns g st' st₁ rest) :
      Turns g st' st (.switch text m :: items)
  | operand {st st₁ : State} {items rest : List Item}
      (h : takeOperand g st items = .ok (some (st₁, rest))) (others : Turns g st' st₁ rest) :
      Turns g st' st items
  | extras {st : State} {item : Item} {items : List Item} (h : item.isSwitch = false)
      (others : Turns g st'
        (st.addExtras (((item :: items).takeWhile fun i => !i.isSwitch).map Item.text))
        ((item :: items).dropWhile fun i => !i.isSwitch)) : Turns g st' st (item :: items)

theorem loop_turns {fuel : ℕ} (h : loop g fuel st items = .ok st') : Turns g st' st items := by
  induction fuel generalizing st items with
  | zero => exact .finish h
  | succ fuel ih =>
    have hother : ∀ item rest, item.isSwitch = false →
        loop g (fuel + 1) st (item :: rest) = .ok st' → Turns g st' st (item :: rest) := by
      intro item rest hitem h
      rw [loop] at h
      · split at h
        · exact .finish h
        · obtain ⟨found, hf, h⟩ := bind_eq_ok.1 h
          cases found with
          | none => exact .extras hitem (ih h)
          | some found => exact .operand hf (ih h)
      · exact List.cons_ne_nil _ _
      · rintro text m rest ⟨⟩
        cases hitem
    cases items with
    | nil => exact .finish h
    | cons item rest =>
      cases item with
      | switch text m =>
        obtain ⟨⟨st₁, behind⟩, ht, h⟩ := bind_eq_ok.1 h
        exact .switch ht (ih h)
      | word text => exact hother (.word text) rest rfl h
      | dashes => exact hother .dashes rest rfl h

namespace Turns

theorem extras_eq_nil (h : Turns g st' st items) (hx : st'.extras = []) : st.extras = [] := by
  induction h with
  | finish h => exact finish_extras h hx
  | switch h others ih => exact (takeSwitch_taken h).extras ih
  | operand h others ih => exact (takeOperand_some h).2 ▸ ih
  | extras h others ih => exact (List.append_eq_nil_iff.1 ih).1

/-- A line without extras has no turn that makes some. -/
theorem false_of_extras {item : Item} (hitem : item.isSwitch = false) (h : Turns g st'
      (st.addExtras (((item :: items).takeWhile fun i => !i.isSwitch).map Item.text)) rest)
    (hx : st'.extras = []) : False := by
  have hnone := List.map_eq_nil_iff.1 (List.append_eq_nil_iff.1 (h.extras_eq_nil hx)).2
  rw [List.takeWhile_cons_of_pos (by simp [hitem])] at hnone
  cases hnone

end Turns

section Word

variable {target about : String}

/-- The target of the operand, if it is still missing. -/
def State.pending (st : State) (target : String) : Option String :=
  if st.operandDone then none else some target

theorem takeOperand_word (hop : g.operand = .word target about) {st₁ : State}
    (h : takeOperand g st items = .ok (some (st₁, rest))) :
    st.operandDone = false ∧ ∃ text behind, skipDashes items = .word text :: behind ∧
      rest = skipDashes behind ∧ st₁ = { st.give target text with operandDone := true } := by
  rw [takeOperand] at h
  split at h
  · cases h
  · rename_i hdone
    rw [hop] at h
    refine ⟨by simpa using hdone, ?_⟩
    split at h
    · rename_i t a text behind heq hitems
      obtain ⟨rfl, -⟩ := Operand.word.inj heq
      obtain ⟨rfl, rfl⟩ := Prod.mk.inj (Option.some.inj (Except.ok.inj h))
      exact ⟨text, behind, hitems, rfl, rfl⟩
    · rename_i heq _
      cases heq
    · cases h

/-- The rest of a line is its operand, if it is missing, or nothing. -/
theorem finish_given (hop : g.operand = .word target about) (h : finish g st items = .ok st')
    (hx : st'.extras = []) (hdone : st'.operandDone = true) :
    ∃ entries, Given (st.pending target) items entries ∧
      st'.values = Dictionary.insertAll (entries.map Entry.pair) st.values := by
  obtain ⟨found, hf, h⟩ := bind_eq_ok.1 h
  cases found with
  | none =>
    obtain rfl := Except.ok.inj h
    obtain rfl := List.map_eq_nil_iff.1 (List.append_eq_nil_iff.1 hx).2
    have hnone : st.pending target = none := if_pos hdone
    exact ⟨[], hnone ▸ .nil, rfl⟩
  | some found =>
    obtain ⟨st₁, rest⟩ := found
    obtain rfl := Except.ok.inj h
    obtain ⟨hpending, text, behind, hitems, rfl, rfl⟩ := takeOperand_word hop hf
    have hbehind : Given none (skipDashes behind) [] := by
      rw [List.map_eq_nil_iff.1 (List.append_eq_nil_iff.1 hx).2]
      exact .nil
    refine ⟨[⟨none, target, text⟩], .of_skipDashes ?_, rfl⟩
    rw [hitems, State.pending, if_neg (by simp [hpending])]
    exact .operand hbehind.of_skipDashes

/-- What a turn takes goes before what the others give. -/
theorem Turns.given (h : Turns g st' st items) (hop : g.operand = .word target about)
    (hx : st'.extras = []) (hdone : st'.operandDone = true) :
    ∃ entries, Given (st.pending target) items entries ∧
      st'.values = Dictionary.insertAll (entries.map Entry.pair) st.values := by
  induction h with
  | finish h => exact finish_given hop h hx hdone
  | @switch st st₁ text m items rest h others ih =>
    have htaken := takeSwitch_taken h
    obtain ⟨entries, hg, hvalues⟩ := ih
    have hpending : st₁.pending target = st.pending target := by
      rw [State.pending, State.pending, htaken.operandDone]
    rw [← List.append_nil rest] at htaken
    obtain ⟨e, more, hmore, he, hgive⟩ := htaken.given (others.extras_eq_nil hx) (hpending ▸ hg)
    rw [hmore, List.append_nil]
    refine ⟨e :: entries, he, ?_⟩
    rw [hvalues, hgive]
    rfl
  | operand h others ih =>
    obtain ⟨hpending, text, behind, heq, rfl, rfl⟩ := takeOperand_word hop h
    obtain ⟨entries, hg, hvalues⟩ := ih
    refine ⟨⟨none, target, text⟩ :: entries, .of_skipDashes ?_, hvalues⟩
    rw [heq, State.pending, if_neg (by simp [hpending])]
    exact .operand (.of_skipDashes hg)
  | extras h others ih => exact (others.false_of_extras h hx).elim

end Word

section Command

variable {target : String} {choices : List (String × String)}

/-- A command is one of the choices, with nothing before it, and takes all that follows. -/
theorem takeOperand_command (hop : g.operand = .command target choices)
    (hdashes : "--" ∉ choices.map Prod.fst) {st₁ : State}
    (h : takeOperand g st items = .ok (some (st₁, rest))) :
    ∃ text behind, items = .word text :: behind ∧ rest = [] ∧ text ∈ choices.map Prod.fst ∧
      st₁ = { st with operandDone := true, command := some (text, behind.map Item.text) } := by
  rw [takeOperand] at h
  split at h
  · cases h
  · rw [hop] at h
    split at h
    · rename_i heq _
      cases heq
    · rename_i t c text behind heq hitems
      obtain ⟨rfl, rfl⟩ := Operand.command.inj heq
      cases items with
      | nil => cases hitems
      | cons item others =>
        cases item with
        | switch text m => cases hitems
        | word word =>
          obtain ⟨hword, rfl⟩ := List.cons.inj hitems
          obtain rfl := Item.word.inj hword
          dsimp only at h
          split at h
          · rename_i hmem
            obtain ⟨rfl, rfl⟩ := Prod.mk.inj (Option.some.inj (Except.ok.inj h))
            exact ⟨word, others, rfl, rfl, by simpa using hmem, rfl⟩
          · cases h
        | dashes =>
          dsimp only at h
          rw [if_neg (by simpa using hdashes)] at h
          cases h
    · cases h

/-- Nothing is left to do behind an operand at the end. -/
theorem Turns.eq_of_nil (h : Turns g st' st []) (hdone : st.operandDone = true) :
    st' = st.addExtras [] := by
  have hnone : takeOperand g st [] = .ok none := by rw [takeOperand, if_pos hdone]
  cases h with
  | finish h =>
    rw [Arguments.finish, hnone] at h
    exact (Except.ok.inj h).symm
  | operand h others => cases hnone.symm.trans h

/-- A line with a command: values of switches, then the command with all that belongs to it. -/
structure Commanded (choices : List (String × String)) (st st' : State) (items : List Item)
    (entries : List Entry) (text : String) (before after : List Item) : Prop where
  items : items = before ++ .word text :: after
  given : Given none before entries
  choice : text ∈ choices.map Prod.fst
  values : st'.values = Dictionary.insertAll (entries.map Entry.pair) st.values
  command : st'.command = some (text, after.map Item.text)

theorem finish_command (hop : g.operand = .command target choices)
    (hdashes : "--" ∉ choices.map Prod.fst) (h : finish g st items = .ok st')
    (hpending : st.operandDone = false) (hdone : st'.operandDone = true) :
    ∃ entries text before after, Commanded choices st st' items entries text before after := by
  obtain ⟨found, hf, h⟩ := bind_eq_ok.1 h
  cases found with
  | none =>
    obtain rfl := Except.ok.inj h
    cases hpending.symm.trans hdone
  | some found =>
    obtain ⟨text, after, rfl, -, hchoice, hst⟩ := takeOperand_command hop hdashes hf
    obtain rfl := Except.ok.inj h
    exact ⟨[], text, [], after, rfl, .nil, hchoice, by rw [hst]; rfl, by rw [hst]; rfl⟩

theorem Turns.commanded (h : Turns g st' st items) (hop : g.operand = .command target choices)
    (hdashes : "--" ∉ choices.map Prod.fst) (hx : st'.extras = [])
    (hpending : st.operandDone = false) (hdone : st'.operandDone = true) :
    ∃ entries text before after, Commanded choices st st' items entries text before after := by
  induction h with
  | finish h => exact finish_command hop hdashes h hpending hdone
  | @switch st st₁ text m items rest h others ih =>
    have htaken := takeSwitch_taken h
    obtain ⟨entries, command, before, after, hitems, hg, hchoice, hvalues, hcommand⟩ :=
      ih (htaken.operandDone.trans hpending)
    obtain ⟨e, more, hmore, he, hgive⟩ :=
      (hitems ▸ htaken).given (others.extras_eq_nil hx) hg
    refine ⟨e :: entries, command, .switch text m :: more, after, ?_, he, hchoice, ?_, hcommand⟩
    · rw [hmore]
      rfl
    · rw [hvalues, hgive]
      rfl
  | operand h others ih =>
    obtain ⟨text, after, rfl, rfl, hchoice, rfl⟩ := takeOperand_command hop hdashes h
    obtain rfl := others.eq_of_nil rfl
    exact ⟨[], text, [], after, rfl, .nil, hchoice, rfl, rfl⟩
  | extras h others ih => exact (others.false_of_extras h hx).elim

end Command

theorem Match.Takes.unique {target target' : String} {kind kind' : ValueKind}
    (h : m.Takes target kind) (h' : m.Takes target' kind') : target = target' := by
  obtain ⟨s, required, hs, he⟩ := h
  obtain ⟨s', required', hs', he'⟩ := h'
  obtain rfl := Option.some.inj (hs.symm.trans hs')
  exact (Effect.value.inj (he.symm.trans he')).1

/-- Items give their values in one way. -/
theorem Given.unique {entries' : List Entry} (h : Given operand items entries)
    (h' : Given operand items entries') : entries = entries' := by
  induction h generalizing entries' with
  | nil =>
    cases h'
    rfl
  | attached takes explicit accepted others ih =>
    cases h' with
    | attached takes' explicit' accepted' others' =>
      obtain rfl := Option.some.inj (explicit.symm.trans explicit')
      rw [takes.unique takes', ih others']
    | next takes' explicit' accepted' others' => cases explicit.symm.trans explicit'
  | next takes explicit accepted others ih =>
    cases h' with
    | attached takes' explicit' accepted' others' => cases explicit.symm.trans explicit'
    | next takes' explicit' accepted' others' => rw [takes.unique takes', ih others']
  | operand others ih =>
    cases h' with
    | operand others' => rw [ih others']
  | dashes others ih =>
    cases h' with
    | dashes others' => exact ih others'

/-- Before the operand of a line that has its command elsewhere stands no other word. -/
theorem Given.split_unique {before before' after after' : List Item} {word word' : String}
    {entries' : List Entry} (h : Given none before entries) (h' : Given none before' entries')
    (heq : before ++ .word word :: after = before' ++ .word word' :: after') :
    before = before' ∧ word = word' ∧ after = after' := by
  generalize hnone : (none : Option String) = operand at h
  induction h generalizing before' entries' with
  | nil =>
    cases h' with
    | nil => exact ⟨rfl, by simpa using heq⟩
    | attached | next | dashes => cases heq
  | attached takes explicit accepted others ih =>
    cases h' with
    | nil => cases heq
    | attached takes' explicit' accepted' others' =>
      obtain ⟨hitem, hrest⟩ := List.cons.inj heq
      obtain ⟨rfl, rfl, rfl⟩ := ih others' hrest hnone
      exact ⟨congrArg (· :: _) hitem, rfl, rfl⟩
    | next takes' explicit' accepted' others' =>
      obtain ⟨hitem, -⟩ := List.cons.inj heq
      obtain ⟨-, rfl⟩ := Item.switch.inj hitem
      cases explicit.symm.trans explicit'
    | dashes others' => cases heq
  | next takes explicit accepted others ih =>
    cases h' with
    | nil => cases heq
    | attached takes' explicit' accepted' others' =>
      obtain ⟨hitem, -⟩ := List.cons.inj heq
      obtain ⟨-, rfl⟩ := Item.switch.inj hitem
      cases explicit.symm.trans explicit'
    | next takes' explicit' accepted' others' =>
      obtain ⟨hitem, hrest⟩ := List.cons.inj heq
      obtain ⟨hvalue, hrest⟩ := List.cons.inj hrest
      obtain ⟨rfl, rfl, rfl⟩ := ih others' hrest hnone
      exact ⟨by rw [hitem, hvalue], rfl, rfl⟩
    | dashes others' => cases heq
  | operand others ih => cases hnone
  | dashes others ih =>
    cases h' with
    | nil => cases heq
    | attached | next => cases heq
    | dashes others' =>
      obtain ⟨-, hrest⟩ := List.cons.inj heq
      obtain ⟨rfl, rfl, rfl⟩ := ih others' hrest hnone
      exact ⟨rfl, rfl, rfl⟩

theorem parse_eq_ok {words : List String} (h : parse g words = .ok st) :
    ∃ items, g.readAll words = .ok items ∧ Turns g st .start items ∧ missing g st = [] := by
  obtain ⟨items, hitems, h⟩ := bind_eq_ok.1 h
  obtain ⟨st₁, hloop, h⟩ := bind_eq_ok.1 h
  split at h
  · rename_i hmissing
    obtain rfl := Except.ok.inj h
    exact ⟨items, hitems, loop_turns hloop, hmissing⟩
  · cases h

/-- An operand that is asked for is there. -/
theorem operandDone_of_missing (hop : g.operand ≠ .none) (h : missing g st = []) :
    st.operandDone = true := by
  by_contra hdone
  have hfirst := (List.append_eq_nil_iff.1 h).1
  split at hfirst
  · rw [if_neg hdone] at hfirst
    cases hfirst
  · rw [if_neg hdone] at hfirst
    cases hfirst
  · rename_i hnone
    exact hop hnone

/-- Of a line with a word for its operand, all values are known. -/
theorem parse_given {target about : String} {words : List String}
    (hop : g.operand = .word target about) (h : parse g words = .ok st) (hx : st.extras = []) :
    ∃ items entries, g.readAll words = .ok items ∧ Given (some target) items entries ∧
      st.values = Entry.values entries := by
  obtain ⟨items, hitems, hturns, hmissing⟩ := parse_eq_ok h
  have hdone := operandDone_of_missing (by rw [hop]; exact nofun) hmissing
  obtain ⟨entries, hg, hvalues⟩ := hturns.given hop hx hdone
  exact ⟨items, entries, hitems, hg, hvalues⟩

/-- Of a line with a command, the values before the command are known, and the words behind it. -/
theorem parse_command {target : String} {choices : List (String × String)} {words : List String}
    (hop : g.operand = .command target choices) (hdashes : "--" ∉ choices.map Prod.fst)
    (h : parse g words = .ok st) (hx : st.extras = []) :
    ∃ entries text before after, g.readAll words = .ok (before ++ .word text :: after) ∧
      Given none before entries ∧ text ∈ choices.map Prod.fst ∧
      st.values = Entry.values entries ∧ st.command = some (text, after.map Item.text) := by
  obtain ⟨items, hitems, hturns, hmissing⟩ := parse_eq_ok h
  have hdone := operandDone_of_missing (by rw [hop]; exact nofun) hmissing
  obtain ⟨entries, text, before, after, hsplit, hg, hchoice, hvalues, hcommand⟩ :=
    hturns.commanded hop hdashes hx rfl hdone
  exact ⟨entries, text, before, after, hsplit ▸ hitems, hg, hchoice, hvalues, hcommand⟩

/-- What a switch was found under is one of its spellings. -/
def Match.Spelled (g : Grammar) (m : Match) : Prop :=
  ∀ s, m.switch = some s → (String.ofList m.spelling, s) ∈ g.spellings

theorem spelled_of_find? {name : List Char} {s : Switch} {equals : Bool}
    {explicit : Option (List Char)} (h : g.find? name = some s) :
    Match.Spelled g ⟨some s, name, equals, explicit⟩ := by
  rintro _ ⟨⟩
  obtain ⟨l, l', hl, -⟩ := List.lookup_eq_some_iff.1 h
  rw [hl]
  exact List.mem_append_right _ List.mem_cons_self

/-- Only spellings are abbreviated. -/
theorem spelled_of_mem {word : List Char} {p : String × Match}
    (h : p ∈ g.longMatches word ∨ p ∈ g.shortMatches word) : p.2.Spelled g := by
  have hspelled : ∀ q ∈ g.spellings, ∀ equals explicit,
      Match.Spelled g ⟨some q.2, q.1.toList, equals, explicit⟩ := by
    rintro q hq equals explicit _ ⟨⟩
    simpa using hq
  rcases h with h | h
  · obtain ⟨q, hq, rfl⟩ := List.mem_map.1 h
    exact hspelled q (List.mem_of_mem_filter hq) _ _
  · obtain ⟨q, hq, h⟩ := List.mem_filterMap.1 h
    split at h
    · cases h
      exact hspelled q hq _ _
    · split at h
      · cases h
        exact hspelled q hq _ _
      · cases h

theorem read_spelled {word : String} (h : g.read word = .ok (.switch text m)) : m.Spelled g := by
  rw [Grammar.read] at h
  split at h
  · split at h
    · cases h
      exact spelled_of_find? ‹_›
    · split at h
      · cases h
      · dsimp only at h
        split at h
        · cases h
          exact spelled_of_find? ‹_›
        · split at h
          · rename_i spelling found heq
            cases h
            have hmem := List.mem_singleton_self (spelling, m)
            rw [← heq] at hmem
            split at hmem
            · exact spelled_of_mem (.inl hmem)
            · exact spelled_of_mem (.inr hmem)
          · split at h
            · cases h
            · cases h
              exact nofun
          · cases h
  · cases h

theorem readAll_spelled {words : List String} (h : g.readAll words = .ok items) :
    ∀ text m, .switch text m ∈ items → m.Spelled g := by
  induction words generalizing items with
  | nil =>
    obtain rfl := Except.ok.inj h
    exact nofun
  | cons word words ih =>
    rw [Grammar.readAll] at h
    split at h
    · obtain rfl := Except.ok.inj h
      intro text m hm
      rcases List.mem_cons.1 hm with hm | hm
      · cases hm
      · obtain ⟨_, -, hm⟩ := List.mem_map.1 hm
        cases hm
    · obtain ⟨item, hitem, h⟩ := bind_eq_ok.1 h
      obtain ⟨others, hothers, h⟩ := bind_eq_ok.1 h
      obtain rfl := Except.ok.inj h
      intro text m hm
      rcases List.mem_cons.1 hm with rfl | hm
      · exact read_spelled hitem
      · exact ih hothers text m hm

/-- Where an entry comes from: it is the operand, or a switch of the grammar was given its value. -/
inductive Entry.Known (g : Grammar) (operand : Option String) : Entry → Prop
  | operand {target value : String} (h : operand = some target) :
      Known g operand ⟨none, target, value⟩
  | switch {s : Switch} {name target value : String} {kind : ValueKind} {required : Bool}
      (spelled : (name, s) ∈ g.spellings) (effect : s.effect = .value target kind required)
      (accepted : kind.accepts value = true) : Known g operand ⟨some name, target, value⟩

theorem Given.known (h : Given operand items entries)
    (hs : ∀ text m, .switch text m ∈ items → m.Spelled g) :
    ∀ e ∈ entries, e.Known g operand := by
  induction h with
  | nil => exact nofun
  | attached takes explicit accepted others ih =>
    obtain ⟨s, required, hm, he⟩ := takes
    refine List.forall_mem_cons.2 ⟨.switch (hs _ _ List.mem_cons_self s hm) he accepted, ?_⟩
    exact ih fun text m hm => hs text m (List.mem_cons_of_mem _ hm)
  | next takes explicit accepted others ih =>
    obtain ⟨s, required, hm, he⟩ := takes
    refine List.forall_mem_cons.2 ⟨.switch (hs _ _ List.mem_cons_self s hm) he accepted, ?_⟩
    exact ih fun text m hm => hs text m (List.mem_cons_of_mem _ (List.mem_cons_of_mem _ hm))
  | operand others ih =>
    refine List.forall_mem_cons.2 ⟨.operand rfl, fun e he => ?_⟩
    cases ih (fun text m hm => hs text m (List.mem_cons_of_mem _ hm)) e he with
    | operand h => cases h
    | switch spelled effect accepted => exact .switch spelled effect accepted
  | dashes others ih => exact ih fun text m hm => hs text m (List.mem_cons_of_mem _ hm)

end BuildClient.Arguments
