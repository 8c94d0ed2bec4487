import BuildClient.Proofs.Url.Anonymous
import BuildClient.Proofs.Url.Sent
import BuildClient.Proofs.Url.StepCount

/-!
How deep an address leads once it is sent. What goes on from an address leads deeper if none of its
steps goes back and one of them goes on.
-/
namespace BuildClient

open Text

namespace Url

open Percent

variable {names : Names} {api ns plural name url sent : String} {s t x y : List Char}
  {c : Components} {scheme : Option (List Char)}

/-- A part that is written behind its mark, unless it is nothing. -/
def marked (mark : Char) : Option (List Char) → List Char
  | none | some [] => []
  | some s => mark :: s

/-- What of a text stands before the marks that end a path. -/
def pathPart (s : List Char) : List Char := (cutFirst '?' (cutFirst '#' s).1).1

namespace Components

/-- What is added to an address goes to the last component that it has. -/
def extend (c : Components) (x : List Char) : Components :=
  match c.query, c.fragment with
  | _, some f => { c with fragment := some (f ++ '/' :: x) }
  | some q, none =>
    { c with query := some (q ++ '/' :: (cutFirst '#' x).1), fragment := (cutFirst '#' x).2 }
  | none, none =>
    { c with path := c.path ++ '/' :: pathPart x, query := (cutFirst '?' (cutFirst '#' x).1).2,
             fragment := (cutFirst '#' x).2 }

theorem cutFirst_slash {sep : Char} (h : '/' ≠ sep) (x : List Char) :
    cutFirst sep ('/' :: x) = ('/' :: (cutFirst sep x).1, (cutFirst sep x).2) := by
  rw [cutFirst, if_neg h]

/-- Components of a text behind its authority. -/
def ofTail (scheme authority : Option (List Char)) (s : List Char) : Components :=
  ⟨scheme, authority, pathPart s, (cutFirst '?' (cutFirst '#' s).1).2, (cutFirst '#' s).2⟩

theorem ofTail_append (scheme authority : Option (List Char)) (s x : List Char) :
    ofTail scheme authority (s ++ '/' :: x) = (ofTail scheme authority s).extend x := by
  by_cases hf : '#' ∈ s
  · obtain ⟨r, hr, hrx⟩ := cutFirst_append_of_mem hf ('/' :: x)
    rw [ofTail, ofTail, pathPart, pathPart, hrx, hr, extend]
  · have hrx := cutFirst_append_of_not_mem hf ('/' :: x)
    rw [cutFirst_slash (by decide)] at hrx
    by_cases hq : '?' ∈ s
    · obtain ⟨q, hq, hqx⟩ := cutFirst_append_of_mem hq ('/' :: (cutFirst '#' x).1)
      rw [ofTail, ofTail, pathPart, pathPart, hrx, cutFirst_eq_self hf, hqx, hq, extend]
    · have hqx := cutFirst_append_of_not_mem hq ('/' :: (cutFirst '#' x).1)
      rw [cutFirst_slash (by decide)] at hqx
      rw [ofTail, ofTail, pathPart, pathPart, hrx, cutFirst_eq_self hf, hqx, cutFirst_eq_self hq,
        extend, pathPart]

theorem readRest_of_slashes (scheme : Option (List Char)) (r : List Char) :
    readRest scheme ('/' :: '/' :: r) =
      ofTail scheme (some (r.takeWhile fun c => !endsAuthority c))
        (r.dropWhile fun c => !endsAuthority c) := rfl

theorem readRest_of_not_slashes (h : ∀ r, s ≠ '/' :: '/' :: r) :
    readRest scheme s = ofTail scheme none s := by
  unfold readRest
  split
  rename_i heq
  split at heq
  · rename_i r
    exact absurd rfl (h r)
  · cases heq
    rfl

theorem readRest_append (hs : s.getLast? ≠ some '/') (hx : x.head? ≠ some '/') :
    readRest scheme (s ++ '/' :: x) = (readRest scheme s).extend x := by
  by_cases h : ∃ r, s = '/' :: '/' :: r
  · obtain ⟨r, rfl⟩ := h
    rw [readRest_of_slashes, ← ofTail_append, List.cons_append, List.cons_append,
      readRest_of_slashes, takeWhile_append_of_stop (by decide),
      dropWhile_append_of_stop (by decide)]
  · rw [not_exists] at h
    have happ : ∀ r, s ++ '/' :: x ≠ '/' :: '/' :: r := by
      intro r he
      match s with
      | [] =>
        have hhead := (List.cons.inj he).2
        exact hx (by rw [hhead]; rfl)
      | [d] =>
        have hd := (List.cons.inj he).1
        exact hs (by rw [hd]; rfl)
      | d :: d' :: s =>
        obtain ⟨hd, he⟩ := List.cons.inj he
        obtain ⟨hd', -⟩ := List.cons.inj he
        exact h s (by rw [hd, hd'])
    rw [readRest_of_not_slashes h, readRest_of_not_slashes happ, ofTail_append]

/-- A scheme is found before the first slash or nowhere. -/
theorem cutScheme_append (h : s ≠ []) (x : List Char) :
    cutScheme (s ++ '/' :: x) = (cutScheme s).map fun p => (p.1, p.2 ++ '/' :: x) := by
  obtain ⟨c, s, rfl⟩ := List.exists_cons_of_ne_nil h
  by_cases hc : ':' ∈ c :: s
  · obtain ⟨r, hr, hrx⟩ := cutFirst_append_of_mem hc ('/' :: x)
    rw [List.cons_append, cutScheme, ← List.cons_append, hrx, cutScheme, hr]
    dsimp only
    split <;> rfl
  · have hx := cutFirst_append_of_not_mem hc ('/' :: x)
    rw [cutFirst_slash (by decide)] at hx
    rw [List.cons_append, cutScheme, ← List.cons_append, hx, cutScheme, cutFirst_eq_self hc]
    have hslash : ((c :: s) ++ '/' :: (cutFirst ':' x).1).all isSchemeChar = false := by
      refine Bool.eq_false_iff.2 fun hall => ?_
      exact absurd (List.all_eq_true.1 hall '/' (by simp)) (by decide)
    cases (cutFirst ':' x).2 with
    | none => rfl
    | some r =>
      dsimp only
      rw [hslash, Bool.and_false, if_neg Bool.false_ne_true]
      rfl

theorem read_append (hs : s ≠ []) (hlast : s.getLast? ≠ some '/') (hx : x.head? ≠ some '/') :
    read (s ++ '/' :: x) = (read s).extend x := by
  rw [read, read, cutScheme_append hs]
  cases hcut : cutScheme s with
  | some p =>
    obtain ⟨scheme, rest⟩ := p
    refine readRest_append (fun h => hlast ?_) hx
    obtain ⟨before, rfl⟩ := List.getLast?_eq_some_iff.1 h
    rw [(cutScheme_eq_some hcut).2]
    exact List.getLast?_eq_some_iff.2 ⟨scheme ++ ':' :: before, by simp⟩
  | none =>
    obtain ⟨d, s, rfl⟩ := List.exists_cons_of_ne_nil hs
    dsimp only [Option.map_none]
    rw [List.cons_append]
    simp only [List.head?_cons, List.isEmpty_cons, Bool.or_false, Option.some.injEq]
    split
    · exact readRest_append hlast hx
    · refine readRest_append (s := '/' :: '/' :: d :: s) ?_ hx
      simpa using hlast

def onWeb (c : Components) : Bool := c.scheme.all fun s => isWeb (s.map Char.toLower)

/-- The path as it is sent, but for escapes. -/
def front (c : Components) : List Char :=
  Target.rootedPath (if c.onWeb then resolveDots c.path else c.path)

/-- What stands behind the authority of an address when it is sent, but for escapes. -/
def outline (c : Components) : List Char :=
  c.front ++ marked '?' c.query ++ marked '#' c.fragment

end Components

/-- How deep an address leads once it is sent. -/
def depth (s : List Char) : ℕ :=
  if (s.take 4).map Char.toLower = "http".toList then 2 + stepCount (Components.read s).outline
  else stepCount s

theorem stepCount_rootedPath (path : List Char) :
    stepCount (Target.rootedPath path) = stepCount path := by
  rw [Target.rootedPath]
  split
  · rfl
  · exact stepCount_slash path

theorem level_marked (mark : Char) {part : Option (List Char)} (h : Level (part.getD []) t) :
    Level (marked mark part) (if t.isEmpty then [] else mark :: t) := by
  have ht := h.eq_nil_iff
  match part with
  | none =>
    rw [if_pos (by simpa using ht.1 rfl)]
    exact .refl []
  | some [] =>
    rw [if_pos (by simpa using ht.1 rfl)]
    exact .refl []
  | some (d :: s) =>
    rw [if_neg (by simpa using mt ht.2 (List.cons_ne_nil d s))]
    exact h.cons mark

theorem level_rootedPath (h : Level s t) : Level (Target.rootedPath s) (Target.rootedPath t) := by
  rw [Target.rootedPath, Target.rootedPath]
  by_cases hs : s.head? = some '/'
  · rw [if_pos hs, if_pos (h.head?_eq_slash_iff.1 hs)]
    exact h
  · rw [if_neg hs, if_neg (mt h.head?_eq_slash_iff.2 hs)]
    exact h.slash

/-- What is written behind an authority is the outline, with escapes. -/
theorem level_outline {scheme : List Char} (a : Authority) {u : Target}
    (hu : u = Target.ofComponents (scheme.map Char.toLower) a c) (hc : c.scheme = some scheme) :
    Level c.outline (Target.rootedPath u.path ++ (if u.query.isEmpty then [] else '?' :: u.query) ++
      (if u.fragment.isEmpty then [] else '#' :: u.fragment)) := by
  rw [Components.outline, Components.front, Components.onWeb, hc, Option.all_some, hu,
    Target.ofComponents]
  split
  · exact ((level_rootedPath (level_normalize (by decide) _)).append
      (level_marked '?' (level_normalize (by decide) _))).append
        (level_marked '#' (level_normalize (by decide) _))
  · exact ((Level.refl _).append (level_marked '?' (.refl _))).append (level_marked '#' (.refl _))

/-- Scheme and authority are one step each. -/
theorem stepCount_start {scheme authority rest : List Char} (hs : '/' ∉ scheme)
    (ha : '/' ∉ authority) (hne : authority ≠ []) (hrest : rest.head? = some '/') :
    stepCount (scheme ++ "://".toList ++ authority ++ rest) = 2 + stepCount rest := by
  obtain ⟨rest, rfl⟩ := List.head?_eq_some_iff.1 hrest
  have hcut : scheme ++ "://".toList ++ authority ++ '/' :: rest =
      (scheme ++ [':']) ++ '/' :: ('/' :: (authority ++ '/' :: rest)) := by simp
  have hscheme : '/' ∉ scheme ++ [':'] := by simp [hs]
  rw [hcut, stepCount_append_slash, stepCount_slash, stepCount_append_slash,
    stepCount_block hscheme (by simp), stepCount_block ha hne, stepCount_slash]
  omega

theorem head?_rootedPath (path : List Char) : (Target.rootedPath path).head? = some '/' := by
  rw [Target.rootedPath]
  split
  · assumption
  · rfl

theorem not_slash_of_isScheme {scheme : List Char} (h : IsScheme scheme) : '/' ∉ scheme := fun hm =>
  absurd (h.2 '/' hm) (by decide)

/-- An address without a scheme is sent only if it is not taken for one of the web. -/
theorem take_of_prepare (h : prepare names url [] = .ok sent) :
    isOpaque (trimStart url).toList = false ↔
      ((trimStart url).toList.take 4).map Char.toLower = "http".toList := by
  constructor
  · intro hbare
    by_contra htake
    have hcolon : ':' ∉ (trimStart url).toList := fun hm => by
      rw [isOpaque, List.contains_eq_mem, decide_eq_true hm, Bool.true_and, bne_eq_false_iff_eq]
        at hbare
      exact htake hbare
    rw [prepare, if_neg (by simp [hbare])] at h
    obtain ⟨t, ht, -⟩ := bind_eq_ok.1 h
    obtain ⟨scheme, _, _, _, _, hscheme, -⟩ := target_read_eq_ok ht
    have hcut : Components.cutScheme (trimStart url).toList = none := by
      cases hu : (trimStart url).toList with
      | nil => rfl
      | cons c s =>
        rw [hu] at hcolon
        rw [Components.cutScheme, cutFirst_eq_self hcolon]
    rw [Components.read, hcut] at hscheme
    dsimp only at hscheme
    split at hscheme <;> cases hscheme
  · intro htake
    rw [isOpaque, htake]
    simp

theorem stepCount_of_prepare (h : prepare names url [] = .ok sent) :
    stepCount sent.toList = depth (trimStart url).toList := by
  have htake := take_of_prepare h
  rw [depth]
  rw [prepare] at h
  split at h
  -- An address of no scheme of the web is sent as it stands, and so measured as it stands.
  · rename_i hbare
    rw [if_neg (mt htake.2 (by simp [hbare])), ← Except.ok.inj h]
  · rename_i hbare
    rw [if_pos (htake.1 (by simpa using hbare))]
    obtain ⟨t, ht, h⟩ := bind_eq_ok.1 h
    obtain rfl := Except.ok.inj h
    obtain ⟨scheme, authority, spell, a, host, hs, ha, hspell, hread, u, hu, hne, hhost, rfl⟩ :=
      target_read_eq_ok ht
    obtain ⟨hscheme, r, -, rfl⟩ := read_eq_some hs ha
    have hinside := inside_write hspell hread (fun c => inside_of_mem_authority) hu hhost
    have hlower : u.scheme = scheme.map Char.toLower := by
      rw [hu, Target.ofComponents]
      split <;> rfl
    rw [String.toList_ofList, ← (level_requote _).stepCount_eq,
      (level_outline a hu hs).stepCount_eq]
    have hauthority : Authority.write { u.authority with host := host } ≠ [] := by
      simp [Authority.write, hne]
    have hslash : '/' ∉ scheme.map Char.toLower := not_slash_of_isScheme (isScheme_lower hscheme)
    have hwrite := @stepCount_start (scheme.map Char.toLower) _
      (Target.rootedPath u.path ++ (if u.query.isEmpty then [] else '?' :: u.query) ++
        (if u.fragment.isEmpty then [] else '#' :: u.fragment)) hslash
      (fun hm => (hinside _ hm).1 rfl) hauthority (by simp [head?_rootedPath])
    rw [← hwrite, Target.addQuery, if_pos (by rfl), Target.write, ← hlower]
    simp only [List.append_assoc]

/-- Without going back, a path keeps the steps that go on. -/
theorem countP_resolve {steps : List (List Char)} (h : ['.', '.'] ∉ steps)
    (done : List (List Char)) :
    (steps.foldl resolveStep done).countP (fun step => !step.isEmpty) =
      done.countP (fun step => !step.isEmpty) +
        steps.countP fun step => !step.isEmpty && step != ['.'] := by
  induction steps generalizing done with
  | nil => rfl
  | cons step steps ih =>
    rw [List.mem_cons, not_or] at h
    rw [List.foldl_cons, ih h.2, List.countP_cons, resolveStep]
    by_cases hdot : step = ['.']
    · simp [hdot]
    · rw [if_neg hdot, if_neg (Ne.symm h.1), List.countP_cons]
      simp only [bne_iff_ne.2 hdot, Bool.and_true]
      omega

theorem stepCount_joinWith {pieces : List (List Char)} (h : ∀ piece ∈ pieces, '/' ∉ piece) :
    stepCount (joinWith '/' pieces) = pieces.countP fun step => !step.isEmpty := by
  cases pieces with
  | nil => rfl
  | cons piece pieces => rw [stepCount, splitAt_joinWith '/' (List.cons_ne_nil _ _) h]

theorem not_mem_splitAt {sep : Char} {piece : List Char} (h : piece ∈ splitAt sep s) :
    sep ∉ piece := by
  induction s generalizing piece with
  | nil =>
    rw [List.mem_singleton.1 h]
    exact List.not_mem_nil
  | cons c s ih =>
    by_cases hc : c = sep
    · rw [splitAt, if_pos hc] at h
      rcases List.mem_cons.1 h with rfl | h
      · exact List.not_mem_nil
      · exact ih h
    · obtain ⟨first, after, hs, hcs⟩ := splitAt_cons_of_ne hc s
      rw [hs] at ih
      rw [hcs] at h
      rcases List.mem_cons.1 h with rfl | h
      · simpa [Ne.symm hc] using ih List.mem_cons_self
      · exact ih (List.mem_cons_of_mem first h)

/-- A resolved path has the steps that are left. -/
theorem stepCount_resolveDots (path : List Char) : stepCount (resolveDots path) =
    ((splitAt '/' path).foldl resolveStep []).countP fun step => !step.isEmpty := by
  have hempty : ∀ b : Prop, [Decidable b] → (if b then [[]] else ([] : List (List Char))).countP
      (fun step => !step.isEmpty) = 0 := by
    intro b _
    split <;> rfl
  rw [resolveDots, stepCount_joinWith, List.countP_append, List.countP_append,
    List.countP_reverse, hempty, hempty, Nat.zero_add, Nat.add_zero]
  intro piece hp
  rw [List.mem_append, List.mem_append, List.mem_reverse] at hp
  have hnone : ∀ b : Prop, [Decidable b] → piece ∈ (if b then [[]] else ([] : List (List Char))) →
      '/' ∉ piece := by
    intro b _ hm
    split at hm
    · rw [List.mem_singleton.1 hm]
      exact List.not_mem_nil
    · cases hm
  rcases hp with (hp | hp) | hp
  · exact hnone _ hp
  · rcases mem_resolveSteps hp with hp | hp
    · exact not_mem_splitAt hp
    · cases hp
  · exact hnone _ hp

/-- Before the marks that end a path, no step of the text goes back and some step goes on. -/
def Upright (s : List Char) : Prop :=
  ['.', '.'] ∉ splitAt '/' (pathPart s) ∧ ∃ step ∈ splitAt '/' (pathPart s),
    step ≠ [] ∧ step ≠ ['.']

instance (s : List Char) : Decidable (Upright s) := inferInstanceAs (Decidable (_ ∧ _))

/-- A text without marks, all of whose steps go on. -/
structure Onward (s : List Char) : Prop where
  query : '?' ∉ s
  fragment : '#' ∉ s
  steps : ∀ step ∈ splitAt '/' s, step ≠ [] ∧ step ∉ dotSteps

theorem Onward.stepCount_eq (h : Onward s) : stepCount s = (splitAt '/' s).length :=
  List.countP_eq_length.2 fun step hs => by simpa using (h.steps step hs).1

theorem Onward.head?_ne (h : Onward s) : s.head? ≠ some '/' := by
  intro hs
  obtain ⟨rest, rfl⟩ := List.head?_eq_some_iff.1 hs
  exact (h.steps [] (by rw [splitAt, if_pos rfl]; exact List.mem_cons_self)).1 rfl

theorem stepCount_cutFirst_le (sep : Char) (s : List Char) :
    stepCount (cutFirst sep s).1 ≤ stepCount s := by
  cases hr : (cutFirst sep s).2 with
  | none => rw [cutFirst_of_none hr]
  | some r =>
    have hle := stepCount_le_append (cutFirst sep s).1 (sep :: r)
    rwa [← cutFirst_eq_some hr] at hle

theorem Upright.stepCount_pos (h : Upright x) :
    0 < stepCount (pathPart x) ∧ 0 < stepCount (cutFirst '#' x).1 ∧ 0 < stepCount x := by
  obtain ⟨-, step, hstep, hne, -⟩ := h
  have hpath : 0 < stepCount (pathPart x) :=
    List.countP_pos_iff.2 ⟨step, hstep, by simpa using hne⟩
  have hquery := stepCount_cutFirst_le '?' (cutFirst '#' x).1
  have hfragment := stepCount_cutFirst_le '#' x
  rw [pathPart] at hpath ⊢
  omega

theorem stepCount_marked_le (s : List Char) (mark : Char) (part : List Char) :
    stepCount (s ++ marked mark (some part)) ≤ stepCount (s ++ mark :: part) := by
  cases part with
  | nil => simpa [marked] using stepCount_le_append s [mark]
  | cons c part => exact le_rfl

theorem marked_append (mark : Char) (s x : List Char) :
    marked mark (some (s ++ '/' :: x)) = mark :: s ++ '/' :: x := by
  cases s <;> rfl

namespace Components

/-- How deep the address leads to where it goes on. -/
def reach (c : Components) : ℕ :=
  match c.query, c.fragment with
  | query, some f => stepCount (c.front ++ marked '?' query ++ '#' :: f)
  | some q, none => stepCount (c.front ++ '?' :: q)
  | none, none => stepCount c.front

theorem stepCount_outline_le (c : Components) : stepCount c.outline ≤ c.reach := by
  obtain ⟨scheme, authority, path, query, fragment⟩ := c
  cases fragment with
  | some f => exact stepCount_marked_le _ '#' f
  | none =>
    cases query with
    | some q =>
      rw [outline, marked.eq_def '#', List.append_nil]
      exact stepCount_marked_le _ '?' q
    | none =>
      rw [outline, marked.eq_def '#', marked.eq_def '?', List.append_nil, List.append_nil]
      exact le_rfl

/-- What goes on without marks goes on step by step. -/
theorem stepCount_front_extend (c : Components) (h : ['.', '.'] ∉ splitAt '/' x) :
    stepCount (front { c with path := c.path ++ '/' :: x }) = stepCount c.front +
      if c.onWeb then (splitAt '/' x).countP fun step => !step.isEmpty && step != ['.']
      else stepCount x := by
  rw [front, front, stepCount_rootedPath, stepCount_rootedPath]
  change stepCount (if c.onWeb then _ else _) = _
  cases c.onWeb with
  | false => exact stepCount_append_slash c.path x
  | true =>
    simp only [if_true]
    rw [stepCount_resolveDots, stepCount_resolveDots, splitAt_append_sep, List.foldl_append,
      countP_resolve h]

theorem reach_lt_outline_extend (c : Components) (h : Upright x) :
    c.reach < stepCount (c.extend x).outline := by
  obtain ⟨hpath, hquery, hwhole⟩ := h.stepCount_pos
  obtain ⟨hback, hon⟩ := h
  -- A fragment takes all that is added, and a query all up to a fragment. Only behind a path is
  -- what is added resolved, and there no step of it goes back.
  match c with
  | ⟨scheme, authority, path, query, some f⟩ =>
    have hdepth : stepCount (extend ⟨scheme, authority, path, query, some f⟩ x).outline =
        reach ⟨scheme, authority, path, query, some f⟩ + stepCount x := by
      rw [extend, outline, marked_append, ← List.append_assoc, stepCount_append_slash]
      rfl
    omega
  | ⟨scheme, authority, path, some q, none⟩ =>
    have hdepth : reach ⟨scheme, authority, path, some q, none⟩ + stepCount (cutFirst '#' x).1 ≤
        stepCount (extend ⟨scheme, authority, path, some q, none⟩ x).outline := by
      rw [extend, outline, marked_append, ← List.append_assoc]
      refine le_of_eq_of_le ?_ (stepCount_le_append _ _)
      rw [stepCount_append_slash]
      rfl
    omega
  | ⟨scheme, authority, path, none, none⟩ =>
    have hdepth := stepCount_front_extend ⟨scheme, authority, path, none, none⟩ hback
    have hmore : 0 < (splitAt '/' (pathPart x)).countP
        fun step => !step.isEmpty && step != ['.'] := by
      obtain ⟨step, hstep, hne, hdot⟩ := hon
      exact List.countP_pos_iff.2 ⟨step, hstep, by simp [hne, hdot]⟩
    rw [extend, outline, List.append_assoc]
    refine lt_of_lt_of_le ?_ (stepCount_le_append _ _)
    change stepCount (front ⟨scheme, authority, path, none, none⟩) <
      stepCount (front ⟨scheme, authority, path ++ '/' :: pathPart x, none, none⟩)
    rw [hdepth]
    split <;> omega

/-- All steps of the text that goes on are added. -/
theorem stepCount_extend_of_onward (c : Components) (h : Onward x) :
    stepCount (c.extend x).outline = c.reach + (splitAt '/' x).length := by
  have hfragment : cutFirst '#' x = (x, none) := cutFirst_eq_self h.fragment
  have hquery : cutFirst '?' x = (x, none) := cutFirst_eq_self h.query
  have hcount := h.stepCount_eq
  have hback : ['.', '.'] ∉ splitAt '/' x := fun hm => (h.steps _ hm).2 (by decide)
  match c with
  | ⟨scheme, authority, path, query, some f⟩ =>
    rw [extend, outline, marked_append, ← List.append_assoc, stepCount_append_slash, hcount]
    rfl
  | ⟨scheme, authority, path, some q, none⟩ =>
    rw [extend, hfragment, outline, marked_append, ← List.append_assoc, marked.eq_def '#',
      List.append_nil, stepCount_append_slash, hcount]
    rfl
  | ⟨scheme, authority, path, none, none⟩ =>
    have hdepth := stepCount_front_extend ⟨scheme, authority, path, none, none⟩ hback
    have hon : (splitAt '/' x).countP (fun step => !step.isEmpty && step != ['.']) =
        (splitAt '/' x).length := by
      refine List.countP_eq_length.2 fun step hs => ?_
      obtain ⟨hne, hdots⟩ := h.steps step hs
      have hdot : step ≠ ['.'] := fun he => hdots (he ▸ by decide)
      simp [hne, hdot]
    rw [hon, hcount, ite_self] at hdepth
    rw [extend, pathPart, hfragment, hquery, outline, marked.eq_def '#', marked.eq_def '?',
      List.append_nil, List.append_nil]
    exact hdepth

end Components

section Depth

variable (hlen : 4 ≤ s.length) (hlast : s.getLast? ≠ some '/')
include hlen hlast

theorem depth_append (hx : x.head? ≠ some '/') : depth (s ++ '/' :: x) =
    if (s.take 4).map Char.toLower = "http".toList then
      2 + stepCount ((Components.read s).extend x).outline
    else stepCount s + stepCount x := by
  have hs : s ≠ [] := by
    rintro rfl
    exact absurd hlen (by decide)
  rw [depth, List.take_append_of_le_length hlen, Components.read_append hs hlast hx,
    stepCount_append_slash]

theorem depth_lt_append (hx : x.head? ≠ some '/') (h : Upright x) :
    depth s < depth (s ++ '/' :: x) := by
  have hle := (Components.read s).stepCount_outline_le
  have hlt := (Components.read s).reach_lt_outline_extend h
  have hpos := h.stepCount_pos.2.2
  rw [depth_append hlen hlast hx, depth]
  split <;> omega

/-- As many steps lead as deep. -/
theorem depth_append_eq (hx : Onward x) (hy : Onward y)
    (h : (splitAt '/' x).length = (splitAt '/' y).length) :
    depth (s ++ '/' :: x) = depth (s ++ '/' :: y) := by
  rw [depth_append hlen hlast hx.head?_ne, depth_append hlen hlast hy.head?_ne,
    Components.stepCount_extend_of_onward _ hx, Components.stepCount_extend_of_onward _ hy,
    hx.stepCount_eq, hy.stepCount_eq, h]

end Depth

end Url

end BuildClient
