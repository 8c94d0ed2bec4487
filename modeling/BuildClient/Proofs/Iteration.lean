import BuildClient.Proofs.Payload

/-! Iterating a payload: which pieces of the data come of it, after how many reads, and when its
source breaks it off. -/
namespace BuildClient.Http.Payload

variable {data : List UInt8} {p q : Payload} {size : Option ℤ} {chunk : List UInt8} {r : Reading}
  {n m start i fuel : ℕ}

/-- The loop over a payload and the number of its reads. It goes on after a block with bytes, and
ends with an empty one or when the source fails. -/
inductive Loop : Payload → ℕ → Reading → Prop
  | failed {p : Payload} (h : p.read (some p.blockSize) = none) : Loop p 1 ⟨[], true, p⟩
  | finished {p q : Payload} (h : p.read (some p.blockSize) = some ([], q)) :
      Loop p 1 ⟨[], false, q⟩
  | block {p q : Payload} {chunk : List UInt8} {n : ℕ} {r : Reading}
      (h : p.read (some p.blockSize) = some (chunk, q)) (hc : chunk ≠ []) (rest : Loop q n r) :
      Loop p (n + 1) (r.after chunk)

/-- With fuel for every byte and one read more, the loop ends by itself. -/
theorem loop_blocks (hp : Ordinary p) (hf : p.source.rest.length < fuel) :
    ∃ n, Loop p n (p.blocks fuel) := by
  induction fuel generalizing p with
  | zero => omega
  | succ fuel ih =>
    rw [blocks]
    cases hread : p.read (some p.blockSize) with
    | none => exact ⟨1, .failed hread⟩
    | some given =>
      obtain ⟨chunk, q⟩ := given
      cases chunk with
      | nil => exact ⟨1, .finished hread⟩
      | cons b chunk =>
        have hadv := advances_of_read hread
        have hlen := congrArg List.length hadv.bytes
        simp at hlen
        obtain ⟨n, hn⟩ := ih (hp.of_advances hadv) (by omega)
        exact ⟨n + 1, .block hread (List.cons_ne_nil b chunk) hn⟩

/-- The most bytes that a read of a block gives. -/
def stride (block : ℤ) (short : Option ℤ) : ℕ := (short.elim block (min block)).toNat

theorem stride_pos (hp : Ordinary p) : 1 ≤ stride p.blockSize p.source.short := by
  have hb := hp.block
  unfold stride
  cases hs : p.source.short with
  | none => simp; omega
  | some limit =>
    have hl := hp.short limit hs
    simp; omega

theorem chunk_eq_take (hp : Ordinary p) (h : p.read (some p.blockSize) = some (chunk, q)) :
    chunk = p.source.rest.take (stride p.blockSize p.source.short) := by
  have hb := hp.block
  have hstride : (p.source.granted (p.effective (some p.blockSize))).toNat =
      stride p.blockSize p.source.short := by
    have heff : p.effective (some p.blockSize) = p.blockSize := by
      simp only [effective]
      split <;> omega
    rw [heff, Source.granted, stride]
    cases hs : p.source.short with
    | none => rfl
    | some limit =>
      simp only [Option.elim_some]
      split <;> omega
  rw [chunk_of_read hp h, hstride]

/-- Nothing is left, and reading that does not fail. -/
def Exhausted (p : Payload) : Prop := p.source.rest = [] ∧ p.source.fails = false

theorem read_of_exhausted (h : Exhausted p) (size : Option ℤ) : p.read size = some ([], p) := by
  obtain ⟨⟨rest, position, failAt, short⟩, block, count⟩ := p
  obtain ⟨rfl, hfails⟩ : rest = [] ∧ _ := h
  have htake : ∀ k, Source.take k [] = [] := by
    intro k
    simp [Source.take]
  simp [read, Source.read, hfails, htake]

/-- An empty block means that nothing is left. -/
theorem exhausted_of_read_nil (hp : Ordinary p) (h : p.read (some p.blockSize) = some ([], q)) :
    Exhausted p ∧ q = p := by
  have hm := stride_pos hp
  have hrest : p.source.rest = [] := by
    rcases List.take_eq_nil_iff.1 (chunk_eq_take hp h).symm with h0 | hrest
    · omega
    · exact hrest
  have hfails : p.source.fails = false := by
    by_contra hf
    rw [read_eq_none.2 (Bool.of_not_eq_false hf)] at h
    cases h
  have hread := read_of_exhausted ⟨hrest, hfails⟩ (some p.blockSize)
  rw [h] at hread
  cases hread
  exact ⟨⟨hrest, hfails⟩, rfl⟩

/-- The payload stands somewhere in the data. -/
structure Reached (data : List UInt8) (p : Payload) : Prop where
  rest : p.source.rest = data.drop p.source.position
  inside : p.source.position ≤ data.length

theorem Reached.of_advances {chunks : List (List UInt8)} (hr : Reached data p)
    (h : Advances p chunks q) : Reached data q := by
  have hlen := congrArg List.length h.bytes
  have hposition := h.position
  have hinside := hr.inside
  rw [List.length_append, hr.rest, List.length_drop] at hlen
  refine ⟨?_, by omega⟩
  have hdrop : q.source.rest = p.source.rest.drop chunks.flatten.length := by
    rw [← h.bytes, List.drop_left]
  rw [hdrop, hr.rest, List.drop_drop, hposition]

theorem Reached.position_eq (hr : Reached data p) (h : p.source.rest = []) :
    p.source.position = data.length := by
  have hge : data.length ≤ p.source.position := by
    apply List.drop_eq_nil_iff.1
    rw [← hr.rest, h]
  have hle := hr.inside
  omega

/-- The piece of the data with this number, if it starts before the end of the data and before the
place where the source fails. -/
def PieceAt (data : List UInt8) (failAt : Option ℤ) (m start i : ℕ) (chunk : List UInt8) : Prop :=
  start + i * m < data.length ∧ (∀ f ∈ failAt, ((start + i * m : ℕ) : ℤ) < f) ∧
    chunk = (data.drop (start + i * m)).take m

theorem length_of_pieceAt {failAt : Option ℤ} (h : PieceAt data failAt m start i chunk) :
    chunk.length = min m (data.length - (start + i * m)) := by
  rw [h.2.2, List.length_take, List.length_drop]

/-- The pieces after the first are those from where the first one ends. -/
theorem pieceAt_succ {failAt : Option ℤ} {first : List UInt8} (hm : 1 ≤ m)
    (hfirst : first = (data.drop start).take m) :
    PieceAt data failAt m start (i + 1) chunk ↔
      PieceAt data failAt m (start + first.length) i chunk := by
  have hlen : first.length = min m (data.length - start) := by
    rw [hfirst, List.length_take, List.length_drop]
  have hmul : (i + 1) * m = i * m + m := Nat.succ_mul i m
  by_cases hshort : first.length = m
  · have hstart : start + (i + 1) * m = start + first.length + i * m := by omega
    unfold PieceAt
    rw [hstart]
  -- A piece that is cut short ends with the data, and none comes after it.
  · constructor
    · intro h
      have := h.1
      omega
    · intro h
      have := h.1
      omega

theorem Reached.chunk_eq (hr : Reached data p) (hp : Ordinary p)
    (h : p.read (some p.blockSize) = some (chunk, q)) :
    chunk = (data.drop p.source.position).take (stride p.blockSize p.source.short) := by
  rw [← hr.rest]
  exact chunk_eq_take hp h

/-- A block with bytes is the first piece of what is left. -/
theorem pieceAt_of_read (hr : Reached data p) (hp : Ordinary p)
    (h : p.read (some p.blockSize) = some (chunk, q)) (hc : chunk ≠ []) :
    PieceAt data p.source.failAt (stride p.blockSize p.source.short) p.source.position 0
      chunk := by
  have heq := hr.chunk_eq hp h
  refine ⟨?_, ?_, by simpa using heq⟩
  · by_contra hge
    apply hc
    rw [heq, List.drop_eq_nil_of_le (by omega), List.take_nil]
  · intro f hf
    by_contra hle
    have hfails : p.source.fails = true := Source.fails_iff.2 ⟨f, hf, by omega⟩
    rw [read_eq_none.2 hfails] at h
    cases h

theorem PieceAt.unique {failAt : Option ℤ} {other : List UInt8}
    (h : PieceAt data failAt m start i chunk) (h' : PieceAt data failAt m start i other) :
    chunk = other :=
  h.2.2.trans h'.2.2.symm

/-- What the loop hands out, from where it starts in the data. -/
theorem pieces_of_loop (h : Loop p n r) (hp : Ordinary p) (hr : Reached data p) (i : ℕ)
    (chunk : List UInt8) : r.chunks[i]? = some chunk ↔
      PieceAt data p.source.failAt (stride p.blockSize p.source.short) p.source.position i
        chunk := by
  induction h generalizing i with
  | @failed p hread =>
    obtain ⟨f, hf, hle⟩ := Source.fails_iff.1 (read_eq_none.1 hread)
    refine iff_of_false (by simp) fun hpiece => ?_
    have := hpiece.2.1 f hf
    omega
  | @finished p q hread =>
    have hend := hr.position_eq (exhausted_of_read_nil hp hread).1.1
    refine iff_of_false (by simp) fun hpiece => ?_
    have := hpiece.1
    omega
  | @block p q first n r hread hc _ ih =>
    have hadv := advances_of_read hread
    have hfirst := pieceAt_of_read hr hp hread hc
    cases i with
    | zero =>
      constructor
      · intro he
        obtain rfl : first = chunk := by simpa [Reading.after] using he
        exact hfirst
      · intro hpiece
        simp [Reading.after, hfirst.unique hpiece]
    | succ i =>
      have hnext := ih (hp.of_advances hadv) (hr.of_advances hadv) i
      have hposition : q.source.position = p.source.position + first.length := by
        simpa using hadv.position
      rw [hadv.failAt, hadv.short, hadv.blockSize, hposition] at hnext
      rw [pieceAt_succ (stride_pos hp) (hr.chunk_eq hp hread), ← hnext]
      rfl

theorem reads_eq_of_loop (h : Loop p n r) : n = r.chunks.length + 1 := by
  induction h with
  | failed => rfl
  | finished => rfl
  | block _ _ _ ih => rw [ih]; rfl

/-- The loop breaks off just when the source fails at the end of the data or before. -/
theorem failed_of_loop (h : Loop p n r) (hp : Ordinary p) (hr : Reached data p) :
    r.failed = true ↔ ∃ f ∈ p.source.failAt, f ≤ (data.length : ℤ) := by
  induction h with
  | @failed p hread =>
    obtain ⟨f, hf, hle⟩ := Source.fails_iff.1 (read_eq_none.1 hread)
    have := hr.inside
    exact iff_of_true rfl ⟨f, hf, by omega⟩
  | @finished p q hread =>
    obtain ⟨hexhausted, -⟩ := exhausted_of_read_nil hp hread
    have hend := hr.position_eq hexhausted.1
    refine iff_of_false (by simp) ?_
    rintro ⟨f, hf, hle⟩
    have hfails : p.source.fails = true := Source.fails_iff.2 ⟨f, hf, by omega⟩
    rw [hexhausted.2] at hfails
    cases hfails
  | @block p q first n r hread _ _ ih =>
    have hadv := advances_of_read hread
    rw [← hadv.failAt]
    exact ih (hp.of_advances hadv) (hr.of_advances hadv)

/-- After the loop has come to its end nothing is left. -/
theorem exhausted_of_loop (h : Loop p n r) (hp : Ordinary p) (hok : r.failed = false) :
    Exhausted r.left := by
  induction h with
  | failed => cases hok
  | finished hread =>
    obtain ⟨hexhausted, rfl⟩ := exhausted_of_read_nil hp hread
    exact hexhausted
  | block hread _ _ ih => exact ih (hp.of_advances (advances_of_read hread)) hok

/-- Whatever is called on an exhausted payload gives nothing. -/
theorem calls_of_exhausted (h : Exhausted p) (cs : List Call) :
    ∀ a ∈ p.calls cs, a.failure = none ∧ a.chunks.flatten = [] := by
  have hcall : ∀ c, (p.call c).left = p ∧ (p.call c).failure = none ∧
      (p.call c).chunks.flatten = [] := by
    intro c
    cases c with
    | read size => simp [call, readSizes, read_of_exhausted h, Reading.after, Reading.answer]
    | iterate => simp [call, drain, blocks, read_of_exhausted h, Reading.answer]
  induction cs with
  | nil => simp [calls]
  | cons c cs ih =>
    obtain ⟨hleft, hanswer⟩ := hcall c
    intro a ha
    rw [calls, hleft] at ha
    rcases List.mem_cons.1 ha with rfl | ha
    · exact hanswer
    · exact ih a ha

/-- What the calls leave. -/
def after (p : Payload) (cs : List Call) : Payload := cs.foldl (fun p c => (p.call c).left) p

theorem advances_after (cs : List Call) (p : Payload) :
    ∃ chunks, Advances p chunks (p.after cs) := by
  induction cs generalizing p with
  | nil => exact ⟨[], .refl p⟩
  | cons c cs ih =>
    obtain ⟨r, hr, hof⟩ := call_of c p
    obtain ⟨chunks, hrest⟩ := ih (p.call c).left
    have hfirst : Advances p r.chunks (p.call c).left := by
      rw [hr]
      exact hof.advances
    exact ⟨r.chunks ++ chunks, hfirst.append hrest⟩

/-- What comes of an iteration that makes this many reads: from the start on, the pieces of the data
that begin before the source fails; all of them, and nothing later, if it does not. -/
structure Iterated (data : List UInt8) (failAt : Option ℤ) (m start reads : ℕ) (a : Answer) :
    Prop where
  reads : reads ≤ (data.length - start) ⌈/⌉ m + 1
  piece : ∀ i chunk, a.chunks[i]? = some chunk ↔ PieceAt data failAt m start i chunk
  full : ∀ chunk ∈ a.chunks.dropLast, chunk.length = m
  last : ∀ chunk ∈ a.chunks.getLast?, chunk ≠ [] ∧ chunk.length ≤ m
  fails : a.failure = some (.brokenStream .source) ↔ ∃ f ∈ failAt, f ≤ (data.length : ℤ)
  ends : a.failure = none ↔ ∀ f ∈ failAt, (data.length : ℤ) < f
  whole : a.failure = none → a.chunks.flatten = data.drop start
  nothing : a.failure = none → ∀ cs, ∀ b ∈ a.left.calls cs,
    b.failure = none ∧ b.chunks.flatten = []

theorem length_le_ceilDiv {failAt : Option ℤ} {chunks : List (List UInt8)} (hm : 1 ≤ m)
    (h : ∀ i chunk, chunks[i]? = some chunk ↔ PieceAt data failAt m start i chunk) :
    chunks.length ≤ (data.length - start) ⌈/⌉ m := by
  cases hlen : chunks.length with
  | zero => omega
  | succ k =>
    have hlast := (h k chunks[k]).1 (List.getElem?_eq_getElem (by omega))
    have hlt := hlast.1
    have hmul : (k + 1) * m = k * m + m := Nat.succ_mul k m
    rw [Nat.ceilDiv_eq_add_pred_div, Nat.le_div_iff_mul_le hm]
    omega

/-- Before the last piece there is none that is cut short. -/
theorem length_of_not_last {failAt : Option ℤ} {chunks : List (List UInt8)}
    (h : ∀ i chunk, chunks[i]? = some chunk ↔ PieceAt data failAt m start i chunk) :
    ∀ chunk ∈ chunks.dropLast, chunk.length = m := by
  intro chunk hchunk
  obtain ⟨i, hi, rfl⟩ := List.getElem_of_mem hchunk
  rw [List.length_dropLast] at hi
  have hpiece := (h i chunks[i]).1 (List.getElem?_eq_getElem (by omega))
  have hnext := (h (i + 1) chunks[i + 1]).1 (List.getElem?_eq_getElem (by omega))
  have hlen := length_of_pieceAt hpiece
  have hlt := hnext.1
  have hmul : (i + 1) * m = i * m + m := Nat.succ_mul i m
  rw [List.getElem_dropLast, hlen]
  omega

theorem length_of_last {failAt : Option ℤ} {chunks : List (List UInt8)} (hm : 1 ≤ m)
    (h : ∀ i chunk, chunks[i]? = some chunk ↔ PieceAt data failAt m start i chunk) :
    ∀ chunk ∈ chunks.getLast?, chunk ≠ [] ∧ chunk.length ≤ m := by
  intro chunk hchunk
  rw [List.getLast?_eq_getElem?] at hchunk
  have hpiece := (h _ chunk).1 hchunk
  have hlen := length_of_pieceAt hpiece
  have hlt := hpiece.1
  refine ⟨?_, by omega⟩
  rintro rfl
  simp at hlen
  omega

theorem failure_eq_some_iff :
    r.answer.failure = some (.brokenStream .source) ↔ r.failed = true := by
  cases hf : r.failed <;> simp [Reading.answer, hf]

theorem failure_eq_none_iff : r.answer.failure = none ↔ r.failed = false := by
  cases hf : r.failed <;> simp [Reading.answer, hf]

/-- A loop that comes to its end has handed out all that was left. -/
theorem flatten_of_loop (h : Loop p n p.drain) (hp : Ordinary p) (hr : Reached data p)
    (hok : p.drain.failed = false) : p.drain.chunks.flatten = data.drop p.source.position := by
  have hof : Reading.Of p p.drain := blocks_of _ p
  have hbytes := hof.advances.bytes
  rw [(exhausted_of_loop h hp hok).1, List.append_nil] at hbytes
  exact hbytes.trans hr.rest

theorem iterated_of_loop (h : Loop p n p.drain) (hp : Ordinary p) (hr : Reached data p) :
    Iterated data p.source.failAt (stride p.blockSize p.source.short) p.source.position n
      (p.call .iterate) := by
  have hm := stride_pos hp
  have hpiece := pieces_of_loop h hp hr
  have hfailed := failed_of_loop h hp hr
  exact {
    reads := by
      have hle := length_le_ceilDiv hm hpiece
      have heq := reads_eq_of_loop h
      omega
    piece := hpiece
    full := length_of_not_last hpiece
    last := length_of_last hm hpiece
    fails := failure_eq_some_iff.trans hfailed
    ends := by
      refine failure_eq_none_iff.trans ?_
      rw [← Bool.not_eq_true, hfailed]
      simp
    whole := fun hnone => flatten_of_loop h hp hr (failure_eq_none_iff.1 hnone)
    nothing := fun hnone =>
      calls_of_exhausted (exhausted_of_loop h hp (failure_eq_none_iff.1 hnone)) }

/-- An iteration ends, after as many reads as there are pieces left and one more. It hands out the
pieces in order, and fails only if the source fails before the end of the data was read. -/
theorem iteration_delivers (data : List UInt8) (failAt : Option ℤ) {short : Option ℤ} {block : ℤ}
    (hb : 1 ≤ block) (hs : ∀ limit ∈ short, 1 ≤ limit) (earlier : List Call) {p : Payload}
    (hstart : p = (⟨⟨data, 0, failAt, short⟩, block, 0⟩ : Payload).after earlier) :
    ∃ reads, Loop p reads p.drain ∧
      Iterated data failAt (stride block short) p.source.position reads (p.call .iterate) := by
  obtain ⟨chunks, hadv⟩ := advances_after earlier ⟨⟨data, 0, failAt, short⟩, block, 0⟩
  rw [← hstart] at hadv
  have hp : Ordinary p := Ordinary.of_advances ⟨hb, hs⟩ hadv
  have hr : Reached data p := Reached.of_advances ⟨rfl, Nat.zero_le _⟩ hadv
  obtain ⟨reads, hloop⟩ : ∃ reads, Loop p reads p.drain := loop_blocks hp (Nat.lt_succ_self _)
  have hiterated := iterated_of_loop hloop hp hr
  rw [hadv.failAt, hadv.blockSize, hadv.short] at hiterated
  exact ⟨reads, hloop, hiterated⟩

/-- Seven bytes, at most three at a time, and a source that fails at their very end. -/
theorem iteration_delivers_brittle : (1 : ℤ) ≤ 4 ∧ (∀ limit ∈ some (3 : ℤ), 1 ≤ limit) ∧
    (⟨⟨[3, 4, 5, 6, 7], 2, some 7, some 3⟩, 4, 2⟩ : Payload) =
      (⟨⟨[1, 2, 3, 4, 5, 6, 7], 0, some 7, some 3⟩, 4, 0⟩ : Payload).after [.read (some 2)] ∧
    ∃ reads, Loop ⟨⟨[3, 4, 5, 6, 7], 2, some 7, some 3⟩, 4, 2⟩ reads
        ⟨[[3, 4, 5], [6, 7]], true, ⟨⟨[], 7, some 7, some 3⟩, 4, 7⟩⟩ ∧
      Iterated [1, 2, 3, 4, 5, 6, 7] (some 7) 3 2 reads
        ⟨[[3, 4, 5], [6, 7]], some (.brokenStream .source), ⟨⟨[], 7, some 7, some 3⟩, 4, 7⟩⟩ :=
  ⟨by decide, by decide, rfl, iteration_delivers [1, 2, 3, 4, 5, 6, 7] (some 7)
    (by decide : (1 : ℤ) ≤ 4) (by decide : ∀ limit ∈ some (3 : ℤ), 1 ≤ limit)
    [.read (some 2)] rfl⟩

end BuildClient.Http.Payload
