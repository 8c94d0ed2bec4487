import Mathlib
import BuildClient.Http.Access

/-! Payloads hand out the bytes of their source in order and count them, however they are read. -/
namespace BuildClient.Http

namespace Source

variable {s t : Source} {size : ℤ} {chunk : List UInt8}

theorem take_isPrefix (size : ℤ) (bytes : List UInt8) : take size bytes <+: bytes := by
  by_cases h : size < 0
  · simp [take, h]
  · simpa [take, h] using List.take_prefix size.toNat bytes

theorem read_eq_none : s.read size = none ↔ s.fails = true := by
  by_cases h : s.fails = true <;> simp [read, h]

theorem fails_iff : s.fails = true ↔ ∃ limit ∈ s.failAt, limit ≤ (s.position : ℤ) := by
  rw [fails]
  cases s.failAt <;> simp

/-- A read that succeeds takes bytes off what is left and does nothing else. -/
theorem of_read (h : s.read size = some (chunk, t)) :
    chunk = take (s.granted size) s.rest ∧ chunk ++ t.rest = s.rest ∧
      t.position = s.position + chunk.length ∧ t.failAt = s.failAt ∧ t.short = s.short := by
  rw [read] at h
  split at h
  · cases h
  · cases h
    exact ⟨rfl, List.prefix_iff_eq_append.1 (take_isPrefix _ s.rest), rfl, rfl, rfl⟩

end Source

namespace Payload

variable {p q r : Payload} {size : Option ℤ} {chunk : List UInt8}
  {chunks more : List (List UInt8)} {fuel : ℕ} {sizes : List (Option ℤ)}

/-- The second payload is the first one once the chunks were handed out. -/
structure Advances (p : Payload) (chunks : List (List UInt8)) (q : Payload) : Prop where
  bytes : chunks.flatten ++ q.source.rest = p.source.rest
  position : q.source.position = p.source.position + chunks.flatten.length
  bytesRead : q.bytesRead = p.bytesRead + chunks.flatten.length
  blockSize : q.blockSize = p.blockSize
  short : q.source.short = p.source.short
  failAt : q.source.failAt = p.source.failAt

theorem Advances.refl (p : Payload) : Advances p [] p :=
  ⟨rfl, rfl, rfl, rfl, rfl, rfl⟩

theorem Advances.append (h : Advances p chunks q) (h' : Advances q more r) :
    Advances p (chunks ++ more) r where
  bytes := by rw [List.flatten_append, List.append_assoc, h'.bytes, h.bytes]
  position := by
    rw [h'.position, h.position, List.flatten_append, List.length_append, Nat.add_assoc]
  bytesRead := by
    rw [h'.bytesRead, h.bytesRead, List.flatten_append, List.length_append, Nat.add_assoc]
  blockSize := h'.blockSize.trans h.blockSize
  short := h'.short.trans h.short
  failAt := h'.failAt.trans h.failAt

/-- A chunk without bytes does not count. -/
theorem Advances.of_nil_cons (h : Advances p ([] :: chunks) q) : Advances p chunks q :=
  ⟨h.bytes, h.position, h.bytesRead, h.blockSize, h.short, h.failAt⟩

theorem read_eq_none : p.read size = none ↔ p.source.fails = true := by
  rw [read, Option.map_eq_none_iff, Source.read_eq_none]

theorem advances_of_read (h : p.read size = some (chunk, q)) : Advances p [chunk] q := by
  obtain ⟨⟨c, t⟩, hread, he⟩ := Option.map_eq_some_iff.1 h
  cases he
  obtain ⟨-, hbytes, hposition, hfailAt, hshort⟩ := Source.of_read hread
  exact ⟨by simpa using hbytes, by simpa using hposition, by simp, rfl, hshort, hfailAt⟩

/-- A block has room for a byte, and the source gives one if it is asked for one. -/
structure Ordinary (p : Payload) : Prop where
  block : 1 ≤ p.blockSize
  short : ∀ limit ∈ p.source.short, 1 ≤ limit

theorem Ordinary.of_advances (hp : Ordinary p) (h : Advances p chunks q) : Ordinary q :=
  ⟨h.blockSize ▸ hp.block, h.short ▸ hp.short⟩

theorem effective_bounds (hp : Ordinary p) (size : Option ℤ) :
    0 ≤ p.effective size ∧ p.effective size ≤ p.blockSize ∧
      (size ≠ some 0 → 1 ≤ p.effective size) := by
  have hb := hp.block
  cases size with
  | none =>
    rw [effective]
    omega
  | some n =>
    have hn : some n ≠ some 0 ↔ n ≠ 0 := by simp
    rw [effective, hn]
    split <;> omega

theorem granted_bounds (hp : Ordinary p) {n : ℤ} (hn : 0 ≤ n) :
    0 ≤ p.source.granted n ∧ p.source.granted n ≤ n ∧ (1 ≤ n → 1 ≤ p.source.granted n) := by
  rw [Source.granted]
  cases hs : p.source.short with
  | none => exact ⟨hn, le_rfl, id⟩
  | some limit =>
    have hl := hp.short limit hs
    simp only
    split <;> omega

/-- What one read of an ordinary payload hands out. -/
theorem chunk_of_read (hp : Ordinary p) (h : p.read size = some (chunk, q)) :
    chunk = p.source.rest.take (p.source.granted (p.effective size)).toNat := by
  obtain ⟨⟨c, t⟩, hread, he⟩ := Option.map_eq_some_iff.1 h
  cases he
  obtain ⟨hchunk, -⟩ := Source.of_read hread
  have hg := (granted_bounds hp (effective_bounds hp size).1).1
  rw [hchunk, Source.take, if_neg (by omega)]

theorem length_le_of_read (hp : Ordinary p) (h : p.read size = some (chunk, q)) :
    (chunk.length : ℤ) ≤ p.blockSize := by
  have he := effective_bounds hp size
  have hg := granted_bounds hp he.1
  have hlen : chunk.length ≤ (p.source.granted (p.effective size)).toNat := by
    rw [chunk_of_read hp h]
    exact List.length_take_le _ _
  omega

/-- A chunk is empty only when no bytes are asked for or none are left. -/
theorem of_read_nil (hp : Ordinary p) (h : p.read size = some ([], q)) :
    size = some 0 ∨ q.source.rest = [] := by
  by_cases hsize : size = some 0
  · exact .inl hsize
  · right
    have he := effective_bounds hp size
    have hg := (granted_bounds hp he.1).2.2 (he.2.2 hsize)
    have hbytes := (advances_of_read h).bytes
    rcases List.take_eq_nil_iff.1 (chunk_of_read hp h).symm with h0 | hrest
    · omega
    · simpa [hrest] using hbytes

/-- What comes of reads that were made in turn, up to the first one that failed. -/
structure Reading.Of (p : Payload) (r : Reading) : Prop where
  advances : Advances p r.chunks r.left
  fails : r.failed = true → r.left.source.fails = true
  capped : Ordinary p → ∀ chunk ∈ r.chunks, (chunk.length : ℤ) ≤ p.blockSize

theorem Reading.Of.of_none (h : p.read size = none) : Reading.Of p ⟨[], true, p⟩ :=
  ⟨.refl p, fun _ => read_eq_none.1 h, fun _ _ hc => absurd hc List.not_mem_nil⟩

/-- One read, and then others. -/
theorem Reading.Of.after (h : p.read size = some (chunk, q)) {r : Reading} (hr : Reading.Of q r) :
    Reading.Of p (r.after chunk) where
  advances := (advances_of_read h).append hr.advances
  fails := hr.fails
  capped hp c hc := by
    have hadv := advances_of_read h
    rcases List.mem_cons.1 hc with rfl | hc
    · exact length_le_of_read hp h
    · rw [← hadv.blockSize]
      exact hr.capped (hp.of_advances hadv) c hc

theorem readSizes_of (sizes : List (Option ℤ)) (p : Payload) :
    Reading.Of p (p.readSizes sizes) := by
  induction sizes generalizing p with
  | nil => exact ⟨.refl p, nofun, fun _ _ hc => absurd hc List.not_mem_nil⟩
  | cons size sizes ih =>
    rw [readSizes]
    cases h : p.read size with
    | none => exact .of_none h
    | some r => exact .after h (ih r.2)

theorem blocks_of (fuel : ℕ) (p : Payload) : Reading.Of p (p.blocks fuel) := by
  induction fuel generalizing p with
  | zero => exact ⟨.refl p, nofun, fun _ _ hc => absurd hc List.not_mem_nil⟩
  | succ fuel ih =>
    rw [blocks]
    cases h : p.read (some p.blockSize) with
    | none => exact .of_none h
    | some r =>
      obtain ⟨chunk, q⟩ := r
      cases chunk with
      | nil =>
        exact ⟨(advances_of_read h).of_nil_cons, nofun, fun _ _ hc => absurd hc List.not_mem_nil⟩
      | cons b chunk => exact .after h (ih q)

/-- Blocks are read until nothing is left, unless the source fails. -/
theorem blocks_finish (hp : Ordinary p) (hf : p.source.rest.length < fuel)
    (h : (p.blocks fuel).failed = false) : (p.blocks fuel).left.source.rest = [] := by
  induction fuel generalizing p with
  | zero => omega
  | succ fuel ih =>
    rw [blocks] at h ⊢
    cases hread : p.read (some p.blockSize) with
    | none => simp [hread] at h
    | some r =>
      obtain ⟨chunk, q⟩ := r
      cases chunk with
      | nil =>
        rcases of_read_nil hp hread with h0 | hrest
        · have hb := hp.block
          have hne := Option.some.inj h0
          omega
        · exact hrest
      | cons b chunk =>
        rw [hread] at h
        have hadv := advances_of_read hread
        -- The block holds a byte, so one step less is enough for the rest.
        have hlen := congrArg List.length hadv.bytes
        simp at hlen
        exact ih (hp.of_advances hadv) (by omega) h

theorem consume_of (p : Payload) (demand : Demand) : Reading.Of p (p.consume demand) := by
  cases demand with
  | all => exact blocks_of _ p
  | sizes sizes => exact readSizes_of sizes p

theorem drain_finish (hp : Ordinary p) (h : p.drain.failed = false) :
    p.drain.left.source.rest = [] := blocks_finish hp (Nat.lt_succ_self _) h

/-- A source that can be read to its end is drained. -/
theorem drain_whole (hp : Ordinary p)
    (h : ∀ limit ∈ p.source.failAt, (p.source.position + p.source.rest.length : ℤ) < limit) :
    p.drain.chunks.flatten = p.source.rest := by
  have hof : Reading.Of p p.drain := blocks_of _ p
  have hbytes := hof.advances.bytes
  have hread : p.drain.failed = false := by
    by_contra hfailed
    obtain ⟨limit, hlimit, hle⟩ := Source.fails_iff.1 (hof.fails (Bool.of_not_eq_false hfailed))
    have hlt := h limit (hof.advances.failAt ▸ hlimit)
    have hposition := hof.advances.position
    have hlen := congrArg List.length hbytes
    rw [List.length_append] at hlen
    omega
  rw [← hbytes, drain_finish hp hread, List.append_nil]

/-- What holds of an answer to a call on a payload, once all these chunks were handed out from the
start of its source. -/
structure Answer.Kept (s : Source) (block : ℤ) (handed : List (List UInt8)) (c : Call)
    (a : Answer) : Prop where
  capped : ∀ chunk ∈ a.chunks, (chunk.length : ℤ) ≤ block
  consumed : handed.flatten ++ a.left.source.rest = s.rest
  position : a.left.source.position = s.position + handed.flatten.length
  counted : a.left.bytesRead = handed.flatten.length
  /-- The source fails whatever is asked of it, and the call ends as an upload that it broke. -/
  raised : ∀ x ∈ a.failure, x = .brokenStream .source ∧ x.family = .upload ∧
    ∀ size, a.left.source.read size = none
  single : ∀ size, c = .read size → a.failure = none →
    ∃ chunk, a.chunks = [chunk] ∧ (chunk = [] → size = some 0 ∨ a.left.source.rest = [])
  finished : c = .iterate → a.failure = none → a.left.source.rest = []

/-- A call hands out the next bytes; it fails only where the source does. -/
theorem call_of (c : Call) (p : Payload) : ∃ r : Reading, p.call c = r.answer ∧ Reading.Of p r := by
  cases c with
  | read size => exact ⟨_, rfl, readSizes_of [size] p⟩
  | iterate => exact ⟨_, rfl, blocks_of _ p⟩

theorem call_single (hp : Ordinary p) {size : Option ℤ}
    (h : (p.call (.read size)).failure = none) :
    ∃ chunk, (p.call (.read size)).chunks = [chunk] ∧
      (chunk = [] → size = some 0 ∨ (p.call (.read size)).left.source.rest = []) := by
  rw [call, readSizes] at h ⊢
  cases hread : p.read size with
  | none => simp [hread, Reading.answer] at h
  | some r =>
    obtain ⟨chunk, q⟩ := r
    refine ⟨chunk, rfl, ?_⟩
    rintro rfl
    exact of_read_nil hp hread

theorem call_finish (hp : Ordinary p) (h : (p.call .iterate).failure = none) :
    (p.call .iterate).left.source.rest = [] := by
  refine drain_finish hp ?_
  by_contra hf
  simp [call, Reading.answer, hf] at h

theorem call_kept {s : Source} {block : ℤ} {handed : List (List UInt8)}
    (hp : Ordinary ⟨s, block, 0⟩) (h : Advances ⟨s, block, 0⟩ handed p) (c : Call) :
    Answer.Kept s block (handed ++ (p.call c).chunks) c (p.call c) ∧
      Advances ⟨s, block, 0⟩ (handed ++ (p.call c).chunks) (p.call c).left := by
  obtain ⟨r, hr, hof⟩ := call_of c p
  have hord := hp.of_advances h
  have hadv : Advances ⟨s, block, 0⟩ (handed ++ (p.call c).chunks) (p.call c).left := by
    rw [hr]
    exact h.append hof.advances
  refine ⟨⟨?_, hadv.bytes, hadv.position, by simpa using hadv.bytesRead, ?_, ?_, ?_⟩, hadv⟩
  · intro chunk hchunk
    rw [hr] at hchunk
    have hle := hof.capped hord chunk hchunk
    rwa [h.blockSize] at hle
  · intro x hx
    rw [hr] at hx ⊢
    by_cases hf : r.failed = true
    · have hsource := hof.fails hf
      obtain rfl : ClientError.brokenStream .source = x := by
        simpa [Reading.answer, hf] using hx
      exact ⟨rfl, rfl, fun size => Source.read_eq_none.2 hsource⟩
    · simp [Reading.answer, hf] at hx
  · rintro size rfl hok
    exact call_single hord hok
  · rintro rfl hok
    exact call_finish hord hok

theorem length_calls (cs : List Call) (p : Payload) : (p.calls cs).length = cs.length := by
  induction cs generalizing p with
  | nil => rfl
  | cons c cs ih => exact congrArg Nat.succ (ih _)

theorem calls_kept {s : Source} {block : ℤ} {handed : List (List UInt8)}
    (hp : Ordinary ⟨s, block, 0⟩) (h : Advances ⟨s, block, 0⟩ handed p) (cs : List Call) {i : ℕ}
    {c : Call} {a : Answer} (hc : cs[i]? = some c) (ha : (p.calls cs)[i]? = some a) :
    Answer.Kept s block (handed ++ ((p.calls cs).take (i + 1)).flatMap Answer.chunks) c a := by
  induction cs generalizing p handed i with
  | nil => simp at hc
  | cons d cs ih =>
    obtain ⟨hkept, hadv⟩ := call_kept hp h d
    rw [calls] at ha ⊢
    cases i with
    | zero =>
      obtain rfl : d = c := by simpa using hc
      obtain rfl : p.call d = a := by simpa using ha
      simpa using hkept
    | succ i =>
      rw [List.take_succ_cons, List.flatMap_cons, ← List.append_assoc]
      exact ih hadv (by simpa using hc) (by simpa using ha)

/-- However a payload is read, nothing of its source is lost, repeated or reordered. After every
call the chunks so far are what the source has given, none is greater than a block, and their bytes
are counted; a call fails only where the source does. -/
theorem calls_hand_out_source (s : Source) {block : ℤ} (hb : 1 ≤ block)
    (hs : ∀ limit ∈ s.short, 1 ≤ limit) (cs : List Call) :
    ((⟨s, block, 0⟩ : Payload).calls cs).length = cs.length ∧
      ∀ (i : ℕ) (c : Call) (a : Answer), cs[i]? = some c →
        ((⟨s, block, 0⟩ : Payload).calls cs)[i]? = some a →
        Answer.Kept s block
          ((((⟨s, block, 0⟩ : Payload).calls cs).take (i + 1)).flatMap Answer.chunks) c a := by
  have hnone : Advances ⟨s, block, 0⟩ [] ⟨s, block, 0⟩ := .refl _
  refine ⟨length_calls cs _, fun i c a hc ha => ?_⟩
  exact calls_kept ⟨hb, hs⟩ hnone cs hc ha

/-- Five bytes, at most three at a time, and none from the fourth on. -/
def brittle : Source := ⟨[10, 20, 30, 40, 50], 0, some 4, some 3⟩

theorem calls_hand_out_brittle :
    (1 : ℤ) ≤ 2 ∧ (∀ limit ∈ brittle.short, 1 ≤ limit) ∧
      ((⟨brittle, 2, 0⟩ : Payload).calls
        [.read none, .read (some 0), .read (some (-7)), .iterate])[3]? =
          some ⟨[], some (.brokenStream .source), ⟨⟨[50], 4, some 4, some 3⟩, 2, 4⟩⟩ ∧
      Answer.Kept brittle 2 [[10, 20], [], [30, 40]] .iterate
        ⟨[], some (.brokenStream .source), ⟨⟨[50], 4, some 4, some 3⟩, 2, 4⟩⟩ :=
  have hshort : ∀ limit ∈ brittle.short, 1 ≤ limit := by decide
  ⟨by decide, hshort, rfl, (calls_hand_out_source brittle (by decide) hshort
    [.read none, .read (some 0), .read (some (-7)), .iterate]).2 3 _ _ rfl rfl⟩

end Payload

end BuildClient.Http
