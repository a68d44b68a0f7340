import Pgx.Go.Io

/-!
# `chunkReader`

`chunkReader` reads from its reader into a buffer, as much as fits, and hands out the next `n`
bytes as a slice of the buffer. `Next` resets an empty buffer, replaces a buffer smaller than the
request, moves the buffered bytes to the front when the free space after them is too short, and
then reads at least what is missing; when the read fails, the bytes it delivered stay in the
buffer.

The abstract view: `rest`, the buffered bytes `buf[rp:wp]` followed by what the reader has not
delivered, is the stream from the current position. One lemma per step of `Next` says what the step
does to it; `next_ok` and `next_error` assemble them: a call hands out the next `n` bytes of the
stream, or fails and keeps all of them, and it fails only on an error of the reader's schedule or
when the stream has fewer than `n` bytes.
-/

namespace Pgx.Proto

open Go.Io

/-- `chunkReader`: the reader, the buffer, its read and write positions, and the buffer size an
empty buffer returns to. -/
structure ChunkReader where
  r : Reader
  buf : List UInt8
  rp : Nat
  wp : Nat
  minBufSize : Nat

/-- `iobufpool.Get(size)`: a buffer of length `size`. What it holds is never read before it is
written. -/
def getBuf (size : Nat) : List UInt8 := List.replicate size 0

/-- `newChunkReader`: a size of zero or less is 8192. -/
def newChunkReader (r : Reader) (minBufSize : Int) : ChunkReader :=
  let minBufSize := if minBufSize ≤ 0 then 8192 else minBufSize.toNat
  ⟨r, getBuf minBufSize, 0, 0, minBufSize⟩

namespace ChunkReader

/-- The buffered bytes, `buf[rp:wp]`. -/
def pending (cr : ChunkReader) : List UInt8 := (cr.buf.drop cr.rp).take (cr.wp - cr.rp)

/-- The stream from the current position: the buffered bytes, then what the reader has not
delivered. -/
def rest (cr : ChunkReader) : List UInt8 := cr.pending ++ cr.r.data

/-- The positions lie within the buffer. -/
structure Wf (cr : ChunkReader) : Prop where
  rp_le_wp : cr.rp ≤ cr.wp
  wp_le_length : cr.wp ≤ cr.buf.length

/-! ### The steps of `Next` -/

/-- Reset the buffer if it is empty: back to `minBufSize`, both positions at zero. -/
def reset (cr : ChunkReader) : ChunkReader :=
  if cr.rp = cr.wp then
    { cr with buf := if cr.buf.length ≠ cr.minBufSize then getBuf cr.minBufSize else cr.buf,
              rp := 0, wp := 0 }
  else cr

/-- A buffer smaller than the request is replaced by one of the request's size, with the buffered
bytes copied to its front. -/
def grow (cr : ChunkReader) (n : Nat) : ChunkReader :=
  if cr.buf.length < n then
    let bigBuf := getBuf n
    { cr with buf := (copy bigBuf cr.pending).1, wp := (copy bigBuf cr.pending).2, rp := 0 }
  else cr

/-- When the free space after `wp` is below `minReadCount`, the buffered bytes move to the front. -/
def shift (cr : ChunkReader) (minReadCount : Nat) : ChunkReader :=
  if cr.buf.length - cr.wp < minReadCount then
    { cr with buf := (copy cr.buf cr.pending).1, wp := (copy cr.buf cr.pending).2, rp := 0 }
  else cr

/-- `io.ReadAtLeast(r.r, buf[wp:], minReadCount)`: the bytes read are written after `wp`, and `wp`
moves past them whether or not the read failed. -/
def fill (cr : ChunkReader) (minReadCount : Nat) : Option Error × ChunkReader :=
  let res := readAtLeast cr.r (cr.buf.length - cr.wp) minReadCount
  (res.2.1, { cr with r := res.2.2,
                      buf := cr.buf.take cr.wp ++ (copy (cr.buf.drop cr.wp) res.1).1,
                      wp := cr.wp + res.1.length })

/-- `buf[rp:rp+n]`, and the read position past it. -/
def take (cr : ChunkReader) (n : Nat) : List UInt8 × ChunkReader :=
  ((cr.buf.drop cr.rp).take n, { cr with rp := cr.rp + n })

/-- The part of `Next` that reads: grow the buffer to `n`, make room after `wp` for what is
missing, read it, and hand out `n` bytes unless the read failed. -/
def readMore (cr : ChunkReader) (n : Nat) : Except Error (List UInt8) × ChunkReader :=
  let cr := cr.grow n
  let minReadCount := n - (cr.wp - cr.rp)
  match (cr.shift minReadCount).fill minReadCount with
  | (some e, cr) => (.error e, cr)
  | (none, cr) => (.ok (cr.take n).1, (cr.take n).2)

/-- `Next`: the next `n` bytes, or the reader's error. -/
def next (cr : ChunkReader) (n : Nat) : Except Error (List UInt8) × ChunkReader :=
  let cr := cr.reset
  -- `n` bytes already in the buffer
  if n ≤ cr.wp - cr.rp then (.ok (cr.take n).1, (cr.take n).2)
  else cr.readMore n

/-! ### What each step does to the stream -/

variable {cr : ChunkReader} {n : Nat}

theorem pending_length (hw : cr.Wf) : cr.pending.length = cr.wp - cr.rp := by
  simp only [pending, List.length_take, List.length_drop]
  have := hw.wp_le_length
  omega

/-- The buffered bytes are what the buffer holds before `wp`, from `rp` on. -/
theorem pending_eq : cr.pending = (cr.buf.take cr.wp).drop cr.rp := by
  rw [pending, List.drop_take]

/-- A buffer that starts with the buffered bytes `P`, read from its start. -/
theorem pending_front (P X : List UInt8) :
    ({ cr with buf := P ++ X, wp := P.length, rp := 0 } : ChunkReader).pending = P := by
  simp [pending]

theorem pending_length_le (hw : cr.Wf) : cr.pending.length ≤ cr.buf.length := by
  rw [pending_length hw]
  have := hw.wp_le_length
  omega

theorem reset_wf (hw : cr.Wf) : cr.reset.Wf := by
  unfold reset
  split
  · exact ⟨le_refl _, Nat.zero_le _⟩
  · exact hw

@[simp] theorem reset_r : cr.reset.r = cr.r := by
  unfold reset
  split <;> rfl

theorem reset_rest : cr.reset.rest = cr.rest := by
  unfold reset rest
  split
  · rename_i h
    simp [pending, h]
  · rfl

/-- Reset keeps the number of buffered bytes. -/
theorem reset_count : cr.reset.wp - cr.reset.rp = cr.wp - cr.rp := by
  unfold reset
  split
  · dsimp only
    omega
  · rfl

theorem grow_wf (hw : cr.Wf) : (cr.grow n).Wf := by
  unfold grow
  split
  · rename_i hlt
    have hle : cr.pending.length ≤ (getBuf n).length := by
      rw [pending_length hw]
      simp only [getBuf, List.length_replicate]
      have := hw.wp_le_length
      omega
    exact ⟨Nat.zero_le _, by simp [copy_of_le hle]⟩
  · exact hw

@[simp] theorem grow_r : (cr.grow n).r = cr.r := by
  unfold grow
  split <;> rfl

/-- Growing keeps the buffered bytes. -/
theorem grow_pending (hw : cr.Wf) : (cr.grow n).pending = cr.pending := by
  unfold grow
  split
  · rename_i hlt
    have hle : cr.pending.length ≤ (getBuf n).length := by
      rw [pending_length hw]
      simp only [getBuf, List.length_replicate]
      have := hw.wp_le_length
      omega
    dsimp only
    rw [copy_of_le hle]
    exact pending_front _ _
  · rfl

theorem grow_length_ge : n ≤ (cr.grow n).buf.length := by
  unfold grow
  split
  · simp [getBuf]
  · omega

theorem shift_wf (hw : cr.Wf) (m : Nat) : (cr.shift m).Wf := by
  unfold shift
  split
  · have hle := pending_length_le hw
    exact ⟨Nat.zero_le _, by simp [copy_of_le hle]⟩
  · exact hw

@[simp] theorem shift_r (m : Nat) : (cr.shift m).r = cr.r := by
  unfold shift
  split <;> rfl

@[simp] theorem shift_length (m : Nat) : (cr.shift m).buf.length = cr.buf.length := by
  unfold shift
  split
  · exact copy_length
  · rfl

/-- Shifting keeps the buffered bytes. -/
theorem shift_pending (hw : cr.Wf) (m : Nat) : (cr.shift m).pending = cr.pending := by
  unfold shift
  split
  · rw [copy_of_le (pending_length_le hw)]
    exact pending_front _ _
  · rfl

/-- After the shift, a buffer of at least `n` bytes has room after `wp` for what is missing of
`n`. -/
theorem shift_space (hw : cr.Wf) (hn : n ≤ cr.buf.length) :
    n - (cr.wp - cr.rp) ≤ (cr.shift (n - (cr.wp - cr.rp))).buf.length -
      (cr.shift (n - (cr.wp - cr.rp))).wp := by
  unfold shift
  split
  · simp only [copy_of_le (pending_length_le hw), List.length_append, List.length_drop,
      pending_length hw]
    omega
  · omega

/-- What `fill` does, read off `readAtLeast`: the bytes read are appended to the buffered ones. -/
theorem fill_spec (hw : cr.Wf) {m : Nat} (hm : m ≤ cr.buf.length - cr.wp) :
    ∃ bs, Delivered cr.r (cr.buf.length - cr.wp) m bs (cr.fill m).1 (cr.fill m).2.r ∧
      (cr.fill m).2.pending = cr.pending ++ bs ∧ (cr.fill m).2.Wf ∧
      (cr.fill m).2.rp = cr.rp ∧ (cr.fill m).2.wp = cr.wp + bs.length := by
  have hd := readAtLeast_delivered cr.r hm
  set res := readAtLeast cr.r (cr.buf.length - cr.wp) m with hres
  have hlen : res.1.length ≤ (cr.buf.drop cr.wp).length := by
    simpa using hd.length_le
  have htake : (cr.buf.take cr.wp).length = cr.wp := by
    simp only [List.length_take]
    have := hw.wp_le_length
    omega
  have hwf : (cr.fill m).2.Wf := by
    refine ⟨Nat.le_trans hw.rp_le_wp (Nat.le_add_right _ _), ?_⟩
    simp only [fill, ← hres, List.length_append, htake, copy_length, List.length_drop]
    simp only [List.length_drop] at hlen
    omega
  -- the buffer now holds the old bytes before `wp` and the new ones right after them
  have hbuf : (cr.fill m).2.buf.take (cr.wp + res.1.length) = cr.buf.take cr.wp ++ res.1 := by
    show (cr.buf.take cr.wp ++ (copy (cr.buf.drop cr.wp) res.1).1).take (cr.wp + res.1.length) = _
    rw [copy_of_le hlen, List.take_append, htake, Nat.add_sub_cancel_left,
      List.take_of_length_le (by omega), List.take_left' rfl]
  refine ⟨res.1, hd, ?_, hwf, rfl, rfl⟩
  rw [pending_eq, pending_eq, show (cr.fill m).2.wp = cr.wp + res.1.length from rfl, hbuf,
    show (cr.fill m).2.rp = cr.rp from rfl,
    List.drop_append_of_le_length (by rw [htake]; exact hw.rp_le_wp)]

/-- `take n` of at most what is buffered hands out the first `n` bytes of the stream. -/
theorem take_spec (hw : cr.Wf) (hn : n ≤ cr.wp - cr.rp) :
    (cr.take n).1.length = n ∧ cr.rest = (cr.take n).1 ++ (cr.take n).2.rest ∧
      (cr.take n).2.Wf ∧ (cr.take n).2.r = cr.r := by
  have hrp := hw.rp_le_wp
  have hwp := hw.wp_le_length
  refine ⟨?_, ?_, ⟨by dsimp only [take]; omega, hwp⟩, rfl⟩
  · simp only [take, List.length_take, List.length_drop]
    omega
  · -- the buffered bytes split at `n`
    have hsplit : cr.pending = (cr.buf.drop cr.rp).take n ++ (cr.take n).2.pending := by
      simp only [pending, take, ← List.drop_drop]
      rw [← List.take_add, show n + (cr.wp - (cr.rp + n)) = cr.wp - cr.rp by omega]
    rw [rest, rest, hsplit, List.append_assoc]
    rfl

/-- What one call of `Next n` did, in terms of the stream: the positions stay in the buffer and
the schedule does not grow; a success hands out the next `n` bytes; a failure keeps them all, and
comes from an error of the schedule or from a stream shorter than `n`. -/
structure Took (cr : ChunkReader) (n : Nat) (res : Except Error (List UInt8)) (cr' : ChunkReader) :
    Prop where
  wf : cr'.Wf
  sched_le : cr'.r.sched.length ≤ cr.r.sched.length
  ok : ∀ bs, res = .ok bs → bs.length = n ∧ cr.rest = bs ++ cr'.rest
  error : ∀ e, res = .error e →
    cr'.rest = cr.rest ∧ (cr'.r.sched.length < cr.r.sched.length ∨ cr.rest.length < n)

/-- `Took` only looks at the stream and the schedule of the reader it starts from. -/
theorem Took.of_same {c d cr' : ChunkReader} {res : Except Error (List UInt8)}
    (hrest : c.rest = d.rest) (hr : c.r = d.r) (h : Took c n res cr') : Took d n res cr' := by
  refine ⟨h.wf, hr ▸ h.sched_le, fun bs hbs => hrest ▸ h.ok bs hbs, fun e he => ?_⟩
  rw [← hrest, ← hr]
  exact h.error e he

/-- A call that finds the bytes in the buffer. -/
theorem took_take (hw : cr.Wf) (hn : n ≤ cr.wp - cr.rp) :
    Took cr n (.ok (cr.take n).1) (cr.take n).2 := by
  obtain ⟨hlen, hrest, hwf, hr⟩ := take_spec hw hn
  refine ⟨hwf, by rw [hr], fun bs hbs => ?_, fun e he => by cases he⟩
  cases hbs
  exact ⟨hlen, hrest⟩

/-- A call that has to read: after the buffer is grown and shifted, `fill` reads what is missing,
and either fails keeping what it read, or has enough for `take n`. -/
theorem took_readMore (hw : cr.Wf) (hn : ¬ n ≤ cr.wp - cr.rp) :
    Took cr n (cr.readMore n).1 (cr.readMore n).2 := by
  unfold readMore
  dsimp only
  set c2 := cr.grow n with hc2
  set m := n - (c2.wp - c2.rp) with hm
  set c3 := c2.shift m with hc3
  have hw2 : c2.Wf := grow_wf hw
  have hw3 : c3.Wf := shift_wf hw2 m
  -- the grown and shifted buffer holds the same bytes, and has room for the `m` missing ones
  have hp3 : c3.pending = cr.pending := by rw [hc3, shift_pending hw2, hc2, grow_pending hw]
  have hcount : c3.wp - c3.rp = cr.wp - cr.rp := by
    rw [← pending_length hw3, ← pending_length hw, hp3]
  have hcount2 : c2.wp - c2.rp = cr.wp - cr.rp := by
    rw [← pending_length hw2, ← pending_length hw, hc2, grow_pending hw]
  have hroom : m ≤ c3.buf.length - c3.wp := shift_space hw2 grow_length_ge
  have hr3 : c3.r = cr.r := by rw [hc3, shift_r, hc2, grow_r]
  obtain ⟨bs, hd, hp4, hw4, hrp4, hwp4⟩ := fill_spec hw3 hroom
  have hrest4 : cr.rest = (c3.fill m).2.rest := by
    rw [rest, rest, hp4, hp3, List.append_assoc, hd.append_data, hr3]
  rw [hr3] at hd
  have hrp3 := hw3.rp_le_wp
  clear_value c2 m c3
  rcases hf : c3.fill m with ⟨_ | e, c4⟩
  all_goals rw [hf] at hd hp4 hw4 hrp4 hwp4 hrest4
  · -- enough bytes: `take n` hands them out
    have hlen := hd.ok rfl
    have hn4 : n ≤ c4.wp - c4.rp := by
      rw [hwp4, hrp4]
      omega
    have h := took_take hw4 hn4
    refine ⟨h.wf, Nat.le_trans h.sched_le hd.sched_le, fun bs' hbs => ?_, fun e he' => by cases he'⟩
    obtain ⟨h1, h2⟩ := h.ok bs' hbs
    exact ⟨h1, hrest4.trans h2⟩
  · -- the read failed: the bytes it delivered stay buffered
    obtain ⟨hshort, hwhy⟩ := hd.error (by simp)
    refine ⟨hw4, hd.sched_le, fun bs' hbs => (by cases hbs), fun e' he' => ⟨hrest4.symm, ?_⟩⟩
    rcases hwhy with hs | hempty
    · exact .inl hs
    · -- the stream ended: it had fewer than `n` bytes
      right
      rw [hrest4, rest, hp4, hp3, hempty, List.append_nil, List.length_append, pending_length hw]
      omega

/-- **`Next` hands out the stream in order and loses nothing when it fails.** -/
theorem next_took (hw : cr.Wf) : Took cr n (cr.next n).1 (cr.next n).2 := by
  have hw1 := reset_wf hw
  unfold next
  dsimp only
  split
  · rename_i hn
    exact (took_take hw1 hn).of_same reset_rest reset_r
  · rename_i hn
    exact (took_readMore hw1 hn).of_same reset_rest reset_r

end ChunkReader

/-- A new chunk reader has nothing buffered: its stream is the reader's. -/
theorem newChunkReader_rest (r : Reader) (minBufSize : Int) :
    (newChunkReader r minBufSize).rest = r.data := by
  simp [newChunkReader, ChunkReader.rest, ChunkReader.pending]

theorem newChunkReader_wf (r : Reader) (minBufSize : Int) : (newChunkReader r minBufSize).Wf :=
  ⟨le_refl _, Nat.zero_le _⟩

/-! ### A run of calls -/

namespace ChunkReader

/-- The calls `Next(n_1)`, `Next(n_2)`, ... one after another: their results, and the reader after
them. -/
def nextAll (cr : ChunkReader) : List Nat → List (Except Error (List UInt8)) × ChunkReader
  | [] => ([], cr)
  | n :: ns => ((cr.next n).1 :: ((cr.next n).2.nextAll ns).1, ((cr.next n).2.nextAll ns).2)

/-- The bytes the successful calls returned, in order. -/
def returned : List (Except Error (List UInt8)) → List UInt8
  | [] => []
  | .ok bs :: rs => bs ++ returned rs
  | .error _ :: rs => returned rs

/-- **A run of calls.** From a reader whose positions lie in its buffer, after any calls the
positions still do, and the bytes the calls returned followed by the stream from the reader's
position are the stream the run started from. -/
theorem nextAll_spec (ns : List Nat) : ∀ cr : ChunkReader, cr.Wf →
    (cr.nextAll ns).2.Wf ∧ returned (cr.nextAll ns).1 ++ (cr.nextAll ns).2.rest = cr.rest := by
  induction ns with
  | nil =>
    intro cr hw
    exact ⟨hw, rfl⟩
  | cons n ns ih =>
    intro cr hw
    have ht := next_took (n := n) hw
    obtain ⟨hw', hrest'⟩ := ih _ ht.wf
    refine ⟨hw', ?_⟩
    simp only [nextAll]
    -- the call hands out the next `n` bytes, or keeps them all
    rcases hres : (cr.next n).1 with e | bs
    · rw [returned, hrest', (ht.error e hres).1]
    · rw [returned, List.append_assoc, hrest', (ht.ok bs hres).2]

end ChunkReader

open ChunkReader in
/-- **`Next` over any sequence of calls.** After any calls `Next(n_1)`, ..., `Next(n_k)` on a new
chunk reader, whatever the reader's chunks and errors, `0 ≤ rp ≤ wp ≤ len(buf)` holds and the
bytes returned so far are the front of the stream; a further `Next(n)` that succeeds returns the
next `n` bytes not yet returned, and one that fails keeps every byte not yet returned, with the
positions still in the buffer. -/
theorem chunkReader_next_stream (r : Reader) (minBufSize : Int) (ns : List Nat) (n : Nat) :
    let cr := ((newChunkReader r minBufSize).nextAll ns).2
    let out := returned ((newChunkReader r minBufSize).nextAll ns).1
    cr.Wf ∧ out ++ cr.rest = r.data ∧
      (∀ bs, (cr.next n).1 = .ok bs → bs.length = n ∧ bs = (r.data.drop out.length).take n) ∧
      ∀ e, (cr.next n).1 = .error e → (cr.next n).2.Wf ∧ (cr.next n).2.rest = cr.rest := by
  intro cr out
  obtain ⟨hw, hout⟩ := nextAll_spec ns _ (newChunkReader_wf r minBufSize)
  rw [newChunkReader_rest] at hout
  have ht := next_took (n := n) hw
  refine ⟨hw, hout, fun bs hbs => ?_, fun e he => ⟨ht.wf, (ht.error e he).1⟩⟩
  obtain ⟨hlen, hsplit⟩ := ht.ok bs hbs
  -- the stream after what was returned is what the reader has, which starts with `bs`
  have hdrop : r.data.drop out.length = bs ++ (cr.next n).2.rest := by
    rw [← hout, List.drop_left, hsplit]
  refine ⟨hlen, ?_⟩
  rw [hdrop, List.take_left' hlen]

end Pgx.Proto
