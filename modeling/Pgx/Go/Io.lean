import Mathlib

/-!
# `io`: a reader that hands out one stream in pieces

`Read` fills some of the buffer it is given, and may return an error with what it delivered. The
readers here deliver one byte stream, in order, in pieces and with errors fixed in advance by a
schedule, so that a statement over every schedule is a statement over every way the stream can
arrive: split into any chunks, and interrupted by errors after which reading goes on.

* `Reader`, `Reader.read`: one call of `Read`;
* `readAtLeast`: `io.ReadAtLeast`, which calls `Read` until it has `min` bytes or an error;
* `copy`: the built-in `copy`.

`Delivered` says what a call of `readAtLeast` does to the stream, and `readAtLeast_delivered`
proves it: the bytes read followed by those left are the stream; a success has at least `min`
bytes; a failure has fewer, and comes from an error of the schedule or from the end of the stream.
-/

namespace Go.Io

/-- The errors of a read: `io.EOF`, `io.ErrUnexpectedEOF`, `io.ErrShortBuffer`, and any other. -/
inductive Error
  | eof
  | unexpectedEOF
  | shortBuffer
  | other (code : Nat)
  deriving DecidableEq, Repr

/-- A reader of one stream: the bytes not delivered yet, and for each of the next calls of `Read`
the most bytes it delivers and the error it returns with them. Past the schedule, `Read` delivers
as much as fits, and `EOF` at the end of the stream. -/
structure Reader where
  data : List UInt8
  sched : List (Nat × Option Error)
  deriving DecidableEq, Repr

/-- One call of `Read` into a buffer with `space` free bytes: what it delivers, its error, and the
reader after it. -/
def Reader.read (r : Reader) (space : Nat) : List UInt8 × Option Error × Reader :=
  match r.sched with
  | (k, e) :: sched => (r.data.take (min k space), e, ⟨r.data.drop (min k space), sched⟩)
  | [] =>
    if r.data = [] then ([], some .eof, r)
    else (r.data.take space, none, ⟨r.data.drop space, []⟩)

/-- The calls of `Read` a reader can still take without an error: its schedule and its stream. -/
def Reader.size (r : Reader) : Nat := r.sched.length + r.data.length

section Read

variable {r : Reader} {space : Nat}

theorem read_append_data (r : Reader) (space : Nat) :
    (r.read space).1 ++ (r.read space).2.2.data = r.data := by
  rcases hs : r.sched with _ | ⟨⟨k, e⟩, sched⟩
  · by_cases hd : r.data = [] <;> simp [Reader.read, hs, hd]
  · simp [Reader.read, hs]

theorem read_length_le (r : Reader) (space : Nat) : (r.read space).1.length ≤ space := by
  rcases hs : r.sched with _ | ⟨⟨k, e⟩, sched⟩
  · by_cases hd : r.data = [] <;> simp [Reader.read, hs, hd]
  · simp only [Reader.read, hs, List.length_take]
    omega

theorem read_sched_le (r : Reader) (space : Nat) :
    (r.read space).2.2.sched.length ≤ r.sched.length := by
  rcases hs : r.sched with _ | ⟨⟨k, e⟩, sched⟩
  · by_cases hd : r.data = [] <;> simp [Reader.read, hs, hd]
  · simp [Reader.read, hs]

/-- A read that returns no error leaves less to do: it used up an entry of the schedule, or
delivered at least one byte. -/
theorem read_size_lt (hs : 0 < space) (he : (r.read space).2.1 = none) :
    (r.read space).2.2.size < r.size := by
  unfold Reader.size
  rcases hsched : r.sched with _ | ⟨⟨k, e⟩, sched⟩
  · by_cases hd : r.data = []
    · simp [Reader.read, hsched, hd] at he
    · -- past the schedule a read delivers at least one byte
      have : 0 < r.data.length := List.length_pos_iff.2 hd
      simp only [Reader.read, hsched, hd, if_false, List.length_nil, List.length_drop]
      omega
  · simp only [Reader.read, hsched, List.length_cons, List.length_drop]
    omega

/-- A read fails on an error of its schedule, or at the end of the stream. -/
theorem read_error {e : Error} (he : (r.read space).2.1 = some e) :
    (r.read space).2.2.sched.length < r.sched.length ∨ (r.read space).2.2.data = [] := by
  rcases hsched : r.sched with _ | ⟨⟨k, e'⟩, sched⟩
  · by_cases hd : r.data = []
    · simp [Reader.read, hsched, hd]
    · simp [Reader.read, hsched, hd] at he
  · simp [Reader.read, hsched]

end Read

/-- The loop of `io.ReadAtLeast` over a buffer with `space` free bytes, where `acc` has been
read: it calls `Read` on what is still free until it has `min` bytes or an error. -/
def readAtLeastLoop (space min : Nat) (hmin : min ≤ space) (r : Reader) (acc : List UInt8) :
    List UInt8 × Option Error × Reader :=
  if _hn : acc.length < min then
    match _he : r.read (space - acc.length) with
    | (bs, none, r') => readAtLeastLoop space min hmin r' (acc ++ bs)
    | (bs, some e, r') => (acc ++ bs, some e, r')
  else (acc, none, r)
termination_by r.size
decreasing_by
  have hlt := @read_size_lt r (space - acc.length) (by omega) (by rw [_he])
  rw [_he] at hlt
  exact hlt

/-- `io.ReadAtLeast(r, buf, min)` on a buffer with `space` free bytes: the bytes it read, its
error, and the reader after it. Having `min` bytes clears an error; an `EOF` after some bytes
becomes `ErrUnexpectedEOF`. -/
def readAtLeast (r : Reader) (space min : Nat) : List UInt8 × Option Error × Reader :=
  if h : space < min then ([], some .shortBuffer, r)
  else
    let res := readAtLeastLoop space min (Nat.le_of_not_lt h) r []
    if min ≤ res.1.length then (res.1, none, res.2.2)
    else if 0 < res.1.length ∧ res.2.1 = some .eof then (res.1, some .unexpectedEOF, res.2.2)
    else res

/-- What a call of `readAtLeast` on a buffer with `space` free bytes did: it delivered `bs` from
the front of the stream, within the space, without adding to the schedule; on success at least
`min` bytes, on failure fewer, and then on an error of the schedule or at the end of the
stream. -/
structure Delivered (r : Reader) (space min : Nat) (bs : List UInt8) (err : Option Error)
    (r' : Reader) : Prop where
  append_data : bs ++ r'.data = r.data
  length_le : bs.length ≤ space
  sched_le : r'.sched.length ≤ r.sched.length
  ok : err = none → min ≤ bs.length
  error : err ≠ none → bs.length < min ∧ (r'.sched.length < r.sched.length ∨ r'.data = [])

section Loop

variable {space min : Nat} {hmin : min ≤ space} {r r' : Reader} {acc bs : List UInt8}

theorem readAtLeastLoop_of_none (hn : acc.length < min)
    (he : r.read (space - acc.length) = (bs, none, r')) :
    readAtLeastLoop space min hmin r acc = readAtLeastLoop space min hmin r' (acc ++ bs) := by
  rw [readAtLeastLoop, dif_pos hn]
  split <;> simp_all

theorem readAtLeastLoop_of_some {e : Error} (hn : acc.length < min)
    (he : r.read (space - acc.length) = (bs, some e, r')) :
    readAtLeastLoop space min hmin r acc = (acc ++ bs, some e, r') := by
  rw [readAtLeastLoop, dif_pos hn]
  split <;> simp_all

theorem readAtLeastLoop_of_le (hn : ¬ acc.length < min) :
    readAtLeastLoop space min hmin r acc = (acc, none, r) := by
  rw [readAtLeastLoop, dif_neg hn]

/-- The loop, from `acc`: it adds to `acc` what it takes from the stream, and the invariant
`acc.length ≤ space` carries the bound through the recursion. -/
theorem readAtLeastLoop_spec (r : Reader) (acc : List UInt8) (hacc : acc.length ≤ space) :
    ∃ bs, (readAtLeastLoop space min hmin r acc).1 = acc ++ bs ∧
      bs ++ (readAtLeastLoop space min hmin r acc).2.2.data = r.data ∧
      (readAtLeastLoop space min hmin r acc).1.length ≤ space ∧
      (readAtLeastLoop space min hmin r acc).2.2.sched.length ≤ r.sched.length ∧
      ((readAtLeastLoop space min hmin r acc).2.1 = none →
        min ≤ (readAtLeastLoop space min hmin r acc).1.length) ∧
      ((readAtLeastLoop space min hmin r acc).2.1 ≠ none →
        (readAtLeastLoop space min hmin r acc).2.2.sched.length < r.sched.length ∨
          (readAtLeastLoop space min hmin r acc).2.2.data = []) := by
  induction r, acc using readAtLeastLoop.induct space min hmin with
  | case1 r acc hn bs r' he ih =>
    -- a read without error: the loop goes on from the longer `acc`
    have hlen := read_length_le r (space - acc.length)
    have hdata := read_append_data r (space - acc.length)
    have hsched := read_sched_le r (space - acc.length)
    simp only [he] at hlen hdata hsched
    rw [readAtLeastLoop_of_none hn he]
    obtain ⟨bs', h1, h2, h3, h4, h5, h6⟩ := ih (by simp only [List.length_append]; omega)
    refine ⟨bs ++ bs', by rw [h1, List.append_assoc], ?_, h3, by omega, h5,
      fun hne => (h6 hne).imp (fun h => by omega) id⟩
    rw [List.append_assoc, h2, ← hdata]
  | case2 r acc hn bs e r' he =>
    -- a read with an error ends the loop
    have hlen := read_length_le r (space - acc.length)
    have hdata := read_append_data r (space - acc.length)
    have hsched := read_sched_le r (space - acc.length)
    have herr := @read_error r (space - acc.length) e (by rw [he])
    simp only [he] at hlen hdata hsched herr
    rw [readAtLeastLoop_of_some hn he]
    refine ⟨bs, rfl, hdata, by simp only [List.length_append]; omega, hsched, by simp,
      fun _ => herr⟩
  | case3 r acc hn =>
    rw [readAtLeastLoop_of_le hn]
    exact ⟨[], by simp, by simp, hacc, le_refl _, fun _ => Nat.le_of_not_lt hn, fun h => absurd rfl h⟩

end Loop

/-- **`readAtLeast` on a buffer of at least `min` free bytes.** -/
theorem readAtLeast_delivered (r : Reader) {space min : Nat} (h : min ≤ space) :
    Delivered r space min (readAtLeast r space min).1 (readAtLeast r space min).2.1
      (readAtLeast r space min).2.2 := by
  obtain ⟨bs, h1, h2, h3, h4, h5, h6⟩ :=
    @readAtLeastLoop_spec space min h r [] (Nat.zero_le _)
  rw [List.nil_append] at h1
  unfold readAtLeast
  rw [dif_neg (by omega)]
  dsimp only
  split
  · exact ⟨by rw [h1, h2], h3, h4, fun _ => by assumption, fun hne => absurd rfl hne⟩
  · rename_i hlt
    split
    · exact ⟨by rw [h1, h2], h3, h4, fun hn => by simp at hn,
        fun _ => ⟨by dsimp only; omega, h6 (by simp_all)⟩⟩
    · exact ⟨by rw [h1, h2], h3, h4, fun hn => h5 hn, fun hne => ⟨by omega, h6 hne⟩⟩

/-- The built-in `copy(dst, src)`: `dst` with its first elements replaced by those of `src`, as
many as fit, and how many that is. -/
def copy {α : Type} (dst src : List α) : List α × Nat :=
  (src.take dst.length ++ dst.drop src.length, Nat.min dst.length src.length)

section Copy

variable {α : Type} {dst src : List α}

@[simp] theorem copy_length : (copy dst src).1.length = dst.length := by
  simp only [copy, List.length_append, List.length_take, List.length_drop]
  omega

theorem copy_of_le (h : src.length ≤ dst.length) :
    copy dst src = (src ++ dst.drop src.length, src.length) := by
  simp only [copy, List.take_of_length_le h, Nat.min_eq_right h]

end Copy

end Go.Io
