import Mathlib.Tactic.SplitIfs
import Pgx.Lib.Transition

/-!
# `BGReader`: a reader that can read ahead in the background

`BGReader` wraps an `io.Reader`. `Start` sets it running and, when it was stopped, starts a
`bgRead` goroutine; the goroutine calls the underlying `Read` outside the lock and appends each
result to `readResults` under it, until it finds the reader stopping or the result an error.
`Read` serves the queued results first, reads the underlying reader itself when the reader is
stopped and nothing is queued, and otherwise waits for a result.

Every step here is one of these calls or one step of a goroutine, each under the condition
variable's lock as the source takes it; a `Read` that waits is a `read` event that is not yet
enabled. The goroutine's last act, the `Broadcast` after it unlocks, touches no state: it wakes
the waiting `Read`s, whose events are enabled from the moment their results are queued.

* `State`, `Event`, `step`, `readFromReadResults`, with the history of the underlying calls
  and of what `Read` returned;
* `tokensOf`: a sequence of results as the bytes and errors in it, in order;
* `Inv`: at most one goroutine, there exactly while the reader is running or stopping, and what
  the underlying reader returned is what `Read` returned, then what is queued, then what the
  goroutine holds; every event keeps it (`Inv.step`).
-/

namespace Pgx.BGReader

/-- `StatusStopped`, `StatusRunning`, `StatusStopping`. -/
inductive Status
  | stopped
  | running
  | stopping
  deriving DecidableEq, Repr

variable {E : Type}

/-- `readResult`: the bytes of one call of the underlying `Read`, and its error. -/
structure ReadResult (E : Type) where
  buf : List UInt8
  err : Option E

/-- Where a `bgRead` goroutine is in its loop: about to call the underlying `Read`, or holding
what the call returned until it can take the lock. -/
inductive Goroutine (E : Type)
  | reading
  | got (r : ReadResult E)

/-- The state of a `BGReader`, with two histories that the code does not keep: every result of
the underlying reader, and every result `Read` returned, in order. -/
structure State (E : Type) where
  status : Status
  readResults : List (ReadResult E)
  /-- The `bgRead` goroutines that have not returned. -/
  goroutines : List (Goroutine E)
  underlying : List (ReadResult E)
  returned : List (ReadResult E)

/-- `New(r)`: stopped, nothing read. -/
def new : State E := ⟨.stopped, [], [], [], []⟩

/-- The calls and the goroutine steps that interleave. -/
inductive Event (E : Type)
  | start
  | stop
  /-- Goroutine `i`'s call of the underlying `Read` into its 8192-byte buffer returns `r`. -/
  | bgReadCall (i : Nat) (r : ReadResult E)
  /-- Goroutine `i` appends its result under the lock, and stops or reads on. -/
  | bgReadAppend (i : Nat)
  /-- A `Read(p)` with `len(p) = n` served from the queued results. -/
  | read (n : Nat)
  /-- A `Read(p)` with `len(p) = n` on a stopped reader with nothing queued: the underlying `Read`
  returns `r`. -/
  | readDirect (n : Nat) (r : ReadResult E)

/-- `readFromReadResults(p)` with `len(p) = n`, on the queued results: what it returns, and what
stays queued. A result copied only in part stays at the front with the rest of its bytes and its
error. -/
def readFromReadResults (n : Nat) : List (ReadResult E) → ReadResult E × List (ReadResult E)
  | [] => (⟨[], none⟩, [])
  | r :: rest =>
    let copied := min n r.buf.length
    if copied = r.buf.length then (r, rest)
    else (⟨r.buf.take copied, none⟩, ⟨r.buf.drop copied, r.err⟩ :: rest)

/-- `Start`. -/
def start (s : State E) : State E :=
  match s.status with
  | .stopped => { s with status := .running, goroutines := s.goroutines ++ [.reading] }
  | .running => s
  | .stopping => { s with status := .running }

/-- `Stop`. -/
def stop (s : State E) : State E :=
  match s.status with
  | .running => { s with status := .stopping }
  | _ => s

/-- The lock-protected part of one pass of `bgRead`'s loop, for goroutine `i` holding `r`: append
it, and stop when the reader is stopping or the result is an error. -/
def bgReadAppend (s : State E) (i : Nat) (r : ReadResult E) : State E :=
  if s.status = .stopping ∨ r.err.isSome then
    { s with readResults := s.readResults ++ [r], status := .stopped, goroutines := s.goroutines.eraseIdx i }
  else { s with readResults := s.readResults ++ [r], goroutines := s.goroutines.set i .reading }

/-- One step; `none` where the event is not enabled. -/
def step (s : State E) : Event E → Option (State E)
  | .start => some (start s)
  | .stop => some (stop s)
  | .bgReadCall i r =>
    match s.goroutines[i]? with
    | some .reading =>
      if r.buf.length ≤ 8192 then
        some { s with goroutines := s.goroutines.set i (.got r), underlying := s.underlying ++ [r] }
      else none
    | _ => none
  | .bgReadAppend i =>
    match s.goroutines[i]? with
    | some (.got r) => some (bgReadAppend s i r)
    | _ => none
  | .read n =>
    if s.readResults = [] then none
    else
      let (r, rest) := readFromReadResults n s.readResults
      some { s with readResults := rest, returned := s.returned ++ [r] }
  | .readDirect n r =>
    if s.readResults = [] ∧ s.status = .stopped ∧ r.buf.length ≤ n then
      some { s with underlying := s.underlying ++ [r], returned := s.returned ++ [r] }
    else none

/-! ## The stream of bytes and errors -/

/-- A byte of the stream, or an error where the underlying reader returned one. -/
inductive Token (E : Type)
  | byte (b : UInt8)
  | err (e : E)

/-- A result as the tokens it carries: its bytes, then its error. -/
def tokens (r : ReadResult E) : List (Token E) := r.buf.map .byte ++ r.err.toList.map .err

/-- Results as the tokens they carry, in order. -/
def tokensOf (rs : List (ReadResult E)) : List (Token E) := rs.flatMap tokens

/-- The results the goroutines hold. -/
def inFlight : List (Goroutine E) → List (ReadResult E)
  | [] => []
  | .reading :: gs => inFlight gs
  | .got r :: gs => r :: inFlight gs

@[simp] theorem tokensOf_nil : tokensOf ([] : List (ReadResult E)) = [] := rfl

@[simp] theorem tokensOf_append (rs rs' : List (ReadResult E)) :
    tokensOf (rs ++ rs') = tokensOf rs ++ tokensOf rs' := by
  simp [tokensOf]

@[simp] theorem tokensOf_cons (r : ReadResult E) (rs : List (ReadResult E)) :
    tokensOf (r :: rs) = tokens r ++ tokensOf rs := rfl

/-- A `Read` from the queue splits the first result between what it returns and what stays. -/
theorem readFromReadResults_tokens (n : Nat) {rs : List (ReadResult E)} (hne : rs ≠ []) :
    tokensOf rs = tokens (readFromReadResults n rs).1 ++ tokensOf (readFromReadResults n rs).2 := by
  obtain ⟨r, rest, rfl⟩ := List.exists_cons_of_ne_nil hne
  unfold readFromReadResults
  dsimp only
  split_ifs
  · rfl
  · simp only [tokensOf_cons, tokens, Option.toList_none, List.map_nil, List.append_nil,
      ← List.append_assoc, ← List.map_append, List.take_append_drop]

/-! ## The invariant -/

/-- What holds of every reachable state. -/
structure Inv (s : State E) : Prop where
  /-- At most one `bgRead` goroutine. -/
  one_goroutine : s.goroutines.length ≤ 1
  /-- The reader is running or stopping exactly while a goroutine is. -/
  running_iff : s.status ≠ .stopped ↔ s.goroutines ≠ []
  /-- Nothing lost, repeated or reordered: the underlying tokens are those returned, then those
  queued, then those a goroutine holds. -/
  stream : tokensOf s.underlying = tokensOf s.returned ++ tokensOf s.readResults ++ tokensOf (inFlight s.goroutines)

theorem inv_new : Inv (new : State E) :=
  ⟨by simp [new], by simp [new], rfl⟩

/-- At most one goroutine: the one there is, is goroutine `0`. -/
theorem Inv.goroutine_eq {s : State E} (h : Inv s) {i : Nat} {g : Goroutine E}
    (hg : s.goroutines[i]? = some g) : i = 0 ∧ s.goroutines = [g] := by
  have hi : i < s.goroutines.length := (List.getElem?_eq_some_iff.mp hg).1
  have hi0 : i = 0 := by have := h.one_goroutine; omega
  subst hi0
  refine ⟨rfl, ?_⟩
  match hgs : s.goroutines, h.one_goroutine with
  | [g'], _ => simp_all
  | [], _ => simp_all
  | _ :: _ :: _, hl => simp at hl

theorem Inv.start {s : State E} (h : Inv s) : Inv (start s) := by
  unfold Pgx.BGReader.start
  split
  · next hst =>
    have hnil : s.goroutines = [] := by simpa [hst] using h.running_iff
    refine ⟨by simp [hnil], by simp [hnil], ?_⟩
    simpa [hnil, inFlight] using h.stream
  · exact h
  · next hst =>
    have hne : s.goroutines ≠ [] := h.running_iff.mp (by simp [hst])
    exact ⟨h.one_goroutine, by simpa using hne, h.stream⟩

theorem Inv.stop {s : State E} (h : Inv s) : Inv (stop s) := by
  unfold Pgx.BGReader.stop
  split
  · next hst =>
    have hne : s.goroutines ≠ [] := h.running_iff.mp (by simp [hst])
    exact ⟨h.one_goroutine, by simpa using hne, h.stream⟩
  · exact h

/-- The goroutine's call of the underlying reader: what it returns is held, not yet queued. -/
theorem Inv.bgReadCall {s : State E} (h : Inv s) (r : ReadResult E) (hg : s.goroutines[0]? = some .reading) :
    Inv { s with goroutines := s.goroutines.set 0 (.got r), underlying := s.underlying ++ [r] } := by
  obtain ⟨-, hgs⟩ := h.goroutine_eq hg
  refine ⟨by simp [hgs], by simpa [hgs] using h.running_iff, ?_⟩
  have := h.stream
  simp only [hgs, inFlight, tokensOf_nil, List.append_nil] at this
  simp [hgs, inFlight, this]

/-- The goroutine's append: the result it held is queued. -/
theorem Inv.bgReadAppend {s : State E} (h : Inv s) (r : ReadResult E) (hg : s.goroutines[0]? = some (.got r)) :
    Inv (bgReadAppend s 0 r) := by
  obtain ⟨-, hgs⟩ := h.goroutine_eq hg
  have hstream := h.stream
  simp only [hgs, inFlight, tokensOf_cons, tokensOf_nil, List.append_nil] at hstream
  have hrun : s.status ≠ .stopped := h.running_iff.mpr (by simp [hgs])
  unfold Pgx.BGReader.bgReadAppend
  split_ifs
  · exact ⟨by simp [hgs], by simp [hgs], by simp [hgs, inFlight, hstream]⟩
  · exact ⟨by simp [hgs], by simpa [hgs] using hrun, by simp [hgs, inFlight, hstream]⟩

/-- Every event keeps the invariant. -/
theorem Inv.step {s s' : State E} {e : Event E} (h : Inv s) (hs : step s e = some s') : Inv s' := by
  cases e with
  | start =>
    cases hs
    exact h.start
  | stop =>
    cases hs
    exact h.stop
  | bgReadCall i r =>
    simp only [Pgx.BGReader.step] at hs
    split at hs
    · next hg =>
      obtain ⟨rfl, -⟩ := h.goroutine_eq hg
      split_ifs at hs
      cases hs
      exact h.bgReadCall r hg
    · cases hs
  | bgReadAppend i =>
    simp only [Pgx.BGReader.step] at hs
    split at hs
    · next r hg =>
      obtain ⟨rfl, -⟩ := h.goroutine_eq hg
      cases hs
      exact h.bgReadAppend r hg
    · cases hs
  | read n =>
    simp only [Pgx.BGReader.step] at hs
    split_ifs at hs with hne
    cases hs
    refine ⟨h.one_goroutine, h.running_iff, ?_⟩
    rw [h.stream, readFromReadResults_tokens n hne]
    simp
  | readDirect n r =>
    simp only [Pgx.BGReader.step] at hs
    split_ifs at hs with hd
    cases hs
    obtain ⟨hq, hst, -⟩ := hd
    have hnil : s.goroutines = [] := by simpa [hst] using h.running_iff
    refine ⟨h.one_goroutine, h.running_iff, ?_⟩
    have := h.stream
    simp only [hq, hnil, inFlight, tokensOf_nil, List.append_nil] at this
    simp [hq, hnil, inFlight, this]

/-! ## Every interleaving -/

/-- The states some interleaving of calls and goroutine steps reaches from `New`. -/
def Reachable (s : State E) : Prop := Transition.Reachable step (· = new) s

theorem Inv.of_reachable {s : State E} (h : Reachable s) : Inv s :=
  Transition.Reachable.invariant (fun _ h₀ => h₀ ▸ inv_new) (fun _ _ _ hi hs => hi.step hs) h

/-- In every interleaving, the bytes and errors `Read` has returned are the underlying reader's,
in order: what it has not returned yet is queued or held by the goroutine, so an error comes back
right after the bytes that came before it. There is at most one `bgRead` goroutine, and the
reader is running or stopping exactly while there is one. -/
theorem bgReader_stream {s : State E} (h : Reachable s) :
    tokensOf s.returned <+: tokensOf s.underlying ∧
      tokensOf s.underlying =
        tokensOf s.returned ++ tokensOf s.readResults ++ tokensOf (inFlight s.goroutines) ∧
      s.goroutines.length ≤ 1 ∧ (s.status ≠ .stopped ↔ s.goroutines ≠ []) := by
  have hi := Inv.of_reachable h
  refine ⟨⟨tokensOf s.readResults ++ tokensOf (inFlight s.goroutines), ?_⟩, hi.stream,
    hi.one_goroutine, hi.running_iff⟩
  rw [hi.stream, List.append_assoc]

/-- `Start`, then the goroutine reads two bytes and an error and stops, then `Read` takes one byte
and then the other with the error. -/
theorem bgReader_stream_errorAfterBytes :
    Reachable (⟨.stopped, [], [], [⟨[1, 2], some ()⟩], [⟨[1], none⟩, ⟨[2], some ()⟩]⟩ : State Unit) ∧
      tokensOf [(⟨[1], none⟩ : ReadResult Unit), ⟨[2], some ()⟩] <+: tokensOf [(⟨[1, 2], some ()⟩ : ReadResult Unit)] ∧
      tokensOf [(⟨[1, 2], some ()⟩ : ReadResult Unit)] =
        tokensOf [(⟨[1], none⟩ : ReadResult Unit), ⟨[2], some ()⟩] ++ tokensOf [] ++ tokensOf (inFlight []) ∧
      ([] : List (Goroutine Unit)).length ≤ 1 ∧ (Status.stopped ≠ .stopped ↔ ([] : List (Goroutine Unit)) ≠ []) :=
  have hr : Reachable (⟨.stopped, [], [], [⟨[1, 2], some ()⟩], [⟨[1], none⟩, ⟨[2], some ()⟩]⟩ : State Unit) :=
    Transition.Reachable.runs (Transition.Reachable.of_init rfl)
      (show Transition.Runs step new [.start, .bgReadCall 0 ⟨[1, 2], some ()⟩, .bgReadAppend 0, .read 1, .read 5] =
        some ⟨.stopped, [], [], [⟨[1, 2], some ()⟩], [⟨[1], none⟩, ⟨[2], some ()⟩]⟩ from rfl)
  ⟨hr, bgReader_stream hr⟩

end Pgx.BGReader
