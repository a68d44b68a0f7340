import Mathlib.Tactic.SplitIfs
import Pgx.Lib.Transition

/-!
# `ContextWatcher`: one goroutine per watched context

`Watch(ctx)` clears `onCancelWasCalled` and, for a context that can be canceled, starts a
goroutine that waits in a `select` for the context to be done or for `Unwatch` to send on the
unbuffered `unwatchChan`. When the context is done first, the goroutine calls `HandleCancel(ctx)`,
sets `onCancelWasCalled` and then waits for the send. `Unwatch` sends, so it returns only after
the goroutine has taken the send, then calls `HandleUnwatchAfterCancel` when the flag is set.

The owner issues `Watch` and `Unwatch` in turn; the goroutine's steps and the cancellation of
any context interleave with them. The send and the receive on `unwatchChan` happen together, as
one event.

* `State`, `Event`, `step`, with the history of the calls of `Watch`, of the handler and the
  returns of `Unwatch`, each tagged with the number of the watch;
* `segment`: the calls of one watch, `HandleCancel` and then `HandleUnwatchAfterCancel` in it or
  neither;
* `Inv`: the history is the segments of the finished watches, then the calls so far of the one
  in progress; every event keeps it (`Inv.step`).
-/

namespace Pgx.CtxWatch

/-- A call of `Watch`, of the handler, or the return of `Unwatch`, with the number of its watch. -/
inductive Call
  | watch (w : Nat)
  | handleCancel (w : Nat)
  | handleCancelReturn (w : Nat)
  | handleUnwatchAfterCancel (w : Nat)
  | unwatchReturn (w : Nat)
  deriving DecidableEq, Repr

/-- Where the goroutine of a watch is: in its `select`, in `HandleCancel`, about to set
`onCancelWasCalled`, or receiving from `unwatchChan`. -/
inductive Phase
  | selecting
  | inHandleCancel
  | setFlag
  | waiting
  deriving DecidableEq, Repr

/-- Where the owner is: before a `Watch`, between `Watch` and `Unwatch` of watch `w`, or in the
`Unwatch` of watch `w`, sending. -/
inductive Owner
  | idle
  | watching (w : Nat)
  | unwatching (w : Nat)
  deriving DecidableEq, Repr

/-- A `ContextWatcher`, its goroutine and its owner. `watches`, `canceled` and `log` are the
model's: the number of calls of `Watch`, the watches whose context was canceled, and the calls
so far. -/
structure State where
  watchInProgress : Bool
  onCancelWasCalled : Bool
  /-- The goroutine that watches, with the number of the watch it serves. -/
  goroutine : Option (Nat × Phase)
  owner : Owner
  watches : Nat
  canceled : List Nat
  log : List Call

/-- `NewContextWatcher(handler)`. -/
def new : State := ⟨false, false, none, .idle, 0, [], []⟩

/-- The calls of the owner, the steps of the goroutine, and the cancellation of a context. -/
inductive Event
  /-- `Watch(ctx)` for a new context; `cancelable` is `ctx.Done() != nil`. -/
  | watch (cancelable : Bool)
  /-- The context of watch `w` is canceled. -/
  | cancel (w : Nat)
  /-- The goroutine's `select` takes `ctx.Done()` and calls `HandleCancel(ctx)`. -/
  | selectDone
  | handleCancelReturn
  | setFlag
  | unwatch
  /-- `Unwatch`'s send meets the goroutine's receive, in the `select` or after `HandleCancel`;
  `Unwatch` then finishes. -/
  | unwatchSend

/-- `Watch(ctx)`: `none` is its panic, a watch already in progress. -/
def watch (s : State) (cancelable : Bool) : Option State :=
  if s.watchInProgress then none
  else
    let w := s.watches
    let s := { s with
      onCancelWasCalled := false, watches := w + 1, owner := .watching w
      log := s.log ++ [Call.watch w] }
    if cancelable then some { s with watchInProgress := true, goroutine := some (w, .selecting) }
    else some { s with watchInProgress := false }

/-- The rest of `Unwatch` once its send is taken: `HandleUnwatchAfterCancel` if the flag is set. -/
def finishUnwatch (s : State) (w : Nat) : State :=
  { s with
    goroutine := none, watchInProgress := false, owner := .idle
    log := (if s.onCancelWasCalled then s.log ++ [.handleUnwatchAfterCancel w] else s.log) ++
      [.unwatchReturn w] }

/-- One step; `none` where the event is not enabled. -/
def step (s : State) : Event → Option State
  | .watch cancelable => if s.owner = .idle then watch s cancelable else none
  | .cancel w => some { s with canceled := w :: s.canceled }
  | .selectDone =>
    match s.goroutine with
    | some (w, .selecting) =>
      if w ∈ s.canceled then
        some { s with goroutine := some (w, .inHandleCancel), log := s.log ++ [.handleCancel w] }
      else none
    | _ => none
  | .handleCancelReturn =>
    match s.goroutine with
    | some (w, .inHandleCancel) =>
      some { s with goroutine := some (w, .setFlag), log := s.log ++ [.handleCancelReturn w] }
    | _ => none
  | .setFlag =>
    match s.goroutine with
    | some (w, .setFlag) => some { s with onCancelWasCalled := true, goroutine := some (w, .waiting) }
    | _ => none
  | .unwatch =>
    match s.owner with
    | .idle => if s.watchInProgress then none else some s
    | .watching w =>
      if s.watchInProgress then some { s with owner := .unwatching w }
      else some { s with owner := .idle, log := s.log ++ [.unwatchReturn w] }
    | .unwatching _ => none
  | .unwatchSend =>
    match s.owner, s.goroutine with
    | .unwatching w, some (_, .selecting) => some (finishUnwatch s w)
    | .unwatching w, some (_, .waiting) => some (finishUnwatch s w)
    | _, _ => none

/-! ## The calls of each watch -/

/-- The calls of watch `w` from `Watch` to the return of its `Unwatch`: `HandleCancel`, its
return and `HandleUnwatchAfterCancel` when the goroutine saw the context done, else none. -/
def segment (w : Nat) (canceled : Bool) : List Call :=
  [.watch w] ++
    (if canceled then [.handleCancel w, .handleCancelReturn w, .handleUnwatchAfterCancel w] else []) ++
    [.unwatchReturn w]

/-- The segments of watches `w`, `w + 1`, … in turn. -/
def segments : Nat → List Bool → List Call
  | _, [] => []
  | w, c :: cs => segment w c ++ segments (w + 1) cs

theorem segments_append_singleton (c : Bool) :
    ∀ (w : Nat) (cs : List Bool), segments w (cs ++ [c]) = segments w cs ++ segment (w + cs.length) c
  | w, [] => by simp [segments]
  | w, c' :: cs => by
    rw [List.cons_append, segments, segments, segments_append_singleton c (w + 1) cs, List.append_assoc,
      List.length_cons, Nat.add_assoc, Nat.add_comm 1]

/-- The calls so far of watch `w`, in progress, from where its goroutine is. -/
def phaseCalls (w : Nat) : Option (Nat × Phase) → List Call
  | some (_, .inHandleCancel) => [.watch w, .handleCancel w]
  | some (_, .setFlag) => [.watch w, .handleCancel w, .handleCancelReturn w]
  | some (_, .waiting) => [.watch w, .handleCancel w, .handleCancelReturn w]
  | _ => [.watch w]

/-! ## The invariant -/

/-- A watch in progress: watch `w`, after the finished watches `cs`. -/
structure InProgress (s : State) (cs : List Bool) (w : Nat) : Prop where
  number : w = cs.length
  watches : s.watches = w + 1
  log : s.log = segments 0 cs ++ phaseCalls w s.goroutine
  serves : ∀ w' p, s.goroutine = some (w', p) → w' = w
  inProgress : s.watchInProgress = s.goroutine.isSome
  flag : s.onCancelWasCalled = true ↔ s.goroutine.map Prod.snd = some .waiting

/-- What the owner's position says, `cs` being the finished watches. -/
def OwnerInv (s : State) (cs : List Bool) : Owner → Prop
  | .idle =>
    s.watches = cs.length ∧ s.log = segments 0 cs ∧ s.goroutine = none ∧ s.watchInProgress = false
  | .watching w => InProgress s cs w
  | .unwatching w => InProgress s cs w ∧ s.watchInProgress = true

/-- What holds of every reachable state, for some list of finished watches. -/
def Inv (s : State) : Prop := ∃ cs : List Bool, OwnerInv s cs s.owner

theorem inv_new : Inv new := ⟨[], rfl, rfl, rfl, rfl⟩

variable {s s' : State}

/-- `InProgress` reads neither the owner nor the canceled contexts. -/
theorem InProgress.congr {cs : List Bool} {w : Nat} (h : InProgress s cs w) (hw : s'.watches = s.watches)
    (hl : s'.log = s.log) (hg : s'.goroutine = s.goroutine)
    (hwip : s'.watchInProgress = s.watchInProgress) (hf : s'.onCancelWasCalled = s.onCancelWasCalled) :
    InProgress s' cs w where
  number := h.number
  watches := hw ▸ h.watches
  log := by rw [hl, hg, h.log]
  serves := hg ▸ h.serves
  inProgress := by rw [hwip, hg, h.inProgress]
  flag := by rw [hf, hg, h.flag]

/-- Where only the goroutine moves, a watch in progress that stays one keeps the invariant. -/
theorem Inv.of_goroutine (hi : Inv s) (hg : s.goroutine.isSome) (ho : s'.owner = s.owner)
    (hwip : s'.watchInProgress = s.watchInProgress)
    (hp : ∀ cs w, InProgress s cs w → InProgress s' cs w) : Inv s' := by
  obtain ⟨cs, h⟩ := hi
  refine ⟨cs, ?_⟩
  rw [ho]
  cases hown : s.owner with
  | idle =>
    rw [hown] at h
    simp [h.2.2.1] at hg
  | watching w =>
    rw [hown] at h
    exact hp cs w h
  | unwatching w =>
    rw [hown] at h
    exact ⟨hp cs w h.1, hwip ▸ h.2⟩

/-- The goroutine moves from phase `p` to `p'`, the calls of the move logged, with the flag
unset on both sides. -/
theorem InProgress.move {cs : List Bool} {w w' : Nat} {p p' : Phase} {l : List Call}
    (h : InProgress s cs w) (hg : s.goroutine = some (w', p))
    (hl : phaseCalls w' (some (w', p)) ++ l = phaseCalls w' (some (w', p'))) (hp : p ≠ .waiting)
    (hp' : p' ≠ .waiting) :
    InProgress { s with goroutine := some (w', p'), log := s.log ++ l } cs w where
  number := h.number
  watches := h.watches
  log := by
    obtain rfl := h.serves w' p hg
    rw [h.log, hg, List.append_assoc, hl]
  serves := by
    rintro _ _ ⟨⟩
    exact h.serves w' p hg
  inProgress := by simpa [hg] using h.inProgress
  flag := by
    have hf := h.flag
    simp only [hg, Option.map_some, Option.some.injEq] at hf ⊢
    simp [hf, hp, hp']

/-- Setting `onCancelWasCalled` after `HandleCancel` returned. -/
theorem InProgress.setFlag {cs : List Bool} {w w' : Nat} (h : InProgress s cs w)
    (hg : s.goroutine = some (w', .setFlag)) :
    InProgress { s with onCancelWasCalled := true, goroutine := some (w', .waiting) } cs w where
  number := h.number
  watches := h.watches
  log := by rw [h.log, hg]; rfl
  serves := by
    rintro _ _ ⟨⟩
    exact h.serves w' _ hg
  inProgress := by simpa [hg] using h.inProgress
  flag := by simp

/-- `Watch(ctx)` from an idle owner starts watch number `s.watches`, with a goroutine in its
`select` or, for a context that cannot be canceled, none. -/
theorem Inv.watch {c : Bool} (hi : Inv s) (h : step s (.watch c) = some s') : Inv s' := by
  simp only [step] at h
  split_ifs at h with hidle
  obtain ⟨cs, hcs⟩ := hi
  rw [hidle] at hcs
  obtain ⟨hw, hlog, hg, hwip⟩ := hcs
  simp only [CtxWatch.watch, hwip, Bool.false_eq_true, if_false] at h
  refine ⟨cs, ?_⟩
  cases c with
  | true =>
    cases h
    exact { number := hw, watches := rfl, log := by rw [hlog]; rfl, serves := by simp,
            inProgress := rfl, flag := by simp }
  | false =>
    cases h
    exact { number := hw, watches := rfl, log := by rw [hlog, hg]; rfl, serves := by simp [hg],
            inProgress := by simp [hg], flag := by simp [hg] }

theorem Inv.cancel {w : Nat} (hi : Inv s) (h : step s (.cancel w) = some s') : Inv s' := by
  obtain ⟨cs, hcs⟩ := hi
  cases h
  refine ⟨cs, ?_⟩
  cases hown : s.owner with
  | idle =>
    rw [hown] at hcs
    exact hcs
  | watching w =>
    rw [hown] at hcs
    exact hcs.congr rfl rfl rfl rfl rfl
  | unwatching w =>
    rw [hown] at hcs
    exact ⟨hcs.1.congr rfl rfl rfl rfl rfl, hcs.2⟩

theorem Inv.selectDone (hi : Inv s) (h : step s .selectDone = some s') : Inv s' := by
  simp only [step] at h
  split at h
  next w hg =>
    split_ifs at h
    cases h
    exact hi.of_goroutine (by simp [hg]) rfl rfl fun cs w hp => hp.move hg rfl (by decide) (by decide)
  next => cases h

theorem Inv.handleCancelReturn (hi : Inv s) (h : step s .handleCancelReturn = some s') : Inv s' := by
  simp only [step] at h
  split at h
  next w hg =>
    cases h
    exact hi.of_goroutine (by simp [hg]) rfl rfl fun cs w hp => hp.move hg rfl (by decide) (by decide)
  next => cases h

theorem Inv.setFlag (hi : Inv s) (h : step s .setFlag = some s') : Inv s' := by
  simp only [step] at h
  split at h
  next w hg =>
    cases h
    exact hi.of_goroutine (by simp [hg]) rfl rfl fun cs w hp => hp.setFlag hg
  next => cases h

/-- `Unwatch` of a watch that started no goroutine returns at once: the watch is finished,
with no handler call. -/
theorem ownerInv_unwatch_of_none {cs : List Bool} {w : Nat} (h : InProgress s cs w)
    (hwip : s.watchInProgress = false) :
    OwnerInv { s with owner := .idle, log := s.log ++ [.unwatchReturn w] } (cs ++ [false]) .idle := by
  have hg : s.goroutine = none := by simpa [hwip] using h.inProgress
  refine ⟨by simp [h.watches, h.number], ?_, hg, hwip⟩
  rw [segments_append_singleton, h.log, hg, Nat.zero_add, ← h.number]
  simp [segment, phaseCalls]

theorem Inv.unwatch (hi : Inv s) (h : step s .unwatch = some s') : Inv s' := by
  obtain ⟨cs, hcs⟩ := hi
  simp only [step] at h
  split at h
  next hidle =>
    split_ifs at h
    cases h
    exact ⟨cs, hcs⟩
  next w hown =>
    rw [hown] at hcs
    split_ifs at h with hwip
    · cases h
      exact ⟨cs, hcs.congr rfl rfl rfl rfl rfl, hwip⟩
    · cases h
      exact ⟨cs ++ [false], ownerInv_unwatch_of_none hcs (by simpa using hwip)⟩
  next => cases h

/-- The rest of `Unwatch`, once the goroutine took its send in the `select` or after
`HandleCancel`, finishes the watch: canceled exactly when the flag was set. -/
theorem ownerInv_finishUnwatch {cs : List Bool} {w w' : Nat} {p : Phase} (h : InProgress s cs w)
    (hg : s.goroutine = some (w', p)) (hp : p = .selecting ∨ p = .waiting) :
    OwnerInv (finishUnwatch s w) (cs ++ [s.onCancelWasCalled]) .idle := by
  have hflag := h.flag
  refine ⟨by simp [finishUnwatch, h.watches, h.number], ?_, rfl, rfl⟩
  rw [finishUnwatch, segments_append_singleton, h.log, hg, Nat.zero_add, ← h.number]
  rcases hp with rfl | rfl
  · have hf : s.onCancelWasCalled = false := by simpa [hg] using hflag
    simp [hf, segment, phaseCalls]
  · have hf : s.onCancelWasCalled = true := by simpa [hg] using hflag
    simp [hf, segment, phaseCalls]

theorem Inv.unwatchSend (hi : Inv s) (h : step s .unwatchSend = some s') : Inv s' := by
  obtain ⟨cs, hcs⟩ := hi
  simp only [step] at h
  split at h
  next w _ hown hg =>
    rw [hown] at hcs
    cases h
    exact ⟨_, ownerInv_finishUnwatch hcs.1 hg (.inl rfl)⟩
  next w _ hown hg =>
    rw [hown] at hcs
    cases h
    exact ⟨_, ownerInv_finishUnwatch hcs.1 hg (.inr rfl)⟩
  next => cases h

/-- Every event keeps the invariant. -/
theorem Inv.step {e : Event} (hi : Inv s) (h : step s e = some s') : Inv s' := by
  cases e with
  | watch c => exact hi.watch h
  | cancel w => exact hi.cancel h
  | selectDone => exact hi.selectDone h
  | handleCancelReturn => exact hi.handleCancelReturn h
  | setFlag => exact hi.setFlag h
  | unwatch => exact hi.unwatch h
  | unwatchSend => exact hi.unwatchSend h

/-! ## Every interleaving -/

theorem phaseCalls_prefix (w : Nat) (g : Option (Nat × Phase)) : phaseCalls w g <+: segment w true := by
  rcases g with _ | ⟨_, _ | _ | _ | _⟩ <;> simp [phaseCalls, segment]

/-- The states reached from `NewContextWatcher` by any interleaving. -/
def Reachable (s : State) : Prop := Transition.Reachable step (· = new) s

theorem Inv.of_reachable (h : Reachable s) : Inv s :=
  Transition.Reachable.invariant (fun _ h₀ => h₀ ▸ inv_new) (fun _ _ _ hi hs => hi.step hs) h

/-- In every interleaving of the owner's `Watch` and `Unwatch`, the goroutine and the cancellation
of contexts, the calls come watch by watch: each finished watch made the calls of a `segment`
(`HandleCancel` for its own context at most once and returned before its `Unwatch` returns, and
`HandleUnwatchAfterCancel` exactly when `HandleCancel` was called), and the watch in progress a
prefix of one. An `Unwatch` with no watch in progress changes nothing but the owner's place. -/
theorem contextWatcher_calls (h : Reachable s) :
    (∃ cs cur, s.log = segments 0 cs ++ cur ∧ ∃ c, cur <+: segment cs.length c) ∧
      (s.watchInProgress = false → step s .unwatch = some s ∨
        ∃ w, s.owner = .watching w ∧
          step s .unwatch = some { s with owner := .idle, log := s.log ++ [.unwatchReturn w] }) := by
  obtain ⟨cs, hcs⟩ := Inv.of_reachable h
  cases hown : s.owner with
  | idle =>
    rw [hown] at hcs
    obtain ⟨-, hlog, -, hwip⟩ := hcs
    exact ⟨⟨cs, [], by simp [hlog], true, List.nil_prefix⟩,
      fun _ => .inl (by simp [step, hown, hwip])⟩
  | watching w =>
    rw [hown] at hcs
    refine ⟨⟨cs, _, hcs.log, true, hcs.number ▸ phaseCalls_prefix w s.goroutine⟩, fun hwip => ?_⟩
    exact .inr ⟨w, rfl, by simp [step, hown, hwip]⟩
  | unwatching w =>
    rw [hown] at hcs
    refine ⟨⟨cs, _, hcs.1.log, true, hcs.1.number ▸ phaseCalls_prefix w s.goroutine⟩, fun hwip => ?_⟩
    exact absurd hcs.2 (by simp [hwip])

/-- After a watch whose context is canceled and one whose context cannot be. -/
def canceledThenPlain : State :=
  ⟨false, false, none, .idle, 2, [0],
    [.watch 0, .handleCancel 0, .handleCancelReturn 0, .handleUnwatchAfterCancel 0, .unwatchReturn 0,
      .watch 1, .unwatchReturn 1]⟩

theorem contextWatcher_calls_canceledThenPlain :
    Reachable canceledThenPlain ∧
      ((∃ cs cur, canceledThenPlain.log = segments 0 cs ++ cur ∧ ∃ c, cur <+: segment cs.length c) ∧
        (canceledThenPlain.watchInProgress = false →
          step canceledThenPlain .unwatch = some canceledThenPlain ∨
            ∃ w, canceledThenPlain.owner = .watching w ∧ step canceledThenPlain .unwatch =
              some { canceledThenPlain with
                owner := .idle, log := canceledThenPlain.log ++ [.unwatchReturn w] })) :=
  have hr : Reachable canceledThenPlain :=
    Transition.Reachable.runs (Transition.Reachable.of_init rfl)
      (show Transition.Runs step new [.watch true, .cancel 0, .selectDone, .handleCancelReturn, .setFlag,
        .unwatch, .unwatchSend, .watch false, .unwatch] = some canceledThenPlain from rfl)
  ⟨hr, contextWatcher_calls hr⟩

end Pgx.CtxWatch
