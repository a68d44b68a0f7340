import Mathlib.Data.List.Pairwise
import Mathlib.Tactic.SplitIfs

/-!
# The request queue of a pipeline

`pipelineState` is how a `Pipeline` knows which results the server owes it. Every request it has
queued and not yet read the results of is a `pipelineRequestEvent` with two flags: whether it was
written to the server (`Flush` sets it, through `RegisterSendingToServer`), and whether a flush or
sync request was queued after it, so that the server will send its results
(`PushBackRequestType` sets it, through `registerFlushingBufferOnServer`). Both loops walk the
queue from its back and stop at the first event that has their flag already.

* `PipelineState`, `markBack` (the loop of both register methods), `pushBackRequestType`,
  `extractFront` (the loop of `ExtractFrontRequestType`), `pendingSync`;
* `QueueFlags`: each flag is set on a prefix of the queue; every method keeps it, and under it
  the early return of the two loops skips no event (`registerSendingToServer_eq`,
  `registerFlushingBufferOnServer_eq`);
* `extractFront_*`: what `ExtractFrontRequestType` removes and returns;
* `QueueFlags.all_sent_of_not_pendingSync`: when `PendingSync` lets `Close` go on, every queued
  request was written and the last one is a sync.
-/

namespace Pgx.Pgconn

/-- `pipelineRequestType`. -/
inductive PipelineRequestType
  | pipelineNil
  | pipelinePrepare
  | pipelineQueryParams
  | pipelineQueryPrepared
  | pipelineDeallocate
  | pipelineSyncRequest
  | pipelineFlushRequest
  deriving DecidableEq, Repr

/-- `pipelineRequestEvent`. -/
structure PipelineRequestEvent where
  requestType : PipelineRequestType
  wasSentToServer : Bool
  beforeFlushOrSync : Bool
  deriving DecidableEq, Repr

/-- The event marked as written. -/
def PipelineRequestEvent.markSent (val : PipelineRequestEvent) : PipelineRequestEvent :=
  { val with wasSentToServer := true }

/-- The event marked as followed by a flush or a sync. -/
def PipelineRequestEvent.markFlushed (val : PipelineRequestEvent) : PipelineRequestEvent :=
  { val with beforeFlushOrSync := true }

section Mark

variable (val : PipelineRequestEvent)

@[simp] theorem PipelineRequestEvent.markSent_requestType : val.markSent.requestType = val.requestType := rfl
@[simp] theorem PipelineRequestEvent.markSent_wasSentToServer : val.markSent.wasSentToServer = true := rfl
@[simp] theorem PipelineRequestEvent.markSent_beforeFlushOrSync :
    val.markSent.beforeFlushOrSync = val.beforeFlushOrSync := rfl
@[simp] theorem PipelineRequestEvent.markFlushed_requestType :
    val.markFlushed.requestType = val.requestType := rfl
@[simp] theorem PipelineRequestEvent.markFlushed_wasSentToServer :
    val.markFlushed.wasSentToServer = val.wasSentToServer := rfl
@[simp] theorem PipelineRequestEvent.markFlushed_beforeFlushOrSync :
    val.markFlushed.beforeFlushOrSync = true := rfl

end Mark

/-- `pipelineState`. The `list.List` is a list, front first; `pgErr` is of any type `E`, with
`none` for `nil`. -/
structure PipelineState (E : Type) where
  requestEventQueue : List PipelineRequestEvent
  lastRequestType : PipelineRequestType
  pgErr : Option E
  expectedReadyForQueryCount : Int

variable {E : Type}

namespace PipelineState

/-- The state of a new `Pipeline` after `Init`: nothing queued, and the zero values. -/
def init : PipelineState E := ⟨[], .pipelineNil, none, 0⟩

/-- The loop of `RegisterSendingToServer` and of `registerFlushingBufferOnServer`, on the queue
read from its back: set the flag on each event, up to the first that has it. -/
def markBack (flag : PipelineRequestEvent → Bool) (set : PipelineRequestEvent → PipelineRequestEvent) :
    List PipelineRequestEvent → List PipelineRequestEvent
  | [] => []
  | val :: rest => if flag val then val :: rest else set val :: markBack flag set rest

/-- `RegisterSendingToServer`. -/
def registerSendingToServer (s : PipelineState E) : PipelineState E :=
  { s with requestEventQueue :=
      (markBack (·.wasSentToServer) (fun val => { val with wasSentToServer := true })
        s.requestEventQueue.reverse).reverse }

/-- `registerFlushingBufferOnServer`. -/
def registerFlushingBufferOnServer (s : PipelineState E) : PipelineState E :=
  { s with requestEventQueue :=
      (markBack (·.beforeFlushOrSync) (fun val => { val with beforeFlushOrSync := true })
        s.requestEventQueue.reverse).reverse }

/-- `PushBackRequestType`. -/
def pushBackRequestType (s : PipelineState E) (req : PipelineRequestType) : PipelineState E :=
  if req = .pipelineNil then s
  else
    let s := if req ≠ .pipelineFlushRequest then
      { s with requestEventQueue := s.requestEventQueue ++ [⟨req, false, false⟩] } else s
    let s := if req = .pipelineFlushRequest ∨ req = .pipelineSyncRequest then
      s.registerFlushingBufferOnServer else s
    let s := { s with lastRequestType := req }
    if req = .pipelineSyncRequest then
      { s with expectedReadyForQueryCount := s.expectedReadyForQueryCount + 1 } else s

/-- The loop of `ExtractFrontRequestType`, on the queue and `pgErr`: what it returns, the queue
it leaves, and `pgErr` after it. -/
def extractFront : List PipelineRequestEvent → Option E →
    PipelineRequestType × List PipelineRequestEvent × Option E
  | [], pgErr => (.pipelineNil, [], pgErr)
  | val :: rest, pgErr =>
    if !(val.wasSentToServer && val.beforeFlushOrSync) then (.pipelineNil, val :: rest, pgErr)
    else
      let pgErr := if val.requestType = .pipelineSyncRequest then none else pgErr
      if pgErr.isNone then (val.requestType, rest, pgErr) else extractFront rest pgErr

/-- `ExtractFrontRequestType`. -/
def extractFrontRequestType (s : PipelineState E) : PipelineRequestType × PipelineState E :=
  let r := extractFront s.requestEventQueue s.pgErr
  (r.1, { s with requestEventQueue := r.2.1, pgErr := r.2.2 })

/-- `HandleError`. -/
def handleError (s : PipelineState E) (err : E) : PipelineState E := { s with pgErr := some err }

/-- `HandleReadyForQuery`. -/
def handleReadyForQuery (s : PipelineState E) : PipelineState E :=
  { s with expectedReadyForQueryCount := s.expectedReadyForQueryCount - 1 }

/-- `PendingSync`. -/
def pendingSync (s : PipelineState E) : Bool :=
  let notPendingSync :=
    match s.requestEventQueue.getLast? with
    | some val => val.requestType == .pipelineSyncRequest && val.wasSentToServer
    | none => s.lastRequestType == .pipelineSyncRequest || s.lastRequestType == .pipelineNil
  !notPendingSync

/-! ## The fields each method changes -/

section Fields

variable (s : PipelineState E)

@[simp] theorem registerSendingToServer_lastRequestType :
    s.registerSendingToServer.lastRequestType = s.lastRequestType := rfl

@[simp] theorem registerSendingToServer_pgErr : s.registerSendingToServer.pgErr = s.pgErr := rfl

@[simp] theorem registerSendingToServer_expectedReadyForQueryCount :
    s.registerSendingToServer.expectedReadyForQueryCount = s.expectedReadyForQueryCount := rfl

@[simp] theorem registerFlushingBufferOnServer_lastRequestType :
    s.registerFlushingBufferOnServer.lastRequestType = s.lastRequestType := rfl

@[simp] theorem registerFlushingBufferOnServer_pgErr :
    s.registerFlushingBufferOnServer.pgErr = s.pgErr := rfl

@[simp] theorem registerFlushingBufferOnServer_expectedReadyForQueryCount :
    s.registerFlushingBufferOnServer.expectedReadyForQueryCount = s.expectedReadyForQueryCount :=
  rfl

@[simp] theorem handleError_requestEventQueue (err : E) :
    (s.handleError err).requestEventQueue = s.requestEventQueue := rfl

@[simp] theorem handleError_pgErr (err : E) : (s.handleError err).pgErr = some err := rfl

@[simp] theorem handleError_expectedReadyForQueryCount (err : E) :
    (s.handleError err).expectedReadyForQueryCount = s.expectedReadyForQueryCount := rfl

@[simp] theorem handleError_lastRequestType (err : E) :
    (s.handleError err).lastRequestType = s.lastRequestType := rfl

@[simp] theorem handleReadyForQuery_requestEventQueue :
    s.handleReadyForQuery.requestEventQueue = s.requestEventQueue := rfl

@[simp] theorem handleReadyForQuery_pgErr : s.handleReadyForQuery.pgErr = s.pgErr := rfl

@[simp] theorem handleReadyForQuery_expectedReadyForQueryCount :
    s.handleReadyForQuery.expectedReadyForQueryCount = s.expectedReadyForQueryCount - 1 := rfl

@[simp] theorem handleReadyForQuery_lastRequestType :
    s.handleReadyForQuery.lastRequestType = s.lastRequestType := rfl

@[simp] theorem extractFrontRequestType_lastRequestType :
    s.extractFrontRequestType.2.lastRequestType = s.lastRequestType := rfl

@[simp] theorem extractFrontRequestType_expectedReadyForQueryCount :
    s.extractFrontRequestType.2.expectedReadyForQueryCount = s.expectedReadyForQueryCount := rfl

end Fields

/-! ## Flags set on a prefix of the queue -/

/-- `flag` is set on a prefix of the queue: an event that has it comes after only events that
have it. -/
def FlagPrefix (flag : PipelineRequestEvent → Bool) (q : List PipelineRequestEvent) : Prop :=
  q.Pairwise fun a b => flag b → flag a

/-- What holds of the queue in every state a pipeline reaches: both flags are set on a
prefix. -/
structure QueueFlags (q : List PipelineRequestEvent) : Prop where
  sent : FlagPrefix (·.wasSentToServer) q
  flushed : FlagPrefix (·.beforeFlushOrSync) q

/-- The loop of the register methods, when the flag is set on a prefix of the queue (so on a
suffix of the list it is given, read from the back): it sets the flag on every event. -/
theorem markBack_eq_map {flag : PipelineRequestEvent → Bool}
    {set : PipelineRequestEvent → PipelineRequestEvent} (hset : ∀ v, flag v → set v = v) :
    ∀ {q : List PipelineRequestEvent}, q.Pairwise (fun a b => flag a → flag b) →
      markBack flag set q = q.map set
  | [], _ => rfl
  | val :: rest, h => by
    rw [List.pairwise_cons] at h
    by_cases hv : flag val
    · -- the loop stops here; every later event has the flag already
      have hrest : rest.map set = rest :=
        (List.map_congr_left fun b hb => hset b (h.1 b hb hv)).trans (List.map_id rest)
      simp only [markBack, hv, if_true, List.map_cons, hset val hv, hrest]
    · simp only [markBack, hv, Bool.false_eq_true, if_false, List.map_cons,
        markBack_eq_map hset h.2]

theorem FlagPrefix.pairwise_reverse {flag : PipelineRequestEvent → Bool}
    {q : List PipelineRequestEvent} (h : FlagPrefix flag q) :
    q.reverse.Pairwise (fun a b => flag a → flag b) :=
  List.pairwise_reverse.mpr h

/-- `RegisterSendingToServer` marks every queued request as written: its early return, at the
first request from the back that was written already, skips none that was not. -/
theorem registerSendingToServer_eq {s : PipelineState E}
    (h : FlagPrefix (·.wasSentToServer) s.requestEventQueue) :
    s.registerSendingToServer.requestEventQueue = s.requestEventQueue.map PipelineRequestEvent.markSent := by
  have hset : ∀ v : PipelineRequestEvent, v.wasSentToServer → { v with wasSentToServer := true } = v :=
    fun v hv => by cases v; simp_all
  simp only [registerSendingToServer, markBack_eq_map hset h.pairwise_reverse, List.map_reverse,
    List.reverse_reverse]
  rfl

/-- `registerFlushingBufferOnServer` marks every queued request as followed by a flush or a
sync. -/
theorem registerFlushingBufferOnServer_eq {s : PipelineState E}
    (h : FlagPrefix (·.beforeFlushOrSync) s.requestEventQueue) :
    s.registerFlushingBufferOnServer.requestEventQueue =
      s.requestEventQueue.map PipelineRequestEvent.markFlushed := by
  have hset : ∀ v : PipelineRequestEvent,
      v.beforeFlushOrSync → { v with beforeFlushOrSync := true } = v :=
    fun v hv => by cases v; simp_all
  simp only [registerFlushingBufferOnServer, markBack_eq_map hset h.pairwise_reverse,
    List.map_reverse, List.reverse_reverse]
  rfl

section FlagPrefix

variable {flag : PipelineRequestEvent → Bool} {q : List PipelineRequestEvent}

theorem FlagPrefix.map {g : PipelineRequestEvent → PipelineRequestEvent}
    (hg : ∀ v, flag (g v) = flag v) (h : FlagPrefix flag q) : FlagPrefix flag (q.map g) := by
  unfold FlagPrefix at *
  rw [List.pairwise_map]
  exact h.imp fun hab => by simpa only [hg] using hab

/-- Once every event has the flag, it is set on a prefix. -/
theorem flagPrefix_of_forall (h : ∀ v ∈ q, flag v) : FlagPrefix flag q :=
  List.Pairwise.imp_of_mem (fun ha _ _ _ => h _ ha) (List.pairwise_of_forall fun _ _ => trivial)

theorem FlagPrefix.append_unflagged {v : PipelineRequestEvent} (hv : flag v = false)
    (h : FlagPrefix flag q) : FlagPrefix flag (q ++ [v]) := by
  unfold FlagPrefix at *
  rw [List.pairwise_append]
  refine ⟨h, List.pairwise_singleton _ _, fun a _ b hb hfb => ?_⟩
  rw [List.mem_singleton] at hb
  subst hb
  simp [hv] at hfb

theorem FlagPrefix.of_suffix {q' : List PipelineRequestEvent} (hs : q' <:+ q)
    (h : FlagPrefix flag q) : FlagPrefix flag q' :=
  h.sublist hs.sublist

/-- The last event has the flag: then every event has it. -/
theorem FlagPrefix.forall_of_getLast {v : PipelineRequestEvent} (h : FlagPrefix flag q)
    (hl : q.getLast? = some v) (hv : flag v) : ∀ a ∈ q, flag a := by
  obtain ⟨q₀, rfl⟩ := List.getLast?_eq_some_iff.mp hl
  unfold FlagPrefix at h
  rw [List.pairwise_append] at h
  intro a ha
  rcases List.mem_append.mp ha with ha | ha
  · exact h.2.2 a ha v (List.mem_singleton_self v) hv
  · rw [List.mem_singleton.mp ha]
    exact hv

end FlagPrefix

/-! ## `ExtractFrontRequestType` -/

section Extract

variable {val : PipelineRequestEvent} {rest : List PipelineRequestEvent}

/-- The front request was not both written and followed by a flush or a sync: nothing is
removed. -/
theorem extractFront_of_not_ready (h : (val.wasSentToServer && val.beforeFlushOrSync) = false)
    (pgErr : Option E) : extractFront (val :: rest) pgErr = (.pipelineNil, val :: rest, pgErr) := by
  simp [extractFront, h]

/-- With no error pending, a ready front request is removed and returned. -/
theorem extractFront_of_ready_none (h : (val.wasSentToServer && val.beforeFlushOrSync) = true) :
    extractFront (val :: rest) (none : Option E) = (val.requestType, rest, none) := by
  simp [extractFront, h]

/-- A ready sync request is removed and returned, and it clears the error. -/
theorem extractFront_of_ready_sync (h : (val.wasSentToServer && val.beforeFlushOrSync) = true)
    (hs : val.requestType = .pipelineSyncRequest) (pgErr : Option E) :
    extractFront (val :: rest) pgErr = (.pipelineSyncRequest, rest, none) := by
  simp [extractFront, h, hs]

/-- After an error, a ready request other than a sync is discarded and the loop goes on. -/
theorem extractFront_of_ready_skip (h : (val.wasSentToServer && val.beforeFlushOrSync) = true)
    (hs : val.requestType ≠ .pipelineSyncRequest) (err : E) :
    extractFront (val :: rest) (some err) = extractFront rest (some err) := by
  simp [extractFront, h, hs]

/-- What the loop leaves is a suffix of the queue. -/
theorem extractFront_suffix : ∀ (q : List PipelineRequestEvent) (pgErr : Option E),
    (extractFront q pgErr).2.1 <:+ q
  | [], _ => List.suffix_refl _
  | val :: rest, pgErr => by
    cases hr : (val.wasSentToServer && val.beforeFlushOrSync)
    · simp only [extractFront_of_not_ready hr, List.suffix_refl]
    by_cases hs : val.requestType = .pipelineSyncRequest
    · rw [extractFront_of_ready_sync hr hs]
      exact List.suffix_cons val rest
    cases pgErr with
    | none =>
      rw [extractFront_of_ready_none hr]
      exact List.suffix_cons val rest
    | some err =>
      rw [extractFront_of_ready_skip hr hs]
      exact (extractFront_suffix rest _).trans (List.suffix_cons val rest)

end Extract

/-- The methods keep both flags on a prefix of the queue. -/
theorem QueueFlags.registerSendingToServer {s : PipelineState E} (h : QueueFlags s.requestEventQueue) :
    QueueFlags s.registerSendingToServer.requestEventQueue := by
  rw [registerSendingToServer_eq h.sent]
  exact ⟨flagPrefix_of_forall (by simp), h.flushed.map fun _ => rfl⟩

theorem QueueFlags.registerFlushingBufferOnServer {s : PipelineState E}
    (h : QueueFlags s.requestEventQueue) :
    QueueFlags s.registerFlushingBufferOnServer.requestEventQueue := by
  rw [registerFlushingBufferOnServer_eq h.flushed]
  exact ⟨h.sent.map fun _ => rfl, flagPrefix_of_forall (by simp)⟩

theorem QueueFlags.pushBackRequestType {s : PipelineState E} (h : QueueFlags s.requestEventQueue)
    (req : PipelineRequestType) : QueueFlags (s.pushBackRequestType req).requestEventQueue := by
  unfold PipelineState.pushBackRequestType
  -- the appended event has neither flag; a flush or a sync then marks them all
  have happ : QueueFlags (s.requestEventQueue ++ [⟨req, false, false⟩]) :=
    ⟨h.sent.append_unflagged rfl, h.flushed.append_unflagged rfl⟩
  split_ifs <;> first
    | exact h
    | exact happ
    | exact QueueFlags.registerFlushingBufferOnServer (s := { s with requestEventQueue := _ }) happ
    | exact QueueFlags.registerFlushingBufferOnServer h

theorem QueueFlags.extractFrontRequestType {s : PipelineState E}
    (h : QueueFlags s.requestEventQueue) : QueueFlags s.extractFrontRequestType.2.requestEventQueue :=
  have hs := extractFront_suffix s.requestEventQueue s.pgErr
  ⟨h.sent.of_suffix hs, h.flushed.of_suffix hs⟩

/-! ## `PushBackRequestType` -/

section Push

variable {s : PipelineState E} {req : PipelineRequestType}

/-- The queue after `PushBackRequestType`: the new event at the back, unless it is a flush
request; then, for a flush or a sync request, every event marked as followed by one. -/
theorem pushBackRequestType_queue (h : FlagPrefix (·.beforeFlushOrSync) s.requestEventQueue)
    (hreq : req ≠ .pipelineNil) :
    (s.pushBackRequestType req).requestEventQueue =
      if req = .pipelineFlushRequest ∨ req = .pipelineSyncRequest then
        (s.requestEventQueue ++ (if req = .pipelineFlushRequest then ([] : List PipelineRequestEvent)
          else [⟨req, false, false⟩])).map PipelineRequestEvent.markFlushed
      else s.requestEventQueue ++ (if req = .pipelineFlushRequest then ([] : List PipelineRequestEvent)
          else [⟨req, false, false⟩]) := by
  have happ : FlagPrefix (·.beforeFlushOrSync) (s.requestEventQueue ++ [⟨req, false, false⟩]) :=
    h.append_unflagged rfl
  unfold pushBackRequestType
  by_cases hf : req = .pipelineFlushRequest
  · subst hf
    simp [registerFlushingBufferOnServer_eq h]
  by_cases hs : req = .pipelineSyncRequest
  · subst hs
    simp only [hreq, if_false, ne_eq, hf, not_false_eq_true, if_true, or_true]
    exact registerFlushingBufferOnServer_eq (s := { s with requestEventQueue := _ }) happ
  · simp [hreq, hf, hs]

theorem pushBackRequestType_pgErr : (s.pushBackRequestType req).pgErr = s.pgErr := by
  unfold pushBackRequestType
  split_ifs <;> rfl

theorem pushBackRequestType_lastRequestType (hreq : req ≠ .pipelineNil) :
    (s.pushBackRequestType req).lastRequestType = req := by
  unfold pushBackRequestType
  split_ifs <;> first | rfl | exact absurd ‹_› hreq

theorem pushBackRequestType_expectedReadyForQueryCount (hreq : req ≠ .pipelineNil) :
    (s.pushBackRequestType req).expectedReadyForQueryCount =
      s.expectedReadyForQueryCount + if req = .pipelineSyncRequest then 1 else 0 := by
  unfold pushBackRequestType
  split_ifs <;> simp_all

end Push

/-- When `PendingSync` lets `Close` go on, every queued request was written to the server, and
the last is a sync. -/
theorem QueueFlags.all_sent_of_not_pendingSync {s : PipelineState E}
    (h : QueueFlags s.requestEventQueue) (hp : s.pendingSync = false) :
    (∀ v ∈ s.requestEventQueue, v.wasSentToServer) ∧
      ∀ v, s.requestEventQueue.getLast? = some v → v.requestType = .pipelineSyncRequest := by
  unfold pendingSync at hp
  cases hl : s.requestEventQueue.getLast? with
  | none =>
    have hq : s.requestEventQueue = [] := List.getLast?_eq_none_iff.mp hl
    simp [hq]
  | some val =>
    simp only [hl, Bool.not_eq_false', Bool.and_eq_true, beq_iff_eq] at hp
    exact ⟨h.sent.forall_of_getLast hl hp.2, by simp [hp.1]⟩

end PipelineState

end Pgx.Pgconn
