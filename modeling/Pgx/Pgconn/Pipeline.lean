import Pgx.Pgconn.PipelineProtocol
import Pgx.Lib.Transition
import Mathlib.Tactic.Set
import Mathlib.Tactic.Conv
import Mathlib.Data.List.Basic

/-!
# A connection in pipeline mode

`Pipeline`'s methods on one side, the server on the other. The `Send` methods add a request's
messages to the send buffer and queue its type; `Flush` writes the buffer, and the server carries
the requests out with its own outcomes and sends its answers as the protocol says; `GetResults`
takes the next request off the queue and reads its answer; `Close` reads the answers still owed
until the last `ReadyForQuery`.

The server here answers what it receives before the client reads again. The client reads in
order and waits on an empty stream, so a slower server changes when it waits, not what it reads.
Beside the code's state the model keeps a history the code does not: the answers the server has
given and the pipeline has not read, those sent (`delivered`) and those still in the server's
buffer (`held`).

* `Conn`, `Event`, `step`; `Reachable`, the states reached when the server answers no query
  with `EmptyQueryResponse`;
* `Inv`: the queue lists the requests answered and not read, then those still in the send buffer,
  with their flags; what the pipeline has to read is the answers sent, in order; the pipeline's
  error and the server's discarding agree; `expectedReadyForQueryCount` counts the queued syncs;
  every event keeps it;
* `getResults_next`: `GetResults` returns the result of the next answer the server did not
  discard, and consumes exactly it, or returns nothing; `getResults_waits_not`: with no flush or
  sync request left unwritten, it never waits for an answer the server will not send;
  `emptyQuery_shifts_results`: an `EmptyQueryResponse`, which `Reachable` leaves out, breaks this;
* `register_marks_all`, `expectedReadyForQuery_eq_syncs`, `stream_eq_answers`: the queue's flags,
  the count of `ReadyForQuery` expected and the stream of answers, over every run;
* `close_drains`: when `PendingSync` lets `Close` go on, it reads exactly what the server owes and
  leaves the connection with nothing to read and nothing owed.
-/

namespace Pgx.Pgconn

/-- `Pipeline`, by its request queue, its error and whether it is closed. -/
structure Pipeline where
  state : PipelineState PgError
  err : Option PipelineError
  closed : Bool

/-- An answer of the server in the history: the request, the server's outcomes for its messages,
and whether the server discarded it, after an error earlier in its pipeline segment. -/
structure Answer where
  request : Request
  outcomes : List Outcome
  skipped : Bool
  deriving DecidableEq, Repr

/-- What the server sent for an answer. -/
def Answer.response (a : Answer) : List BackendMessage :=
  match a.request with
  | .syncRequest => [.readyForQuery]
  | .flushRequest => []
  | r => if a.skipped then [] else (respond r.messages a.outcomes).1

/-- What a caller of `GetResults` should see for an answer. -/
def Answer.got (a : Answer) : Got :=
  if a.request = .syncRequest then .pipelineSync else answerGot a.request a.outcomes

/-- A connection in pipeline mode: the pipeline, the send buffer by the requests whose messages it
holds, the messages the server sent and the pipeline has not read, the server, and whether the
connection was closed (`asyncClose`); then the history of the answers not read. -/
structure Conn where
  pipeline : Pipeline
  sendBuffer : List Request
  received : List BackendMessage
  backend : Backend
  asyncClosed : Bool
  delivered : List Answer
  held : List Answer

/-- The connection as `StartPipeline` leaves an idle connection. -/
def Conn.start : Conn := ⟨⟨.init, none, false⟩, [], [], Backend.idle, false, [], []⟩

namespace Conn

/-- The body of the `Send` methods: unless the pipeline is closed, write the request's messages to
the send buffer and queue its type. -/
def sendRequest (c : Conn) (r : Request) : Conn :=
  if c.pipeline.closed then c
  else { c with sendBuffer := c.sendBuffer ++ [r],
                pipeline := { c.pipeline with state := c.pipeline.state.pushBackRequestType r.requestType } }

/-- `SendPrepare`. -/
def sendPrepare (c : Conn) (name sql : String) (paramOIDs : List UInt32) : Conn :=
  c.sendRequest (.prepare name sql paramOIDs)

/-- `SendDeallocate`. -/
def sendDeallocate (c : Conn) (name : String) : Conn := c.sendRequest (.deallocate name)

/-- `SendQueryParams`. -/
def sendQueryParams (c : Conn) (sql : String) (paramValues : List (Option (List UInt8)))
    (paramOIDs : List UInt32) (paramFormats resultFormats : List Int16) : Conn :=
  c.sendRequest (.queryParams sql paramValues paramOIDs paramFormats resultFormats)

/-- `SendQueryPrepared`. -/
def sendQueryPrepared (c : Conn) (stmtName : String) (paramValues : List (Option (List UInt8)))
    (paramFormats resultFormats : List Int16) : Conn :=
  c.sendRequest (.queryPrepared stmtName paramValues paramFormats resultFormats)

/-- `SendFlushRequest`. -/
def sendFlushRequest (c : Conn) : Conn := c.sendRequest .flushRequest

/-- `SendPipelineSync`. -/
def sendPipelineSync (c : Conn) : Conn := c.sendRequest .syncRequest

/-- The error a closed pipeline returns. -/
def closedErr (p : Pipeline) : PipelineError := p.err.getD (.text "pipeline closed")

/-- `Flush`, on the client's side, where `written` says whether the write succeeds: the state
after it, the requests written, and its error. A failed write closes the pipeline and the
connection; a write that succeeds marks every queued request sent. -/
def flush (c : Conn) (written : Bool) : Conn × List Request × Option PipelineError :=
  if c.pipeline.closed then (c, [], some (closedErr c.pipeline))
  else if !written then
    ({ c with pipeline := { c.pipeline with closed := true, err := some .net }, asyncClosed := true },
      [], some .net)
  else
    ({ c with sendBuffer := [], pipeline := { c.pipeline with state := c.pipeline.state.registerSendingToServer } },
      c.sendBuffer, none)

/-- The server carries out one request with its outcomes. In the history the answer is sent
with all the server held when the server's buffer is empty after it, and held otherwise; a flush
request is no answer of its own, but sends what is held. -/
def serve (c : Conn) (r : Request) (os : List Outcome) : Conn :=
  let b := c.backend.serve r os
  let a : Answer := ⟨r, os, c.backend.ignoreTillSync && r != .syncRequest⟩
  let c' := { c with backend := b.1, received := c.received ++ b.2 }
  if r = .flushRequest then
    if c.backend.ignoreTillSync then c' else { c' with delivered := c.delivered ++ c.held, held := [] }
  else if b.1.sendBuffer = [] then { c' with delivered := c.delivered ++ c.held ++ [a], held := [] }
  else { c' with held := c.held ++ [a] }

/-- The server carries out the requests written, in order, one list of outcomes for each. -/
def serveAll (c : Conn) : List Request → List (List Outcome) → Conn
  | r :: rs, os :: oss => (c.serve r os).serveAll rs oss
  | _, _ => c

/-- The outcomes fit the requests: one list for each request, one outcome for each message. -/
def outcomesFit : List (List Outcome) → List Request → Bool
  | [], [] => true
  | os :: oss, r :: rs => os.length == r.messages.length && outcomesFit oss rs
  | _, _ => false

/-- `GetResults`, then `Read` on a result reader it returns: the state after both and what the
caller sees; `none` where the read waits for a message. -/
def getResults (c : Conn) : Option (Conn × Got) :=
  if c.pipeline.closed then some (c, .error (closedErr c.pipeline))
  else
    let e := c.pipeline.state.extractFrontRequestType
    -- the requests the extraction removed: their answers leave the history
    let removed := c.pipeline.state.requestEventQueue.length - e.2.requestEventQueue.length
    let c₁ := { c with pipeline := { c.pipeline with state := e.2 }, delivered := c.delivered.drop removed }
    if e.1 = .pipelineNil then some (c₁, .none)
    else
      (getResultsRead e.2 c.received).map fun r =>
        ({ c₁ with pipeline := { c₁.pipeline with state := r.1 }, received := r.2.2.2,
                   asyncClosed := c.asyncClosed || r.2.2.1 }, r.2.1)

/-- The loop of `Close`, while `ExpectedReadyForQuery` is positive: each `getResults` reads the
answer to a request, or a part of it; a `*PgError` is kept and the loop goes on, any other error
closes the connection and ends it. Returns the state, the error, whether the connection was
closed, and what is left to read; `none` where a read waits. -/
def closeLoop (st : PipelineState PgError) (err : Option PipelineError) (asyncClosed : Bool)
    (msgs : List BackendMessage) :
    Option (PipelineState PgError × Option PipelineError × Bool × List BackendMessage) :=
  if st.expectedReadyForQueryCount > 0 then
    match h : Pgx.Pgconn.getResults st msgs with
    | none => none
    | some rd =>
      have : rd.rest.length < msgs.length := getResults_rest_lt h
      match rd.results with
      | .error (.pgError e) => closeLoop rd.state (some (.pgError e)) (asyncClosed || rd.asyncClose) rd.rest
      | .error e => some (rd.state, some e, true, rd.rest)
      | _ => closeLoop rd.state err (asyncClosed || rd.asyncClose) rd.rest
  else some (st, err, asyncClosed, msgs)
termination_by msgs.length

/-- `Close`: the state after it and the error it returns; `none` where a read waits. -/
def close (c : Conn) : Option (Conn × Option PipelineError) :=
  if c.pipeline.closed then some (c, c.pipeline.err)
  else if c.pipeline.state.pendingSync then
    let err := PipelineError.text "pipeline has unsynced requests"
    some ({ c with pipeline := { c.pipeline with closed := true, err := some err }, asyncClosed := true },
      some err)
  else
    (closeLoop c.pipeline.state c.pipeline.err c.asyncClosed c.received).map fun r =>
      ({ c with pipeline := ⟨r.1, r.2.1, true⟩, asyncClosed := r.2.2.1, received := r.2.2.2 }, r.2.1)

/-- `Sync`: `SendPipelineSync`, then `Flush`. -/
def sync (c : Conn) (written : Bool) : Conn × List Request × Option PipelineError :=
  c.sendPipelineSync.flush written

/-- The calls of the pipeline's methods. A `Flush` or a `Sync` carries the server's outcomes for
the requests it writes; `getResults` is a call of `GetResults` and, when it returns a result
reader, of its `Read`. -/
inductive Event
  | sendPrepare (name sql : String) (paramOIDs : List UInt32)
  | sendDeallocate (name : String)
  | sendQueryParams (sql : String) (paramValues : List (Option (List UInt8))) (paramOIDs : List UInt32)
      (paramFormats resultFormats : List Int16)
  | sendQueryPrepared (stmtName : String) (paramValues : List (Option (List UInt8)))
      (paramFormats resultFormats : List Int16)
  | sendFlushRequest
  | sendPipelineSync
  | flush (written : Bool) (outcomes : List (List Outcome))
  | sync (written : Bool) (outcomes : List (List Outcome))
  | getResults
  | close

/-- A write, then the server carries out what was written, when the outcomes fit it. -/
def writeAndServe (w : Conn × List Request × Option PipelineError) (oss : List (List Outcome)) :
    Option Conn :=
  if outcomesFit oss w.2.1 then some (w.1.serveAll w.2.1 oss) else none

/-- One call; `none` where it waits, or where the outcomes do not fit what is written. -/
def step (c : Conn) : Event → Option Conn
  | .sendPrepare name sql paramOIDs => some (c.sendPrepare name sql paramOIDs)
  | .sendDeallocate name => some (c.sendDeallocate name)
  | .sendQueryParams sql paramValues paramOIDs paramFormats resultFormats =>
    some (c.sendQueryParams sql paramValues paramOIDs paramFormats resultFormats)
  | .sendQueryPrepared stmtName paramValues paramFormats resultFormats =>
    some (c.sendQueryPrepared stmtName paramValues paramFormats resultFormats)
  | .sendFlushRequest => some c.sendFlushRequest
  | .sendPipelineSync => some c.sendPipelineSync
  | .flush written oss => writeAndServe (c.flush written) oss
  | .sync written oss => writeAndServe (c.sync written) oss
  | .getResults => c.getResults.map Prod.fst
  | .close => c.close.map Prod.fst

/-- The server answers no `Execute` with `EmptyQueryResponse`. -/
def Event.answersComplete : Event → Bool
  | .flush _ oss | .sync _ oss => oss.all fun os => os.all fun o => !o.emptyQuery
  | _ => true

/-- The states of a connection in pipeline mode whose server answers no query with
`EmptyQueryResponse`. -/
def Reachable (c : Conn) : Prop :=
  Transition.Reachable (Transition.restrict step fun e => e.answersComplete = true) (· = start) c

end Conn

/-! ## The history of answers -/

namespace Answer

/-- Whether the server discards after an answer, from whether it discarded before it. -/
def next (a : Answer) (skip : Bool) : Bool :=
  match a.request with
  | .syncRequest => false
  | .flushRequest => skip
  | r => skip || (respond r.messages a.outcomes).2

/-- An answer as the server gives it from discarding state `skip`: to a request it carries out
or to a sync, with an outcome for each message and no empty query, and discarded exactly when the
server discards. -/
structure Given (a : Answer) (skip : Bool) : Prop where
  not_flush : a.request ≠ .flushRequest
  length : a.outcomes.length = a.request.messages.length
  complete : ∀ o ∈ a.outcomes, o.emptyQuery = false
  skipped : a.skipped = (skip && a.request != .syncRequest)

end Answer

/-- Answers in order, as the server gives them from discarding state `skip`. -/
def Chain : Bool → List Answer → Prop
  | _, [] => True
  | skip, a :: as => a.Given skip ∧ Chain (a.next skip) as

/-- Whether the server discards after the answers. -/
def skipAfter (skip : Bool) (as : List Answer) : Bool := as.foldl (fun s a => a.next s) skip

@[simp] theorem skipAfter_nil (skip : Bool) : skipAfter skip [] = skip := rfl

@[simp] theorem skipAfter_cons (skip : Bool) (a : Answer) (as : List Answer) :
    skipAfter skip (a :: as) = skipAfter (a.next skip) as := rfl

@[simp] theorem skipAfter_append (skip : Bool) (as bs : List Answer) :
    skipAfter skip (as ++ bs) = skipAfter (skipAfter skip as) bs := by
  simp [skipAfter, List.foldl_append]

@[simp] theorem chain_nil (skip : Bool) : Chain skip [] := trivial

@[simp] theorem chain_cons {skip : Bool} {a : Answer} {as : List Answer} :
    Chain skip (a :: as) ↔ a.Given skip ∧ Chain (a.next skip) as := Iff.rfl

/-- One answer more: the server's discarding state after it. -/
theorem skipAfter_concat (skip : Bool) (as : List Answer) (a : Answer) :
    skipAfter skip (as ++ [a]) = a.next (skipAfter skip as) := by
  rw [skipAfter_append, skipAfter_cons, skipAfter_nil]

theorem chain_append : ∀ {skip : Bool} {as bs : List Answer},
    Chain skip (as ++ bs) ↔ Chain skip as ∧ Chain (skipAfter skip as) bs
  | _, [], _ => by simp
  | _, a :: as, _ => by simp [chain_append, and_assoc]

/-! ## Queue events of the requests not yet answered -/

/-- Flush and sync requests: the server sends its answers when it reaches one. -/
def Request.flushes (r : Request) : Bool := !r.isStatement

/-- The queue events of requests not yet answered, all written or all not: none for a flush
request, and each marked as followed by a flush or a sync when one is at or after it. -/
def pendingEvents (sent : Bool) : List Request → List PipelineRequestEvent
  | [] => []
  | r :: rs =>
    if r = .flushRequest then pendingEvents sent rs
    else ⟨r.requestType, sent, (r :: rs).any Request.flushes⟩ :: pendingEvents sent rs

/-- The event `PushBackRequestType` appends for a request: none for a flush request. -/
def pushedEvent (sent : Bool) (r : Request) : List PipelineRequestEvent :=
  if r = .flushRequest then [] else [⟨r.requestType, sent, false⟩]

section Pending

@[simp] theorem pendingEvents_nil (sent : Bool) : pendingEvents sent [] = [] := rfl

/-- A request added at the back: its event, unless it is a flush request; a flush or a sync marks
every event before it. -/
theorem pendingEvents_append_single (sent : Bool) (r : Request) :
    ∀ rs : List Request, pendingEvents sent (rs ++ [r]) =
      if r.flushes then (pendingEvents sent rs ++ pushedEvent sent r).map PipelineRequestEvent.markFlushed
      else pendingEvents sent rs ++ pushedEvent sent r
  | [] => by
    cases r <;> simp [pendingEvents, Request.flushes, Request.isStatement, PipelineRequestEvent.markFlushed, pushedEvent]
  | r' :: rs => by
    have ih := pendingEvents_append_single sent r rs
    by_cases hf : r' = .flushRequest
    · simp [pendingEvents, hf, ih]
    · cases hr : r.flushes <;>
        simp [pendingEvents, hf, ih, hr, List.any_append, PipelineRequestEvent.markFlushed, pushedEvent]

theorem pendingEvents_markSent : ∀ rs : List Request,
    (pendingEvents false rs).map PipelineRequestEvent.markSent = pendingEvents true rs
  | [] => rfl
  | r :: rs => by
    by_cases hf : r = .flushRequest <;>
      simp [pendingEvents, hf, PipelineRequestEvent.markSent, pendingEvents_markSent rs]

theorem pendingEvents_count_sync (sent : Bool) : ∀ rs : List Request,
    (pendingEvents sent rs).countP (·.requestType == .pipelineSyncRequest) = rs.countP (· == .syncRequest)
  | [] => rfl
  | r :: rs => by
    by_cases hf : r = .flushRequest
    · subst hf
      simp [pendingEvents, pendingEvents_count_sync sent rs]
    · cases r <;> simp_all [pendingEvents, Request.requestType, pendingEvents_count_sync sent rs]

theorem pendingEvents_sent (sent : Bool) : ∀ (rs : List Request), ∀ v ∈ pendingEvents sent rs,
    v.wasSentToServer = sent
  | [] => by simp
  | r :: rs => by
    intro v hv
    by_cases hf : r = .flushRequest
    · simp only [pendingEvents, hf, if_true] at hv
      exact pendingEvents_sent sent rs v hv
    · simp only [pendingEvents, hf, if_false, List.mem_cons] at hv
      rcases hv with rfl | hv
      · rfl
      · exact pendingEvents_sent sent rs v hv

end Pending

/-! ## `ExtractFrontRequestType` over the answers -/

/-- An answer the server discarded is no sync, and the server went on discarding. -/
theorem Answer.Given.skipped_next {a : Answer} {skip : Bool} (h : a.Given skip) (hs : a.skipped = true) :
    skip = true ∧ a.request ≠ .syncRequest ∧ a.next skip = true := by
  have hboth : (skip && a.request != .syncRequest) = true := h.skipped ▸ hs
  rw [Bool.and_eq_true, bne_iff_ne, ne_eq] at hboth
  obtain ⟨rfl, hsync⟩ := hboth
  refine ⟨rfl, hsync, ?_⟩
  unfold Answer.next
  split
  · exact absurd ‹_› hsync
  · rfl
  · exact Bool.true_or _

/-- Answers the server discarded leave it discarding as before. -/
theorem skipAfter_of_skipped : ∀ {skip : Bool} {as : List Answer}, Chain skip as →
    (∀ a ∈ as, a.skipped = true) → skipAfter skip as = skip
  | _, [], _, _ => rfl
  | _, a :: _, ⟨ha, hc⟩, hs => by
    obtain ⟨rfl, -, hnext⟩ := ha.skipped_next (hs a (by simp))
    rw [hnext] at hc
    rw [skipAfter_cons, hnext]
    exact skipAfter_of_skipped hc fun b hb => hs b (by simp [hb])

/-- `ExtractFrontRequestType` on a queue whose front events are those of the answers `A`, all
written, and whose next event, if any, is not: it discards the events of the answers the server
discarded, then stops at an event that is not both written and followed by a flush or a sync (or
at the end of the queue), or returns the first answer the server did not discard. -/
theorem extractFront_answers : ∀ {A : List Answer} {P R : List PipelineRequestEvent} {p : Option PgError},
    P.map (·.requestType) = A.map (·.request.requestType) → (∀ v ∈ P, v.wasSentToServer = true) →
    (∀ v ∈ R.head?, v.wasSentToServer = false) → Chain p.isSome A →
    (∃ k ≤ A.length, PipelineState.extractFront (P ++ R) p = (.pipelineNil, (P ++ R).drop k, p) ∧
      (∀ a ∈ A.take k, a.skipped = true) ∧
      ∀ v ∈ ((P ++ R).drop k).head?, (v.wasSentToServer && v.beforeFlushOrSync) = false) ∨
    (∃ k a, A[k]? = some a ∧ a.skipped = false ∧ (∀ b ∈ A.take k, b.skipped = true) ∧
      (P[k]?.map (·.beforeFlushOrSync)) = some true ∧
      PipelineState.extractFront (P ++ R) p = (a.request.requestType, (P ++ R).drop (k + 1), none))
  | [], P, R, p, htypes, _, hR, _ => by
    have hP : P = [] := by simpa using htypes
    subst hP
    refine .inl ⟨0, Nat.le_refl _, ?_, by simp, fun v hv => by simp [hR v (by simpa using hv)]⟩
    match R, hR with
    | [], _ => rfl
    | v :: R', hR =>
      have hv : (v.wasSentToServer && v.beforeFlushOrSync) = false := by simp [hR v rfl]
      simp [PipelineState.extractFront_of_not_ready hv]
  | a :: A, P, R, p, htypes, hsent, hR, ⟨ha, hc⟩ => by
    obtain ⟨v, P', rfl⟩ : ∃ v P', P = v :: P' := by
      cases P with
      | nil => simp at htypes
      | cons v P' => exact ⟨v, P', rfl⟩
    simp only [List.map_cons, List.cons.injEq] at htypes
    have hv : v.wasSentToServer = true := hsent v (by simp)
    cases hfl : v.beforeFlushOrSync
    · -- the front event waits for a flush or a sync
      have hwait : (v.wasSentToServer && v.beforeFlushOrSync) = false := by simp [hfl]
      refine .inl ⟨0, by simp, ?_, by simp, fun w hw => by simp_all⟩
      simp [PipelineState.extractFront_of_not_ready hwait]
    have hready : (v.wasSentToServer && v.beforeFlushOrSync) = true := by simp [hv, hfl]
    by_cases hsync : a.request = .syncRequest
    · have hvs : v.requestType = .pipelineSyncRequest := by rw [htypes.1, hsync]; rfl
      refine .inr ⟨0, a, rfl, by simp [ha.skipped, hsync], by simp, by simp [hfl], ?_⟩
      rw [List.cons_append, PipelineState.extractFront_of_ready_sync hready hvs, hsync]
      rfl
    have hvs : v.requestType ≠ .pipelineSyncRequest := by
      rw [htypes.1]; exact fun h => hsync (Request.requestType_eq_sync.mp h)
    cases p with
    | none =>
      refine .inr ⟨0, a, rfl, by simp [ha.skipped], by simp, by simp [hfl], ?_⟩
      rw [List.cons_append, PipelineState.extractFront_of_ready_none hready, htypes.1]
      rfl
    | some err =>
      -- after an error, the server discarded this request, and the pipeline discards its event
      have hskipped : a.skipped = true := by simp [ha.skipped, hsync]
      have hnext : a.next true = true := (ha.skipped_next hskipped).2.2
      rw [Option.isSome_some, hnext] at hc
      have ih := extractFront_answers (p := some err) htypes.2 (fun w hw => hsent w (by simp [hw])) hR hc
      rw [List.cons_append, PipelineState.extractFront_of_ready_skip hready hvs]
      rcases ih with ⟨k, hk, hx, hall, hhead⟩ | ⟨k, b, hb, hbs, hall, hflk, hx⟩
      · refine .inl ⟨k + 1, by simp [hk], by simpa using hx, ?_, by simpa using hhead⟩
        simp only [List.take_succ_cons, List.mem_cons, forall_eq_or_imp]
        exact ⟨hskipped, hall⟩
      · refine .inr ⟨k + 1, b, by simpa using hb, hbs, ?_, by simpa using hflk, by simpa using hx⟩
        simp only [List.take_succ_cons, List.mem_cons, forall_eq_or_imp]
        exact ⟨hskipped, hall⟩

/-! ## Reading an answer -/

/-- A discarded answer is no sync. -/
theorem Chain.skipped_not_sync : ∀ {skip : Bool} {as : List Answer}, Chain skip as →
    ∀ a ∈ as, a.skipped = true → a.request ≠ .syncRequest
  | _, [], _, _, ha, _ => by simp at ha
  | _, _ :: _, ⟨hb, hc⟩, a, ha, hs => by
    rcases List.mem_cons.mp ha with rfl | ha
    · exact (hb.skipped_next hs).2.1
    · exact Chain.skipped_not_sync hc a ha hs

theorem Chain.take {skip : Bool} {as : List Answer} (h : Chain skip as) (k : Nat) :
    Chain skip (as.take k) :=
  ((@chain_append _ (as.take k) (as.drop k)).mp (by rwa [List.take_append_drop])).1

/-- The answer at `k`, given in the state the answers before it leave the server in. -/
theorem Chain.getElem? {skip : Bool} {as : List Answer} (h : Chain skip as) {k : Nat} {a : Answer}
    (ha : as[k]? = some a) :
    a.Given (skipAfter skip (as.take k)) ∧ Chain (a.next (skipAfter skip (as.take k))) (as.drop (k + 1)) := by
  have hsplit : as = as.take k ++ a :: as.drop (k + 1) := by
    obtain ⟨hk, rfl⟩ := List.getElem?_eq_some_iff.mp ha
    simp
  rw [hsplit, chain_append, chain_cons] at h
  exact h.2

/-- Answers the server discarded, dropped from the front: the rest is given as before. -/
theorem Chain.drop_skipped {skip : Bool} {as : List Answer} (h : Chain skip as) {k : Nat}
    (hs : ∀ a ∈ as.take k, a.skipped = true) :
    Chain skip (as.drop k) ∧ skipAfter skip (as.drop k) = skipAfter skip as := by
  have hsplit := (@chain_append _ (as.take k) (as.drop k)).mp (by rwa [List.take_append_drop])
  have hskip : skipAfter skip (as.take k) = skip := skipAfter_of_skipped hsplit.1 hs
  rw [hskip] at hsplit
  refine ⟨hsplit.2, ?_⟩
  conv_rhs => rw [← List.take_append_drop k as, skipAfter_append, hskip]

/-- An answer the server discarded sent nothing. -/
theorem Answer.response_of_skipped {a : Answer} (hs : a.skipped = true) (hsync : a.request ≠ .syncRequest) :
    a.response = [] := by
  unfold Answer.response
  split
  · exact absurd ‹_› hsync
  · rfl
  · simp [hs]

/-- Answers the server discarded sent nothing. -/
theorem Chain.response_of_skipped {skip : Bool} {as : List Answer} (h : Chain skip as)
    (hs : ∀ a ∈ as, a.skipped = true) : (as.map Answer.response).flatten = [] := by
  simp only [List.flatten_eq_nil_iff, List.mem_map]
  rintro _ ⟨a, ha, rfl⟩
  exact Answer.response_of_skipped (hs a ha) (h.skipped_not_sync a ha (hs a ha))

/-- What reading an answer does to the pipeline's state: its `ReadyForQuery` counts down the
syncs expected, its error is recorded. -/
def Answer.readState (a : Answer) (st : PipelineState PgError) : PipelineState PgError :=
  if a.request = .syncRequest then st.handleReadyForQuery
  else (firstFailure a.outcomes).elim st st.handleError

namespace Answer

variable {a : Answer} {st : PipelineState PgError}

@[simp] theorem readState_requestEventQueue : (a.readState st).requestEventQueue = st.requestEventQueue := by
  unfold readState
  split_ifs
  · rfl
  · cases firstFailure a.outcomes <;> rfl

@[simp] theorem readState_lastRequestType : (a.readState st).lastRequestType = st.lastRequestType := by
  unfold readState
  split_ifs
  · rfl
  · cases firstFailure a.outcomes <;> rfl

theorem readState_expectedReadyForQueryCount :
    (a.readState st).expectedReadyForQueryCount =
      st.expectedReadyForQueryCount - if a.request = .syncRequest then 1 else 0 := by
  unfold readState
  split_ifs
  · rfl
  · cases firstFailure a.outcomes <;> simp [Option.elim]

/-- Read with no error pending, an answer the server did not discard leaves an error pending
exactly when the server went on to discard. -/
theorem Given.readState_pgErr {skip : Bool} (ha : a.Given skip) (hs : a.skipped = false)
    (hst : st.pgErr = none) : (a.readState st).pgErr.isSome = a.next skip := by
  unfold readState
  split_ifs with hsync
  · simp [hst, next, hsync]
  · -- not discarded and no sync: the server was not discarding
    have hskip : skip = false := by simpa [hsync, hs] using ha.skipped.symm
    have hnext : a.next skip = (respond a.request.messages a.outcomes).2 := by
      have := ha.not_flush
      unfold next
      split <;> simp_all
    rw [hnext, respond_snd _ _ ha.length]
    cases firstFailure a.outcomes <;> simp [hst]

/-- A statement's answer that the server did not discard is what it responded. -/
theorem response_of_statement (hs : a.skipped = false) (hst : a.request.isStatement = true) :
    a.response = (respond a.request.messages a.outcomes).1 := by
  unfold response
  split
  · simp_all [Request.isStatement]
  · simp_all [Request.isStatement]
  · simp [hs]

end Answer

/-- Reading an answer the server did not discard consumes exactly what the server sent for it and
returns what the answer reports. -/
theorem getResultsRead_answer {a : Answer} {skip : Bool} (ha : a.Given skip) (hs : a.skipped = false)
    (st : PipelineState PgError) (rest : List BackendMessage) :
    getResultsRead st (a.response ++ rest) = some (a.readState st, a.got, false, rest) := by
  by_cases hsync : a.request = .syncRequest
  · have hresp : a.response = [.readyForQuery] := by simp [Answer.response, hsync]
    simp [hresp, getResultsRead, getResults, Answer.readState, hsync, Answer.got]
  · have hst : a.request.isStatement = true := by
      have := ha.not_flush
      cases hr : a.request <;> simp_all [Request.isStatement]
    rw [Answer.response_of_statement hs hst, getResultsRead_respond_append hst ha.length ha.complete]
    simp [Answer.readState, hsync, Answer.got]

/-! ## The invariant -/

namespace Conn

/-- `P` lists the queue events of the answers not read: the queue is `P`, then the events of the
requests written and not yet carried out (`inbox`), then those of the send buffer. An event of an
answer the server holds is followed by a flush or a sync still to be carried out. -/
structure QueueSplit (c : Conn) (inbox : List Request) (P : List PipelineRequestEvent) : Prop where
  eq : c.pipeline.state.requestEventQueue = P ++ (pendingEvents true inbox ++ pendingEvents false c.sendBuffer)
  types : P.map (·.requestType) = (c.delivered ++ c.held).map (·.request.requestType)
  sent : ∀ v ∈ P, v.wasSentToServer = true
  held_flush : ∀ v ∈ P.drop c.delivered.length, v.beforeFlushOrSync = true →
    (inbox ++ c.sendBuffer).any Request.flushes = true

/-- What holds of an open connection between the pipeline's calls (with `inbox = []`), and while
the server carries out the requests of a `Flush` (`inbox` the requests written and not yet
carried out). -/
structure Inv (c : Conn) (inbox : List Request) : Prop where
  flags : PipelineState.QueueFlags c.pipeline.state.requestEventQueue
  queue : ∃ P, QueueSplit c inbox P
  inbox_alone : inbox = [] ∨ c.sendBuffer = []
  /-- What the pipeline has to read is what the server sent for the answers, in order. -/
  received : c.received = (c.delivered.map Answer.response).flatten
  buffered : c.backend.sendBuffer = (c.held.map Answer.response).flatten
  chain : Chain c.pipeline.state.pgErr.isSome (c.delivered ++ c.held)
  ignoring : c.backend.ignoreTillSync = skipAfter c.pipeline.state.pgErr.isSome (c.delivered ++ c.held)
  ignoring_held : c.backend.ignoreTillSync = true → c.held = []
  held_live : ∀ a ∈ c.held, a.skipped = false ∧ a.request ≠ .syncRequest
  /-- `ExpectedReadyForQuery` counts the queued syncs. -/
  expected : c.pipeline.state.expectedReadyForQueryCount =
    (c.pipeline.state.requestEventQueue.countP (·.requestType == .pipelineSyncRequest) : Int)
  last : ∀ r, (inbox ++ c.sendBuffer).getLast? = some r → c.pipeline.state.lastRequestType = r.requestType

theorem inv_start : Inv start [] where
  flags := ⟨List.Pairwise.nil, List.Pairwise.nil⟩
  queue := ⟨[], rfl, rfl, by simp, by simp⟩
  inbox_alone := .inl rfl
  received := rfl
  buffered := rfl
  chain := trivial
  ignoring := rfl
  ignoring_held := fun _ => rfl
  held_live := by simp [start]
  expected := rfl
  last := by simp [start]

section Step

variable {c : Conn}

theorem QueueSplit.length {inbox : List Request} {P : List PipelineRequestEvent} (h : QueueSplit c inbox P) :
    P.length = c.delivered.length + c.held.length := by
  simpa using congrArg List.length h.types

/-- The queue after a `Send` method: the events of the answers, all marked as followed by a flush
or a sync when the request is one, then the events of the send buffer with the request. -/
theorem QueueSplit.pushBack {P : List PipelineRequestEvent} (h : QueueSplit c [] P)
    (hf : PipelineState.FlagPrefix (·.beforeFlushOrSync) c.pipeline.state.requestEventQueue) (r : Request) :
    (c.pipeline.state.pushBackRequestType r.requestType).requestEventQueue =
      (if r.flushes then P.map PipelineRequestEvent.markFlushed else P) ++
        pendingEvents false (c.sendBuffer ++ [r]) := by
  have hpushed : (if r.requestType = .pipelineFlushRequest then ([] : List PipelineRequestEvent)
      else [⟨r.requestType, false, false⟩]) = pushedEvent false r := by
    simp [pushedEvent, Request.requestType_eq_flush]
  have hfl : (r.requestType = .pipelineFlushRequest ∨ r.requestType = .pipelineSyncRequest) ↔
      r.flushes = true := by
    cases r <;> simp [Request.requestType, Request.flushes, Request.isStatement]
  rw [PipelineState.pushBackRequestType_queue hf r.requestType_ne_nil, hpushed,
    pendingEvents_append_single, h.eq]
  by_cases hfr : r.flushes = true
  · simp [hfr, hfl.mpr hfr]
  · simp [hfr, mt hfl.mp hfr]

theorem Inv.sendRequest (h : Inv c []) (hopen : c.pipeline.closed = false) (r : Request) :
    Inv (c.sendRequest r) [] := by
  obtain ⟨P, hP⟩ := h.queue
  have hq := hP.pushBack h.flags.flushed r
  simp only [Conn.sendRequest, hopen, Bool.false_eq_true, if_false]
  constructor
  · exact h.flags.pushBackRequestType _
  · refine ⟨if r.flushes then P.map PipelineRequestEvent.markFlushed else P, ?_, ?_, ?_, ?_⟩
    · simpa using hq
    · split_ifs
      · simpa [Function.comp_def] using hP.types
      · exact hP.types
    · intro v hv
      split_ifs at hv
      · obtain ⟨w, hw, rfl⟩ := List.mem_map.mp hv
        simpa using hP.sent w hw
      · exact hP.sent v hv
    · -- a flush or a sync request marks every event, and is now in the send buffer
      intro v hv hfv
      by_cases hfr : r.flushes = true
      · simp [List.any_append, hfr]
      · simp only [hfr, Bool.false_eq_true, if_false] at hv
        have := hP.held_flush v hv hfv
        simp only [List.nil_append] at this ⊢
        simp [List.any_append, this]
  · exact .inl rfl
  · exact h.received
  · exact h.buffered
  · simpa only [PipelineState.pushBackRequestType_pgErr] using h.chain
  · simpa only [PipelineState.pushBackRequestType_pgErr] using h.ignoring
  · exact h.ignoring_held
  · exact h.held_live
  · rw [PipelineState.pushBackRequestType_expectedReadyForQueryCount r.requestType_ne_nil, h.expected,
      hq, hP.eq]
    have hsync : r.requestType = .pipelineSyncRequest ↔ r = .syncRequest := Request.requestType_eq_sync
    split_ifs <;> simp_all [List.countP_append, pendingEvents_count_sync, List.countP_map, Function.comp_def] <;>
      omega
  · intro r' hr'
    simp only [List.nil_append, List.getLast?_append, List.getLast?_singleton, Option.some_or] at hr'
    cases hr'
    exact PipelineState.pushBackRequestType_lastRequestType (Request.requestType_ne_nil _)

/-- A write that succeeds: the requests of the send buffer are now written and not yet carried
out. -/
theorem Inv.flush (h : Inv c []) (hopen : c.pipeline.closed = false) :
    Inv (c.flush true).1 c.sendBuffer := by
  obtain ⟨P, hP⟩ := h.queue
  simp only [Conn.flush, hopen, Bool.false_eq_true, if_false, Bool.not_true]
  have hq := PipelineState.registerSendingToServer_eq h.flags.sent
  constructor
  · exact h.flags.registerSendingToServer
  · refine ⟨P.map PipelineRequestEvent.markSent, ?_, ?_, ?_, ?_⟩
    · simp [hq, hP.eq, pendingEvents_markSent]
    · simpa [Function.comp_def] using hP.types
    · simp
    · intro v hv hfv
      rw [← List.map_drop] at hv
      obtain ⟨w, hw, rfl⟩ := List.mem_map.mp hv
      simpa using hP.held_flush w hw hfv
  · exact .inr rfl
  · exact h.received
  · exact h.buffered
  · exact h.chain
  · exact h.ignoring
  · exact h.ignoring_held
  · exact h.held_live
  · simp [hq, h.expected, List.countP_map, Function.comp_def]
  · simpa using h.last

/-- The event of a request written and not yet carried out. -/
def writtenEvent (r : Request) (rs : List Request) : PipelineRequestEvent :=
  ⟨r.requestType, true, (r :: rs).any Request.flushes⟩

/-- The event of a request written and carried out, now that it is answered. -/
theorem QueueSplit.answer {c' : Conn} {r : Request} {rs : List Request} {P : List PipelineRequestEvent}
    (hP : QueueSplit c (r :: rs) P) (hr : r ≠ .flushRequest) (hb : c.sendBuffer = [])
    {a : Answer} (ha : a.request = r)
    (hq : c'.pipeline.state.requestEventQueue = c.pipeline.state.requestEventQueue)
    (hb' : c'.sendBuffer = []) (hans : c'.delivered ++ c'.held = c.delivered ++ c.held ++ [a])
    (hheld : ∀ v ∈ (P ++ [writtenEvent r rs]).drop c'.delivered.length,
      v.beforeFlushOrSync = true → rs.any Request.flushes = true) :
    QueueSplit c' rs (P ++ [writtenEvent r rs]) where
  eq := by simp [hq, hP.eq, hb, hb', pendingEvents, hr, writtenEvent]
  types := by simp [hans, hP.types, ha, writtenEvent]
  sent := by
    intro v hv
    rcases List.mem_append.mp hv with hv | hv
    · exact hP.sent v hv
    · simp only [List.mem_singleton] at hv
      simp [hv, writtenEvent]
  held_flush := by simpa [hb'] using hheld

/-- The answers are the same and nothing is held: no event waits for a flush. -/
theorem QueueSplit.of_nothing_held {c' : Conn} {inbox inbox' : List Request} {P : List PipelineRequestEvent}
    (hP : QueueSplit c inbox P) (heq : c'.pipeline.state.requestEventQueue =
      P ++ (pendingEvents true inbox' ++ pendingEvents false c'.sendBuffer))
    (hans : c'.delivered ++ c'.held = c.delivered ++ c.held) (hheld : c'.held = []) :
    QueueSplit c' inbox' P where
  eq := heq
  types := by rw [hans]; exact hP.types
  sent := hP.sent
  held_flush := by
    intro v hv
    have hd : c'.delivered = c.delivered ++ c.held := by simpa [hheld] using hans
    rw [List.drop_eq_nil_of_le (by rw [hP.length, hd]; simp)] at hv
    cases hv

/-- The request the server carries out leaves the last one pushed as it was. -/
theorem Inv.last_of_cons {r : Request} {rs : List Request} (h : Inv c (r :: rs)) :
    ∀ r', (rs ++ c.sendBuffer).getLast? = some r' → c.pipeline.state.lastRequestType = r'.requestType :=
  fun r' hr' => h.last r' (by rw [List.cons_append, List.getLast?_cons, hr']; rfl)

/-- The server carries out a flush request: it sends what it holds, unless it is discarding. -/
theorem Inv.serve_flush {rs : List Request} (h : Inv c (.flushRequest :: rs)) (hb : c.sendBuffer = [])
    (os : List Outcome) : Inv (c.serve .flushRequest os) rs := by
  obtain ⟨P, hP⟩ := h.queue
  have heq : c.pipeline.state.requestEventQueue = P ++ (pendingEvents true rs ++ pendingEvents false c.sendBuffer) := by
    simpa [pendingEvents] using hP.eq
  cases hi : c.backend.ignoreTillSync
  · -- the server sends all it held
    have hserve : c.serve .flushRequest os =
        { c with backend := ⟨false, []⟩
                 received := c.received ++ c.backend.sendBuffer
                 delivered := c.delivered ++ c.held
                 held := [] } := by
      simp [Conn.serve, Backend.serve, hi]
    rw [hserve]
    refine ⟨h.flags, ⟨P, hP.of_nothing_held (by simpa [hb] using heq) (by simp) rfl⟩, .inr hb, ?_, rfl, ?_,
      ?_, (fun _ => rfl), (by simp), h.expected, h.last_of_cons⟩
    · simp [h.received, h.buffered]
    · simpa using h.chain
    · simpa [hi] using h.ignoring
  · -- a discarding server does nothing
    have hserve : c.serve .flushRequest os = c := by
      simp [Conn.serve, Backend.serve, hi]
    rw [hserve]
    exact ⟨h.flags, ⟨P, hP.of_nothing_held heq rfl (h.ignoring_held hi)⟩, .inr hb, h.received, h.buffered,
      h.chain, h.ignoring, h.ignoring_held, h.held_live, h.expected, h.last_of_cons⟩

/-- The answer the server gives a request: discarded when the server discards, unless it is a
sync. -/
def answerOf (c : Conn) (r : Request) (os : List Outcome) : Answer :=
  ⟨r, os, c.backend.ignoreTillSync && r != .syncRequest⟩

/-- An answer that fits the request, given in the server's discarding state. -/
theorem Inv.given {inbox : List Request} (h : Inv c inbox) {r : Request} (hr : r ≠ .flushRequest)
    {os : List Outcome} (hlen : os.length = r.messages.length) (hne : ∀ o ∈ os, o.emptyQuery = false) :
    (c.answerOf r os).Given (skipAfter c.pipeline.state.pgErr.isSome (c.delivered ++ c.held)) :=
  ⟨hr, hlen, hne, by simp [answerOf, h.ignoring]⟩

/-- The answer the server gives next extends the history of answers. -/
theorem Inv.chain_answer {inbox : List Request} (h : Inv c inbox) {r : Request} (hr : r ≠ .flushRequest)
    {os : List Outcome} (hlen : os.length = r.messages.length) (hne : ∀ o ∈ os, o.emptyQuery = false) :
    Chain c.pipeline.state.pgErr.isSome (c.delivered ++ c.held ++ [c.answerOf r os]) := by
  rw [chain_append]
  exact ⟨h.chain, chain_cons.mpr ⟨h.given hr hlen hne, trivial⟩⟩

/-- Once every answer is sent, with the next one, no event is left that waits for a flush. -/
theorem QueueSplit.drop_answer_eq_nil {inbox : List Request} {P : List PipelineRequestEvent}
    (hP : QueueSplit c inbox P) (w : PipelineRequestEvent) (a : Answer) :
    (P ++ [w]).drop (c.delivered ++ c.held ++ [a]).length = [] :=
  List.drop_eq_nil_of_le (by simp [hP.length, Nat.add_assoc])

/-- The server carries out a sync: it sends what it holds with a `ReadyForQuery`, and stops
discarding. -/
theorem Inv.serve_sync {rs : List Request} (h : Inv c (.syncRequest :: rs)) (hb : c.sendBuffer = [])
    {os : List Outcome} (hlen : os.length = Request.syncRequest.messages.length)
    (hne : ∀ o ∈ os, o.emptyQuery = false) : Inv (c.serve .syncRequest os) rs := by
  obtain ⟨P, hP⟩ := h.queue
  have hserve : c.serve .syncRequest os =
      { c with backend := ⟨false, []⟩
               received := c.received ++ (c.backend.sendBuffer ++ [.readyForQuery])
               delivered := c.delivered ++ c.held ++ [c.answerOf .syncRequest os]
               held := [] } := by
    simp [Conn.serve, Backend.serve, answerOf]
  rw [hserve]
  refine ⟨h.flags, ⟨_, hP.answer (a := c.answerOf .syncRequest os) (by simp) hb rfl rfl hb (by simp)
    fun v hv => by rw [hP.drop_answer_eq_nil] at hv; cases hv⟩,
    .inr hb, ?_, rfl, by simpa using h.chain_answer (by simp) hlen hne, ?_, (fun _ => rfl), (by simp),
    h.expected, h.last_of_cons⟩
  · simp [h.received, h.buffered, Answer.response, answerOf]
  · simp [Answer.next, answerOf]

/-- The server carries out a request other than a flush or a sync: a discarding server records
it as discarded; otherwise it writes its answer, and sends all it holds when the answer is an
error. -/
theorem Inv.serve_statement {r : Request} {rs : List Request} (h : Inv c (r :: rs)) (hb : c.sendBuffer = [])
    (hr : r.isStatement = true) {os : List Outcome} (hlen : os.length = r.messages.length)
    (hne : ∀ o ∈ os, o.emptyQuery = false) : Inv (c.serve r os) rs := by
  obtain ⟨P, hP⟩ := h.queue
  have hrf : r ≠ .flushRequest := by rintro rfl; simp [Request.isStatement] at hr
  have hrs : r ≠ .syncRequest := by rintro rfl; simp [Request.isStatement] at hr
  have hflush : r.flushes = false := by simp [Request.flushes, hr]
  have hchain := h.chain_answer hrf hlen hne
  have hresp : (c.answerOf r os).response =
      if c.backend.ignoreTillSync then [] else (respond r.messages os).1 := by
    cases r <;> simp_all [Answer.response, answerOf]
  have hnext : (c.answerOf r os).next (skipAfter c.pipeline.state.pgErr.isSome (c.delivered ++ c.held)) =
      (c.backend.ignoreTillSync || (respond r.messages os).2) := by
    rw [← h.ignoring]
    cases r <;> simp_all [Answer.next, answerOf]
  cases hi : c.backend.ignoreTillSync
  · have hne' := respond_ne_nil r.messages_ne_nil hlen (Request.messages_not_flush hr)
    cases hf : (respond r.messages os).2
    · -- the server holds the answer
      have hserve : c.serve r os =
          { c with backend := ⟨false, c.backend.sendBuffer ++ (respond r.messages os).1⟩
                   held := c.held ++ [c.answerOf r os] } := by
        cases r <;> simp_all [Conn.serve, Backend.serve, answerOf]
      rw [hserve]
      refine ⟨h.flags, ⟨_, hP.answer (a := c.answerOf r os) hrf hb rfl rfl hb (by simp) ?_⟩, .inr hb, h.received, ?_,
        by simpa using hchain, ?_, (fun h => by cases h), ?_, h.expected, h.last_of_cons⟩
      · intro v hv hfv
        rw [List.drop_append_of_le_length (by simp [hP.length])] at hv
        rcases List.mem_append.mp hv with hv | hv
        · simpa [hflush, hb] using hP.held_flush v hv hfv
        · simp only [List.mem_singleton] at hv
          subst hv
          simpa [writtenEvent, hflush] using hfv
      · simp [h.buffered, hresp, hi]
      · show false = skipAfter _ (c.delivered ++ (c.held ++ [c.answerOf r os]))
        rw [← List.append_assoc, skipAfter_concat, hnext, hi, hf]
        rfl
      · intro a ha
        rcases List.mem_append.mp ha with ha | ha
        · exact h.held_live a ha
        · simp only [List.mem_singleton] at ha
          subst ha
          simp [answerOf, hi, hrs]
    · -- the error is sent with all the server held, and the server discards from here
      have hserve : c.serve r os =
          { c with backend := ⟨true, []⟩
                   received := c.received ++ (c.backend.sendBuffer ++ (respond r.messages os).1)
                   delivered := c.delivered ++ c.held ++ [c.answerOf r os]
                   held := [] } := by
        cases r <;> simp_all [Conn.serve, Backend.serve, answerOf]
      rw [hserve]
      refine ⟨h.flags, ⟨_, hP.answer (a := c.answerOf r os) hrf hb rfl rfl hb (by simp)
        fun v hv => by rw [hP.drop_answer_eq_nil] at hv; cases hv⟩, .inr hb, ?_, rfl,
        by simpa using hchain, ?_, (fun _ => rfl), (by simp), h.expected, h.last_of_cons⟩
      · simp [h.received, h.buffered, hresp, hi]
      · show true = skipAfter _ (c.delivered ++ c.held ++ [c.answerOf r os] ++ [])
        rw [List.append_nil, skipAfter_concat, hnext, hi, hf]
        rfl
  · -- a discarding server holds nothing and sends nothing
    have hheld := h.ignoring_held hi
    have hbuf : c.backend.sendBuffer = [] := by simp [h.buffered, hheld]
    have hserve : c.serve r os =
        { c with delivered := c.delivered ++ c.held ++ [c.answerOf r os], held := [] } := by
      cases r <;> simp_all [Conn.serve, Backend.serve, answerOf]
    rw [hserve]
    refine ⟨h.flags, ⟨_, hP.answer (a := c.answerOf r os) hrf hb rfl rfl hb (by simp)
      fun v hv => by rw [hP.drop_answer_eq_nil] at hv; cases hv⟩, .inr hb, ?_,
      h.buffered.trans (by simp [hheld]), by simpa using hchain, ?_, (fun _ => rfl), (by simp), h.expected,
      h.last_of_cons⟩
    · simp [h.received, hresp, hi, hheld]
    · show c.backend.ignoreTillSync = skipAfter _ (c.delivered ++ c.held ++ [c.answerOf r os] ++ [])
      rw [List.append_nil, skipAfter_concat, hnext, hi]
      rfl

end Step

/-! ## `GetResults` -/

/-- The connection with its first `k` answers, all discarded, and their queue events dropped. -/
def dropFront (c : Conn) (k : Nat) : Conn :=
  { c with
    pipeline := { c.pipeline with state := { c.pipeline.state with
      requestEventQueue := c.pipeline.state.requestEventQueue.drop k } }
    delivered := c.delivered.drop k }

/-- The connection after the pipeline reads the answer `a`, the `k`-th, the answers before it
discarded. -/
def readFront (c : Conn) (k : Nat) (a : Answer) : Conn :=
  { c with
    pipeline := { c.pipeline with state := a.readState { c.pipeline.state with
      requestEventQueue := c.pipeline.state.requestEventQueue.drop (k + 1), pgErr := none } }
    received := ((c.delivered.drop (k + 1)).map Answer.response).flatten
    delivered := c.delivered.drop (k + 1) }

section Read

variable {c : Conn}

theorem readFront_eq_dropFront (k : Nat) (a : Answer) : c.readFront k a = (c.dropFront k).readFront 0 a := by
  simp [readFront, dropFront, List.drop_drop]

/-- No sync among the first `j` answers: none among their events. -/
theorem QueueSplit.countP_drop {P : List PipelineRequestEvent} (hP : QueueSplit c [] P) {j : Nat}
    (hj : j ≤ P.length) (hs : ∀ b ∈ (c.delivered ++ c.held).take j, b.request ≠ .syncRequest) :
    (c.pipeline.state.requestEventQueue.drop j).countP (·.requestType == .pipelineSyncRequest) =
      c.pipeline.state.requestEventQueue.countP (·.requestType == .pipelineSyncRequest) := by
  have htake : ∀ v ∈ c.pipeline.state.requestEventQueue.take j, v.requestType ≠ .pipelineSyncRequest := by
    intro v hv
    rw [hP.eq, List.take_append_of_le_length hj] at hv
    have hty : v.requestType ∈ ((c.delivered ++ c.held).take j).map (·.request.requestType) := by
      rw [List.map_take, ← hP.types, ← List.map_take]
      exact List.mem_map_of_mem hv
    obtain ⟨b, hb, hbv⟩ := List.mem_map.mp hty
    rw [← hbv]
    exact fun heq => hs b hb (Request.requestType_eq_sync.mp heq)
  have hzero : (c.pipeline.state.requestEventQueue.take j).countP (·.requestType == .pipelineSyncRequest) = 0 :=
    List.countP_eq_zero.mpr (by simpa using htake)
  conv_rhs => rw [← List.take_append_drop j c.pipeline.state.requestEventQueue]
  rw [List.countP_append, hzero, Nat.zero_add]

/-- The events of the first `j` answers, dropped with them. -/
theorem QueueSplit.drop {c' : Conn} {P : List PipelineRequestEvent} (hP : QueueSplit c [] P) {j : Nat}
    (hj : j ≤ c.delivered.length)
    (hq : c'.pipeline.state.requestEventQueue = c.pipeline.state.requestEventQueue.drop j)
    (hd : c'.delivered = c.delivered.drop j) (hh : c'.held = c.held) (hb : c'.sendBuffer = c.sendBuffer) :
    QueueSplit c' [] (P.drop j) where
  eq := by
    rw [hq, hP.eq, hb, pendingEvents_nil, List.nil_append,
      List.drop_append_of_le_length (by rw [hP.length]; omega)]
  types := by
    rw [List.map_drop, hP.types, hd, hh, ← List.map_drop, List.drop_append_of_le_length hj]
  sent := fun v hv => hP.sent v (List.mem_of_mem_drop hv)
  held_flush := by
    intro v hv hfv
    have hdrop : (P.drop j).drop (c.delivered.drop j).length = P.drop c.delivered.length := by
      rw [List.drop_drop, List.length_drop]
      congr 1
      omega
    rw [hd, hdrop] at hv
    simpa [hb] using hP.held_flush v hv hfv

/-- The answers the server holds are not discarded: a run of discarded answers from the front
stays among those sent. -/
theorem Inv.le_of_skipped {inbox : List Request} (h : Inv c inbox) {k : Nat}
    (hk : k ≤ (c.delivered ++ c.held).length)
    (hall : ∀ b ∈ (c.delivered ++ c.held).take k, b.skipped = true) : k ≤ c.delivered.length := by
  refine Nat.le_of_not_lt fun hlt => ?_
  obtain ⟨b, H', hH⟩ : ∃ b H', c.held = b :: H' := by
    cases hH : c.held with
    | nil => simp [hH] at hk; omega
    | cons b H' => exact ⟨b, H', rfl⟩
  obtain ⟨m, hm⟩ : ∃ m, k - c.delivered.length = m + 1 := ⟨k - c.delivered.length - 1, by omega⟩
  have hb : b ∈ (c.delivered ++ c.held).take k := by
    rw [List.take_append, hH, hm, List.take_succ_cons]
    simp
  have hlive := (h.held_live b (by simp [hH])).1
  rw [hall b hb] at hlive
  cases hlive

theorem Inv.dropFront (h : Inv c []) {k : Nat} (hk : k ≤ c.delivered.length)
    (hs : ∀ b ∈ c.delivered.take k, b.skipped = true) : Inv (c.dropFront k) [] := by
  obtain ⟨P, hP⟩ := h.queue
  have hA : ∀ b ∈ (c.delivered ++ c.held).take k, b.skipped = true := by
    rwa [List.take_append_of_le_length hk]
  have hdrop := h.chain.drop_skipped hA
  rw [List.drop_append_of_le_length hk] at hdrop
  have hnone : ((c.delivered.take k).map Answer.response).flatten = [] := by
    refine (h.chain.take k).response_of_skipped ?_ |> (by rwa [List.take_append_of_le_length hk] at ·)
    exact hA
  have hsync : ∀ b ∈ (c.delivered ++ c.held).take k, b.request ≠ .syncRequest :=
    fun b hb => (h.chain.take k).skipped_not_sync b hb (hA b hb)
  constructor
  · have hsuf := List.drop_suffix k c.pipeline.state.requestEventQueue
    exact ⟨h.flags.sent.of_suffix hsuf, h.flags.flushed.of_suffix hsuf⟩
  · exact ⟨P.drop k, hP.drop hk rfl rfl rfl rfl⟩
  · exact .inl rfl
  · show c.received = ((c.delivered.drop k).map Answer.response).flatten
    rw [h.received]
    conv_lhs => rw [← List.take_append_drop k c.delivered]
    rw [List.map_append, List.flatten_append, hnone, List.nil_append]
  · exact h.buffered
  · exact hdrop.1
  · exact h.ignoring.trans hdrop.2.symm
  · exact h.ignoring_held
  · exact h.held_live
  · show _ = ((c.pipeline.state.requestEventQueue.drop k).countP _ : Int)
    rw [hP.countP_drop (by rw [hP.length]; omega) hsync]
    exact h.expected
  · exact h.last

/-- Reading the first answer, which the server did not discard, keeps the invariant. -/
theorem Inv.readFirst (h : Inv c []) {a : Answer} {D' : List Answer} (hd : c.delivered = a :: D')
    (hs : a.skipped = false) : Inv (c.readFront 0 a) [] := by
  obtain ⟨P, hP⟩ := h.queue
  have hchain := h.chain
  rw [hd, List.cons_append, chain_cons] at hchain
  obtain ⟨ha, hrest⟩ := hchain
  have hq : (c.readFront 0 a).pipeline.state.requestEventQueue = c.pipeline.state.requestEventQueue.drop 1 := by
    simp [readFront]
  have hpg : (c.readFront 0 a).pipeline.state.pgErr.isSome = a.next c.pipeline.state.pgErr.isSome :=
    ha.readState_pgErr hs rfl
  have hD : (c.readFront 0 a).delivered ++ (c.readFront 0 a).held = D' ++ c.held := by
    simp [readFront, hd]
  -- the front event is the answer's
  obtain ⟨v, P', rfl⟩ : ∃ v P', P = v :: P' := by
    cases P with
    | nil => have := hP.length; simp [hd] at this; omega
    | cons v P' => exact ⟨v, P', rfl⟩
  have hv : v.requestType = a.request.requestType := by
    have := hP.types
    simp only [hd, List.cons_append, List.map_cons, List.cons.injEq] at this
    exact this.1
  constructor
  · have hsuf := List.drop_suffix 1 c.pipeline.state.requestEventQueue
    rw [hq]
    exact ⟨h.flags.sent.of_suffix hsuf, h.flags.flushed.of_suffix hsuf⟩
  · exact ⟨(v :: P').drop 1, hP.drop (by simp [hd]) hq (by simp [readFront]) rfl rfl⟩
  · exact .inl rfl
  · simp [readFront]
  · exact h.buffered
  · rw [hpg, hD]
    exact hrest
  · show c.backend.ignoreTillSync = _
    rw [hpg, hD, h.ignoring, hd, List.cons_append, skipAfter_cons]
  · exact h.ignoring_held
  · exact h.held_live
  · have hcount := h.expected
    rw [hP.eq] at hcount
    simp only [readFront, Answer.readState_expectedReadyForQueryCount, Answer.readState_requestEventQueue]
    rw [hcount, hP.eq]
    by_cases hsync : a.request = .syncRequest
    · have hvs : v.requestType = .pipelineSyncRequest := by rw [hv, hsync]; rfl
      simp [hsync, hvs]
    · have hvs : v.requestType ≠ .pipelineSyncRequest := by
        rw [hv]; exact fun heq => hsync (Request.requestType_eq_sync.mp heq)
      simp [hsync, hvs]
  · simpa [readFront] using h.last

/-- `GetResults` on a connection that keeps the invariant drops the answers the server discarded,
then returns nothing, or reads the next answer, or waits on a flush or a sync the pipeline has not
written. -/
theorem Inv.getResults_cases (h : Inv c []) (hopen : c.pipeline.closed = false) :
    ∃ k ≤ c.delivered.length, (∀ b ∈ c.delivered.take k, b.skipped = true) ∧
      ((c.getResults = some (c.dropFront k, .none) ∧
          ∀ v ∈ (c.pipeline.state.requestEventQueue.drop k).head?,
            (v.wasSentToServer && v.beforeFlushOrSync) = false) ∨
       (∃ a, c.delivered[k]? = some a ∧ a.skipped = false ∧ c.getResults = some (c.readFront k a, a.got)) ∨
       (c.sendBuffer.any Request.flushes = true ∧ c.getResults = none)) := by
  obtain ⟨P, hP⟩ := h.queue
  have hq : c.pipeline.state.requestEventQueue = P ++ pendingEvents false c.sendBuffer := by
    simpa using hP.eq
  have hR : ∀ v ∈ (pendingEvents false c.sendBuffer).head?, v.wasSentToServer = false :=
    fun v hv => pendingEvents_sent false _ v (List.mem_of_mem_head? hv)
  rcases extractFront_answers hP.types hP.sent hR h.chain with
    ⟨k, hk, hx, hall, hhead⟩ | ⟨k, a, ha, hns, hall, hflk, hx⟩
  · -- the front event waits: nothing to return
    rw [← hq] at hx hhead
    have hkD := h.le_of_skipped hk hall
    have hkq : k ≤ c.pipeline.state.requestEventQueue.length := by
      rw [hq, List.length_append, hP.length]; omega
    refine ⟨k, hkD, by rwa [List.take_append_of_le_length hkD] at hall, .inl ⟨?_, hhead⟩⟩
    have hrem : c.pipeline.state.requestEventQueue.length -
        (c.pipeline.state.requestEventQueue.drop k).length = k := by
      rw [List.length_drop]; omega
    unfold Conn.getResults
    rw [if_neg (by simp [hopen])]
    simp only [PipelineState.extractFrontRequestType, hx, hrem, ↓reduceIte]
    rfl
  · rw [← hq] at hx
    have hkA : k < (c.delivered ++ c.held).length := (List.getElem?_eq_some_iff.mp ha).1
    have hkD := h.le_of_skipped (Nat.le_of_lt hkA) hall
    have hallD : ∀ b ∈ c.delivered.take k, b.skipped = true := by
      rwa [List.take_append_of_le_length hkD] at hall
    have hrec : c.received = ((c.delivered.drop k).map Answer.response).flatten := by
      exact (h.dropFront hkD hallD).received
    have hread : c.getResults = (getResultsRead { c.pipeline.state with
        requestEventQueue := c.pipeline.state.requestEventQueue.drop (k + 1), pgErr := none } c.received).map
          fun r => ({ c with
            pipeline := { c.pipeline with state := r.1 }
            received := r.2.2.2
            delivered := c.delivered.drop (k + 1)
            asyncClosed := c.asyncClosed || r.2.2.1 }, r.2.1) := by
      have hrem : c.pipeline.state.requestEventQueue.length -
          (c.pipeline.state.requestEventQueue.drop (k + 1)).length = k + 1 := by
        have : k + 1 ≤ c.pipeline.state.requestEventQueue.length := by
          rw [hq, List.length_append, hP.length]; simp at hkA; omega
        rw [List.length_drop]; omega
      simp only [Conn.getResults, hopen, PipelineState.extractFrontRequestType, hx, hrem,
        Request.requestType_ne_nil a.request, if_false]
      rfl
    rcases Nat.lt_or_eq_of_le hkD with hlt | heq
    · -- the next answer was sent: the read returns it
      have haD : c.delivered[k]? = some a := by
        rwa [List.getElem?_append_left hlt] at ha
      have hgiven := (h.chain.getElem? ha).1
      refine ⟨k, hkD, hallD, .inr (.inl ⟨a, haD, hns, ?_⟩)⟩
      have hak : c.delivered[k] = a := by simpa [List.getElem?_eq_getElem hlt] using haD
      rw [hread, hrec, List.drop_eq_getElem_cons hlt, hak, List.map_cons, List.flatten_cons,
        getResultsRead_answer hgiven hns]
      simp [readFront, hopen]
    · -- the next answer is held by the server: the read waits
      subst heq
      refine ⟨c.delivered.length, Nat.le_refl _, hallD, .inr (.inr ⟨?_, ?_⟩)⟩
      · obtain ⟨v, hv, hfv⟩ := Option.map_eq_some_iff.mp hflk
        refine hP.held_flush v ?_ hfv
        rw [List.mem_iff_getElem?]
        exact ⟨0, by simpa using hv⟩
      · rw [hread, hrec, List.drop_length]
        rfl

/-- `GetResults` keeps the invariant. -/
theorem Inv.getResults (h : Inv c []) (hopen : c.pipeline.closed = false) {c' : Conn} {g : Got}
    (hc : c.getResults = some (c', g)) : Inv c' [] := by
  obtain ⟨k, hk, hs, ⟨hcase, -⟩ | ⟨a, ha, hns, hget⟩ | ⟨-, hnone⟩⟩ := h.getResults_cases hopen
  · rw [hcase] at hc
    cases hc
    exact h.dropFront hk hs
  · rw [hget] at hc
    cases hc
    have hlt : k < c.delivered.length := (List.getElem?_eq_some_iff.mp ha).1
    have hfront : (c.dropFront k).delivered = a :: c.delivered.drop (k + 1) := by
      show c.delivered.drop k = _
      rw [List.drop_eq_getElem_cons hlt, (List.getElem?_eq_some_iff.mp ha).2]
    rw [readFront_eq_dropFront]
    exact (h.dropFront hk hs).readFirst hfront hns
  · rw [hnone] at hc
    cases hc

end Read

/-! ## Every run -/

section Run

variable {c : Conn}

theorem sendRequest_closed (r : Request) : (c.sendRequest r).pipeline.closed = c.pipeline.closed := by
  unfold Conn.sendRequest
  split_ifs <;> rfl

@[simp] theorem serve_pipeline (r : Request) (os : List Outcome) : (c.serve r os).pipeline = c.pipeline := by
  unfold Conn.serve
  dsimp only
  split_ifs <;> rfl

@[simp] theorem serve_sendBuffer (r : Request) (os : List Outcome) :
    (c.serve r os).sendBuffer = c.sendBuffer := by
  unfold Conn.serve
  dsimp only
  split_ifs <;> rfl

@[simp] theorem serveAll_pipeline : ∀ {c : Conn} (rs : List Request) (oss : List (List Outcome)),
    (c.serveAll rs oss).pipeline = c.pipeline
  | _, _ :: rs, _ :: oss => (serveAll_pipeline rs oss).trans (serve_pipeline _ _)
  | _, [], _ => rfl
  | _, _ :: _, [] => rfl

/-- The server carries out the next request written. -/
theorem Inv.serve {r : Request} {rs : List Request} (h : Inv c (r :: rs)) (hb : c.sendBuffer = [])
    {os : List Outcome} (hlen : os.length = r.messages.length) (hne : ∀ o ∈ os, o.emptyQuery = false) :
    Inv (c.serve r os) rs := by
  cases hst : r.isStatement
  · have hfs : r = .flushRequest ∨ r = .syncRequest := by
      revert hst
      cases r <;> simp [Request.isStatement]
    rcases hfs with rfl | rfl
    · exact h.serve_flush hb os
    · exact h.serve_sync hb hlen hne
  · exact h.serve_statement hb hst hlen hne

/-- The server carries out all the requests written, each with outcomes that fit it. -/
theorem Inv.serveAll {rs : List Request} {oss : List (List Outcome)} (h : Inv c rs)
    (hb : c.sendBuffer = []) (hfit : outcomesFit oss rs = true)
    (hne : ∀ os ∈ oss, ∀ o ∈ os, o.emptyQuery = false) : Inv (c.serveAll rs oss) [] := by
  induction rs generalizing c oss with
  | nil =>
    cases oss with
    | nil => exact h
    | cons _ _ => simp [outcomesFit] at hfit
  | cons r rs ih =>
    cases oss with
    | nil => simp [outcomesFit] at hfit
    | cons os oss =>
      simp only [outcomesFit, Bool.and_eq_true, beq_iff_eq] at hfit
      exact ih (h.serve hb hfit.1 (hne os (by simp))) (by simp [hb]) hfit.2
        fun os' hos' => hne os' (by simp [hos'])

/-- A `Send` method: an open connection keeps the invariant, a closed one stays as it is. -/
theorem Inv.sendRequest_of_open (h : c.pipeline.closed = false → Inv c []) (r : Request) :
    (c.sendRequest r).pipeline.closed = false → Inv (c.sendRequest r) [] := by
  intro hopen
  rw [sendRequest_closed] at hopen
  exact (h hopen).sendRequest hopen r

/-- `Flush`, then the server carries out what it wrote. -/
theorem Inv.writeAndServe (h : c.pipeline.closed = false → Inv c []) {written : Bool}
    {oss : List (List Outcome)} {c' : Conn} (hw : writeAndServe (c.flush written) oss = some c')
    (hne : ∀ os ∈ oss, ∀ o ∈ os, o.emptyQuery = false) : c'.pipeline.closed = false → Inv c' [] := by
  unfold Conn.writeAndServe at hw
  split_ifs at hw with hfit
  cases hw
  intro hopen
  rw [serveAll_pipeline] at hopen
  cases hc : c.pipeline.closed
  · cases written
    · simp [Conn.flush, hc] at hopen
    · have hwritten : (c.flush true).2.1 = c.sendBuffer := by simp [Conn.flush, hc]
      rw [hwritten] at hfit ⊢
      exact ((h hc).flush hc).serveAll (by simp [Conn.flush, hc]) hfit hne
  · simp [Conn.flush, hc] at hopen

/-- `Close` closes the pipeline, whatever it returns. -/
theorem close_closed {c' : Conn} {err : Option PipelineError} (h : c.close = some (c', err)) :
    c'.pipeline.closed = true := by
  unfold Conn.close at h
  split_ifs at h with hc
  · cases h
    exact hc
  · cases h
    rfl
  · obtain ⟨r, -, hr⟩ := Option.map_eq_some_iff.mp h
    cases hr
    rfl

/-- Every event keeps the invariant of an open connection. -/
theorem Inv.step (h : c.pipeline.closed = false → Inv c []) {e : Event} {c' : Conn}
    (he : e.answersComplete = true) (hs : c.step e = some c') : c'.pipeline.closed = false → Inv c' [] := by
  have hne : ∀ oss : List (List Outcome), (oss.all fun os => os.all fun o => !o.emptyQuery) = true →
      ∀ os ∈ oss, ∀ o ∈ os, o.emptyQuery = false := by
    intro oss hall os hos o ho
    simpa using List.all_eq_true.mp (List.all_eq_true.mp hall os hos) o ho
  cases e with
  | flush written oss => exact Inv.writeAndServe h hs (hne oss he)
  | sync written oss =>
    exact Inv.writeAndServe (Inv.sendRequest_of_open h .syncRequest) hs (hne oss he)
  | getResults =>
    obtain ⟨⟨c₁, g⟩, hc₁, rfl⟩ := Option.map_eq_some_iff.mp hs
    intro hopen
    cases hc : c.pipeline.closed
    · exact (h hc).getResults hc hc₁
    · simp [Conn.getResults, hc] at hc₁
      rw [← hc₁.1, hc] at hopen
      cases hopen
  | close =>
    obtain ⟨⟨c₁, err⟩, hc₁, rfl⟩ := Option.map_eq_some_iff.mp hs
    intro hopen
    rw [close_closed hc₁] at hopen
    cases hopen
  | _ =>
    cases hs
    exact Inv.sendRequest_of_open h _

/-- Every state reached keeps the invariant while its pipeline is open. -/
theorem Inv.of_reachable (h : Reachable c) : c.pipeline.closed = false → Inv c [] := by
  refine @Transition.Reachable.invariant Conn Event _ _ (fun s => s.pipeline.closed = false → Inv s [])
    (fun s hs _ => ?_) (fun s e s' hinv hstep => ?_) c h
  · rw [hs]
    exact inv_start
  · obtain ⟨he, hs⟩ := Transition.restrict_eq_some hstep
    exact Inv.step hinv he hs

end Run

/-! ## What `GetResults` returns -/

section Results

variable {c : Conn}

/-- The server's outcomes for `SELECT 1` sent with `SendQueryParams`: one row. -/
def queryOneRow : List Outcome :=
  [.success [] none [] (some ""), .success [] none [] (some ""), .success [] (some ["n"]) [] (some ""),
    .success [] none [[some [49]]] (some "SELECT 1")]

/-- `SendQueryParams("select 1")`, then `Sync`. -/
def selectOneRun : List Event :=
  [.sendQueryParams "select 1" [] [] [] [], .sync true [queryOneRow, [.success [] none [] (some "")]]]

/-- The state `selectOneRun` reaches. -/
def selectOne : Conn :=
  ((start.sendQueryParams "select 1" [] [] [] []).sync true).1.serveAll
    [.queryParams "select 1" [] [] [] [], .syncRequest] [queryOneRow, [.success [] none [] (some "")]]

theorem selectOne_reachable : Reachable selectOne :=
  Transition.Reachable.runs (Transition.Reachable.of_init rfl)
    (rfl : Transition.Runs (Transition.restrict step fun e => e.answersComplete = true) start selectOneRun =
      some selectOne)

/-- With no flush or sync request left unwritten, `GetResults` never waits: the server has sent
every answer the pipeline would read. -/
theorem getResults_waits_not (h : Reachable c) (hflush : c.sendBuffer.any Request.flushes = false) :
    c.getResults.isSome = true := by
  cases hc : c.pipeline.closed
  · obtain ⟨k, -, -, ⟨hcase, -⟩ | ⟨a, -, -, hget⟩ | ⟨hf, -⟩⟩ := (Inv.of_reachable h hc).getResults_cases hc
    · rw [hcase]
      rfl
    · rw [hget]
      rfl
    · rw [hflush] at hf
      cases hf
  · simp [Conn.getResults, hc]

theorem getResults_waits_not_selectOne : selectOne.getResults.isSome = true :=
  getResults_waits_not selectOne_reachable rfl

/-- The outcomes of an empty query sent with `SendQueryParams`: its `Execute` is answered with
`EmptyQueryResponse`. -/
def emptyQueryOutcomes : List Outcome :=
  [.success [] none [] (some ""), .success [] none [] (some ""), .success [] none [] (some ""),
    .success [] none [] none]

/-- `SendQueryParams("")`, `SendQueryParams("select 1")`, then `Sync`. -/
def emptyThenSelectOneRun : List Event :=
  [.sendQueryParams "" [] [] [] [], .sendQueryParams "select 1" [] [] [] [],
    .sync true [emptyQueryOutcomes, queryOneRow, [.success [] none [] (some "")]]]

/-- Outside `Reachable`, an empty query shifts what `GetResults` returns: the read passes over the
`EmptyQueryResponse`, so the call for the empty query returns the result of `SELECT 1`, the call
for `SELECT 1` returns the sync's `PipelineSync`, and the call for the sync waits for a message the
server never sends. -/
theorem emptyQuery_shifts_results :
    ∃ c₁ c₂ c₃, Transition.Runs step start emptyThenSelectOneRun = some c₁ ∧
      c₁.getResults = some (c₂, .result ⟨["n"], [[some [49]]], "SELECT 1", none⟩) ∧
      c₂.getResults = some (c₃, .pipelineSync) ∧ c₃.getResults = none :=
  ⟨_, _, _, rfl, rfl, rfl, rfl⟩

end Results

/-! ## The queue and the stream over every run -/

section Queue

variable {c : Conn}

/-- In every state reached, `RegisterSendingToServer` and `registerFlushingBufferOnServer` mark
every queued request: their loops, which stop at the first request from the back already marked,
skip none that is not. -/
theorem register_marks_all (h : Reachable c) (hopen : c.pipeline.closed = false) :
    c.pipeline.state.registerSendingToServer.requestEventQueue =
        c.pipeline.state.requestEventQueue.map PipelineRequestEvent.markSent ∧
      c.pipeline.state.registerFlushingBufferOnServer.requestEventQueue =
        c.pipeline.state.requestEventQueue.map PipelineRequestEvent.markFlushed := by
  have hflags := (Inv.of_reachable h hopen).flags
  exact ⟨PipelineState.registerSendingToServer_eq hflags.sent,
    PipelineState.registerFlushingBufferOnServer_eq hflags.flushed⟩

/-- After `selectOneRun`, a `SendQueryParams` not written yet: its event has neither flag, behind
the events of the first query and the sync, which have both. -/
def selectTwoQueued : Conn := selectOne.sendQueryParams "select 2" [] [] [] []

theorem register_marks_all_queued :
    (selectTwoQueued.pipeline.state.requestEventQueue.getLast?.map fun v =>
        (v.wasSentToServer, v.beforeFlushOrSync)) = some (false, false) ∧
      selectTwoQueued.pipeline.state.registerSendingToServer.requestEventQueue =
        selectTwoQueued.pipeline.state.requestEventQueue.map PipelineRequestEvent.markSent ∧
      selectTwoQueued.pipeline.state.registerFlushingBufferOnServer.requestEventQueue =
        selectTwoQueued.pipeline.state.requestEventQueue.map PipelineRequestEvent.markFlushed :=
  have hr : Reachable selectTwoQueued :=
    Transition.Reachable.runs selectOne_reachable
      (rfl : Transition.Runs (Transition.restrict step fun e => e.answersComplete = true) selectOne
        [.sendQueryParams "select 2" [] [] [] []] = some selectTwoQueued)
  ⟨rfl, register_marks_all hr rfl⟩

/-- In every state reached, `ExpectedReadyForQuery` is the number of sync requests queued. -/
theorem expectedReadyForQuery_eq_syncs (h : Reachable c) (hopen : c.pipeline.closed = false) :
    c.pipeline.state.expectedReadyForQueryCount =
      (c.pipeline.state.requestEventQueue.countP (·.requestType == .pipelineSyncRequest) : Int) :=
  (Inv.of_reachable h hopen).expected

theorem expectedReadyForQuery_eq_syncs_selectOne :
    selectOne.pipeline.state.expectedReadyForQueryCount =
      (selectOne.pipeline.state.requestEventQueue.countP (·.requestType == .pipelineSyncRequest) : Int) :=
  expectedReadyForQuery_eq_syncs selectOne_reachable rfl

/-- In every state reached, what the pipeline has to read is exactly what the server sent for
the answers not read, in order, and the server's buffer what it wrote for the answers it holds:
no answer is lost, repeated or reordered on the way. -/
theorem stream_eq_answers (h : Reachable c) (hopen : c.pipeline.closed = false) :
    c.received = (c.delivered.map Answer.response).flatten ∧
      c.backend.sendBuffer = (c.held.map Answer.response).flatten :=
  have hinv := Inv.of_reachable h hopen
  ⟨hinv.received, hinv.buffered⟩

theorem stream_eq_answers_selectOne :
    selectOne.received = (selectOne.delivered.map Answer.response).flatten ∧
      selectOne.backend.sendBuffer = (selectOne.held.map Answer.response).flatten :=
  stream_eq_answers selectOne_reachable rfl

end Queue

/-! ## `Close` -/

section Close

variable {st : PipelineState PgError} {err : Option PipelineError} {ac : Bool} {msgs : List BackendMessage}

theorem closeLoop_of_zero (h : ¬st.expectedReadyForQueryCount > 0) :
    closeLoop st err ac msgs = some (st, err, ac, msgs) := by
  rw [closeLoop]
  simp [h]

/-- While a `ReadyForQuery` is expected, the loop reads on from where the read left the stream:
it keeps a `*PgError`, and stops at any other error. -/
theorem closeLoop_of_some (hpos : st.expectedReadyForQueryCount > 0) {rd : Read}
    (hg : Pgx.Pgconn.getResults st msgs = some rd) :
    closeLoop st err ac msgs =
      match rd.results with
      | .error (.pgError e) => closeLoop rd.state (some (.pgError e)) (ac || rd.asyncClose) rd.rest
      | .error e => some (rd.state, some e, true, rd.rest)
      | _ => closeLoop rd.state err (ac || rd.asyncClose) rd.rest := by
  rw [closeLoop]
  simp only [hpos, if_true]
  split
  · simp_all
  · rename_i rd' hrd
    rw [hg] at hrd
    cases hrd
    rfl

theorem closeLoop_of_none (hpos : st.expectedReadyForQueryCount > 0)
    (hg : Pgx.Pgconn.getResults st msgs = none) : closeLoop st err ac msgs = none := by
  rw [closeLoop]
  simp only [hpos, if_true]
  split
  · rfl
  · simp_all

/-- Two streams the read cannot tell apart: the loop reads them alike. -/
theorem closeLoop_congr (hpos : st.expectedReadyForQueryCount > 0) {msgs' : List BackendMessage}
    (h : Pgx.Pgconn.getResults st msgs = Pgx.Pgconn.getResults st msgs') :
    closeLoop st err ac msgs = closeLoop st err ac msgs' := by
  cases hg : Pgx.Pgconn.getResults st msgs' with
  | none => rw [closeLoop_of_none hpos (h.trans hg), closeLoop_of_none hpos hg]
  | some rd => rw [closeLoop_of_some hpos (h.trans hg), closeLoop_of_some hpos hg]

/-- A read that ends on a message other than an error lets the loop go on after it. -/
theorem closeLoop_continue (hpos : st.expectedReadyForQueryCount > 0) {st' : PipelineState PgError}
    {res : Results} {rest : List BackendMessage}
    (hg : Pgx.Pgconn.getResults st msgs = some ⟨st', res, false, rest⟩) (hres : ∀ e, res ≠ .error e) :
    closeLoop st err ac msgs = closeLoop st' err ac rest := by
  rw [closeLoop_of_some hpos hg]
  cases res with
  | error e => exact absurd rfl (hres e)
  | _ => simp only [Bool.or_false]

@[simp] theorem closeLoop_readyForQuery (hpos : st.expectedReadyForQueryCount > 0) (rest : List BackendMessage) :
    closeLoop st err ac (.readyForQuery :: rest) = closeLoop st.handleReadyForQuery err ac rest :=
  closeLoop_continue hpos rfl (by simp)

@[simp] theorem closeLoop_errorResponse (hpos : st.expectedReadyForQueryCount > 0) (e : PgError)
    (rest : List BackendMessage) :
    closeLoop st err ac (.errorResponse e :: rest) = closeLoop (st.handleError e) (some (.pgError e)) ac rest := by
  rw [closeLoop_of_some hpos rfl]
  simp only [Bool.or_false]

@[simp] theorem closeLoop_commandComplete (hpos : st.expectedReadyForQueryCount > 0) (commandTag : String)
    (rest : List BackendMessage) :
    closeLoop st err ac (.commandComplete commandTag :: rest) = closeLoop st err ac rest :=
  closeLoop_continue hpos rfl (by simp)

@[simp] theorem closeLoop_rowDescription (hpos : st.expectedReadyForQueryCount > 0) (fields : List String)
    (rest : List BackendMessage) :
    closeLoop st err ac (.rowDescription fields :: rest) = closeLoop st err ac rest :=
  closeLoop_continue hpos rfl (by simp)

@[simp] theorem closeLoop_closeComplete (hpos : st.expectedReadyForQueryCount > 0) (rest : List BackendMessage) :
    closeLoop st err ac (.closeComplete :: rest) = closeLoop st err ac rest :=
  closeLoop_continue hpos rfl (by simp)

@[simp] theorem closeLoop_bindComplete (hpos : st.expectedReadyForQueryCount > 0) (rest : List BackendMessage) :
    closeLoop st err ac (.bindComplete :: rest) = closeLoop st err ac rest :=
  closeLoop_congr hpos rfl

@[simp] theorem closeLoop_noData (hpos : st.expectedReadyForQueryCount > 0) (rest : List BackendMessage) :
    closeLoop st err ac (.noData :: rest) = closeLoop st err ac rest :=
  closeLoop_congr hpos rfl

@[simp] theorem closeLoop_dataRows (hpos : st.expectedReadyForQueryCount > 0) (rows : List Row)
    (rest : List BackendMessage) :
    closeLoop st err ac (rows.map .dataRow ++ rest) = closeLoop st err ac rest :=
  closeLoop_congr hpos (getResults_dataRows rows rest)

/-- A `ParseComplete` that no `ParameterDescription` follows is passed over. -/
theorem closeLoop_parseComplete (hpos : st.expectedReadyForQueryCount > 0) {m : BackendMessage}
    (hm : ∀ oids, m ≠ .parameterDescription oids) (rest : List BackendMessage) :
    closeLoop st err ac (.parseComplete :: m :: rest) = closeLoop st err ac (m :: rest) :=
  closeLoop_congr hpos (getResults_parseComplete hm rest)

/-- The description of a prepared statement is read as one. -/
@[simp] theorem closeLoop_describeStatement (hpos : st.expectedReadyForQueryCount > 0) (oids : List UInt32)
    (fields : Option (List String)) (rest : List BackendMessage) :
    closeLoop st err ac (.parseComplete :: .parameterDescription oids :: describeFields fields :: rest) =
      closeLoop st err ac rest := by
  cases fields <;> exact closeLoop_continue hpos rfl (by simp)

/-- The answer to the `Describe` and the `Execute` of a query. -/
theorem closeLoop_describeExecute (hpos : st.expectedReadyForQueryCount > 0) {o₃ o₄ : Outcome}
    (hne : o₄.emptyQuery = false) (rest : List BackendMessage) :
    closeLoop st err ac ((respond [.describe 'P' "", .execute] [o₃, o₄]).1 ++ rest) =
      closeLoop ((firstFailure [o₃, o₄]).elim st st.handleError)
        ((firstFailure [o₃, o₄]).elim err fun e => some (.pgError e)) ac rest := by
  rcases o₃ with ⟨_, _ | fields, _, _⟩ | ⟨_, e₃⟩
  all_goals rcases o₄ with ⟨_, _, rows, _ | commandTag⟩ | ⟨rows, e₄⟩
  all_goals simp_all [Outcome.emptyQuery, respond, reply, describeFields, firstFailure]

/-- The answer to a prepared query: a `BindComplete`, then the answer to its `Describe` and
`Execute`; or the error of its `Bind`. -/
theorem closeLoop_queryPrepared (hpos : st.expectedReadyForQueryCount > 0) {stmtName : String}
    {paramValues : List (Option (List UInt8))} {paramFormats resultFormats : List Int16}
    {o₂ o₃ o₄ : Outcome} (hne : o₄.emptyQuery = false) (rest : List BackendMessage) :
    closeLoop st err ac ((respond (Request.queryPrepared stmtName paramValues paramFormats
        resultFormats).messages [o₂, o₃, o₄]).1 ++ rest) =
      closeLoop ((firstFailure [o₂, o₃, o₄]).elim st st.handleError)
        ((firstFailure [o₂, o₃, o₄]).elim err fun e => some (.pgError e)) ac rest := by
  rcases o₂ with ⟨_, _, _, _⟩ | ⟨_, e₂⟩
  · have h := @closeLoop_describeExecute st err ac hpos o₃ o₄ hne rest
    simpa [Request.messages, respond, reply, firstFailure, hpos] using h
  · simp [Request.messages, respond, reply, firstFailure, hpos]

/-- `Close` reads the answer to any request the server carried out, when no query in it is
empty, to its end: the state after it records the answer's error, and so does the error `Close`
returns. -/
theorem closeLoop_respond (hpos : st.expectedReadyForQueryCount > 0) {r : Request}
    (hr : r.isStatement = true) {os : List Outcome} (hlen : os.length = r.messages.length)
    (hne : ∀ o ∈ os, o.emptyQuery = false) (rest : List BackendMessage) :
    closeLoop st err ac ((respond r.messages os).1 ++ rest) =
      closeLoop ((firstFailure os).elim st st.handleError)
        ((firstFailure os).elim err fun e => some (.pgError e)) ac rest := by
  cases r with
  | prepare name sql paramOIDs =>
    obtain ⟨o₁, o₂, rfl⟩ := List.length_eq_two.mp (by simpa [Request.messages] using hlen)
    rcases o₁ with ⟨_, _, _, _⟩ | ⟨_, e₁⟩
    · rcases o₂ with ⟨_, fields, _, _⟩ | ⟨_, e₂⟩
      · simp [Request.messages, respond, reply, firstFailure, hpos]
      · simp [Request.messages, respond, reply, firstFailure, hpos,
          closeLoop_parseComplete hpos (m := .errorResponse e₂) (by simp)]
    · simp [Request.messages, respond, reply, firstFailure, hpos]
  | deallocate name =>
    obtain ⟨o₁, rfl⟩ := List.length_eq_one_iff.mp (by simpa [Request.messages] using hlen)
    rcases o₁ with ⟨_, _, _, _⟩ | ⟨_, e₁⟩ <;> simp [Request.messages, respond, reply, firstFailure, hpos]
  | queryParams sql paramValues paramOIDs paramFormats resultFormats =>
    obtain ⟨o₁, o₂, o₃, o₄, rfl⟩ : ∃ o₁ o₂ o₃ o₄, os = [o₁, o₂, o₃, o₄] := by
      rcases os with _ | ⟨o₁, _ | ⟨o₂, _ | ⟨o₃, _ | ⟨o₄, _ | ⟨o₅, os⟩⟩⟩⟩⟩ <;>
        simp [Request.messages] at hlen
      exact ⟨o₁, o₂, o₃, o₄, rfl⟩
    · have h₄ : o₄.emptyQuery = false := hne o₄ (by simp)
      rcases o₁ with ⟨oids, fields, rows, commandTag⟩ | ⟨_, e₁⟩
      · -- the `ParseComplete` is followed by the answer to the messages of a prepared query,
        -- which starts with a `BindComplete` or an error, never with a `ParameterDescription`
        have hresp : (respond (Request.queryParams sql paramValues paramOIDs paramFormats
              resultFormats).messages [.success oids fields rows commandTag, o₂, o₃, o₄]).1 =
            .parseComplete :: (respond (Request.queryPrepared "" paramValues paramFormats
              resultFormats).messages [o₂, o₃, o₄]).1 := rfl
        obtain ⟨m, ms, hms, hm⟩ : ∃ m ms, (respond (Request.queryPrepared "" paramValues paramFormats
            resultFormats).messages [o₂, o₃, o₄]).1 = m :: ms ∧ ∀ oids, m ≠ .parameterDescription oids := by
          rcases o₂ with ⟨_, _, _, _⟩ | ⟨_, _⟩ <;> simp [Request.messages, respond, reply]
        rw [hresp, hms, List.cons_append, List.cons_append, closeLoop_parseComplete hpos hm,
          ← List.cons_append, ← hms, closeLoop_queryPrepared hpos h₄]
        rfl
      · simp [Request.messages, respond, reply, firstFailure, hpos]
  | queryPrepared stmtName paramValues paramFormats resultFormats =>
    obtain ⟨o₂, o₃, o₄, rfl⟩ := List.length_eq_three.mp (by simpa [Request.messages] using hlen)
    exact closeLoop_queryPrepared hpos (hne o₄ (by simp)) rest
  | flushRequest => simp [Request.isStatement] at hr
  | syncRequest => simp [Request.isStatement] at hr

/-- `Close` reads an answer to its end. -/
theorem closeLoop_answer {a : Answer} {skip : Bool} (ha : a.Given skip)
    (hpos : st.expectedReadyForQueryCount > 0) (rest : List BackendMessage) :
    ∃ err', closeLoop st err ac (a.response ++ rest) =
      closeLoop (if a.skipped then st else a.readState st) err' ac rest := by
  cases hs : a.skipped
  · by_cases hsync : a.request = .syncRequest
    · have hresp : a.response = [.readyForQuery] := by simp [Answer.response, hsync]
      refine ⟨err, ?_⟩
      rw [hresp, List.singleton_append, closeLoop_readyForQuery hpos]
      simp [Answer.readState, hsync]
    · have hst : a.request.isStatement = true := by
        have := ha.not_flush
        cases hr : a.request <;> simp_all [Request.isStatement]
      rw [Answer.response_of_statement hs hst, closeLoop_respond hpos hst ha.length ha.complete]
      refine ⟨(firstFailure a.outcomes).elim err fun e => some (.pgError e), ?_⟩
      simp [Answer.readState, hsync]
  · have hsync : a.request ≠ .syncRequest := (ha.skipped_next hs).2.1
    exact ⟨err, by simp [Answer.response_of_skipped hs hsync]⟩

end Close

/-- `Close` reads answers to their end, the last a sync's, with `ExpectedReadyForQuery` counting
their syncs: it stops after the last, with nothing left to read and no sync expected. -/
theorem closeLoop_answers {ac : Bool} : ∀ {skip : Bool} {D : List Answer} {st : PipelineState PgError}
    {err : Option PipelineError}, Chain skip D → (∀ a, D.getLast? = some a → a.request = .syncRequest) →
    st.expectedReadyForQueryCount = (D.countP (·.request.requestType == .pipelineSyncRequest) : Int) →
    ∃ st' err', closeLoop st err ac (D.map Answer.response).flatten = some (st', err', ac, []) ∧
      st'.expectedReadyForQueryCount = 0
  | _, [], st, err, _, _, hcount => ⟨st, err, closeLoop_of_zero (by simp [hcount]), by simpa using hcount⟩
  | _, a :: D, st, err, ⟨ha, hc⟩, hlast, hcount => by
    have hcons : ((a :: D).countP (·.request.requestType == .pipelineSyncRequest) : Int) =
        D.countP (·.request.requestType == .pipelineSyncRequest) + if a.request = .syncRequest then 1 else 0 := by
      by_cases hsync : a.request = .syncRequest
      · simp [hsync, Request.requestType]
      · simp [hsync, Request.requestType_eq_sync]
    -- a sync is still to come, so one is expected
    have hpos : st.expectedReadyForQueryCount > 0 := by
      have hmem : ∃ b ∈ a :: D, (b.request.requestType == .pipelineSyncRequest) = true := by
        obtain ⟨b, hb⟩ := List.getLast?_isSome.mpr (List.cons_ne_nil a D) |> Option.isSome_iff_exists.mp
        exact ⟨b, List.mem_of_getLast? hb, by simp [hlast b hb, Request.requestType]⟩
      rw [hcount]
      exact_mod_cast List.countP_pos_iff.mpr hmem
    have hlast' : ∀ b, D.getLast? = some b → b.request = .syncRequest := by
      intro b hb
      cases D with
      | nil => cases hb
      | cons b' D' => exact hlast b (by rw [List.getLast?_cons_cons]; exact hb)
    have hcount' : (if a.skipped then st else a.readState st).expectedReadyForQueryCount =
        (D.countP (·.request.requestType == .pipelineSyncRequest) : Int) := by
      cases hs : a.skipped
      · simp only [Bool.false_eq_true, if_false, Answer.readState_expectedReadyForQueryCount]
        rw [hcount, hcons]
        omega
      · have hsync := (ha.skipped_next hs).2.1
        simpa [hsync, hcons] using hcount
    obtain ⟨err', herr⟩ := @closeLoop_answer st err ac a _ ha hpos ((D.map Answer.response).flatten)
    obtain ⟨st', err'', hloop, hzero⟩ := closeLoop_answers hc hlast' hcount'
    exact ⟨st', err'', by rw [List.map_cons, List.flatten_cons, herr, hloop], hzero⟩


section Drain

variable {c : Conn}

/-- The last queue event is a sync's: so is the last answer. -/
theorem QueueSplit.getLast?_sync {inbox : List Request} {P : List PipelineRequestEvent}
    (hP : QueueSplit c inbox P) (hlast : ∀ v, P.getLast? = some v → v.requestType = .pipelineSyncRequest)
    {a : Answer} (ha : (c.delivered ++ c.held).getLast? = some a) : a.request = .syncRequest := by
  have hmap := congrArg List.getLast? hP.types
  rw [List.getLast?_map, List.getLast?_map, ha] at hmap
  obtain ⟨v, hv, hva⟩ := Option.map_eq_some_iff.mp hmap
  have hty : v.requestType = a.request.requestType := hva
  rw [← Request.requestType_eq_sync, ← hty]
  exact hlast v hv

/-- When `PendingSync` lets `Close` go on, in any state reached, `Close` reads exactly what the
server owes: it does not wait, it leaves nothing to read and no `ReadyForQuery` expected, the
server holds nothing more, and the connection stays open. -/
theorem close_drains (h : Reachable c) (hopen : c.pipeline.closed = false)
    (hsync : c.pipeline.state.pendingSync = false) :
    ∃ c' err, c.close = some (c', err) ∧ c'.received = [] ∧ c'.backend.sendBuffer = [] ∧
      c'.pipeline.state.expectedReadyForQueryCount = 0 ∧ c'.asyncClosed = c.asyncClosed := by
  have hinv := Inv.of_reachable h hopen
  obtain ⟨P, hP⟩ := hinv.queue
  obtain ⟨hsent, hlastq⟩ := hinv.flags.all_sent_of_not_pendingSync hsync
  have hq : c.pipeline.state.requestEventQueue = P ++ pendingEvents false c.sendBuffer := by
    simpa using hP.eq
  -- every event was written, so none is the send buffer's
  have hR : pendingEvents false c.sendBuffer = [] := by
    cases hR : pendingEvents false c.sendBuffer with
    | nil => rfl
    | cons v _ =>
      have h₁ := hsent v (by rw [hq, hR]; simp)
      rw [pendingEvents_sent false c.sendBuffer v (by rw [hR]; simp)] at h₁
      cases h₁
  rw [hR, List.append_nil] at hq
  rw [hq] at hlastq
  -- the last event is a sync's, and the server holds no sync
  have hheld : c.held = [] := by
    rcases List.eq_nil_or_concat c.held with hH | ⟨H', b, hH⟩
    · exact hH
    · have hb := hP.getLast?_sync hlastq (a := b) (by simp [hH])
      exact absurd hb (hinv.held_live b (by simp [hH])).2
  have hlastD : ∀ a, c.delivered.getLast? = some a → a.request = .syncRequest :=
    fun a ha => hP.getLast?_sync hlastq (by rw [hheld, List.append_nil]; exact ha)
  have hcount : c.pipeline.state.expectedReadyForQueryCount =
      (c.delivered.countP (·.request.requestType == .pipelineSyncRequest) : Int) := by
    have hsyncs := congrArg (List.countP (· == PipelineRequestType.pipelineSyncRequest)) hP.types
    simp only [List.countP_map, hheld, List.append_nil] at hsyncs
    rw [hinv.expected, hq]
    exact_mod_cast hsyncs
  have hchain : Chain c.pipeline.state.pgErr.isSome c.delivered := by
    simpa [hheld] using hinv.chain
  obtain ⟨st', err', hloop, hzero⟩ := @closeLoop_answers c.asyncClosed _ _ _ c.pipeline.err hchain hlastD hcount
  refine ⟨{ c with pipeline := ⟨st', err', true⟩, asyncClosed := c.asyncClosed, received := [] }, err', ?_, rfl,
    by simp [hinv.buffered, hheld], hzero, rfl⟩
  simp [Conn.close, hopen, hsync, hinv.received, hloop]

theorem close_drains_selectOne :
    ∃ c' err, selectOne.close = some (c', err) ∧ c'.received = [] ∧ c'.backend.sendBuffer = [] ∧
      c'.pipeline.state.expectedReadyForQueryCount = 0 ∧ c'.asyncClosed = selectOne.asyncClosed :=
  close_drains selectOne_reachable rfl rfl

end Drain

end Conn

end Pgx.Pgconn
