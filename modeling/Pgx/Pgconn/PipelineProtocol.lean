import Pgx.Pgconn.PipelineState

/-!
# The extended-query protocol under a pipeline

What a `Pipeline` writes and reads. Each `Send` method writes the messages of one request to the
send buffer; the server carries the messages out in order and answers each, and the pipeline's
`getResults` reads the answers back, one request at a time.

The server is PostgreSQL's backend as the protocol specifies it: it answers every message it
carries out, after an error it discards what it receives until a `Sync`, and it sends what it has
written when it reaches a `Sync` (with its `ReadyForQuery`), a `Flush`, or an error. What the
database makes of a message (a failure, the rows, the descriptions) is the server's choice, an
`Outcome`; the results below hold for every choice.

* `FrontendMessage`, `BackendMessage`, `Request` (the messages of each `Send` method),
  `Outcome`, `reply`, `respond`, `Backend.serve`;
* `getResults`, `getResultsPrepare`, `readRows` (the loop of `NextRow` and `Close`),
  `ResultReader.read`, `getResultsRead` (a call of `GetResults`' reading and, when it returns a
  result reader, its `Read`);
* `getResults_append` and its kin: a read that completes completes the same way on a longer
  stream;
* `getResultsRead_respond`: a read of the answer to any request, when no query is empty,
  consumes exactly that answer, whatever follows it; `getResults_emptyQuery`: the answer to an
  empty query is not consumed, and the read goes on into the next request's answer.
-/

namespace Pgx.Pgconn

/-- `*PgError`, by the fields `ErrorResponseToPgError` copies that its callers test. -/
structure PgError where
  severity : String
  code : String
  message : String
  deriving DecidableEq, Repr

/-- The values of a `DataRow`, one per column, `none` for SQL NULL. -/
abbrev Row := List (Option (List UInt8))

/-- The frontend messages a pipeline writes, with the fields it sets (`Execute` names the unnamed
portal and no row limit). -/
inductive FrontendMessage
  | parse (name query : String) (parameterOIDs : List UInt32)
  | bind (preparedStatement : String) (parameterFormatCodes : List Int16) (parameters : List (Option (List UInt8)))
      (resultFormatCodes : List Int16)
  | describe (objectType : Char) (name : String)
  | execute
  | close (objectType : Char) (name : String)
  | flush
  | sync
  deriving DecidableEq, Repr

/-- The backend messages a pipeline reads; a row description by the names of its fields. -/
inductive BackendMessage
  | parseComplete
  | bindComplete
  | closeComplete
  | noData
  | emptyQueryResponse
  | parameterDescription (parameterOIDs : List UInt32)
  | rowDescription (fields : List String)
  | dataRow (values : Row)
  | commandComplete (commandTag : String)
  | readyForQuery
  | errorResponse (err : PgError)
  deriving DecidableEq, Repr

/-- A request as a `Send` method writes it. -/
inductive Request
  | prepare (name sql : String) (paramOIDs : List UInt32)
  | deallocate (name : String)
  | queryParams (sql : String) (paramValues : List (Option (List UInt8))) (paramOIDs : List UInt32)
      (paramFormats resultFormats : List Int16)
  | queryPrepared (stmtName : String) (paramValues : List (Option (List UInt8)))
      (paramFormats resultFormats : List Int16)
  | flushRequest
  | syncRequest
  deriving DecidableEq, Repr

namespace Request

/-- The messages each `Send` method writes. -/
def messages : Request → List FrontendMessage
  | .prepare name sql paramOIDs => [.parse name sql paramOIDs, .describe 'S' name]
  | .deallocate name => [.close 'S' name]
  | .queryParams sql paramValues paramOIDs paramFormats resultFormats =>
    [.parse "" sql paramOIDs, .bind "" paramFormats paramValues resultFormats, .describe 'P' "", .execute]
  | .queryPrepared stmtName paramValues paramFormats resultFormats =>
    [.bind stmtName paramFormats paramValues resultFormats, .describe 'P' "", .execute]
  | .flushRequest => [.flush]
  | .syncRequest => [.sync]

/-- The type each `Send` method pushes on the queue. -/
def requestType : Request → PipelineRequestType
  | .prepare .. => .pipelinePrepare
  | .deallocate .. => .pipelineDeallocate
  | .queryParams .. => .pipelineQueryParams
  | .queryPrepared .. => .pipelineQueryPrepared
  | .flushRequest => .pipelineFlushRequest
  | .syncRequest => .pipelineSyncRequest

/-- A request the server carries out, as opposed to a flush or a sync request. -/
def isStatement : Request → Bool
  | .flushRequest | .syncRequest => false
  | _ => true

@[simp] theorem requestType_ne_nil (r : Request) : r.requestType ≠ .pipelineNil := by
  cases r <;> simp [requestType]

theorem requestType_eq_sync {r : Request} : r.requestType = .pipelineSyncRequest ↔ r = .syncRequest := by
  cases r <;> simp [requestType]

theorem requestType_eq_flush {r : Request} : r.requestType = .pipelineFlushRequest ↔ r = .flushRequest := by
  cases r <;> simp [requestType]

end Request

/-- The server's choice for a message it carries out. A success carries what a message of each
kind answers with: the parameter types and the fields of a `Describe` (`none` for `NoData`), the
rows and the command tag of an `Execute` (`none` for an empty query). A failure of an `Execute`
may come after some rows. -/
inductive Outcome
  | success (parameterOIDs : List UInt32) (fields : Option (List String)) (rows : List Row)
      (commandTag : Option String)
  | failure (rows : List Row) (err : PgError)
  deriving DecidableEq, Repr

/-- An `Execute` answered with `EmptyQueryResponse`. -/
def Outcome.emptyQuery : Outcome → Bool
  | .success _ _ _ none => true
  | _ => false

/-- `RowDescription`, or `NoData` for a statement without a result. -/
def describeFields : Option (List String) → BackendMessage
  | some fields => .rowDescription fields
  | none => .noData

/-- What the server writes for a message it carries out, for its choice of outcome. -/
def reply : FrontendMessage → Outcome → List BackendMessage
  | .flush, _ => []
  | .sync, _ => [.readyForQuery]
  | .execute, .failure rows err => rows.map .dataRow ++ [.errorResponse err]
  | _, .failure _ err => [.errorResponse err]
  | .parse .., .success .. => [.parseComplete]
  | .bind .., .success .. => [.bindComplete]
  | .describe 'S' _, .success parameterOIDs fields _ _ =>
    [.parameterDescription parameterOIDs, describeFields fields]
  | .describe _ _, .success _ fields _ _ => [describeFields fields]
  | .execute, .success _ _ rows (some commandTag) => rows.map .dataRow ++ [.commandComplete commandTag]
  | .execute, .success _ _ _ none => [.emptyQueryResponse]
  | .close .., .success .. => [.closeComplete]

/-- What a server that is not discarding writes for the messages of a request, one outcome for
each: the replies up to and including the first failure, and whether there was one. -/
def respond : List FrontendMessage → List Outcome → List BackendMessage × Bool
  | m :: ms, o :: os =>
    match o with
    | .failure .. => (reply m o, true)
    | .success .. => ((reply m o) ++ (respond ms os).1, (respond ms os).2)
  | _, _ => ([], false)

/-- The server's side of the connection: whether it discards messages until a `Sync`, and what
it has written and not yet sent. -/
structure Backend where
  ignoreTillSync : Bool
  sendBuffer : List BackendMessage
  deriving DecidableEq, Repr

/-- A server that has sent everything and discards nothing. -/
def Backend.idle : Backend := ⟨false, []⟩

/-- The server carries out the messages of one request, with its outcomes: the server after
them, and what it sends. -/
def Backend.serve (b : Backend) (r : Request) (os : List Outcome) : Backend × List BackendMessage :=
  match r with
  | .syncRequest => (⟨false, []⟩, b.sendBuffer ++ [.readyForQuery])
  | .flushRequest => if b.ignoreTillSync then (b, []) else (⟨false, []⟩, b.sendBuffer)
  | r =>
    if b.ignoreTillSync then (b, [])
    else
      let a := respond r.messages os
      -- an error is sent at once, and the server then discards until the next sync
      if a.2 then (⟨true, []⟩, b.sendBuffer ++ a.1) else (⟨false, b.sendBuffer ++ a.1⟩, [])

/-! ## What the pipeline reads -/

/-- `StatementDescription` as `getResultsPrepare` fills it (its name and text stay empty). -/
structure StatementDescription where
  paramOIDs : List UInt32
  fields : List String
  deriving DecidableEq, Repr

/-- `ResultReader`, by the fields a pipeline's result reader uses. -/
structure ResultReader where
  fieldDescriptions : List String
  commandTag : String
  commandConcluded : Bool
  closed : Bool
  err : Option PgError
  deriving DecidableEq, Repr

/-- `Result`, what `ResultReader.Read` returns. -/
structure Result where
  fieldDescriptions : List String
  rows : List Row
  commandTag : String
  err : Option PgError
  deriving DecidableEq, Repr

/-- The errors a pipeline returns: a `*PgError`, an `errors.New` text, or an error of the network
connection. -/
inductive PipelineError
  | pgError (err : PgError)
  | text (msg : String)
  | net
  deriving DecidableEq, Repr

/-- What `GetResults` returns: both `nil`, an error, or one of its results. -/
inductive Results
  | none
  | error (err : PipelineError)
  | resultReader (rr : ResultReader)
  | statementDescription (sd : StatementDescription)
  | closeComplete
  | pipelineSync
  deriving DecidableEq, Repr

/-- How a read of the connection ends: the pipeline's state after it, what it returns, whether it
closed the connection (`asyncClose`), and the messages left to read. -/
structure Read where
  state : PipelineState PgError
  results : Results
  asyncClose : Bool
  rest : List BackendMessage

/-- `getResultsPrepare`, after a `ParseComplete` that a `ParameterDescription` follows; `none`
where the messages run out and the read would wait. -/
def getResultsPrepare (st : PipelineState PgError) (psd : StatementDescription) :
    List BackendMessage → Option Read
  | [] => none
  | msg :: rest =>
    match msg with
    | .parameterDescription parameterOIDs => getResultsPrepare st { psd with paramOIDs := parameterOIDs } rest
    | .rowDescription fields => some ⟨st, .statementDescription { psd with fields := fields }, false, rest⟩
    | .noData => some ⟨st, .statementDescription psd, false, rest⟩
    | .errorResponse err => some ⟨st.handleError err, .error (.pgError err), false, rest⟩
    | .commandComplete _ =>
      some ⟨st, .error (.text "BUG: received CommandComplete while handling Describe"), true, rest⟩
    | .readyForQuery =>
      some ⟨st, .error (.text "BUG: received ReadyForQuery while handling Describe"), true, rest⟩
    | _ => getResultsPrepare st psd rest

/-- `getResults`; `none` where the messages run out and the read would wait. -/
def getResults (st : PipelineState PgError) : List BackendMessage → Option Read
  | [] => none
  | msg :: rest =>
    match msg with
    | .rowDescription fields => some ⟨st, .resultReader ⟨fields, "", false, false, none⟩, false, rest⟩
    | .commandComplete commandTag =>
      some ⟨st, .resultReader ⟨[], commandTag, true, true, none⟩, false, rest⟩
    | .parseComplete =>
      -- `peekMessage` waits for the next message, and leaves it to be read
      match rest with
      | [] => none
      | .parameterDescription _ :: _ => getResultsPrepare st ⟨[], []⟩ rest
      | _ => getResults st rest
    | .closeComplete => some ⟨st, .closeComplete, false, rest⟩
    | .readyForQuery => some ⟨st.handleReadyForQuery, .pipelineSync, false, rest⟩
    | .errorResponse err => some ⟨st.handleError err, .error (.pgError err), false, rest⟩
    | _ => getResults st rest

/-- `concludeCommand`; the first error is kept. -/
def ResultReader.concludeCommand (rr : ResultReader) (commandTag : String) (err : Option PgError) :
    ResultReader :=
  let rr := if err.isSome && rr.err.isNone then { rr with err := err } else rr
  if rr.commandConcluded then rr else { rr with commandTag := commandTag, commandConcluded := true }

/-- `NextRow` called until it returns false, on a pipeline's result reader, each row with the
field descriptions of the reader when it was read; then the reader, concluded. `none` where the
messages run out. -/
def readRows (st : PipelineState PgError) (rr : ResultReader) :
    List BackendMessage → Option (PipelineState PgError × ResultReader × List (List String × Row) ×
      List BackendMessage)
  | [] => if rr.commandConcluded then some (st, rr, [], []) else none
  | msg :: rest =>
    if rr.commandConcluded then some (st, rr, [], msg :: rest)
    else
      match msg with
      | .dataRow values =>
        (readRows st rr rest).map fun r => (r.1, r.2.1, (rr.fieldDescriptions, values) :: r.2.2.1, r.2.2.2)
      | .rowDescription fields => readRows st { rr with fieldDescriptions := fields } rest
      | .commandComplete commandTag => readRows st (rr.concludeCommand commandTag none) rest
      | .emptyQueryResponse => readRows st (rr.concludeCommand "" none) rest
      | .errorResponse err => readRows (st.handleError err) (rr.concludeCommand "" (some err)) rest
      | _ => readRows st rr rest

/-- `ResultReader.Read` on a pipeline's result reader: the rows `NextRow` gives, the field
descriptions as of the first row, and what `Close` returns. -/
def ResultReader.read (st : PipelineState PgError) (rr : ResultReader) (msgs : List BackendMessage) :
    Option (PipelineState PgError × Result × List BackendMessage) :=
  (readRows st rr msgs).map fun r =>
    (r.1, ⟨((r.2.2.1.head?).map Prod.fst).getD [], r.2.2.1.map Prod.snd, r.2.1.commandTag, r.2.1.err⟩,
      r.2.2.2)

/-- What a caller of `GetResults` sees: its results, and for a result reader what `Read` makes
of it. -/
inductive Got
  | none
  | error (err : PipelineError)
  | result (r : Result)
  | statementDescription (sd : StatementDescription)
  | closeComplete
  | pipelineSync
  deriving DecidableEq, Repr

/-- The reading of `GetResults` for a request, then the `Read` of the result reader it returns:
the state after both, what the caller sees, whether the connection was closed, and what is left
to read. -/
def getResultsRead (st : PipelineState PgError) (msgs : List BackendMessage) :
    Option (PipelineState PgError × Got × Bool × List BackendMessage) :=
  match getResults st msgs with
  | none => none
  | some ⟨st, results, asyncClose, rest⟩ =>
    match results with
    | .resultReader rr => (rr.read st rest).map fun r => (r.1, .result r.2.1, asyncClose, r.2.2)
    | .none => some (st, .none, asyncClose, rest)
    | .error err => some (st, .error err, asyncClose, rest)
    | .statementDescription sd => some (st, .statementDescription sd, asyncClose, rest)
    | .closeComplete => some (st, .closeComplete, asyncClose, rest)
    | .pipelineSync => some (st, .pipelineSync, asyncClose, rest)

/-! ## What each request reports -/

/-- The error of the first outcome that fails. -/
def firstFailure : List Outcome → Option PgError
  | [] => none
  | .failure _ err :: _ => some err
  | .success .. :: os => firstFailure os

/-- What a query reports, from the outcomes of its `Describe` and its `Execute`: with a row
description, the rows, the fields as of the first row, and the command tag or the error; without
one, the command tag or the error. -/
def queryGot : Outcome → Outcome → Got
  | .failure _ err, _ => .error (.pgError err)
  | .success _ (some fields) _ _, .success _ _ rows commandTag =>
    .result ⟨if rows = [] then [] else fields, rows, commandTag.getD "", none⟩
  | .success _ (some fields) _ _, .failure rows err =>
    .result ⟨if rows = [] then [] else fields, rows, "", some err⟩
  | .success _ none _ _, .success _ _ _ commandTag => .result ⟨[], [], commandTag.getD "", none⟩
  | .success _ none _ _, .failure _ err => .error (.pgError err)

/-- What a caller of `GetResults` should see for a request the server carried out with these
outcomes, one for each of its messages: the error of the first failure, or the request's own
result (a statement description, a query's result, a `CloseComplete`). -/
def answerGot : Request → List Outcome → Got
  | .prepare .., [.success .., .success parameterOIDs fields _ _] =>
    .statementDescription ⟨parameterOIDs, fields.getD []⟩
  | .deallocate _, [.success ..] => .closeComplete
  | .queryParams .., [.success .., .success .., d, e] => queryGot d e
  | .queryPrepared .., [.success .., d, e] => queryGot d e
  | _, os => ((firstFailure os).map fun err => Got.error (.pgError err)).getD .none

end Pgx.Pgconn

namespace Pgx.Pgconn

/-! ## Reads that complete, on longer streams -/

section Append

variable {st : PipelineState PgError}

theorem getResultsPrepare_append {psd : StatementDescription} :
    ∀ {msgs : List BackendMessage} {rd : Read}, getResultsPrepare st psd msgs = some rd →
      ∀ rest, getResultsPrepare st psd (msgs ++ rest) = some { rd with rest := rd.rest ++ rest }
  | [], _, h, _ => by simp [getResultsPrepare] at h
  | msg :: ms, rd, h, rest => by
    cases msg <;> simp only [getResultsPrepare, Option.some.injEq, List.cons_append] at h ⊢ <;>
      first | (subst h; rfl) | exact getResultsPrepare_append h rest

/-- After a `ParseComplete` that no `ParameterDescription` follows, the loop reads on. -/
theorem getResults_parseComplete {m : BackendMessage} (hm : ∀ oids, m ≠ .parameterDescription oids)
    (rest : List BackendMessage) :
    getResults st (.parseComplete :: m :: rest) = getResults st (m :: rest) := by
  cases m <;> first | exact absurd rfl (hm _) | rfl

theorem getResults_append : ∀ {msgs : List BackendMessage} {rd : Read}, getResults st msgs = some rd →
    ∀ rest, getResults st (msgs ++ rest) = some { rd with rest := rd.rest ++ rest }
  | [], _, h, _ => by simp [getResults] at h
  | msg :: ms, rd, h, rest => by
    cases msg
    case parseComplete =>
      -- the peeked message is in the stream already
      match ms, h with
      | [], h => simp [getResults] at h
      | m :: ms', h =>
        by_cases hm : ∃ oids, m = .parameterDescription oids
        · obtain ⟨oids, rfl⟩ := hm
          simp only [getResults, List.cons_append] at h ⊢
          exact getResultsPrepare_append h rest
        · simp only [not_exists] at hm
          rw [getResults_parseComplete hm] at h
          rw [List.cons_append, List.cons_append, getResults_parseComplete hm, ← List.cons_append]
          exact getResults_append h rest
    all_goals
      simp only [getResults, Option.some.injEq, List.cons_append] at h ⊢
      first | (subst h; rfl) | exact getResults_append h rest

/-- A reader whose command has concluded reads nothing. -/
theorem readRows_of_concluded {rr : ResultReader} (hc : rr.commandConcluded = true)
    (msgs : List BackendMessage) : readRows st rr msgs = some (st, rr, [], msgs) := by
  cases msgs <;> simp [readRows, hc]

theorem readRows_append : ∀ {st : PipelineState PgError} {rr : ResultReader} {msgs : List BackendMessage} {r},
    readRows st rr msgs = some r →
      ∀ rest, readRows st rr (msgs ++ rest) = some (r.1, r.2.1, r.2.2.1, r.2.2.2 ++ rest)
  | st, rr, msgs, r, h, rest => by
    cases hc : rr.commandConcluded
    case true =>
      rw [readRows_of_concluded hc] at h
      cases h
      exact readRows_of_concluded hc _
    case false =>
    match msgs, h with
    | [], h => simp [readRows, hc] at h
    | msg :: ms, h =>
      cases msg
      case dataRow values =>
        simp only [readRows, hc, Bool.false_eq_true, if_false] at h
        obtain ⟨r', hr', rfl⟩ := Option.map_eq_some_iff.mp h
        simp only [List.cons_append, readRows, hc, Bool.false_eq_true, if_false, readRows_append hr' rest,
          Option.map_some]
      all_goals
        simp only [readRows, hc, Bool.false_eq_true, if_false, List.cons_append] at h ⊢
        exact readRows_append h rest

theorem ResultReader.read_append {rr : ResultReader} {msgs : List BackendMessage} {r}
    (h : rr.read st msgs = some r) (rest : List BackendMessage) :
    rr.read st (msgs ++ rest) = some (r.1, r.2.1, r.2.2 ++ rest) := by
  obtain ⟨r', hr', rfl⟩ := Option.map_eq_some_iff.mp h
  simp [ResultReader.read, readRows_append hr' rest]

/-- A read that completes on a stream completes the same way on any longer stream: it never looks
past the messages it consumes and the one it peeks at. -/
theorem getResultsRead_append {msgs : List BackendMessage} {r}
    (h : getResultsRead st msgs = some r) (rest : List BackendMessage) :
    getResultsRead st (msgs ++ rest) = some (r.1, r.2.1, r.2.2.1, r.2.2.2 ++ rest) := by
  unfold getResultsRead at h ⊢
  cases hg : getResults st msgs with
  | none => simp [hg] at h
  | some rd =>
    rw [getResults_append hg rest]
    obtain ⟨st', results, ac, rest'⟩ := rd
    simp only [hg] at h
    cases results <;> simp only [Option.some.injEq] at h ⊢ <;> try (subst h; rfl)
    case resultReader rr =>
      obtain ⟨r', hr', rfl⟩ := Option.map_eq_some_iff.mp h
      simp [ResultReader.read_append hr' rest]

end Append

/-! ## Messages the loops pass over -/

section Skip

variable {st : PipelineState PgError}

/-- `getResults` passes over the rows of a result it has not opened. -/
@[simp] theorem getResults_dataRows (rows : List Row) (rest : List BackendMessage) :
    getResults st (rows.map .dataRow ++ rest) = getResults st rest := by
  induction rows with
  | nil => rfl
  | cons row rows ih => simpa only [List.map_cons, List.cons_append, getResults] using ih

/-- A result reader collects the rows, each with its field descriptions. -/
theorem readRows_dataRows {rr : ResultReader} (hc : rr.commandConcluded = false) (rows : List Row)
    (rest : List BackendMessage) :
    readRows st rr (rows.map .dataRow ++ rest) =
      (readRows st rr rest).map fun r => (r.1, r.2.1, rows.map (rr.fieldDescriptions, ·) ++ r.2.2.1, r.2.2.2) := by
  induction rows with
  | nil => simp
  | cons row rows ih =>
    simp only [List.map_cons, List.cons_append, readRows, hc, Bool.false_eq_true, if_false, ih,
      Option.map_map]
    rfl

/-- `Read` copies the field descriptions when it reads the first row. -/
@[simp] theorem fields_of_rows (fields : List String) (rows : List Row) :
    ((rows.head?).map fun _ => fields).getD [] = if rows = [] then [] else fields := by
  cases rows <;> simp

end Skip

/-! ## Reading the answer to one request -/

theorem respond_snd : ∀ (ms : List FrontendMessage) (os : List Outcome), os.length = ms.length →
    (respond ms os).2 = (firstFailure os).isSome
  | [], [], _ => rfl
  | m :: ms, o :: os, h => by
    cases o with
    | failure rows err => rfl
    | success parameterOIDs fields rows commandTag =>
      simp only [respond, firstFailure]
      exact respond_snd ms os (by simpa using h)

section Answer

variable {st : PipelineState PgError}

theorem getResultsRead_congr {msgs msgs' : List BackendMessage}
    (h : getResults st msgs = getResults st msgs') : getResultsRead st msgs = getResultsRead st msgs' := by
  unfold getResultsRead
  rw [h]

/-- The answer to the `Describe` and the `Execute` of a query, when it is not an empty query:
the read consumes all of it and reports the query's result. -/
theorem getResultsRead_describeExecute {o₃ o₄ : Outcome} (hne : o₄.emptyQuery = false) :
    getResultsRead st (respond [.describe 'P' "", .execute] [o₃, o₄]).1 =
      some ((firstFailure [o₃, o₄]).elim st st.handleError, queryGot o₃ o₄, false, []) := by
  rcases o₃ with ⟨_, _ | fields, _, _⟩ | ⟨_, err⟩
  · rcases o₄ with ⟨_, _, rows, _ | commandTag⟩ | ⟨rows, err⟩
    · simp [Outcome.emptyQuery] at hne
    · simp [respond, reply, describeFields, getResultsRead, getResults, firstFailure, queryGot,
        ResultReader.read, readRows_of_concluded]
    · simp [respond, reply, describeFields, getResultsRead, getResults, firstFailure, queryGot]
  · -- a row description opens a result reader, and `Read` collects the rows
    rcases o₄ with ⟨_, _, rows, _ | commandTag⟩ | ⟨rows, err⟩
    · simp [Outcome.emptyQuery] at hne
    all_goals simp [respond, reply, describeFields, getResultsRead, getResults, firstFailure,
      queryGot, ResultReader.read, readRows_dataRows, readRows, ResultReader.concludeCommand,
      Function.comp_def]
  · simp [respond, reply, getResultsRead, getResults, firstFailure, queryGot]

/-- The answer to a prepared query: a `BindComplete`, which the read passes over, then the answer
to its `Describe` and `Execute`; or the error of its `Bind`. -/
theorem getResultsRead_queryPrepared {stmtName : String} {paramValues : List (Option (List UInt8))}
    {paramFormats resultFormats : List Int16} {o₂ o₃ o₄ : Outcome} (hne : o₄.emptyQuery = false) :
    getResultsRead st
        (respond (Request.queryPrepared stmtName paramValues paramFormats resultFormats).messages
          [o₂, o₃, o₄]).1 =
      some ((firstFailure [o₂, o₃, o₄]).elim st st.handleError,
        answerGot (.queryPrepared stmtName paramValues paramFormats resultFormats) [o₂, o₃, o₄],
        false, []) := by
  rcases o₂ with ⟨oids, fields, rows, commandTag⟩ | ⟨_, err⟩
  · have hresp : (respond (Request.queryPrepared stmtName paramValues paramFormats resultFormats).messages
          [.success oids fields rows commandTag, o₃, o₄]).1 =
        .bindComplete :: (respond [.describe 'P' "", .execute] [o₃, o₄]).1 := rfl
    have hskip : getResults st (.bindComplete :: (respond [.describe 'P' "", .execute] [o₃, o₄]).1) =
        getResults st (respond [.describe 'P' "", .execute] [o₃, o₄]).1 := rfl
    rw [hresp, getResultsRead_congr hskip, getResultsRead_describeExecute hne]
    simp [firstFailure, answerGot]
  · simp [Request.messages, respond, reply, getResultsRead, getResults, firstFailure, answerGot]

/-- The answer to any request the server carries out, when no query in it is empty: the read
consumes exactly that answer, and reports the request's result or its first error, which it also
records in the pipeline's state. -/
theorem getResultsRead_respond {r : Request} (hr : r.isStatement = true) {os : List Outcome}
    (hlen : os.length = r.messages.length) (hne : ∀ o ∈ os, o.emptyQuery = false) :
    getResultsRead st (respond r.messages os).1 =
      some ((firstFailure os).elim st st.handleError, answerGot r os, false, []) := by
  cases r with
  | prepare name sql paramOIDs =>
    match os, hlen with
    | [o₁, o₂], _ =>
      rcases o₁ with ⟨_, _, _, _⟩ | ⟨_, err⟩
      · rcases o₂ with ⟨_, _ | fields, _, _⟩ | ⟨_, err⟩ <;>
          simp [Request.messages, respond, reply, describeFields, getResultsRead, getResults,
            getResultsPrepare, firstFailure, answerGot]
      · simp [Request.messages, respond, reply, getResultsRead, getResults, firstFailure, answerGot]
  | deallocate name =>
    match os, hlen with
    | [o₁], _ =>
      rcases o₁ with ⟨_, _, _, _⟩ | ⟨_, err⟩ <;>
        simp [Request.messages, respond, reply, getResultsRead, getResults, firstFailure, answerGot]
  | queryParams sql paramValues paramOIDs paramFormats resultFormats =>
    match os, hlen with
    | [o₁, o₂, o₃, o₄], _ =>
      have h₄ : o₄.emptyQuery = false := hne o₄ (by simp)
      rcases o₁ with ⟨oids, fields, rows, commandTag⟩ | ⟨_, err⟩
      · -- the `ParseComplete` is followed by the answer to the messages of a prepared query,
        -- which starts with a `BindComplete` or an error, never with a `ParameterDescription`
        have hresp : (respond (Request.queryParams sql paramValues paramOIDs paramFormats
              resultFormats).messages [.success oids fields rows commandTag, o₂, o₃, o₄]).1 =
            .parseComplete :: (respond (Request.queryPrepared "" paramValues paramFormats
              resultFormats).messages [o₂, o₃, o₄]).1 := rfl
        obtain ⟨m, ms, hms, hm⟩ : ∃ m ms, (respond (Request.queryPrepared "" paramValues paramFormats
            resultFormats).messages [o₂, o₃, o₄]).1 = m :: ms ∧ ∀ oids, m ≠ .parameterDescription oids := by
          rcases o₂ with ⟨_, _, _, _⟩ | ⟨_, _⟩ <;> simp [Request.messages, respond, reply]
        have hskip := @getResults_parseComplete st _ hm ms
        rw [← hms] at hskip
        have hgot : answerGot (.queryParams sql paramValues paramOIDs paramFormats resultFormats)
              [.success oids fields rows commandTag, o₂, o₃, o₄] =
            answerGot (.queryPrepared "" paramValues paramFormats resultFormats) [o₂, o₃, o₄] := by
          rcases o₂ with ⟨_, _, _, _⟩ | ⟨_, _⟩ <;> rfl
        rw [hresp, getResultsRead_congr hskip, getResultsRead_queryPrepared h₄, hgot]
        rfl
      · simp [Request.messages, respond, reply, getResultsRead, getResults, firstFailure, answerGot]
  | queryPrepared stmtName paramValues paramFormats resultFormats =>
    match os, hlen with
    | [o₂, o₃, o₄], _ => exact getResultsRead_queryPrepared (hne o₄ (by simp))
  | flushRequest => simp [Request.isStatement] at hr
  | syncRequest => simp [Request.isStatement] at hr

/-- The same, whatever follows the answer in the stream. -/
theorem getResultsRead_respond_append {r : Request} (hr : r.isStatement = true) {os : List Outcome}
    (hlen : os.length = r.messages.length) (hne : ∀ o ∈ os, o.emptyQuery = false)
    (rest : List BackendMessage) :
    getResultsRead st ((respond r.messages os).1 ++ rest) =
      some ((firstFailure os).elim st st.handleError, answerGot r os, false, rest) :=
  getResultsRead_append (getResultsRead_respond hr hlen hne) rest

/-- The answer to an empty query sent with `SendQueryParams` (`ParseComplete`, `BindComplete`,
`NoData`, `EmptyQueryResponse`) ends nothing the read waits for: it passes over all of it and
reads on into whatever follows. -/
theorem getResults_emptyQuery (sql : String) (paramValues : List (Option (List UInt8)))
    (paramOIDs : List UInt32) (paramFormats resultFormats : List Int16) (oids₁ oids₂ oids₃ oids₄ : List UInt32)
    (fields₁ fields₂ fields₄ : Option (List String)) (rows₁ rows₂ rows₃ rows₄ : List Row)
    (commandTag₁ commandTag₂ commandTag₃ : Option String) (rest : List BackendMessage) :
    getResults st ((respond (Request.queryParams sql paramValues paramOIDs paramFormats resultFormats).messages
        [.success oids₁ fields₁ rows₁ commandTag₁, .success oids₂ fields₂ rows₂ commandTag₂,
          .success oids₃ none rows₃ commandTag₃, .success oids₄ fields₄ rows₄ none]).1 ++ rest) =
      getResults st rest := by
  simp only [Request.messages, respond, reply, describeFields, List.nil_append, List.cons_append,
    List.append_nil]
  rw [getResults_parseComplete (by simp)]
  rfl

end Answer

/-! ## Every read consumes a message -/

theorem getResultsPrepare_rest_lt {st : PipelineState PgError} :
    ∀ {psd : StatementDescription} {msgs : List BackendMessage} {rd : Read},
      getResultsPrepare st psd msgs = some rd → rd.rest.length < msgs.length
  | _, [], _, h => by simp [getResultsPrepare] at h
  | psd, msg :: ms, rd, h => by
    cases msg <;> simp only [getResultsPrepare, Option.some.injEq] at h <;>
      first
        | (subst h; simp)
        | exact Nat.lt_succ_of_lt (getResultsPrepare_rest_lt h)

theorem getResults_rest_lt {st : PipelineState PgError} :
    ∀ {msgs : List BackendMessage} {rd : Read}, getResults st msgs = some rd → rd.rest.length < msgs.length
  | [], _, h => by simp [getResults] at h
  | msg :: ms, rd, h => by
    cases msg
    case parseComplete =>
      match ms, h with
      | [], h => simp [getResults] at h
      | m :: ms', h =>
        by_cases hm : ∃ oids, m = .parameterDescription oids
        · obtain ⟨oids, rfl⟩ := hm
          simp only [getResults] at h
          exact Nat.lt_succ_of_lt (getResultsPrepare_rest_lt h)
        · simp only [not_exists] at hm
          rw [getResults_parseComplete hm] at h
          exact Nat.lt_succ_of_lt (getResults_rest_lt h)
    all_goals
      simp only [getResults, Option.some.injEq] at h
      first
        | (subst h; simp)
        | exact Nat.lt_succ_of_lt (getResults_rest_lt h)

/-! ## Every message the server carries out is answered -/

theorem reply_ne_nil {m : FrontendMessage} (hm : m ≠ .flush) (o : Outcome) : reply m o ≠ [] := by
  -- only a `Describe`'s reply depends on its object type
  rcases o with ⟨_, _, _, _ | _⟩ | ⟨_, _⟩ <;> cases m <;> simp_all [reply] <;> split <;> simp_all

/-- A server that is not discarding answers a request's messages with at least one message. -/
theorem respond_ne_nil : ∀ {ms : List FrontendMessage} {os : List Outcome}, ms ≠ [] →
    os.length = ms.length → (∀ m ∈ ms, m ≠ .flush) → (respond ms os).1 ≠ []
  | m :: ms, o :: os, _, _, hm => by
    have hne := reply_ne_nil (hm m (by simp)) o
    cases o <;> simp [respond, hne]

theorem Request.messages_ne_nil (r : Request) : r.messages ≠ [] := by
  cases r <;> simp [Request.messages]

theorem Request.messages_not_flush {r : Request} (hr : r.isStatement = true) :
    ∀ m ∈ r.messages, m ≠ .flush := by
  cases r <;> simp_all [Request.messages, Request.isStatement]

end Pgx.Pgconn
