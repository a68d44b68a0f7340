import Mathlib.Tactic.SplitIfs
import Mathlib.Logic.Function.Basic
import Pgx.Lib.Transition

/-!
# Transactions and the savepoints of pseudo nested transactions

`dbTx.Begin` starts a pseudo nested transaction with `SAVEPOINT sp_n`, `n` taken from a counter of
the root transaction; `dbSimulatedNestedTx.Begin` hands the call to the root, so all levels share
that counter, and a `Begin` whose `SAVEPOINT` fails has used its number all the same. `Commit` and
`Rollback` of a nested transaction send `RELEASE SAVEPOINT sp_n` and `ROLLBACK TO SAVEPOINT sp_n`
for the number it was given, through the root's `Exec`, and mark it closed whatever the server
answers. The root's `Commit` reports a `COMMIT` that the server ended as a rollback (its command tag
is `ROLLBACK`) as `ErrTxCommitRollback`.

The server (`Server.run`) has PostgreSQL's semantics for one transaction: a savepoint remembers the
data as it was; `RELEASE` drops it and every later one; `ROLLBACK TO` restores its data and drops
the later ones, but keeps it. Any statement may fail, and the first error aborts the transaction:
it then refuses every command but `ROLLBACK TO SAVEPOINT`, which recovers it, and `COMMIT` and
`ROLLBACK`, which end it as a rollback. Whether the server meets an error on a command is not the
model's to decide: each call of the owner carries it (`Call.fails`), so the runs cover every pattern
of failures.

The owner uses the transactions well nested: it calls a method on the innermost open transaction,
or on one that is closed (`step`). Over every such run (`Inv.step`), the names are never reused,
each nested transaction's `Commit` and `Rollback` send the command for its own savepoint, and what
the server commits is exactly the writes made inside transactions that all committed.
-/

namespace Pgx.Tx

variable {α : Type}

/-! ### The server -/

/-- A command the server receives: the savepoint commands with the number of their name, `COMMIT`,
`ROLLBACK`, a statement that writes `c`, and one that changes no data. -/
inductive Command (α : Type)
  | savepoint (n : Nat)
  | release (n : Nat)
  | rollbackTo (n : Nat)
  | commit
  | rollback
  | write (c : α)
  | query
  deriving DecidableEq, Repr

/-- What `conn.Exec` returns for a command: its command tag, of which the code asks only whether it
is `ROLLBACK`, or the server's error. -/
inductive Reply
  | tag (rollback : Bool)
  | error
  deriving DecidableEq, Repr

/-- The server's transaction: the writes so far, the savepoints with the writes when each was set
(the latest first), what commits made durable, and whether an error has aborted it. -/
structure Server (α : Type) where
  current : List α
  savepoints : List (Nat × List α)
  persisted : List α
  aborted : Bool
  deriving DecidableEq, Repr

namespace Server

/-- An error aborts the transaction. -/
def abort (sv : Server α) : Server α := { sv with aborted := true }

/-- The transaction is over, and leaves no data, savepoint or abort behind. -/
def finish (sv : Server α) : Server α := { sv with current := [], savepoints := [], aborted := false }

/-- A statement inside the transaction: its effect `sv'`, unless the transaction is aborted or the
statement fails, which aborts it. -/
def attempt (sv : Server α) (fails : Bool) (sv' : Server α) : Server α × Reply :=
  if sv.aborted || fails then (sv.abort, .error) else (sv', .tag false)

/-- What the server does with a command and what it replies; `fails` is the error the statement
meets (a violated constraint, a serialization failure). A savepoint that does not exist is an error
of `RELEASE` and `ROLLBACK TO`. -/
def run (sv : Server α) (fails : Bool) : Command α → Server α × Reply
  | .savepoint n => sv.attempt fails { sv with savepoints := (n, sv.current) :: sv.savepoints }
  | .release n =>
    match sv.savepoints.dropWhile (·.1 ≠ n) with
    | [] => (sv.abort, .error)
    | _ :: rest => sv.attempt fails { sv with savepoints := rest }
  | .rollbackTo n =>
    match sv.savepoints.dropWhile (·.1 ≠ n) with
    | [] => (sv.abort, .error)
    | p :: rest =>
      if fails then (sv.abort, .error)
      else ({ sv with current := p.2, savepoints := p :: rest, aborted := false }, .tag true)
  | .commit =>
    if sv.aborted then (sv.finish, .tag true)
    else if fails then (sv.finish, .error)
    else ({ sv.finish with persisted := sv.persisted ++ sv.current }, .tag false)
  | .rollback => (sv.finish, if fails then .error else .tag true)
  | .write c => sv.attempt fails { sv with current := sv.current ++ [c] }
  | .query => sv.attempt fails sv

variable {sv : Server α}

theorem run_write (fails : Bool) (c : α) :
    sv.run fails (.write c) = sv.attempt fails { sv with current := sv.current ++ [c] } :=
  rfl

/-- `RELEASE` or `ROLLBACK TO` of a savepoint that exists: `RELEASE` needs a healthy transaction,
`ROLLBACK TO` recovers an aborted one. -/
theorem run_savepointEnd {n : Nat} {v : List α} {rest : List (Nat × List α)}
    (hd : sv.savepoints.dropWhile (·.1 ≠ n) = (n, v) :: rest) (fails commit : Bool) :
    sv.run fails (if commit then .release n else .rollbackTo n) =
      if fails || commit && sv.aborted then (sv.abort, .error)
      else if commit then ({ sv with savepoints := rest }, .tag false)
      else ({ sv with current := v, savepoints := (n, v) :: rest, aborted := false }, .tag true) := by
  cases commit <;> cases fails <;> cases hab : sv.aborted <;>
    simp only [Bool.false_eq_true, if_true, if_false, run, hd] <;> simp [attempt, hab]

/-- How the transaction ends: a `COMMIT` that finds it healthy and meets no error makes the data
durable; every other end leaves what was durable as it was. -/
theorem run_end (sv : Server α) (fails commit : Bool) :
    (commit = true ∧ sv.aborted = false ∧
        sv.run fails (if commit then .commit else .rollback) =
          ({ sv.finish with persisted := sv.persisted ++ sv.current }, .tag false)) ∨
      ((sv.run fails (if commit then .commit else .rollback)).1 = sv.finish ∧
        (commit && (sv.run fails (if commit then .commit else .rollback)).2 == .tag false) = false) := by
  cases commit <;> cases fails <;> cases hab : sv.aborted <;> simp [run, hab]

end Server

/-! ### The transactions -/

/-- A transaction the owner holds: the `dbTx`, or the `i`-th `dbSimulatedNestedTx` made. -/
inductive Handle
  | root
  | nested (i : Nat)
  deriving DecidableEq, Repr

/-- A method of `Tx`: `Exec` (and `CopyFrom`) with a write, and `read` for `Query`, `QueryRow`,
`Prepare` and `SendBatch`, which check and delegate as `Exec` does and change no data. -/
inductive Method (α : Type)
  | begin
  | commit
  | rollback
  | exec (c : α)
  | read
  deriving DecidableEq, Repr

/-- `ErrTxClosed`, an error of the server, or `ErrTxCommitRollback`. -/
inductive TxError
  | txClosed
  | server
  | commitRollback
  deriving DecidableEq, Repr

/-- The error `Exec` returns for a reply of the server. -/
def Reply.err : Reply → Option TxError
  | .tag _ => none
  | .error => some .server

/-- `dbSimulatedNestedTx`: the number of its savepoint, and whether it is closed. -/
structure NestedTx where
  savepointNum : Nat
  closed : Bool
  deriving DecidableEq, Repr

/-- The root `dbTx`, the nested transactions made from it, and the server. The rest is the model's:
the commands sent with the transaction each was sent for, the open nested transactions (innermost
last), each write the server took with the nested transactions open when it was made, where the
writes stood when each nested transaction began, which were rolled back and which released by a
`Rollback` or `Commit` that returned no error, and whether the root's `Commit` returned none. -/
structure State (α : Type) where
  savepointNum : Nat
  closed : Bool
  nested : List NestedTx
  server : Server α
  sent : List (Handle × Command α)
  openTxs : List Nat
  log : List (α × List Nat)
  beginAt : Nat → Nat
  rolledBack : Nat → Bool
  released : Nat → Bool
  committed : Bool

/-- The state after `BeginTx` returned. -/
def State.init : State α :=
  ⟨0, false, [], ⟨[], [], [], false⟩, [], [], [], fun _ => 0, fun _ => false, fun _ => false, false⟩

namespace State

/-- `conn.Exec` of a command sent for `h`: what the server does with it and replies. A write the
server takes is logged with the nested transactions open. -/
def send (s : State α) (fails : Bool) (h : Handle) (cmd : Command α) : State α × Reply :=
  match s.server.run fails cmd with
  | (sv, r) =>
    let log := match cmd, r with
      | .write c, .tag _ => s.log ++ [(c, s.openTxs)]
      | _, _ => s.log
    ({ s with server := sv, sent := s.sent ++ [(h, cmd)], log := log }, r)

/-- `dbTx.Exec`: `ErrTxClosed` once the root is closed. -/
def rootExec (s : State α) (fails : Bool) (h : Handle) (cmd : Command α) : State α × Option TxError :=
  if s.closed then (s, some .txClosed)
  else
    match s.send fails h cmd with
    | (s', r) => (s', r.err)

/-- `dbTx.Begin`: the counter goes up, and `SAVEPOINT sp_n` makes the nested transaction `n`. -/
def rootBegin (s : State α) (fails : Bool) : State α × Option TxError :=
  if s.closed then (s, some .txClosed)
  else
    let s := { s with savepointNum := s.savepointNum + 1 }
    let i := s.nested.length
    match s.send fails (.nested i) (.savepoint s.savepointNum) with
    | (s, .error) => (s, some .server)
    | (s, .tag _) =>
      ({ s with
          nested := s.nested ++ [⟨s.savepointNum, false⟩]
          openTxs := s.openTxs ++ [i]
          beginAt := Function.update s.beginAt i s.log.length }, none)

/-- `dbTx.Commit` (with the default `commit`) and `dbTx.Rollback`: closed whatever the server says;
a `COMMIT` whose command tag is `ROLLBACK` returns `ErrTxCommitRollback`. -/
def rootEnd (s : State α) (fails : Bool) (commit : Bool) : State α × Option TxError :=
  if s.closed then (s, some .txClosed)
  else
    match s.send fails .root (if commit then .commit else .rollback) with
    | (s', r) =>
      ({ s' with closed := true, committed := commit && r == .tag false },
        if commit && r == .tag true then some .commitRollback else r.err)

/-- `dbSimulatedNestedTx.Commit` and `Rollback` of the `i`-th: the command for its own savepoint
through the root's `Exec`, and then it is closed whatever the answer. -/
def nestedEnd (s : State α) (fails : Bool) (i : Nat) (sp : NestedTx) (commit : Bool) :
    State α × Option TxError :=
  match s.rootExec fails (.nested i) (if commit then .release sp.savepointNum else .rollbackTo sp.savepointNum) with
  | (s', err) =>
    ({ s' with
        nested := s'.nested.set i { sp with closed := true }
        openTxs := s'.openTxs.erase i
        released := Function.update s'.released i (commit && err.isNone)
        rolledBack := Function.update s'.rolledBack i (!commit && err.isNone) }, err)

/-- A method called on a transaction: what it returns and the state it leaves. -/
def call (s : State α) (fails : Bool) : Handle → Method α → State α × Option TxError
  | .root, .begin => s.rootBegin fails
  | .root, .commit => s.rootEnd fails true
  | .root, .rollback => s.rootEnd fails false
  | .root, .exec c => s.rootExec fails .root (.write c)
  | .root, .read => s.rootExec fails .root .query
  | .nested i, m =>
    match s.nested[i]? with
    | none => (s, none)
    | some sp =>
      if sp.closed then (s, some .txClosed)
      else
        match m with
        | .begin => s.rootBegin fails
        | .commit => s.nestedEnd fails i sp true
        | .rollback => s.nestedEnd fails i sp false
        | .exec c => s.rootExec fails (.nested i) (.write c)
        | .read => s.rootExec fails (.nested i) .query

/-- Whether a transaction the owner holds is closed. -/
def isClosed (s : State α) : Handle → Bool
  | .root => s.closed
  | .nested i => (s.nested[i]?.map (·.closed)).getD false

/-- The transaction the owner uses while it nests them well: the innermost open one. -/
def innermost (s : State α) : Handle :=
  match s.openTxs.getLast? with
  | none => .root
  | some i => .nested i

/-- The number of the `i`-th nested transaction's savepoint. -/
def numberOf (s : State α) (i : Nat) : Option Nat := s.nested[i]?.map (·.savepointNum)

/-- A nested transaction that is closed and neither released nor rolled back: its `Commit` or
`Rollback` met an error. -/
def Failed (s : State α) (i : Nat) : Prop :=
  i ∉ s.openTxs ∧ s.released i = false ∧ s.rolledBack i = false

end State

/-- A call of the owner: the transaction, the method, and whether the server meets an error on the
command the call sends. -/
structure Call (α : Type) where
  tx : Handle
  method : Method α
  fails : Bool

/-- A call of the owner, which nests its transactions well: on the innermost open transaction, or
on one that is closed. -/
def step (s : State α) (c : Call α) : Option (State α) :=
  if c.tx = s.innermost ∨ s.isClosed c.tx then some (s.call c.fails c.tx c.method).1 else none

/-! ### Savepoints whose names fall from the latest on -/

/-- Where the names of the savepoints fall from the latest on, the search for a name stops at its
savepoint, and every savepoint with a smaller name is among the ones after it. -/
theorem dropWhile_of_mem : ∀ {l : List (Nat × List α)}, (l.map Prod.fst).Pairwise (· > ·) →
    ∀ {n : Nat} {v : List α}, (n, v) ∈ l →
      ∃ rest, l.dropWhile (·.1 ≠ n) = (n, v) :: rest ∧ (∀ p ∈ l, p.1 < n → p ∈ rest) ∧ rest.Sublist l
  | [], _, _, _, h => absurd h List.not_mem_nil
  | (m, w) :: l, hs, n, v, h => by
    have hm : ∀ p ∈ l, m > p.1 := fun p hp => List.rel_of_pairwise_cons hs (List.mem_map_of_mem hp)
    have hl : (l.map Prod.fst).Pairwise (· > ·) := (List.pairwise_cons.mp hs).2
    by_cases hmn : m = n
    · subst hmn
      -- the name is the latest one, and no later savepoint has it
      have hw : w = v := by
        rcases List.mem_cons.mp h with h | h
        · exact (Prod.mk.inj h).2.symm
        · exact absurd (hm _ h) (Nat.lt_irrefl _)
      subst hw
      refine ⟨l, by simp, fun p hp hlt => ?_, List.sublist_cons_self _ _⟩
      rcases List.mem_cons.mp hp with rfl | hp
      · exact absurd hlt (Nat.lt_irrefl _)
      · exact hp
    · have h' : (n, v) ∈ l := by
        rcases List.mem_cons.mp h with h | h
        · exact absurd (Prod.mk.inj h).1.symm hmn
        · exact h
      obtain ⟨rest, hd, hlt, hsub⟩ := dropWhile_of_mem hl h'
      refine ⟨rest, by rw [List.dropWhile_cons_of_pos (by simpa using hmn), hd], fun p hp hpn => ?_, hsub.cons _⟩
      rcases List.mem_cons.mp hp with rfl | hp
      · exact absurd (Nat.lt_trans hpn (hm _ h')) (Nat.lt_irrefl _)
      · exact hlt p hp hpn

/-! ### What holds over every run -/

/-- A write survives while none of the nested transactions it was made in is rolled back. -/
def survives (rolledBack : Nat → Bool) (e : α × List Nat) : Bool := e.2.all fun i => !rolledBack i

/-- The writes of a part of the log that survive. -/
def surviving (rolledBack : Nat → Bool) (l : List (α × List Nat)) : List α :=
  (l.filter (survives rolledBack)).map Prod.fst

theorem surviving_append (rolledBack : Nat → Bool) (l₁ l₂ : List (α × List Nat)) :
    surviving rolledBack (l₁ ++ l₂) = surviving rolledBack l₁ ++ surviving rolledBack l₂ := by
  simp [surviving, List.filter_append]

theorem surviving_congr {rb rb' : Nat → Bool} {l : List (α × List Nat)}
    (h : ∀ e ∈ l, survives rb' e = survives rb e) : surviving rb' l = surviving rb l := by
  unfold surviving
  rw [List.filter_congr h]

/-- A write made with nested transactions none of which is rolled back survives. -/
theorem survives_of_forall {rolledBack : Nat → Bool} {e : α × List Nat} (h : ∀ i ∈ e.2, rolledBack i = false) :
    survives rolledBack e = true := by
  simp only [survives, List.all_eq_true, Bool.not_eq_eq_eq_not, Bool.not_true]
  exact h

/-- The numbers of the savepoints the sent commands set. -/
def savepointNames (sent : List (Handle × Command α)) : List Nat :=
  sent.filterMap fun e => match e.2 with
    | .savepoint n => some n
    | _ => none

/-- The writes of a part of the log made inside nested transactions that all committed. -/
def committedWrites (released : Nat → Bool) (l : List (α × List Nat)) : List α :=
  (l.filter fun e => e.2.all released).map Prod.fst

/-- A command that sets no savepoint leaves the names of those sent as they were. -/
theorem savepointNames_append_other {sent : List (Handle × Command α)} {h : Handle} {cmd : Command α}
    (hc : ∀ n, cmd ≠ .savepoint n) : savepointNames (sent ++ [(h, cmd)]) = savepointNames sent := by
  cases cmd with
  | savepoint n => exact absurd rfl (hc n)
  | _ => simp [savepointNames]

/-- The next `SAVEPOINT` takes the counter's next number. -/
theorem savepointNames_push {sent : List (Handle × Command α)} {n : Nat}
    (hn : savepointNames sent = List.range' 1 n) (h : Handle) :
    savepointNames (sent ++ [(h, .savepoint (n + 1))]) = List.range' 1 (n + 1) := by
  simp only [savepointNames, List.filterMap_append, List.filterMap_cons, List.filterMap_nil]
  rw [← savepointNames, hn, List.range'_concat]
  simp [Nat.add_comm]

/-- An element of a list with one more at its end. -/
theorem getElem?_concat_eq_some {β : Type} {l : List β} {x y : β} {j : Nat} (h : (l ++ [x])[j]? = some y) :
    (j < l.length ∧ l[j]? = some y) ∨ (j = l.length ∧ y = x) := by
  rw [List.getElem?_append] at h
  split_ifs at h with hlt
  · exact .inl ⟨hlt, h⟩
  · rw [List.getElem?_singleton] at h
    split_ifs at h with h0
    cases h
    exact .inr ⟨by omega, rfl⟩

/-! ### What holds over every run -/

/-- The numbers: the root's counter has named every `SAVEPOINT` sent, and each nested transaction has
the number of the one its `Begin` sent, larger than those of the nested transactions before it. -/
structure Names (s : State α) : Prop where
  names : savepointNames s.sent = List.range' 1 s.savepointNum
  numbers_le : ∀ i n, s.numberOf i = some n → n ≤ s.savepointNum
  numbers_lt : ∀ i j m n, s.numberOf i = some m → s.numberOf j = some n → i < j → m < n
  savepointSent : ∀ i n, s.numberOf i = some n → (Handle.nested i, Command.savepoint n) ∈ s.sent
  own : ∀ i k,
    (Handle.nested i, Command.release k) ∈ s.sent ∨ (Handle.nested i, Command.rollbackTo k) ∈ s.sent →
      s.numberOf i = some k

/-- The nested transactions that are open, in the order they began, and how the others ended. -/
structure Nesting (s : State α) : Prop where
  sorted : s.openTxs.Pairwise (· < ·)
  open_iff : ∀ i sp, s.nested[i]? = some sp → (sp.closed = false ↔ i ∈ s.openTxs)
  open_lt : ∀ i ∈ s.openTxs, i < s.nested.length
  open_alive : ∀ i ∈ s.openTxs, s.rolledBack i = false ∧ s.released i = false
  ended_lt : ∀ i, s.rolledBack i = true ∨ s.released i = true → i < s.nested.length
  released_rolledBack : ∀ i, s.released i = true → s.rolledBack i = false
  closed_open : s.closed = true → s.openTxs = []
  committed_closed : s.committed = true → s.closed = true

/-- Where the writes were made: every write since a nested transaction began was made inside it and
none before it was, and a write inside a nested transaction was made inside the open ones around it. -/
structure Writes (s : State α) : Prop where
  chains_lt : ∀ e ∈ s.log, ∀ i ∈ e.2, i < s.nested.length
  beginAt_le : ∀ i < s.nested.length, s.beginAt i ≤ s.log.length
  inside : ∀ i ∈ s.openTxs, ∀ e ∈ s.log.drop (s.beginAt i), i ∈ e.2
  before : ∀ i < s.nested.length, ∀ e ∈ s.log.take (s.beginAt i), ∀ j ∈ e.2, j < i
  around : ∀ e ∈ s.log, ∀ i ∈ e.2, ∀ j ∈ s.openTxs, j < i → j ∈ e.2

/-- The bookkeeping of the transactions: the numbers, the nesting and where the writes were made. -/
structure Shape (s : State α) : Prop extends Names s, Nesting s, Writes s

/-- What holds of every state the owner reaches. The server holds the surviving writes, and each
open nested transaction's savepoint those that survived when it began; a write inside a nested
transaction whose end failed has been rolled back with one around it, or the server's transaction
is still aborted; and a commit of the root made the writes of committed transactions durable. -/
structure Inv (s : State α) : Prop extends Shape s where
  current : s.closed = false → s.server.current = surviving s.rolledBack s.log
  savepoint : ∀ i n, s.numberOf i = some n → i ∈ s.openTxs →
    (n, surviving s.rolledBack (s.log.take (s.beginAt i))) ∈ s.server.savepoints
  savepoints_sorted : (s.server.savepoints.map Prod.fst).Pairwise (· > ·)
  savepoints_le : ∀ p ∈ s.server.savepoints, p.1 ≤ s.savepointNum
  recovered : s.closed = false → ∀ e ∈ s.log, ∀ i ∈ e.2, s.Failed i →
    (∃ j ∈ e.2, s.rolledBack j = true) ∨ (s.server.aborted = true ∧ ∀ j ∈ s.openTxs, j ∈ e.2)
  persisted : s.server.persisted = if s.committed then committedWrites s.released s.log else []

theorem inv_init : Inv (State.init : State α) where
  names := rfl
  numbers_le := by simp [State.init, State.numberOf]
  numbers_lt := by simp [State.init, State.numberOf]
  savepointSent := by simp [State.init, State.numberOf]
  own := by simp [State.init]
  sorted := List.Pairwise.nil
  open_iff := by simp [State.init]
  open_lt := by simp [State.init]
  open_alive := by simp [State.init]
  ended_lt := by simp [State.init]
  released_rolledBack := by simp [State.init]
  closed_open := by simp [State.init]
  committed_closed := by simp [State.init]
  chains_lt := by simp [State.init]
  beginAt_le := by simp [State.init]
  inside := by simp [State.init]
  before := by simp [State.init]
  around := by simp [State.init]
  current := by simp [State.init, surviving]
  savepoint := by simp [State.init]
  savepoints_sorted := List.Pairwise.nil
  savepoints_le := by simp [State.init]
  recovered := by simp [State.init]
  persisted := by simp [State.init]

/-! ### What each part of the invariant reads -/

section Frame

variable {s s' : State α}

theorem Nesting.congr (h : Nesting s) (ho : s'.openTxs = s.openTxs) (hn : s'.nested = s.nested)
    (hr : s'.rolledBack = s.rolledBack) (hl : s'.released = s.released) (hc : s'.closed = s.closed)
    (hk : s'.committed = s.committed) : Nesting s' where
  sorted := by rw [ho]; exact h.sorted
  open_iff := by rw [ho, hn]; exact h.open_iff
  open_lt := by rw [ho, hn]; exact h.open_lt
  open_alive := by rw [ho, hr, hl]; exact h.open_alive
  ended_lt := by rw [hn, hr, hl]; exact h.ended_lt
  released_rolledBack := by rw [hr, hl]; exact h.released_rolledBack
  closed_open := by rw [ho, hc]; exact h.closed_open
  committed_closed := by rw [hc, hk]; exact h.committed_closed

theorem Writes.congr (h : Writes s) (hlog : s'.log = s.log) (ho : s'.openTxs = s.openTxs)
    (hb : s'.beginAt = s.beginAt) (hn : s'.nested.length = s.nested.length) : Writes s' where
  chains_lt := by rw [hlog, hn]; exact h.chains_lt
  beginAt_le := by rw [hlog, hn, hb]; exact h.beginAt_le
  inside := by rw [hlog, ho, hb]; exact h.inside
  before := by rw [hlog, hn, hb]; exact h.before
  around := by rw [hlog, ho]; exact h.around

/-- A command sent with the nested transactions' numbers as they were keeps the numbers in order,
when the counter has named every `SAVEPOINT` sent and a `RELEASE` or `ROLLBACK TO` names the
savepoint of the transaction it is sent for. -/
theorem Names.append (h : Names s) {e : Handle × Command α} (hsent : s'.sent = s.sent ++ [e])
    (hnum : s'.numberOf = s.numberOf) (hle : s.savepointNum ≤ s'.savepointNum)
    (hnames : savepointNames s'.sent = List.range' 1 s'.savepointNum)
    (hown : ∀ i k, e = (.nested i, .release k) ∨ e = (.nested i, .rollbackTo k) → s.numberOf i = some k) :
    Names s' where
  names := hnames
  numbers_le := fun i n hn => Nat.le_trans (h.numbers_le i n ((congrFun hnum i).symm.trans hn)) hle
  numbers_lt := by rw [hnum]; exact h.numbers_lt
  savepointSent := fun i n hn => by
    rw [hsent]
    exact List.mem_append_left _ (h.savepointSent i n ((congrFun hnum i).symm.trans hn))
  own := by
    intro i k hk
    rw [hnum]
    simp only [hsent, List.mem_append, List.mem_singleton] at hk
    rcases hk with (hk | hk) | (hk | hk)
    · exact h.own i k (.inl hk)
    · exact hown i k (.inl hk.symm)
    · exact h.own i k (.inr hk)
    · exact hown i k (.inr hk.symm)

end Frame

/-! ### What each call does -/

namespace State

variable (s : State α) (fails : Bool)

/-- A command other than a write is sent without touching the log. -/
theorem send_of_not_write {cmd : Command α} (hcmd : ∀ c, cmd ≠ .write c) (h : Handle) :
    s.send fails h cmd =
      ({ s with server := (s.server.run fails cmd).1, sent := s.sent ++ [(h, cmd)] },
        (s.server.run fails cmd).2) := by
  cases cmd with
  | write c => exact absurd rfl (hcmd c)
  | _ => rfl

theorem send_write (h : Handle) (c : α) :
    s.send fails h (.write c) =
      if s.server.aborted || fails then
        ({ s with server := s.server.abort, sent := s.sent ++ [(h, .write c)] }, .error)
      else
        ({ s with
            server := { s.server with current := s.server.current ++ [c] }
            sent := s.sent ++ [(h, .write c)]
            log := s.log ++ [(c, s.openTxs)] }, .tag false) := by
  unfold send
  rw [Server.run_write, Server.attempt]
  split_ifs <;> rfl

theorem rootExec_of_open (hc : s.closed = false) (h : Handle) (cmd : Command α) :
    s.rootExec fails h cmd = ((s.send fails h cmd).1, (s.send fails h cmd).2.err) := by
  rw [rootExec, if_neg (by simp [hc])]

theorem rootBegin_of_open (hc : s.closed = false) :
    s.rootBegin fails =
      if s.server.aborted || fails then
        ({ s with
            savepointNum := s.savepointNum + 1
            server := s.server.abort
            sent := s.sent ++ [(.nested s.nested.length, .savepoint (s.savepointNum + 1))] }, some .server)
      else
        ({ s with
            savepointNum := s.savepointNum + 1
            server := { s.server with
              savepoints := (s.savepointNum + 1, s.server.current) :: s.server.savepoints }
            sent := s.sent ++ [(.nested s.nested.length, .savepoint (s.savepointNum + 1))]
            nested := s.nested ++ [⟨s.savepointNum + 1, false⟩]
            openTxs := s.openTxs ++ [s.nested.length]
            beginAt := Function.update s.beginAt s.nested.length s.log.length }, none) := by
  rw [rootBegin, if_neg (by simp [hc])]
  simp only [send, Server.run, Server.attempt]
  split_ifs <;> rfl

theorem rootEnd_of_open (hc : s.closed = false) {commit : Bool} {sv : Server α} {r : Reply}
    (hrun : s.server.run fails (if commit then .commit else .rollback) = (sv, r)) :
    s.rootEnd fails commit =
      ({ s with
          server := sv
          sent := s.sent ++ [(.root, if commit then .commit else .rollback)]
          closed := true
          committed := commit && r == .tag false },
        if commit && r == .tag true then some .commitRollback else r.err) := by
  rw [rootEnd, if_neg (by simp [hc]), send_of_not_write s fails (by cases commit <;> simp), hrun]

theorem nestedEnd_of_open (hc : s.closed = false) {i : Nat} {sp : NestedTx} {commit : Bool} {sv : Server α}
    {r : Reply} (hrun : s.server.run fails (if commit then .release sp.savepointNum else .rollbackTo sp.savepointNum) =
      (sv, r)) :
    s.nestedEnd fails i sp commit =
      ({ s with
          server := sv
          sent := s.sent ++ [(.nested i, if commit then .release sp.savepointNum else .rollbackTo sp.savepointNum)]
          nested := s.nested.set i { sp with closed := true }
          openTxs := s.openTxs.erase i
          released := Function.update s.released i (commit && r.err.isNone)
          rolledBack := Function.update s.rolledBack i (!commit && r.err.isNone) }, r.err) := by
  rw [nestedEnd, rootExec_of_open s fails hc, send_of_not_write s fails (by cases commit <;> simp), hrun]

end State

variable {s : State α}

theorem State.numberOf_eq_some {i n : Nat} :
    s.numberOf i = some n ↔ ∃ sp, s.nested[i]? = some sp ∧ sp.savepointNum = n :=
  Option.map_eq_some_iff

theorem State.lt_of_numberOf {i n : Nat} (h : s.numberOf i = some n) : i < s.nested.length := by
  obtain ⟨sp, hsp, -⟩ := State.numberOf_eq_some.mp h
  exact (List.getElem?_eq_some_iff.mp hsp).1

/-- Closing a nested transaction keeps every number. -/
theorem State.numberOf_set {i : Nat} {sp : NestedTx} (hsp : s.nested[i]? = some sp) (j : Nat) :
    (s.nested.set i { sp with closed := true })[j]?.map (·.savepointNum) = s.numberOf j := by
  unfold State.numberOf
  by_cases hij : i = j
  · subst hij
    rw [List.getElem?_set_self (List.getElem?_eq_some_iff.mp hsp).1, hsp]
    rfl
  · rw [List.getElem?_set_ne hij]

/-- While the root is open it has not committed, and nothing is durable. -/
theorem Inv.uncommitted (hi : Inv s) (hc : s.closed = false) : s.committed = false ∧ s.server.persisted = [] := by
  have hk : s.committed = false := Bool.eq_false_iff.mpr fun hk => by simp [hi.committed_closed hk] at hc
  exact ⟨hk, by simpa [hk] using hi.persisted⟩

/-- A command the server refuses, or one that changes no data, keeps the invariant: the data, the
savepoints and what is durable stay, an abort stays, and the counter has named the `SAVEPOINT`s. -/
theorem Inv.keeps (hi : Inv s) (hc : s.closed = false) {num : Nat} {sv : Server α} {e : Handle × Command α}
    (hnum : s.savepointNum ≤ num) (hnames : savepointNames (s.sent ++ [e]) = List.range' 1 num)
    (hown : ∀ i k, e = (.nested i, .release k) ∨ e = (.nested i, .rollbackTo k) → s.numberOf i = some k)
    (hcur : sv.current = s.server.current) (hsps : sv.savepoints = s.server.savepoints)
    (hpers : sv.persisted = s.server.persisted) (hab : s.server.aborted = true → sv.aborted = true) :
    Inv { s with savepointNum := num, server := sv, sent := s.sent ++ [e] } where
  toNames := hi.toNames.append rfl rfl hnum hnames hown
  toNesting := hi.toNesting.congr rfl rfl rfl rfl rfl rfl
  toWrites := hi.toWrites.congr rfl rfl rfl rfl
  current := fun _ => hcur.trans (hi.current hc)
  savepoint := fun i n hn hio => by
    dsimp only
    rw [hsps]
    exact hi.savepoint i n hn hio
  savepoints_sorted := by dsimp only; rw [hsps]; exact hi.savepoints_sorted
  savepoints_le := fun p hp => Nat.le_trans (hi.savepoints_le p (hsps ▸ hp)) hnum
  recovered := fun _ e he i hie hf => (hi.recovered hc e he i hie hf).imp_right fun h => ⟨hab h.1, h.2⟩
  persisted := by dsimp only; rw [hpers]; exact hi.persisted

/-- A write the server takes, with the root open. -/
theorem Inv.write (hi : Inv s) (hc : s.closed = false) (hab : s.server.aborted = false) (h : Handle) (c : α) :
    Inv { s with
      server := { s.server with current := s.server.current ++ [c] }
      sent := s.sent ++ [(h, .write c)]
      log := s.log ++ [(c, s.openTxs)] } := by
  have hnew : survives s.rolledBack (c, s.openTxs) = true := survives_of_forall fun i hi' => (hi.open_alive i hi').1
  obtain ⟨hcommitted, hpers⟩ := hi.uncommitted hc
  exact {
    toNames := hi.toNames.append rfl rfl (Nat.le_refl _)
      (by rw [savepointNames_append_other (by simp)]; exact hi.names) (by simp)
    toNesting := hi.toNesting.congr rfl rfl rfl rfl rfl rfl
    chains_lt := by
      intro e he i hie
      rcases List.mem_append.mp he with he | he
      · exact hi.chains_lt e he i hie
      · rw [List.mem_singleton] at he
        subst he
        exact hi.open_lt i hie
    beginAt_le := fun i hlt => by
      have := hi.beginAt_le i hlt
      simp only [List.length_append, List.length_singleton]
      omega
    inside := by
      intro i hio e he
      rw [List.drop_append_of_le_length (hi.beginAt_le i (hi.open_lt i hio))] at he
      rcases List.mem_append.mp he with he | he
      · exact hi.inside i hio e he
      · rw [List.mem_singleton] at he
        subst he
        exact hio
    before := by
      intro i hlt e he
      rw [List.take_append_of_le_length (hi.beginAt_le i hlt)] at he
      exact hi.before i hlt e he
    around := by
      intro e he i hie j hj hji
      rcases List.mem_append.mp he with he | he
      · exact hi.around e he i hie j hj hji
      · rw [List.mem_singleton] at he
        subst he
        exact hj
    current := fun _ => by
      simp only
      rw [hi.current hc, surviving_append]
      simp [surviving, hnew]
    savepoint := by
      intro i n hn hio
      simp only
      rw [List.take_append_of_le_length (hi.beginAt_le i (hi.open_lt i hio))]
      exact hi.savepoint i n hn hio
    savepoints_sorted := hi.savepoints_sorted
    savepoints_le := hi.savepoints_le
    recovered := by
      intro _ e he i hie hf
      rcases List.mem_append.mp he with he | he
      · -- the transaction was healthy, so a failed end was rolled back already
        exact .inl ((hi.recovered hc e he i hie hf).resolve_right fun h => by simp [hab] at h)
      · rw [List.mem_singleton] at he
        subst he
        exact absurd hie hf.1
    persisted := by simp [hcommitted, hpers] }

/-- `Exec` and the reading methods, with the root open: a statement the server takes or refuses. -/
theorem Inv.rootExec (hi : Inv s) (hc : s.closed = false) (fails : Bool) (h : Handle) {cmd : Command α}
    (hcmd : (∃ c, cmd = .write c) ∨ cmd = .query) : Inv (s.rootExec fails h cmd).1 := by
  have hnames : ∀ cmd : Command α, (∀ n, cmd ≠ .savepoint n) →
      savepointNames (s.sent ++ [(h, cmd)]) = List.range' 1 s.savepointNum := fun cmd hcmd => by
    rw [savepointNames_append_other hcmd]
    exact hi.names
  rw [State.rootExec_of_open s fails hc]
  rcases hcmd with ⟨c, rfl⟩ | rfl
  · rw [State.send_write]
    split_ifs with hab
    · exact hi.keeps hc (Nat.le_refl _) (hnames _ (by simp)) (by simp) rfl rfl rfl fun _ => rfl
    · exact hi.write hc (by simp only [Bool.or_eq_true, not_or, Bool.not_eq_true] at hab; exact hab.1) h c
  · rw [State.send_of_not_write s fails (by simp)]
    show Inv { s with server := (s.server.attempt fails s.server).1, sent := _ }
    unfold Server.attempt
    split_ifs
    · exact hi.keeps hc (Nat.le_refl _) (hnames _ (by simp)) (by simp) rfl rfl rfl fun _ => rfl
    · exact hi.keeps hc (Nat.le_refl _) (hnames _ (by simp)) (by simp) rfl rfl rfl id

/-- A `SAVEPOINT` the server takes, with the root open: a new nested transaction, innermost. -/
theorem Inv.beginSavepoint (hi : Inv s) (hc : s.closed = false) (hab : s.server.aborted = false) :
    Inv { s with
      savepointNum := s.savepointNum + 1
      server := { s.server with savepoints := (s.savepointNum + 1, s.server.current) :: s.server.savepoints }
      sent := s.sent ++ [(.nested s.nested.length, .savepoint (s.savepointNum + 1))]
      nested := s.nested ++ [⟨s.savepointNum + 1, false⟩]
      openTxs := s.openTxs ++ [s.nested.length]
      beginAt := Function.update s.beginAt s.nested.length s.log.length } := by
  -- the new nested transaction comes after all others: nothing open, written or saved names it
  have hupd : ∀ i, i < s.nested.length →
      Function.update s.beginAt s.nested.length s.log.length i = s.beginAt i :=
    fun i hlt => Function.update_of_ne (Nat.ne_of_lt hlt) _ _
  have hnum : ∀ i n, (s.nested ++ [⟨s.savepointNum + 1, false⟩])[i]?.map (·.savepointNum) = some n →
      (i < s.nested.length ∧ s.numberOf i = some n) ∨ (i = s.nested.length ∧ n = s.savepointNum + 1) := by
    intro i n h
    obtain ⟨sp, hsp, rfl⟩ := Option.map_eq_some_iff.mp h
    rcases getElem?_concat_eq_some hsp with ⟨hlt, hsp⟩ | ⟨rfl, rfl⟩
    · exact .inl ⟨hlt, State.numberOf_eq_some.mpr ⟨sp, hsp, rfl⟩⟩
    · exact .inr ⟨rfl, rfl⟩
  have hold : ∀ i n, s.numberOf i = some n →
      (s.nested ++ [⟨s.savepointNum + 1, false⟩])[i]?.map (·.savepointNum) = some n := fun i n h => by
    rw [List.getElem?_append_left (State.lt_of_numberOf h)]
    exact h
  have hfresh : s.rolledBack s.nested.length = false ∧ s.released s.nested.length = false := by
    constructor <;> refine Bool.eq_false_iff.mpr fun h => Nat.lt_irrefl s.nested.length (hi.ended_lt _ ?_)
    · exact .inl h
    · exact .inr h
  exact {
    names := savepointNames_push hi.names _
    numbers_le := by
      intro i n h
      rcases hnum i n h with ⟨_, h⟩ | ⟨_, rfl⟩
      · exact Nat.le_succ_of_le (hi.numbers_le i n h)
      · exact (Nat.le_refl _)
    numbers_lt := by
      intro i j m n hm hn hij
      rcases hnum i m hm with ⟨hi', hm⟩ | ⟨rfl, rfl⟩ <;> rcases hnum j n hn with ⟨hj', hn⟩ | ⟨rfl, rfl⟩
      · exact hi.numbers_lt i j m n hm hn hij
      · exact Nat.lt_succ_of_le (hi.numbers_le i m hm)
      · omega
      · omega
    savepointSent := by
      intro i n h
      rcases hnum i n h with ⟨_, h⟩ | ⟨rfl, rfl⟩
      · exact List.mem_append_left _ (hi.savepointSent i n h)
      · exact List.mem_append_right _ (List.mem_singleton_self _)
    own := fun i k hk => hold i k (hi.own i k (by simpa using hk))
    sorted := List.pairwise_append.mpr ⟨hi.sorted, List.pairwise_singleton _ _,
      fun a ha b hb => by rw [List.mem_singleton.mp hb]; exact hi.open_lt a ha⟩
    open_iff := by
      intro i sp h
      rcases getElem?_concat_eq_some h with ⟨hlt, h⟩ | ⟨rfl, rfl⟩
      · rw [hi.open_iff i sp h, List.mem_append, List.mem_singleton]
        exact ⟨.inl, fun h' => h'.resolve_right (Nat.ne_of_lt hlt)⟩
      · simp
    open_lt := by
      intro i hio
      simp only [List.length_append, List.length_singleton]
      rcases List.mem_append.mp hio with hio | hio
      · exact Nat.lt_succ_of_lt (hi.open_lt i hio)
      · rw [List.mem_singleton.mp hio]
        exact Nat.lt_succ_self s.nested.length
    open_alive := by
      intro i hio
      rcases List.mem_append.mp hio with hio | hio
      · exact hi.open_alive i hio
      · rw [List.mem_singleton.mp hio]
        exact hfresh
    ended_lt := fun i hr => by
      simp only [List.length_append, List.length_singleton]
      exact Nat.lt_succ_of_lt (hi.ended_lt i hr)
    released_rolledBack := hi.released_rolledBack
    closed_open := fun h => absurd h (by simp [hc])
    committed_closed := hi.committed_closed
    chains_lt := fun e he i hie => by
      simp only [List.length_append, List.length_singleton]
      exact Nat.lt_succ_of_lt (hi.chains_lt e he i hie)
    beginAt_le := by
      intro i hlt
      dsimp only
      simp only [List.length_append, List.length_singleton] at hlt
      rcases Nat.lt_succ_iff_lt_or_eq.mp hlt with hlt | rfl
      · rw [hupd i hlt]
        exact hi.beginAt_le i hlt
      · simp
    inside := by
      intro i hio e he
      dsimp only at hio he ⊢
      rcases List.mem_append.mp hio with hio | hio
      · rw [hupd i (hi.open_lt i hio)] at he
        exact hi.inside i hio e he
      · rw [List.mem_singleton.mp hio, Function.update_self, List.drop_length] at he
        exact absurd he List.not_mem_nil
    before := by
      intro i hlt e he j hj
      dsimp only at he
      simp only [List.length_append, List.length_singleton] at hlt
      rcases Nat.lt_succ_iff_lt_or_eq.mp hlt with hlt | rfl
      · rw [hupd i hlt] at he
        exact hi.before i hlt e he j hj
      · rw [Function.update_self, List.take_length] at he
        exact hi.chains_lt e he j hj
    around := by
      intro e he i hie j hj hji
      rcases List.mem_append.mp hj with hj | hj
      · exact hi.around e he i hie j hj hji
      · -- the new transaction comes after every one a write was made in
        rw [List.mem_singleton.mp hj] at hji
        exact absurd (hi.chains_lt e he i hie) (Nat.lt_asymm hji)
    current := hi.current
    savepoint := by
      intro i n hn hio
      dsimp only at hio ⊢
      rcases hnum i n hn with ⟨hlt, hn⟩ | ⟨rfl, rfl⟩
      · have hio : i ∈ s.openTxs := (List.mem_append.mp hio).resolve_right fun h =>
          Nat.ne_of_lt hlt (List.mem_singleton.mp h)
        rw [hupd i hlt]
        exact List.mem_cons_of_mem _ (hi.savepoint i n hn hio)
      · rw [Function.update_self, List.take_length, ← hi.current hc]
        exact List.mem_cons_self
    savepoints_sorted := by
      refine List.pairwise_cons.mpr ⟨fun a ha => ?_, hi.savepoints_sorted⟩
      obtain ⟨p, hp, rfl⟩ := List.mem_map.mp ha
      have := hi.savepoints_le p hp
      omega
    savepoints_le := by
      intro p hp
      rcases List.mem_cons.mp hp with rfl | hp
      · exact (Nat.le_refl _)
      · exact Nat.le_succ_of_le (hi.savepoints_le p hp)
    recovered := by
      intro _ e he i hie hf
      -- the transaction was healthy, so a failed end was rolled back already
      have hf' : s.Failed i := ⟨fun h => hf.1 (List.mem_append_left _ h), hf.2⟩
      exact .inl ((hi.recovered hc e he i hie hf').resolve_right fun h => by simp [hab] at h)
    persisted := hi.persisted }

/-- `Begin`, with the root open: a new nested transaction, or a `SAVEPOINT` the server refuses,
which uses a number all the same. -/
theorem Inv.rootBegin (hi : Inv s) (hc : s.closed = false) (fails : Bool) : Inv (s.rootBegin fails).1 := by
  rw [State.rootBegin_of_open s fails hc]
  split_ifs with hab
  · exact hi.keeps hc (Nat.le_succ _) (savepointNames_push hi.names _) (by simp) rfl rfl rfl fun _ => rfl
  · exact hi.beginSavepoint hc (by simp only [Bool.or_eq_true, not_or, Bool.not_eq_true] at hab; exact hab.1)

/-- With nothing open and the transaction healthy, the surviving writes are those made inside
nested transactions that all committed: a write of one whose end failed was rolled back with a
transaction around it. -/
theorem Inv.committedWrites_eq (hi : Inv s) (hc : s.closed = false) (hnone : s.openTxs = [])
    (hab : s.server.aborted = false) : committedWrites s.released s.log = surviving s.rolledBack s.log := by
  unfold committedWrites surviving
  congr 1
  refine List.filter_congr fun e he => ?_
  rw [Bool.eq_iff_iff]
  simp only [survives, List.all_eq_true, Bool.not_eq_eq_eq_not, Bool.not_true]
  constructor
  · intro hall i hie
    exact hi.released_rolledBack i (hall i hie)
  · intro halive i hie
    by_contra hrel
    have hf : s.Failed i := ⟨by simp [hnone], by simpa using hrel, halive i hie⟩
    rcases hi.recovered hc e he i hie hf with ⟨j, hj, hrb⟩ | ⟨habt, -⟩
    · simp [halive j hj] at hrb
    · simp [hab] at habt

/-- `Commit` or `Rollback` of the root, with no nested transaction open: the root is closed, and a
commit the server takes makes the writes of committed transactions durable. -/
theorem Inv.rootEnd (hi : Inv s) (hc : s.closed = false) (hnone : s.openTxs = []) (fails commit : Bool) :
    Inv (s.rootEnd fails commit).1 := by
  rcases hrun : s.server.run fails (if commit then .commit else .rollback) with ⟨sv, r⟩
  rw [State.rootEnd_of_open s fails hc hrun]
  obtain ⟨-, hpers⟩ := hi.uncommitted hc
  obtain ⟨hsps, hpers'⟩ : sv.savepoints = [] ∧
      sv.persisted = if (commit && r == .tag false) then committedWrites s.released s.log else [] := by
    rcases Server.run_end s.server fails commit with ⟨rfl, hab, hr⟩ | ⟨hr1, hr2⟩
    · -- the transaction was healthy and committed: what it held is durable
      rw [hrun, Prod.mk.injEq] at hr
      obtain ⟨rfl, rfl⟩ := hr
      simp [Server.finish, hpers, hi.current hc, hi.committedWrites_eq hc hnone hab]
    · rw [hrun] at hr1 hr2
      subst hr1
      simp [Server.finish, hr2, hpers]
  exact {
    toNames := hi.toNames.append rfl rfl (Nat.le_refl _)
      (by rw [savepointNames_append_other (by cases commit <;> simp)]; exact hi.names) (by simp)
    toNesting := { hi.toNesting with
      closed_open := fun _ => hnone
      committed_closed := fun _ => rfl }
    toWrites := hi.toWrites.congr rfl rfl rfl rfl
    current := fun h => absurd h (by simp)
    savepoint := fun i _ _ hio => absurd hio (by simp [hnone])
    savepoints_sorted := by dsimp only; rw [hsps]; exact List.Pairwise.nil
    savepoints_le := by dsimp only; rw [hsps]; simp
    recovered := fun h => absurd h (by simp)
    persisted := hpers' }

/-- A write without nested transaction `i` survives as before when `i` is rolled back. -/
theorem survives_update_of_not_mem {rb : Nat → Bool} {i : Nat} {e : α × List Nat} (h : i ∉ e.2) :
    survives (Function.update rb i true) e = survives rb e := by
  rw [Bool.eq_iff_iff]
  simp only [survives, List.all_eq_true, Bool.not_eq_eq_eq_not, Bool.not_true]
  refine forall₂_congr fun j hj => ?_
  have hji : j ≠ i := fun hji => h (hji ▸ hj)
  rw [Function.update_of_ne hji]

/-- Rolling back the innermost open transaction leaves the writes that survived when it began. -/
theorem Inv.surviving_rollback (hi : Inv s) {i : Nat} (hio : i ∈ s.openTxs) :
    surviving (Function.update s.rolledBack i true) s.log = surviving s.rolledBack (s.log.take (s.beginAt i)) := by
  -- the writes before it began were not made inside it, and those since were
  have hbefore : surviving (Function.update s.rolledBack i true) (s.log.take (s.beginAt i)) =
      surviving s.rolledBack (s.log.take (s.beginAt i)) :=
    surviving_congr fun e he => survives_update_of_not_mem fun hie =>
      Nat.lt_irrefl i (hi.before i (hi.open_lt i hio) e he i hie)
  have hafter : surviving (Function.update s.rolledBack i true) (s.log.drop (s.beginAt i)) = [] := by
    rw [surviving, List.map_eq_nil_iff, List.filter_eq_nil_iff]
    intro e he
    simp only [survives, List.all_eq_true, Bool.not_eq_eq_eq_not, Bool.not_true, not_forall]
    exact ⟨i, hi.inside i hio e he, by simp⟩
  calc surviving (Function.update s.rolledBack i true) s.log
      = surviving (Function.update s.rolledBack i true) (s.log.take (s.beginAt i) ++ s.log.drop (s.beginAt i)) := by
        rw [List.take_append_drop]
    _ = surviving s.rolledBack (s.log.take (s.beginAt i)) := by
        rw [surviving_append, hbefore, hafter, List.append_nil]

/-- The innermost open transaction: the last of the open ones, all others began before it. -/
theorem Inv.innermost (hi : Inv s) {i : Nat} (hlast : s.openTxs.getLast? = some i) :
    ∃ ys, s.openTxs = ys ++ [i] ∧ (∀ j ∈ ys, j < i) ∧ s.openTxs.erase i = ys := by
  obtain ⟨ys, hys⟩ := List.getLast?_eq_some_iff.mp hlast
  have hlt : ∀ j ∈ ys, j < i := fun j hj =>
    (List.pairwise_append.mp (hys ▸ hi.sorted)).2.2 j hj i (List.mem_singleton_self i)
  refine ⟨ys, hys, hlt, ?_⟩
  rw [hys, List.erase_append_right _ (fun h => Nat.lt_irrefl i (hlt i h)), List.erase_cons_head,
    List.append_nil]

/-- An open nested transaction has its record, and the record is open. -/
theorem Inv.nested_of_open (hi : Inv s) {i : Nat} (hio : i ∈ s.openTxs) :
    ∃ sp, s.nested[i]? = some sp ∧ sp.closed = false := by
  have hsp := List.getElem?_eq_getElem (hi.open_lt i hio)
  exact ⟨_, hsp, (hi.open_iff i _ hsp).mpr hio⟩

/-- Closing the innermost open nested transaction `i`, with the command for its savepoint sent and
how its end went recorded, keeps the numbers, the nesting and the writes in order. -/
theorem Inv.close (hi : Inv s) (hc : s.closed = false) {i : Nat} (hlast : s.openTxs.getLast? = some i)
    {sp : NestedTx} (hsp : s.nested[i]? = some sp) (sv : Server α) {cmd : Command α}
    (hcmd : cmd = .release sp.savepointNum ∨ cmd = .rollbackTo sp.savepointNum) {rel rb : Bool}
    (hend : rel = true → rb = false) :
    Shape { s with
      server := sv
      sent := s.sent ++ [(.nested i, cmd)]
      nested := s.nested.set i { sp with closed := true }
      openTxs := s.openTxs.erase i
      released := Function.update s.released i rel
      rolledBack := Function.update s.rolledBack i rb } := by
  obtain ⟨ys, -, hlt, herase⟩ := hi.innermost hlast
  have hilen : i < s.nested.length := (List.getElem?_eq_some_iff.mp hsp).1
  have hnot : i ∉ s.openTxs.erase i := by rw [herase]; exact fun h => Nat.lt_irrefl i (hlt i h)
  have hmem : ∀ j ∈ s.openTxs.erase i, j ∈ s.openTxs ∧ j ≠ i := fun j hj =>
    ⟨List.mem_of_mem_erase hj, fun h => hnot (h ▸ hj)⟩
  have hnumi : s.numberOf i = some sp.savepointNum := State.numberOf_eq_some.mpr ⟨sp, hsp, rfl⟩
  refine ⟨hi.toNames.append rfl (funext (State.numberOf_set hsp)) (Nat.le_refl _) ?_ ?_, ?_, ?_⟩
  · dsimp only
    rw [savepointNames_append_other (by rcases hcmd with rfl | rfl <;> simp)]
    exact hi.names
  · intro j k hk
    rcases hcmd with rfl | rfl <;> simp only [Prod.mk.injEq, Handle.nested.injEq, Command.release.injEq,
      Command.rollbackTo.injEq, reduceCtorEq, and_false, or_false, false_or] at hk <;>
      obtain ⟨rfl, rfl⟩ := hk <;> exact hnumi
  · exact {
      sorted := hi.sorted.sublist List.erase_sublist
      open_iff := by
        intro j sp' h
        dsimp only at h ⊢
        rw [List.getElem?_set] at h
        split_ifs at h with hij
        · -- the transaction just closed
          cases h
          subst hij
          simpa using hnot
        · rw [hi.open_iff j sp' h, List.mem_erase_of_ne (Ne.symm hij)]
      open_lt := fun j hj => by
        dsimp only
        rw [List.length_set]
        exact hi.open_lt j (hmem j hj).1
      open_alive := fun j hj => by
        dsimp only
        rw [Function.update_of_ne (hmem j hj).2, Function.update_of_ne (hmem j hj).2]
        exact hi.open_alive j (hmem j hj).1
      ended_lt := fun j hj => by
        dsimp only at hj ⊢
        rw [List.length_set]
        by_cases hji : j = i
        · exact hji ▸ hilen
        · rw [Function.update_of_ne hji, Function.update_of_ne hji] at hj
          exact hi.ended_lt j hj
      released_rolledBack := fun j hj => by
        dsimp only at hj ⊢
        by_cases hji : j = i
        · subst hji
          rw [Function.update_self] at hj ⊢
          exact hend hj
        · rw [Function.update_of_ne hji] at hj ⊢
          exact hi.released_rolledBack j hj
      closed_open := fun h => absurd h (by simp [hc])
      committed_closed := hi.committed_closed }
  · exact {
      chains_lt := by dsimp only; rw [List.length_set]; exact hi.chains_lt
      beginAt_le := by dsimp only; rw [List.length_set]; exact hi.beginAt_le
      inside := fun j hj => hi.inside j (hmem j hj).1
      before := by dsimp only; rw [List.length_set]; exact hi.before
      around := fun e he i' hie j hj => hi.around e he i' hie j (hmem j hj).1 }

/-- A nested transaction other than `i` whose end failed once `i` is closed had failed before. -/
theorem State.Failed.of_close {s' : State α} {i t : Nat} (hti : t ≠ i) (ho : s'.openTxs = s.openTxs.erase i)
    (hrel : s'.released t = s.released t) (hrb : s'.rolledBack t = s.rolledBack t) (hf : s'.Failed t) :
    s.Failed t :=
  ⟨fun h => hf.1 (ho ▸ (List.mem_erase_of_ne hti).mpr h), hrel ▸ hf.2.1, hrb ▸ hf.2.2⟩

/-- `Commit` or `Rollback` of the innermost open nested transaction: its savepoint is released, or
rolled back to, or the server refuses the command and the transaction stays aborted. -/
theorem Inv.nestedEnd (hi : Inv s) (hc : s.closed = false) {i : Nat} (hlast : s.openTxs.getLast? = some i)
    {sp : NestedTx} (hsp : s.nested[i]? = some sp) (fails commit : Bool) : Inv (s.nestedEnd fails i sp commit).1 := by
  obtain ⟨ys, hys, hlt, herase⟩ := hi.innermost hlast
  have hio : i ∈ s.openTxs := List.mem_of_getLast? hlast
  have hnumi : s.numberOf i = some sp.savepointNum := State.numberOf_eq_some.mpr ⟨sp, hsp, rfl⟩
  obtain ⟨hcommitted, hpers⟩ := hi.uncommitted hc
  obtain ⟨hrbi, -⟩ := hi.open_alive i hio
  -- the savepoint of `i`, and the ones of the transactions it is nested in, below it
  obtain ⟨rest, hd, hbelow, hsub⟩ := dropWhile_of_mem hi.savepoints_sorted (hi.savepoint i _ hnumi hio)
  have hsuffix : ((sp.savepointNum, surviving s.rolledBack (s.log.take (s.beginAt i))) :: rest).Sublist
      s.server.savepoints := hd ▸ (List.dropWhile_suffix _).sublist
  have hys_mem : ∀ j ∈ s.openTxs.erase i, j ∈ ys ∧ j < i := by
    rw [herase]; exact fun j h => ⟨h, hlt j h⟩
  have hkeep : ∀ j m, s.numberOf j = some m → j ∈ ys →
      (m, surviving s.rolledBack (s.log.take (s.beginAt j))) ∈ rest := fun j m hm hj =>
    hbelow _ (hi.savepoint j m hm (by rw [hys]; exact List.mem_append_left _ hj))
      (hi.numbers_lt j i m _ hm hnumi (hlt j hj))
  rcases hr : s.server.run fails (if commit then .release sp.savepointNum else .rollbackTo sp.savepointNum)
    with ⟨sv, r⟩
  rw [State.nestedEnd_of_open s fails hc hr]
  have hrun := Server.run_savepointEnd hd fails commit
  rw [hr] at hrun
  split_ifs at hrun with hfail hcommit <;> obtain ⟨rfl, rfl⟩ := Prod.mk.inj hrun
  · -- the server refuses the command: the transaction is aborted, and `i` failed
    have hrb : Function.update s.rolledBack i (!commit && Reply.error.err.isNone) = s.rolledBack := by
      simp [Reply.err, hrbi]
    exact {
      toShape := hi.close hc hlast hsp _ (by cases commit <;> simp) (by simp [Reply.err])
      current := fun _ => by dsimp only; rw [hrb]; exact hi.current hc
      savepoint := fun j m hm hj => by
        dsimp only at hj ⊢
        rw [hrb]
        exact hi.savepoint j m ((State.numberOf_set hsp j).symm.trans hm) (List.mem_of_mem_erase hj)
      savepoints_sorted := hi.savepoints_sorted
      savepoints_le := hi.savepoints_le
      recovered := by
        intro _ e he t hte hf
        dsimp only
        rw [hrb]
        by_cases hti : t = i
        · -- the write was made inside `i`, so inside every transaction still open
          subst hti
          exact .inr ⟨rfl, fun j hj => hi.around e he t hte j (List.mem_of_mem_erase hj) (hys_mem j hj).2⟩
        · have hf' := hf.of_close hti rfl (Function.update_of_ne hti _ _) (Function.update_of_ne hti _ _)
          exact (hi.recovered hc e he t hte hf').imp_right fun h =>
            ⟨rfl, fun j hj => h.2 j (List.mem_of_mem_erase hj)⟩
      persisted := by simp [hcommitted, hpers, Server.abort] }
  · -- `RELEASE`: the savepoint and those after it are dropped, and `i` committed
    subst hcommit
    have hab : s.server.aborted = false := by
      simp only [Bool.true_and, Bool.or_eq_true, not_or, Bool.not_eq_true] at hfail
      exact hfail.2
    have hrb : Function.update s.rolledBack i (!true && (Reply.tag false).err.isNone) = s.rolledBack := by
      simp [hrbi]
    exact {
      toShape := hi.close hc hlast hsp _ (by simp) (by simp [Reply.err])
      current := fun _ => by dsimp only; rw [hrb]; exact hi.current hc
      savepoint := fun j m hm hj => by
        dsimp only at hj ⊢
        rw [hrb]
        exact hkeep j m ((State.numberOf_set hsp j).symm.trans hm) (hys_mem j hj).1
      savepoints_sorted := hi.savepoints_sorted.sublist (hsub.map _)
      savepoints_le := fun p hp => hi.savepoints_le p (hsub.subset hp)
      recovered := by
        intro _ e he t hte hf
        have hti : t ≠ i := fun h => by subst h; simp [State.Failed, Reply.err] at hf
        have hf' := hf.of_close hti rfl (Function.update_of_ne hti _ _) (Function.update_of_ne hti _ _)
        dsimp only
        rw [hrb]
        -- the transaction was healthy, so a failed end was rolled back already
        exact .inl ((hi.recovered hc e he t hte hf').resolve_right fun h => by simp [hab] at h)
      persisted := by simp [hcommitted, hpers] }
  · -- `ROLLBACK TO`: the data of the savepoint is back, the transaction healthy, and `i` rolled back
    rw [Bool.not_eq_true] at hcommit
    subst hcommit
    have hrb : Function.update s.rolledBack i (!false && (Reply.tag true).err.isNone) =
        Function.update s.rolledBack i true := by simp [Reply.err]
    -- the writes before a transaction nested around `i` began were made outside `i`
    have hbefore : ∀ j ∈ ys, surviving (Function.update s.rolledBack i true) (s.log.take (s.beginAt j)) =
        surviving s.rolledBack (s.log.take (s.beginAt j)) := fun j hj =>
      surviving_congr fun e he => survives_update_of_not_mem fun hie =>
        Nat.lt_irrefl i (Nat.lt_trans (hi.before j (Nat.lt_trans (hlt j hj) (hi.open_lt i hio)) e he i hie)
          (hlt j hj))
    exact {
      toShape := hi.close hc hlast hsp _ (by simp) (by simp)
      current := fun _ => by dsimp only; rw [hrb]; exact (hi.surviving_rollback hio).symm
      savepoint := fun j m hm hj => by
        dsimp only at hj ⊢
        rw [hrb, hbefore j (hys_mem j hj).1]
        exact List.mem_cons_of_mem _ (hkeep j m ((State.numberOf_set hsp j).symm.trans hm) (hys_mem j hj).1)
      savepoints_sorted := hi.savepoints_sorted.sublist (hsuffix.map _)
      savepoints_le := fun p hp => hi.savepoints_le p (hsuffix.subset hp)
      recovered := by
        intro _ e he t hte hf
        have hti : t ≠ i := fun h => by subst h; simp [State.Failed, Reply.err] at hf
        have hf' := hf.of_close hti rfl (Function.update_of_ne hti _ _) (Function.update_of_ne hti _ _)
        dsimp only
        rw [hrb]
        -- an abort is lifted by rolling back `i`, which every write of a failed end was made in
        rcases hi.recovered hc e he t hte hf' with ⟨j, hj, hrbj⟩ | ⟨-, hall⟩
        · refine .inl ⟨j, hj, ?_⟩
          by_cases hji : j = i
          · rw [hji, Function.update_self]
          · rw [Function.update_of_ne hji, hrbj]
        · exact .inl ⟨i, hall i hio, Function.update_self _ _ _⟩
      persisted := by simp [hcommitted, hpers] }

/-! ### Every call of a well-nesting owner -/

theorem step_eq_some {c : Call α} {s' : State α} :
    step s c = some s' ↔
      (c.tx = s.innermost ∨ s.isClosed c.tx = true) ∧ (s.call c.fails c.tx c.method).1 = s' := by
  unfold step
  split_ifs with h <;> simp [h]

/-- Every method of a closed transaction returns `ErrTxClosed` and changes nothing. -/
theorem State.call_of_isClosed {h : Handle} (hcl : s.isClosed h = true) (fails : Bool) (m : Method α) :
    s.call fails h m = (s, some .txClosed) := by
  cases h with
  | root =>
    simp only [State.isClosed] at hcl
    cases m <;> simp [State.call, State.rootBegin, State.rootEnd, State.rootExec, hcl]
  | nested i =>
    cases hsp : s.nested[i]? with
    | none => simp [State.isClosed, hsp] at hcl
    | some sp =>
      simp only [State.isClosed, hsp, Option.map_some, Option.getD_some] at hcl
      simp [State.call, hsp, hcl]

/-- A method of the innermost open transaction, with the root open. -/
theorem Inv.call_nested (hi : Inv s) (hc : s.closed = false) {i : Nat} (hlast : s.openTxs.getLast? = some i)
    (fails : Bool) (m : Method α) : Inv (s.call fails (.nested i) m).1 := by
  obtain ⟨sp, hsp, hopen⟩ := hi.nested_of_open (List.mem_of_getLast? hlast)
  -- an open nested transaction's `Begin`, `Exec` and reads are the root's
  cases m with
  | begin => simpa [State.call, hsp, hopen] using hi.rootBegin hc fails
  | commit => simpa [State.call, hsp, hopen] using hi.nestedEnd hc hlast hsp fails true
  | rollback => simpa [State.call, hsp, hopen] using hi.nestedEnd hc hlast hsp fails false
  | exec c => simpa [State.call, hsp, hopen] using hi.rootExec hc fails (.nested i) (.inl ⟨c, rfl⟩)
  | read => simpa [State.call, hsp, hopen] using hi.rootExec hc fails (.nested i) (.inr rfl)

/-- A method of the innermost open transaction, or of the root with nothing open. -/
theorem Inv.call_innermost (hi : Inv s) (fails : Bool) (m : Method α) : Inv (s.call fails s.innermost m).1 := by
  cases hc : s.closed with
  | true =>
    -- once the root is closed nothing is open, and the root answers `ErrTxClosed`
    have hroot : s.innermost = .root := by simp [State.innermost, hi.closed_open hc]
    rw [hroot, State.call_of_isClosed (by simpa [State.isClosed] using hc)]
    exact hi
  | false =>
    unfold State.innermost
    cases hlast : s.openTxs.getLast? with
    | some i => exact hi.call_nested hc hlast fails m
    | none =>
      have hnone : s.openTxs = [] := List.getLast?_eq_none_iff.mp hlast
      cases m with
      | begin => exact hi.rootBegin hc fails
      | commit => exact hi.rootEnd hc hnone fails true
      | rollback => exact hi.rootEnd hc hnone fails false
      | exec c => exact hi.rootExec hc fails .root (.inl ⟨c, rfl⟩)
      | read => exact hi.rootExec hc fails .root (.inr rfl)

theorem Inv.step (hi : Inv s) {c : Call α} {s' : State α} (h : step s c = some s') : Inv s' := by
  obtain ⟨hwell, rfl⟩ := step_eq_some.mp h
  rcases hwell with hin | hcl
  · rw [hin]
    exact hi.call_innermost c.fails c.method
  · rw [State.call_of_isClosed hcl]
    exact hi

/-- The states a well-nesting owner reaches from `BeginTx`, whatever the server's errors. -/
def Reachable (s : State α) : Prop := Transition.Reachable step (· = State.init) s

theorem Inv.of_reachable (h : Reachable s) : Inv s :=
  Transition.Reachable.invariant (fun _ h₀ => h₀ ▸ inv_init) (fun _ _ _ hi hs => hi.step hs) h

namespace State

variable (s : State α) (fails : Bool)

@[simp] theorem send_closed (h : Handle) (cmd : Command α) : (s.send fails h cmd).1.closed = s.closed := rfl

@[simp] theorem send_nested (h : Handle) (cmd : Command α) : (s.send fails h cmd).1.nested = s.nested := rfl

@[simp] theorem rootEnd_closed (commit : Bool) : (s.rootEnd fails commit).1.closed = true := by
  cases hc : s.closed
  · rw [rootEnd_of_open s fails hc rfl]
  · simp [rootEnd, hc]

@[simp] theorem rootEnd_nested (commit : Bool) : (s.rootEnd fails commit).1.nested = s.nested := by
  cases hc : s.closed
  · rw [rootEnd_of_open s fails hc rfl]
  · simp [rootEnd, hc]

variable {s}

end State

end Pgx.Tx
