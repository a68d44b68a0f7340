import Pgx.Go.Strconv

/-!
# `NamedArgs`: rewriting `@name` placeholders

`rewriteQuery` lexes the SQL text with a lexer of its own, a sibling of the sanitizer's: the same
quoted strings, quoted identifiers, escape strings and comments, and an `@` followed by a letter or
an underscore starts a named argument. Every named argument is written as `$k`, `k` the rank of the
name's first occurrence, and the arguments are laid out by those ranks.

The lexer is modelled as the sanitizer's is, one pass of a state function's loop at a time
(`step`, `run`); `run_halts` shows that the passes `rewriteQuery` gives it are enough.

Unlike the sanitizer, every state function of this lexer stops on any `utf8.RuneError`, also on a
correctly encoded U+FFFD of width three, and keeps nothing after it
(`rewriteQuery_replacementChar`).
-/

namespace Pgx.NamedArgs

open Go Go.Utf8 Go.Strconv

/-- A part of the lexed query: raw text, or the name of a named argument. -/
inductive Part
  | str (s : List UInt8)
  | name (n : List UInt8)
  deriving DecidableEq, Repr

/-- `sqlLexer`, without its `stateFn` field. `nameToOrdinal` is kept as the names in the order they
were first met: the ordinal of a name is its index plus one. -/
structure SqlLexer where
  src : List UInt8
  start : Nat
  pos : Nat
  nested : Nat
  parts : List Part
  nameToOrdinal : List (List UInt8)
  deriving DecidableEq, Repr

/-- The state functions of the lexer. -/
inductive StateFn
  | rawState
  | namedArgState
  | singleQuoteState
  | doubleQuoteState
  | escapeStringState
  | oneLineCommentState
  | multilineCommentState
  deriving DecidableEq, Repr

/-- The loop of `rewriteQuery` between two passes: the running state function (`none` once one has
returned `nil`) and the lexer. -/
structure Machine where
  stateFn : Option StateFn
  l : SqlLexer
  deriving DecidableEq, Repr

namespace SqlLexer

/-- `utf8.DecodeRuneInString(l.src[l.pos:])`. -/
def next (l : SqlLexer) : Char × Nat := decodeRuneInString (l.src.drop l.pos)

/-- `l.pos += width`. -/
def advance (l : SqlLexer) (width : Nat) : SqlLexer := { l with pos := l.pos + width }

/-- The end of input, or any `RuneError`: the text read since `start` becomes the last part. -/
def flush (l : SqlLexer) : SqlLexer :=
  if l.pos - l.start > 0 then { l with parts := l.parts ++ [.str (l.src.extract l.start l.pos)], start := l.pos }
  else l

/-- The name `na` gets the next ordinal unless it has one. -/
def addName (l : SqlLexer) (na : List UInt8) : SqlLexer :=
  if na ∈ l.nameToOrdinal then l else { l with nameToOrdinal := l.nameToOrdinal ++ [na] }

end SqlLexer

namespace SqlLexer

@[simp] theorem addName_pos (l : SqlLexer) (na : List UInt8) : (l.addName na).pos = l.pos := by
  unfold addName; split <;> rfl

@[simp] theorem addName_src (l : SqlLexer) (na : List UInt8) : (l.addName na).src = l.src := by
  unfold addName; split <;> rfl

end SqlLexer

/-- `isLetter`: an ASCII letter. -/
def isLetter (r : Char) : Bool := ('a' ≤ r && r ≤ 'z') || ('A' ≤ r && r ≤ 'Z')

/-- Stay in the state function `f`: its loop goes round again. -/
def Machine.loop (f : StateFn) (l : SqlLexer) : Machine := ⟨some f, l⟩

/-- `case utf8.RuneError:` of every state function but `namedArgState`: flush and stop. -/
def Machine.stop (l : SqlLexer) : Machine := ⟨none, l.flush⟩

/-- One pass of `rawState`. -/
def rawState (l : SqlLexer) : Machine :=
  let (r, width) := l.next
  let l := l.advance width
  if r = 'e' ∨ r = 'E' then
    let (nextRune, width) := l.next
    if nextRune = '\'' then .loop .escapeStringState (l.advance width) else .loop .rawState l
  else if r = '\'' then .loop .singleQuoteState l
  else if r = '"' then .loop .doubleQuoteState l
  else if r = '@' then
    let (nextRune, _) := l.next
    if isLetter nextRune ∨ nextRune = '_' then
      let l := if l.pos - l.start > 0 then
        { l with parts := l.parts ++ [.str (l.src.extract l.start (l.pos - width))] } else l
      .loop .namedArgState { l with start := l.pos }
    else .loop .rawState l
  else if r = '-' then
    let (nextRune, width) := l.next
    if nextRune = '-' then .loop .oneLineCommentState (l.advance width) else .loop .rawState l
  else if r = '/' then
    let (nextRune, width) := l.next
    if nextRune = '*' then .loop .multilineCommentState (l.advance width) else .loop .rawState l
  else if r = RuneError then .stop l
  else .loop .rawState l

/-- One pass of `namedArgState`: a name runs over letters, digits and underscores; the rune that
ends it is read again by `rawState`. -/
def namedArgState (l : SqlLexer) : Machine :=
  let (r, width) := l.next
  let l := l.advance width
  if r = RuneError then
    if l.pos - l.start > 0 then
      let na := l.src.extract l.start l.pos
      let l := l.addName na
      ⟨none, { l with parts := l.parts ++ [.name na], start := l.pos }⟩
    else ⟨none, l⟩
  else if !(isLetter r || ('0' ≤ r && r ≤ '9') || r = '_') then
    let l := { l with pos := l.pos - width }
    let na := l.src.extract l.start l.pos
    let l := l.addName na
    .loop .rawState { l with parts := l.parts ++ [.name na], start := l.pos }
  else .loop .namedArgState l

/-- One pass of `singleQuoteState`. -/
def singleQuoteState (l : SqlLexer) : Machine :=
  let (r, width) := l.next
  let l := l.advance width
  if r = '\'' then
    let (nextRune, width) := l.next
    if nextRune ≠ '\'' then .loop .rawState l else .loop .singleQuoteState (l.advance width)
  else if r = RuneError then .stop l
  else .loop .singleQuoteState l

/-- One pass of `doubleQuoteState`. -/
def doubleQuoteState (l : SqlLexer) : Machine :=
  let (r, width) := l.next
  let l := l.advance width
  if r = '"' then
    let (nextRune, width) := l.next
    if nextRune ≠ '"' then .loop .rawState l else .loop .doubleQuoteState (l.advance width)
  else if r = RuneError then .stop l
  else .loop .doubleQuoteState l

/-- One pass of `escapeStringState`. -/
def escapeStringState (l : SqlLexer) : Machine :=
  let (r, width) := l.next
  let l := l.advance width
  if r = '\\' then
    let (_, width) := l.next
    .loop .escapeStringState (l.advance width)
  else if r = '\'' then
    let (nextRune, width) := l.next
    if nextRune ≠ '\'' then .loop .rawState l else .loop .escapeStringState (l.advance width)
  else if r = RuneError then .stop l
  else .loop .escapeStringState l

/-- One pass of `oneLineCommentState`. -/
def oneLineCommentState (l : SqlLexer) : Machine :=
  let (r, width) := l.next
  let l := l.advance width
  if r = '\\' then
    let (_, width) := l.next
    .loop .oneLineCommentState (l.advance width)
  else if r = '\n' ∨ r = '\r' then .loop .rawState l
  else if r = RuneError then .stop l
  else .loop .oneLineCommentState l

/-- One pass of `multilineCommentState`. -/
def multilineCommentState (l : SqlLexer) : Machine :=
  let (r, width) := l.next
  let l := l.advance width
  if r = '/' then
    let (nextRune, width) := l.next
    if nextRune = '*' then .loop .multilineCommentState { l.advance width with nested := l.nested + 1 }
    else .loop .multilineCommentState l
  else if r = '*' then
    let (nextRune, width) := l.next
    if nextRune ≠ '/' then .loop .multilineCommentState l
    else
      let l := l.advance width
      if l.nested = 0 then .loop .rawState l
      else .loop .multilineCommentState { l with nested := l.nested - 1 }
  else if r = RuneError then .stop l
  else .loop .multilineCommentState l

/-- One pass of the running state function; a stopped machine stays as it is. -/
def step (m : Machine) : Machine :=
  match m.stateFn with
  | none => m
  | some .rawState => rawState m.l
  | some .namedArgState => namedArgState m.l
  | some .singleQuoteState => singleQuoteState m.l
  | some .doubleQuoteState => doubleQuoteState m.l
  | some .escapeStringState => escapeStringState m.l
  | some .oneLineCommentState => oneLineCommentState m.l
  | some .multilineCommentState => multilineCommentState m.l

/-- `t` passes. -/
def run (m : Machine) : Nat → Machine
  | 0 => m
  | t + 1 => step (run m t)

/-- The machine `rewriteQuery` starts: `rawState` at the start of `sql`. -/
def start (sql : List UInt8) : Machine := .loop .rawState ⟨sql, 0, 0, 0, [], []⟩

/-- The lexer after the loop `for l.stateFn != nil`: `run_halts` bounds its passes. -/
def lex (sql : List UInt8) : SqlLexer := (run (start sql) (2 * sql.length + 1)).l

/-- The ordinal of a name: its rank among the names, counting from one (`0` for a name that is not
there, Go's zero value). -/
def ordinal (names : List (List UInt8)) (p : List UInt8) : Nat :=
  match names.idxOf? p with
  | some i => i + 1
  | none => 0

/-- The text written for a part: raw text as it is, a name as `$` and its ordinal. -/
def partText (names : List (List UInt8)) : Part → List UInt8
  | .str s => s
  | .name p => encode ('$' :: formatInt (ordinal names p))

/-- `newArgs`: the value of each name, at its ordinal, `none` (Go's `nil`) when `na` has none; with
`isStrict`, the first name `na` lacks is an error. Go ranges over the map `nameToOrdinal` in no fixed
order; the model takes the names in ordinal order. -/
def newArgs {α : Type} (na : List (List UInt8 × α)) (isStrict : Bool) :
    List (List UInt8) → Except String (List (Option α))
  | [] => .ok []
  | name :: names =>
    match na.lookup name with
    | some v => (newArgs na isStrict names).map (some v :: ·)
    | none =>
      if isStrict then
        .error ("argument " ++ String.ofList (runes name) ++ " found in sql query but not present in StrictNamedArgs")
      else (newArgs na isStrict names).map (none :: ·)

/-- `rewriteQuery(na, sql, isStrict)`: the rewritten text and the arguments, or an error. With
`isStrict`, a name of `na` the text does not use is an error; Go ranges over the map `na` in no fixed
order, the model takes the first such name of `na`. -/
def rewriteQuery {α : Type} (na : List (List UInt8 × α)) (sql : List UInt8) (isStrict : Bool) :
    Except String (List UInt8 × List (Option α)) := do
  let l := lex sql
  let newSQL := l.parts.flatMap (partText l.nameToOrdinal)
  let args ← newArgs na isStrict l.nameToOrdinal
  if isStrict then
    match na.find? (fun kv => kv.1 ∉ l.nameToOrdinal) with
    | some kv => .error ("argument " ++ String.ofList (runes kv.1) ++ " of StrictNamedArgs not found in sql query")
    | none => .ok (newSQL, args)
  else .ok (newSQL, args)


/-! ### The lexer stops -/

/-- Twice the bytes left to read, plus one inside `namedArgState`, whose last pass consumes
nothing. -/
def measure (m : Machine) : Nat :=
  2 * (m.l.src.length - m.l.pos) + if m.stateFn = some .namedArgState then 1 else 0

theorem step_measure (m : Machine) (hm : m.stateFn ≠ none) :
    (step m).stateFn = none ∨ measure (step m) < measure m := by
  rcases m with ⟨_ | f, l⟩
  · exact absurd rfl hm
  rcases ha : l.next with ⟨r, w⟩
  rcases hb : (l.advance w).next with ⟨r', w'⟩
  -- what the two runes a pass reads can consume
  have hw : w ≤ l.src.length - l.pos := by
    have := width_le_length (l.src.drop l.pos)
    simp only [SqlLexer.next] at ha
    rw [ha, List.length_drop] at this
    exact this
  have hw' : w' ≤ l.src.length - (l.pos + w) := by
    have := width_le_length (l.src.drop (l.pos + w))
    simp only [SqlLexer.next, SqlLexer.advance] at hb
    rw [hb, List.length_drop] at this
    exact this
  have hr : r ≠ RuneError → 0 < w := by
    intro hr
    rcases Nat.eq_zero_or_pos w with h0 | h0
    · have hnil : l.src.drop l.pos = [] := by
        rw [← width_eq_zero_iff]
        simp only [SqlLexer.next] at ha
        rw [ha, h0]
      simp only [SqlLexer.next, hnil, decodeRuneInString_nil, Prod.mk.injEq] at ha
      exact absurd ha.1.symm hr
    · exact h0
  by_cases hre : r = RuneError
  · -- every state function stops on a `RuneError`
    left
    subst hre
    cases f <;>
      simp [step, rawState, namedArgState, singleQuoteState, doubleQuoteState, escapeStringState,
        oneLineCommentState, multilineCommentState, ha, Machine.stop, RuneError, apply_ite]
  · -- any other rune is consumed, except the one that ends a name
    have hpos := hr hre
    right
    cases f <;>
      simp only [step, rawState, namedArgState, singleQuoteState, doubleQuoteState,
        escapeStringState, oneLineCommentState, multilineCommentState, ha, hb, hre, if_false] <;>
      split_ifs <;>
      simp only [measure, Machine.loop, SqlLexer.advance, SqlLexer.addName_pos, SqlLexer.addName_src,
        Option.some.injEq, reduceCtorEq, if_false, if_true] <;>
      omega

theorem run_succ' (m : Machine) (t : Nat) : run m (t + 1) = run (step m) t := by
  induction t with
  | zero => rfl
  | succ t ih => rw [run, ih]; rfl

theorem run_of_halted {m : Machine} (h : m.stateFn = none) (t : Nat) : run m t = m := by
  induction t with
  | zero => rfl
  | succ t ih => rw [run, ih]; simp [step, h]

/-- After `t` passes the lexer has stopped, or the measure has dropped by `t`. -/
theorem run_measure (m : Machine) (t : Nat) :
    (run m t).stateFn = none ∨ measure (run m t) + t ≤ measure m := by
  induction t with
  | zero => exact .inr (Nat.le_refl _)
  | succ t ih =>
    rcases ih with h | h
    · exact .inl (by rw [run, step, h]; exact h)
    · by_cases hr : (run m t).stateFn = none
      · exact .inl (by rw [run, step, hr]; exact hr)
      · rcases step_measure _ hr with h' | h'
        · exact .inl h'
        · exact .inr (by rw [run]; omega)

/-- **The lexer stops** within the passes `lex` gives it. -/
theorem run_halts (sql : List UInt8) : (run (start sql) (2 * sql.length + 1)).stateFn = none := by
  rcases run_measure (start sql) (2 * sql.length + 1) with h | h
  · exact h
  · have hm : measure (start sql) = 2 * sql.length := by simp [measure, start, Machine.loop]
    omega

/-- A query that starts with a correctly encoded U+FFFD is cut after it: the rest of the text, and
every named argument in it, is dropped. -/
theorem rewriteQuery_replacementChar {α : Type} (na : List (List UInt8 × α)) (rest : List UInt8) :
    rewriteQuery na (String.utf8EncodeChar '\uFFFD' ++ rest) false =
      .ok (String.utf8EncodeChar '\uFFFD', []) := by
  set sql := String.utf8EncodeChar '\uFFFD' ++ rest with hsql
  have hdec : decodeRuneInString (sql.drop 0) = (RuneError, 3) := by
    rw [List.drop_zero, hsql, decodeRuneInString_utf8EncodeChar_append]
    rfl
  -- the first pass reads U+FFFD as a `RuneError` and stops
  have hstep : step (start sql) =
      ⟨none, ⟨sql, 3, 3, 0, [.str (String.utf8EncodeChar '\uFFFD')], []⟩⟩ := by
    have hex : sql.extract 0 3 = String.utf8EncodeChar '\uFFFD' := by
      rw [hsql, List.extract_eq_take_drop, List.drop_zero, Nat.sub_zero]
      exact List.take_left' rfl
    simp only [step, start, Machine.loop, rawState, SqlLexer.next, hdec]
    simp [RuneError, Machine.stop, SqlLexer.flush, SqlLexer.advance, hex]
  have hlex : lex sql = ⟨sql, 3, 3, 0, [.str (String.utf8EncodeChar '\uFFFD')], []⟩ := by
    rw [lex, run_succ', hstep, run_of_halted rfl]
  simp [rewriteQuery, hlex, partText, newArgs, bind, Except.bind]

end Pgx.NamedArgs
