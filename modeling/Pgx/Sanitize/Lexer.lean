import Pgx.Go.Utf8

/-!
# The SQL lexer of `internal/sanitize`

`NewQuery` splits an SQL text into `Part`s: raw text, and the integer of every `$n` placeholder
that stands outside quotes, quoted identifiers and comments. The lexer is a state machine in Go's
"state function" style: `Query.init` calls the current state function until one returns `nil`,
and each state function is a `for` loop that reads one rune per pass and either loops again or
returns the next state function.

Here a `Machine` is the state of that double loop: the state function being run, the loop
variable `num` of `placeholderState`, and the lexer. Each state function is modelled as *one pass*
of its loop: it returns the machine in which the same state function runs again ("loop") or the
next one does ("return"). `step` runs one pass of whichever function is current, `run` iterates it,
and `Query.init` runs it until the lexer stops, which `run_halts` shows happens within
`2 * len + 1` passes.
-/

namespace Pgx.Sanitize

open Go.Utf8

/-- `Part`: raw SQL text, or the number of an argument placeholder. -/
inductive Part
  | str (s : List UInt8)
  | int (n : Int64)
  deriving DecidableEq, Repr

/-- `Query`. -/
structure Query where
  parts : List Part
  deriving DecidableEq, Repr

/-- `sqlLexer`, without its `stateFn` field, which `Machine` holds. -/
structure SqlLexer where
  src : List UInt8
  start : Nat
  pos : Nat
  nested : Nat
  parts : List Part
  deriving DecidableEq, Repr

/-- The state functions of the lexer. -/
inductive StateFn
  | rawState
  | singleQuoteState
  | doubleQuoteState
  | placeholderState
  | escapeStringState
  | oneLineCommentState
  | multilineCommentState
  deriving DecidableEq, Repr

/-- The loop of `Query.init` between two passes: the running state function (`none` once one has
returned `nil`), the loop variable `num` of `placeholderState`, and the lexer. -/
structure Machine where
  stateFn : Option StateFn
  num : Int64
  l : SqlLexer

/-- `replacementcharacterwidth`: the width of a correctly encoded U+FFFD. -/
def replacementcharacterwidth : Nat := 3

namespace SqlLexer

/-- `utf8.DecodeRuneInString(l.src[l.pos:])`. -/
def next (l : SqlLexer) : Char × Nat := decodeRuneInString (l.src.drop l.pos)

/-- `l.pos += width`. -/
def advance (l : SqlLexer) (width : Nat) : SqlLexer := { l with pos := l.pos + width }

/-- The end of input, or a byte that is not UTF-8, in any state: the text read since `start`
becomes the last part. -/
def flush (l : SqlLexer) : SqlLexer :=
  if l.pos - l.start > 0 then { l with parts := l.parts ++ [.str (l.src.extract l.start l.pos)], start := l.pos }
  else l

end SqlLexer

/-- Stay in the state function `f`: its loop goes round again. -/
def Machine.loop (f : StateFn) (l : SqlLexer) : Machine := ⟨some f, 0, l⟩

/-- `case utf8.RuneError:`, the same in every state function: a replacement character of width
three is text; anything else (the end of input, or an invalid byte) stops the lexer. -/
def runeErrorCase (f : StateFn) (width : Nat) (l : SqlLexer) : Machine :=
  if width ≠ replacementcharacterwidth then ⟨none, 0, l.flush⟩ else .loop f l

/-- One pass of `rawState`. -/
def rawState (l : SqlLexer) : Machine :=
  let (r, width) := l.next
  let l := l.advance width
  if r = 'e' ∨ r = 'E' then
    let (nextRune, width) := l.next
    if nextRune = '\'' then .loop .escapeStringState (l.advance width) else .loop .rawState l
  else if r = '\'' then .loop .singleQuoteState l
  else if r = '"' then .loop .doubleQuoteState l
  else if r = '$' then
    let (nextRune, _) := l.next
    if '0' ≤ nextRune ∧ nextRune ≤ '9' then
      let l := if l.pos - l.start > 0 then
        { l with parts := l.parts ++ [.str (l.src.extract l.start (l.pos - width))] } else l
      .loop .placeholderState { l with start := l.pos }
    else .loop .rawState l
  else if r = '-' then
    let (nextRune, width) := l.next
    if nextRune = '-' then .loop .oneLineCommentState (l.advance width) else .loop .rawState l
  else if r = '/' then
    let (nextRune, width) := l.next
    if nextRune = '*' then .loop .multilineCommentState (l.advance width) else .loop .rawState l
  else if r = RuneError then runeErrorCase .rawState width l
  else .loop .rawState l

/-- One pass of `singleQuoteState`. -/
def singleQuoteState (l : SqlLexer) : Machine :=
  let (r, width) := l.next
  let l := l.advance width
  if r = '\'' then
    let (nextRune, width) := l.next
    if nextRune ≠ '\'' then .loop .rawState l else .loop .singleQuoteState (l.advance width)
  else if r = RuneError then runeErrorCase .singleQuoteState width l
  else .loop .singleQuoteState l

/-- One pass of `doubleQuoteState`. -/
def doubleQuoteState (l : SqlLexer) : Machine :=
  let (r, width) := l.next
  let l := l.advance width
  if r = '"' then
    let (nextRune, width) := l.next
    if nextRune ≠ '"' then .loop .rawState l else .loop .doubleQuoteState (l.advance width)
  else if r = RuneError then runeErrorCase .doubleQuoteState width l
  else .loop .doubleQuoteState l

/-- One pass of `placeholderState`, with its loop variable `num`. -/
def placeholderState (num : Int64) (l : SqlLexer) : Machine :=
  let (r, width) := l.next
  let l := l.advance width
  if '0' ≤ r ∧ r ≤ '9' then ⟨some .placeholderState, num * 10 + Int64.ofNat (r.toNat - '0'.toNat), l⟩
  else
    let l := { l with parts := l.parts ++ [Part.int num], pos := l.pos - width }
    .loop .rawState { l with start := l.pos }

/-- One pass of `escapeStringState`. -/
def escapeStringState (l : SqlLexer) : Machine :=
  let (r, width) := l.next
  let l := l.advance width
  if r = '\\' then
    let (_, width) := l.next
    .loop .escapeStringState (l.advance width)
  else if r = '\'' then
    let (nextRune, width) := l.next
    if nextRune ≠ '\'' then .loop .rawState l else .loop .escapeStringState (l.advance width)
  else if r = RuneError then runeErrorCase .escapeStringState width l
  else .loop .escapeStringState l

/-- One pass of `oneLineCommentState`. -/
def oneLineCommentState (l : SqlLexer) : Machine :=
  let (r, width) := l.next
  let l := l.advance width
  if r = '\\' then
    let (_, width) := l.next
    .loop .oneLineCommentState (l.advance width)
  else if r = '\n' ∨ r = '\r' then .loop .rawState l
  else if r = RuneError then runeErrorCase .oneLineCommentState width l
  else .loop .oneLineCommentState l

/-- One pass of `multilineCommentState`. -/
def multilineCommentState (l : SqlLexer) : Machine :=
  let (r, width) := l.next
  let l := l.advance width
  if r = '/' then
    let (nextRune, width) := l.next
    if nextRune = '*' then .loop .multilineCommentState { l.advance width with nested := l.nested + 1 }
    else .loop .multilineCommentState l
  else if r = '*' then
    let (nextRune, width) := l.next
    if nextRune ≠ '/' then .loop .multilineCommentState l
    else
      let l := l.advance width
      if l.nested = 0 then .loop .rawState l
      else .loop .multilineCommentState { l with nested := l.nested - 1 }
  else if r = RuneError then runeErrorCase .multilineCommentState width l
  else .loop .multilineCommentState l

/-- One pass of the running state function; a stopped machine stays as it is. -/
def step (m : Machine) : Machine :=
  match m.stateFn with
  | none => m
  | some .rawState => rawState m.l
  | some .singleQuoteState => singleQuoteState m.l
  | some .doubleQuoteState => doubleQuoteState m.l
  | some .placeholderState => placeholderState m.num m.l
  | some .escapeStringState => escapeStringState m.l
  | some .oneLineCommentState => oneLineCommentState m.l
  | some .multilineCommentState => multilineCommentState m.l

/-- `t` passes. -/
def run (m : Machine) : Nat → Machine
  | 0 => m
  | t + 1 => step (run m t)

/-- The machine `Query.init` starts: `rawState` at the start of `sql`. -/
def start (sql : List UInt8) : Machine := .loop .rawState ⟨sql, 0, 0, 0, []⟩

/-- `Query.init`: run the lexer until it stops (`run_halts` bounds the passes) and keep its parts. -/
def Query.init (sql : List UInt8) : Query := ⟨(run (start sql) (2 * sql.length + 1)).l.parts⟩

/-- `NewQuery`. -/
def newQuery (sql : List UInt8) : Query := Query.init sql

end Pgx.Sanitize
