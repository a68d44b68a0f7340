import Pgx.Sanitize.Lexer

/-!
# Runs of the sanitize lexer

* `run_add`, `run_of_halted`: the machine runs pass by pass and a stopped machine stays put;
* `passOutcome`: what one pass does, seen from the input alone. A pass of a state function reads
  the rune at the read position and, in some states, the rune after it; `step_outcome` shows that
  the mode it leaves (state function and comment nesting) and the number of bytes it consumes are
  `passOutcome` of those two runes. Every later argument about lexing a text works with
  `passOutcome` and never unfolds a state function again;
* `run_halts`: the lexer stops within `2 * len + 1` passes, so `Query.init` returns what the
  unbounded loop of the source returns (`init_parts_of_le`).
-/

namespace Pgx.Sanitize

open Go.Utf8

/-! ### Passes -/

@[simp] theorem run_zero (m : Machine) : run m 0 = m := rfl

theorem run_succ (m : Machine) (t : Nat) : run m (t + 1) = step (run m t) := rfl

theorem run_add (m : Machine) (s t : Nat) : run m (s + t) = run (run m s) t := by
  induction t with
  | zero => rfl
  | succ t ih => rw [← Nat.add_assoc, run_succ, ih, run_succ]

theorem run_succ' (m : Machine) (t : Nat) : run m (t + 1) = run (step m) t := by
  rw [Nat.add_comm, run_add]; rfl

theorem step_of_halted {m : Machine} (h : m.stateFn = none) : step m = m := by
  unfold step; rw [h]

theorem run_of_halted {m : Machine} (h : m.stateFn = none) (t : Nat) : run m t = m := by
  induction t with
  | zero => rfl
  | succ t ih => rw [run_succ, ih, step_of_halted h]

theorem run_halted_mono {m : Machine} {s t : Nat} (h : (run m s).stateFn = none) (hst : s ≤ t) :
    run m t = run m s := by
  obtain ⟨d, rfl⟩ := Nat.exists_eq_add_of_le hst
  rw [run_add, run_of_halted h]

/-- A running lexer as the proofs follow it: the state function and the comment nesting. -/
structure Mode where
  fn : StateFn
  nested : Nat
  deriving DecidableEq, Repr

/-- The mode of a machine, `none` once it has stopped. -/
def Machine.mode (m : Machine) : Option Mode := m.stateFn.map fun f => ⟨f, m.l.nested⟩

/-- The bytes a machine has still to read. -/
def Machine.rest (m : Machine) : List UInt8 := m.l.src.drop m.l.pos

/-- What one pass in mode `md` does when it reads rune `r` of width `w`, followed by rune `r'` of
width `w'`: the mode it leaves (`none` when the lexer stops) and how many bytes it consumes. -/
def passOutcome (md : Mode) (r : Char) (w : Nat) (r' : Char) (w' : Nat) : Option Mode × Nat :=
  let stay := some md
  let go (f : StateFn) := some (⟨f, md.nested⟩ : Mode)
  let onRuneError := if w ≠ replacementcharacterwidth then (none, w) else (stay, w)
  match md.fn with
  | .rawState =>
    if r = 'e' ∨ r = 'E' then (if r' = '\'' then (go .escapeStringState, w + w') else (stay, w))
    else if r = '\'' then (go .singleQuoteState, w)
    else if r = '"' then (go .doubleQuoteState, w)
    else if r = '$' then (if '0' ≤ r' ∧ r' ≤ '9' then (go .placeholderState, w) else (stay, w))
    else if r = '-' then (if r' = '-' then (go .oneLineCommentState, w + w') else (stay, w))
    else if r = '/' then (if r' = '*' then (go .multilineCommentState, w + w') else (stay, w))
    else if r = RuneError then onRuneError
    else (stay, w)
  | .singleQuoteState =>
    if r = '\'' then (if r' ≠ '\'' then (go .rawState, w) else (stay, w + w'))
    else if r = RuneError then onRuneError
    else (stay, w)
  | .doubleQuoteState =>
    if r = '"' then (if r' ≠ '"' then (go .rawState, w) else (stay, w + w'))
    else if r = RuneError then onRuneError
    else (stay, w)
  | .placeholderState => if '0' ≤ r ∧ r ≤ '9' then (stay, w) else (go .rawState, 0)
  | .escapeStringState =>
    if r = '\\' then (stay, w + w')
    else if r = '\'' then (if r' ≠ '\'' then (go .rawState, w) else (stay, w + w'))
    else if r = RuneError then onRuneError
    else (stay, w)
  | .oneLineCommentState =>
    if r = '\\' then (stay, w + w')
    else if r = '\n' ∨ r = '\r' then (go .rawState, w)
    else if r = RuneError then onRuneError
    else (stay, w)
  | .multilineCommentState =>
    if r = '/' then
      (if r' = '*' then (some ⟨.multilineCommentState, md.nested + 1⟩, w + w') else (stay, w))
    else if r = '*' then
      if r' ≠ '/' then (stay, w)
      else if md.nested = 0 then (go .rawState, w + w')
      else (some ⟨.multilineCommentState, md.nested - 1⟩, w + w')
    else if r = RuneError then onRuneError
    else (stay, w)

/-- The two runes a pass may read: at the read position, and after the first. -/
def Machine.runes (m : Machine) : (Char × Nat) × (Char × Nat) :=
  let a := decodeRuneInString m.rest
  (a, decodeRuneInString (m.rest.drop a.2))

/-- The outcome of the pass a running machine makes. -/
def Machine.outcome (m : Machine) (md : Mode) : Option Mode × Nat :=
  passOutcome md m.runes.1.1 m.runes.1.2 m.runes.2.1 m.runes.2.2

theorem runes_eq (l : SqlLexer) (f : StateFn) (num : Int64) {r r' : Char} {w w' : Nat}
    (ha : l.next = (r, w)) (hb : (l.advance w).next = (r', w')) :
    Machine.runes ⟨some f, num, l⟩ = ((r, w), (r', w')) := by
  simp only [SqlLexer.next, SqlLexer.advance] at ha hb
  simp only [Machine.runes, Machine.rest, ha, List.drop_drop, hb]

/-- The machine `m'` is what a pass of outcome `o` leaves, started on lexer `l`. -/
def OutcomeOf (m' : Machine) (l : SqlLexer) (o : Option Mode × Nat) : Prop :=
  m'.mode = o.1 ∧ m'.l.pos = l.pos + o.2 ∧ m'.l.src = l.src

section Spec

variable {l : SqlLexer} {r r' : Char} {w w' : Nat}

theorem outcomeOf_runeErrorCase_stop (f : StateFn) (h : w ≠ replacementcharacterwidth) :
    OutcomeOf (runeErrorCase f w (l.advance w)) l (none, w) := by
  unfold runeErrorCase SqlLexer.flush
  split_ifs <;> simp [OutcomeOf, Machine.mode, SqlLexer.advance]

theorem outcomeOf_runeErrorCase_loop (f : StateFn) (h : ¬w ≠ replacementcharacterwidth) :
    OutcomeOf (runeErrorCase f w (l.advance w)) l (some ⟨f, l.nested⟩, w) := by
  unfold runeErrorCase
  rw [if_neg h]
  simp [OutcomeOf, Machine.mode, Machine.loop, SqlLexer.advance]

variable (ha : l.next = (r, w)) (hb : (l.advance w).next = (r', w'))
include ha hb

theorem rawState_outcome :
    OutcomeOf (rawState l) l (passOutcome ⟨.rawState, l.nested⟩ r w r' w') := by
  simp only [rawState, ha, hb, passOutcome]
  split_ifs <;> first
    | exact outcomeOf_runeErrorCase_stop _ ‹_›
    | exact outcomeOf_runeErrorCase_loop _ ‹_›
    | (simp_all [OutcomeOf, Machine.mode, Machine.loop, SqlLexer.advance]; try omega)

theorem singleQuoteState_outcome :
    OutcomeOf (singleQuoteState l) l (passOutcome ⟨.singleQuoteState, l.nested⟩ r w r' w') := by
  simp only [singleQuoteState, ha, hb, passOutcome]
  split_ifs <;> first
    | exact outcomeOf_runeErrorCase_stop _ ‹_›
    | exact outcomeOf_runeErrorCase_loop _ ‹_›
    | (simp_all [OutcomeOf, Machine.mode, Machine.loop, SqlLexer.advance]; try omega)

theorem doubleQuoteState_outcome :
    OutcomeOf (doubleQuoteState l) l (passOutcome ⟨.doubleQuoteState, l.nested⟩ r w r' w') := by
  simp only [doubleQuoteState, ha, hb, passOutcome]
  split_ifs <;> first
    | exact outcomeOf_runeErrorCase_stop _ ‹_›
    | exact outcomeOf_runeErrorCase_loop _ ‹_›
    | (simp_all [OutcomeOf, Machine.mode, Machine.loop, SqlLexer.advance]; try omega)

omit hb in
theorem placeholderState_outcome (num : Int64) :
    OutcomeOf (placeholderState num l) l (passOutcome ⟨.placeholderState, l.nested⟩ r w r' w') := by
  simp only [placeholderState, ha, passOutcome]
  split_ifs <;> simp [OutcomeOf, Machine.mode, Machine.loop, SqlLexer.advance]

theorem escapeStringState_outcome :
    OutcomeOf (escapeStringState l) l (passOutcome ⟨.escapeStringState, l.nested⟩ r w r' w') := by
  simp only [escapeStringState, ha, hb, passOutcome]
  split_ifs <;> first
    | exact outcomeOf_runeErrorCase_stop _ ‹_›
    | exact outcomeOf_runeErrorCase_loop _ ‹_›
    | (simp_all [OutcomeOf, Machine.mode, Machine.loop, SqlLexer.advance]; try omega)

theorem oneLineCommentState_outcome :
    OutcomeOf (oneLineCommentState l) l (passOutcome ⟨.oneLineCommentState, l.nested⟩ r w r' w') := by
  simp only [oneLineCommentState, ha, hb, passOutcome]
  split_ifs <;> first
    | exact outcomeOf_runeErrorCase_stop _ ‹_›
    | exact outcomeOf_runeErrorCase_loop _ ‹_›
    | (simp_all [OutcomeOf, Machine.mode, Machine.loop, SqlLexer.advance]; try omega)

theorem multilineCommentState_outcome :
    OutcomeOf (multilineCommentState l) l
      (passOutcome ⟨.multilineCommentState, l.nested⟩ r w r' w') := by
  simp only [multilineCommentState, ha, hb, passOutcome]
  simp only [SqlLexer.advance]
  split_ifs <;> first
    | exact outcomeOf_runeErrorCase_stop _ ‹_›
    | exact outcomeOf_runeErrorCase_loop _ ‹_›
    | (simp_all [OutcomeOf, Machine.mode, Machine.loop, SqlLexer.advance]; try omega)

end Spec

/-- **Spec of a pass.** The mode a pass leaves and the bytes it consumes are `passOutcome` of the
runes it reads; the source text never changes. -/
theorem step_outcome (m : Machine) (md : Mode) (hm : m.mode = some md) :
    OutcomeOf (step m) m.l (m.outcome md) := by
  rcases m with ⟨_ | f, num, l⟩
  · cases hm
  · simp only [Machine.mode, Option.map_some, Option.some.injEq] at hm
    subst hm
    rcases ha : l.next with ⟨r, w⟩
    rcases hb : (l.advance w).next with ⟨r', w'⟩
    rw [Machine.outcome, runes_eq l f num ha hb]
    cases f with
    | rawState => exact rawState_outcome ha hb
    | singleQuoteState => exact singleQuoteState_outcome ha hb
    | doubleQuoteState => exact doubleQuoteState_outcome ha hb
    | placeholderState => exact placeholderState_outcome ha num
    | escapeStringState => exact escapeStringState_outcome ha hb
    | oneLineCommentState => exact oneLineCommentState_outcome ha hb
    | multilineCommentState => exact multilineCommentState_outcome ha hb

theorem step_src (m : Machine) : (step m).l.src = m.l.src := by
  cases h : m.stateFn with
  | none => rw [step_of_halted h]
  | some f => exact (step_outcome m ⟨f, m.l.nested⟩ (by simp [Machine.mode, h])).2.2

theorem run_src (m : Machine) (t : Nat) : (run m t).l.src = m.l.src := by
  induction t with
  | zero => rfl
  | succ t ih => rw [run_succ, step_src, ih]

theorem mode_eq_none_iff (m : Machine) : m.mode = none ↔ m.stateFn = none := by
  simp [Machine.mode]

theorem mode_eq_some_iff (m : Machine) (md : Mode) :
    m.mode = some md ↔ m.stateFn = some md.fn ∧ m.l.nested = md.nested := by
  rcases md with ⟨f, n⟩
  cases h : m.stateFn <;> simp [Machine.mode, h, eq_comm]

theorem step_pos (m : Machine) : m.l.pos ≤ (step m).l.pos := by
  cases h : m.stateFn with
  | none => simp [step_of_halted h]
  | some f =>
    rw [(step_outcome m ⟨f, m.l.nested⟩ (by simp [Machine.mode, h])).2.1]
    exact Nat.le_add_right _ _

theorem run_pos_mono (m : Machine) {s t : Nat} (hst : s ≤ t) : (run m s).l.pos ≤ (run m t).l.pos := by
  obtain ⟨d, rfl⟩ := Nat.exists_eq_add_of_le hst
  induction d with
  | zero => exact Nat.le_refl _
  | succ d ih => exact Nat.le_trans (ih (by omega)) (by rw [← Nat.add_assoc, run_succ]; exact step_pos _)

/-! ### What a pass consumes -/

/-- A pass consumes at most the two runes it reads. -/
theorem passOutcome_le (md : Mode) (r : Char) (w : Nat) (r' : Char) (w' : Nat) :
    (passOutcome md r w r' w').2 ≤ w + w' := by
  rcases md with ⟨f, n⟩
  cases f <;> simp only [passOutcome] <;> split_ifs <;> omega

/-- A pass that does not stop the lexer and does not leave `placeholderState` consumes at least
the rune it reads, and that rune is not a broken one. -/
theorem passOutcome_progress {md md' : Mode} {r : Char} {w : Nat} {r' : Char} {w' c : Nat}
    (h : passOutcome md r w r' w' = (some md', c)) (hmd : md.fn ≠ .placeholderState) :
    w ≤ c ∧ (r = RuneError → w = replacementcharacterwidth) := by
  rcases md with ⟨f, n⟩
  cases f <;> simp only [passOutcome] at h <;> split_ifs at h <;>
    simp only [Prod.mk.injEq, Option.some.injEq, reduceCtorEq, false_and] at h <;>
    obtain ⟨-, rfl⟩ := h <;> simp_all +decide [replacementcharacterwidth, RuneError] <;>
    (rintro rfl; simp_all +decide)

/-- `placeholderState` reads digits, one byte each, and hands back to `rawState` on anything
else without consuming it. -/
theorem passOutcome_placeholder (n : Nat) (r : Char) (w : Nat) (r' : Char) (w' : Nat) :
    passOutcome ⟨.placeholderState, n⟩ r w r' w' =
      if '0' ≤ r ∧ r ≤ '9' then (some ⟨.placeholderState, n⟩, w) else (some ⟨.rawState, n⟩, 0) := by
  simp only [passOutcome]

theorem outcome_le_rest (m : Machine) (md : Mode) : (m.outcome md).2 ≤ m.rest.length := by
  have h1 := passOutcome_le md m.runes.1.1 m.runes.1.2 m.runes.2.1 m.runes.2.2
  have h2 := width_le_length m.rest
  have h3 := width_le_length (m.rest.drop (decodeRuneInString m.rest).2)
  simp only [List.length_drop] at h3
  simp only [Machine.outcome, Machine.runes] at h1 ⊢
  omega

/-- A rune other than `RuneError` has a positive width. -/
theorem width_pos_of_ne_runeError (m : Machine) (h : m.runes.1.1 ≠ RuneError) : 0 < m.runes.1.2 := by
  by_cases hrest : m.rest = []
  · simp [Machine.runes, hrest] at h
  · exact width_pos hrest

/-- A running pass outside `placeholderState` that keeps the lexer running consumes a byte. -/
theorem outcome_pos (m : Machine) {md md' : Mode} {c : Nat} (h : m.outcome md = (some md', c))
    (hmd : md.fn ≠ .placeholderState) : 0 < c := by
  obtain ⟨hwc, hr⟩ := passOutcome_progress h hmd
  by_cases hrest : m.rest = []
  · have hw : m.runes.1 = (RuneError, 0) := by simp [Machine.runes, hrest]
    have := hr (by rw [hw])
    rw [hw] at this
    simp [replacementcharacterwidth] at this
  · have := width_pos hrest
    simp only [Machine.runes] at hwc
    omega

/-! ### The lexer stops -/

/-- Twice the bytes left to read, plus one inside `placeholderState`, whose last pass consumes
nothing. -/
def measure (m : Machine) : Nat :=
  2 * (m.l.src.length - m.l.pos) + if m.stateFn = some .placeholderState then 1 else 0

theorem step_measure (m : Machine) (hm : m.stateFn ≠ none) :
    (step m).stateFn = none ∨ measure (step m) < measure m := by
  obtain ⟨f, hf⟩ := Option.ne_none_iff_exists'.1 hm
  have hmd : m.mode = some ⟨f, m.l.nested⟩ := by simp [Machine.mode, hf]
  obtain ⟨hmode, hpos, hsrc⟩ := step_outcome m _ hmd
  have hle := outcome_le_rest m ⟨f, m.l.nested⟩
  simp only [Machine.rest, List.length_drop] at hle
  rcases ho : m.outcome ⟨f, m.l.nested⟩ with ⟨_ | md', c⟩
  · left
    rw [ho] at hmode
    exact (mode_eq_none_iff _).1 hmode
  · right
    rw [ho] at hmode hpos hle
    have hsf : (step m).stateFn = some md'.fn := ((mode_eq_some_iff _ _).1 hmode).1
    simp only [measure, hsf, hf, hpos, hsrc]
    by_cases hp : f = .placeholderState
    · subst hp
      have hc := ho
      simp only [Machine.outcome, passOutcome_placeholder] at hc
      split_ifs at hc with hd <;> simp only [Prod.mk.injEq, Option.some.injEq] at hc <;>
        obtain ⟨rfl, rfl⟩ := hc
      · have hw := width_pos_of_ne_runeError m (by
          intro h; rw [h] at hd; exact absurd hd.2 (by decide))
        simp only [if_true]
        omega
      · simp
    · have hc := outcome_pos m ho (by simpa using hp)
      split_ifs <;> omega

/-- After `t` passes the lexer has stopped, or the measure has dropped by `t`. -/
theorem run_measure (m : Machine) (t : Nat) :
    (run m t).stateFn = none ∨ measure (run m t) + t ≤ measure m := by
  induction t with
  | zero => right; exact Nat.le_refl _
  | succ t ih =>
    rcases ih with h | h
    · left; rw [run_succ, step_of_halted h]; exact h
    · rw [run_succ]
      by_cases hr : (run m t).stateFn = none
      · left; rw [step_of_halted hr]; exact hr
      · rcases step_measure _ hr with h' | h'
        · left; exact h'
        · right; omega

/-- **The lexer stops.** From any machine, `measure + 1` passes stop it. -/
theorem run_halts (m : Machine) : (run m (measure m + 1)).stateFn = none := by
  rcases run_measure m (measure m + 1) with h | h
  · exact h
  · omega

theorem measure_start (sql : List UInt8) : measure (start sql) = 2 * sql.length := by
  simp [measure, start, Machine.loop]

/-- `Query.init` keeps the parts of the stopped lexer: any longer run gives the same. -/
theorem init_parts_of_le (sql : List UInt8) {t : Nat} (ht : 2 * sql.length + 1 ≤ t) :
    (run (start sql) t).l.parts = (Query.init sql).parts := by
  have h := run_halts (start sql)
  rw [measure_start] at h
  rw [Query.init, run_halted_mono h ht]

/-! ### What a pass writes -/

/-- A `RuneError` that does not stop the lexer leaves it as it is. -/
theorem runeErrorCase_l_of_running {f f' : StateFn} {w : Nat} {l : SqlLexer}
    (h : (runeErrorCase f w l).stateFn = some f') : (runeErrorCase f w l).l = l := by
  unfold runeErrorCase at h ⊢
  split_ifs at h ⊢
  simp_all [Machine.loop]

/-- A pass that neither stops the lexer nor enters or leaves `placeholderState` writes no part and
keeps the start of the text being read. -/
theorem step_quiet {m : Machine} {f f' : StateFn} (hf : m.stateFn = some f)
    (hp : f ≠ .placeholderState) (hs : (step m).stateFn = some f') (hp' : f' ≠ .placeholderState) :
    (step m).l.parts = m.l.parts ∧ (step m).l.start = m.l.start := by
  rcases m with ⟨_ | g, num, l⟩
  · cases hf
  simp only [Option.some.injEq] at hf
  subst hf
  rcases ha : l.next with ⟨r, w⟩
  rcases hb : (l.advance w).next with ⟨r', w'⟩
  cases g
  case placeholderState => exact absurd rfl hp
  all_goals
    simp only [step, rawState, singleQuoteState, doubleQuoteState, escapeStringState,
      oneLineCommentState, multilineCommentState, ha, hb] at hs ⊢
    simp only [SqlLexer.advance] at hs ⊢
    split_ifs at hs ⊢ <;> first
      | (rw [runeErrorCase_l_of_running hs]; exact ⟨rfl, rfl⟩)
      | simp_all [Machine.loop]

/-- A `RuneError` that stops the lexer flushes the text read so far. -/
theorem runeErrorCase_l_of_stopped {f : StateFn} {w : Nat} {l : SqlLexer}
    (h : (runeErrorCase f w l).stateFn = none) : (runeErrorCase f w l).l = l.flush := by
  unfold runeErrorCase at h ⊢
  split_ifs at h ⊢ <;> simp_all [Machine.loop]

/-- The pass that stops the lexer reads a `RuneError` that is not a replacement character, and
flushes. -/
theorem step_stop {m : Machine} {f : StateFn} (hf : m.stateFn = some f) (hp : f ≠ .placeholderState)
    (hs : (step m).stateFn = none) :
    m.runes.1.1 = RuneError ∧ m.runes.1.2 ≠ replacementcharacterwidth ∧
      (step m).l = (m.l.advance m.runes.1.2).flush := by
  rcases m with ⟨_ | g, num, l⟩
  · cases hf
  simp only [Option.some.injEq] at hf
  subst hf
  rcases ha : l.next with ⟨r, w⟩
  rcases hb : (l.advance w).next with ⟨r', w'⟩
  rw [runes_eq l g num ha hb]
  cases g
  case placeholderState => exact absurd rfl hp
  all_goals
    simp only [step, rawState, singleQuoteState, doubleQuoteState, escapeStringState,
      oneLineCommentState, multilineCommentState, ha, hb] at hs ⊢
    split_ifs at hs ⊢ <;> first
      | (refine ⟨by assumption, ?_, runeErrorCase_l_of_stopped hs⟩
         unfold runeErrorCase at hs; split_ifs at hs <;> simp_all [Machine.loop])
      | simp_all [Machine.loop]

/-- The `$` of a placeholder: the text read since `start` becomes a part, and `placeholderState`
starts after the `$`. -/
theorem step_dollar {m : Machine} (hf : m.stateFn = some .rawState) (h1 : m.runes.1 = ('$', 1))
    (h2 : '0' ≤ m.runes.2.1 ∧ m.runes.2.1 ≤ '9') (hle : m.l.start ≤ m.l.pos) :
    step m = ⟨some .placeholderState, 0,
      { m.l with
        pos := m.l.pos + 1
        start := m.l.pos + 1
        parts := m.l.parts ++ [.str (m.l.src.extract m.l.start m.l.pos)] }⟩ := by
  rcases m with ⟨_ | g, num, l⟩
  · cases hf
  simp only [Option.some.injEq] at hf
  subst hf
  rcases ha : l.next with ⟨r, w⟩
  rcases hb : (l.advance w).next with ⟨r', w'⟩
  rw [runes_eq l _ num ha hb] at h1 h2
  simp only [Prod.mk.injEq] at h1
  obtain ⟨rfl, rfl⟩ := h1
  simp only at hle h2
  have hpos : l.pos + 1 - l.start > 0 := by omega
  simp only [step, rawState, ha, hb, h2]
  simp [SqlLexer.advance, hpos, Machine.loop]

/-- A digit of a placeholder: `num` takes it in. -/
theorem step_placeholder_digit {m : Machine} (hf : m.stateFn = some .placeholderState)
    (h1 : m.runes.1 = (c, 1)) (hc : '0' ≤ c ∧ c ≤ '9') :
    step m = ⟨some .placeholderState, m.num * 10 + Int64.ofNat (c.toNat - '0'.toNat), m.l.advance 1⟩ := by
  rcases m with ⟨_ | g, num, l⟩
  · cases hf
  simp only [Option.some.injEq] at hf
  subst hf
  have ha : l.next = (c, 1) := h1
  simp only [step, placeholderState, ha, hc, and_self, if_true]

/-- The end of a placeholder: its number becomes a part, and `rawState` reads on from the rune
that ended it. -/
theorem step_placeholder_end {m : Machine} (hf : m.stateFn = some .placeholderState)
    (hc : ¬('0' ≤ m.runes.1.1 ∧ m.runes.1.1 ≤ '9')) :
    step m = ⟨some .rawState, 0, { m.l with parts := m.l.parts ++ [.int m.num], start := m.l.pos }⟩ := by
  rcases m with ⟨_ | g, num, l⟩
  · cases hf
  simp only [Option.some.injEq] at hf
  subst hf
  rcases ha : l.next with ⟨r, w⟩
  have hr : r = (Machine.runes ⟨some .placeholderState, num, l⟩).1.1 := by
    have ha' : decodeRuneInString (l.src.drop l.pos) = (r, w) := ha
    simp [Machine.runes, Machine.rest, ha']
  rw [← hr] at hc
  simp only [step, placeholderState, ha, hc, if_false, SqlLexer.advance, Nat.add_sub_cancel]
  rfl

/-! ### Comment nesting -/

/-- The nesting level only counts inside a multi-line comment. -/
def NestOk (md : Mode) : Prop := md.fn ≠ .multilineCommentState → md.nested = 0

/-- A pass keeps the nesting level at zero outside multi-line comments. -/
theorem passOutcome_nestOk {md md' : Mode} {r : Char} {w : Nat} {r' : Char} {w' c : Nat}
    (h : passOutcome md r w r' w' = (some md', c)) (hmd : NestOk md) : NestOk md' := by
  rcases md with ⟨f, n⟩
  unfold NestOk at hmd ⊢
  cases f <;> simp only [passOutcome] at h <;> split_ifs at h <;>
    simp only [Prod.mk.injEq, Option.some.injEq, reduceCtorEq, false_and] at h <;>
    obtain ⟨rfl, -⟩ := h <;> simp_all

/-- `placeholderState` is entered only from `rawState`, on a `$` followed by a digit. -/
theorem passOutcome_enter_placeholder {md md' : Mode} {r : Char} {w : Nat} {r' : Char} {w' c : Nat}
    (h : passOutcome md r w r' w' = (some md', c)) (hmd' : md'.fn = .placeholderState) :
    md.fn = .placeholderState ∨ (md.fn = .rawState ∧ r = '$' ∧ '0' ≤ r' ∧ r' ≤ '9') := by
  rcases md with ⟨f, n⟩
  cases f <;> simp only [passOutcome] at h <;> split_ifs at h <;>
    simp only [Prod.mk.injEq, Option.some.injEq, reduceCtorEq, false_and] at h <;>
    obtain ⟨rfl, -⟩ := h <;> simp_all

end Pgx.Sanitize
