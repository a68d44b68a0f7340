import Pgx.Sanitize.Transfer
import Mathlib.Data.Nat.Find

/-!
# The segments of a lexer run

A run of the lexer over valid UTF-8 is a sequence of *segments*. A segment starts at a fresh
machine (`Fresh`: `rawState` at nesting zero, with nothing read since the last part) and either

* reads all of the rest of the input as one text part (`LastSegment`), or
* reads a text `s` outside `placeholderState`, then a `$` and a maximal run of digits, after which
  the machine is fresh again with `str s` and the placeholder's number appended to its parts
  (`PlaceholderSegment`).

`segment` says that one of the two happens; its proof follows the run to the first pass that
reads a `$` followed by a digit in `rawState`, if there is one.
-/

namespace Pgx.Sanitize

open Go.Utf8

/-- `rawState` at comment nesting zero. -/
def raw0 : Mode := ⟨.rawState, 0⟩

/-- A byte that encodes an ASCII digit. -/
def isDigitByte (b : UInt8) : Bool := '0'.toUInt8 ≤ b && b ≤ '9'.toUInt8

/-- The length of the run of digits a byte string starts with. -/
def digitRun (s : List UInt8) : Nat := (s.takeWhile isDigitByte).length

/-- The next pass reads a `$` followed by a digit in `rawState`: a placeholder starts. -/
def AtPlaceholder (m : Machine) : Prop :=
  m.stateFn = some .rawState ∧ m.runes.1.1 = '$' ∧ '0' ≤ m.runes.2.1 ∧ m.runes.2.1 ≤ '9'

instance (m : Machine) : Decidable (AtPlaceholder m) := by
  unfold AtPlaceholder; infer_instance

/-- A machine at the start of a segment. -/
structure Fresh (m : Machine) : Prop where
  mode : m.mode = some raw0
  start : m.l.start = m.l.pos
  valid : Valid m.rest
  inside : m.l.pos ≤ m.l.src.length

/-- The lexer from `m` reads the text `s` in `n` passes: each starts inside `s`, outside
`placeholderState`, and writes no part. -/
structure TextRun (m : Machine) (s : List UInt8) (n : Nat) : Prop where
  rest : m.rest = s ++ (run m n).rest
  pos : (run m n).l.pos = m.l.pos + s.length
  inside : ∀ i < n, (run m i).l.pos < m.l.pos + s.length
  quiet : ∀ i ≤ n, (run m i).l.parts = m.l.parts ∧ (run m i).l.start = m.l.start
  modes : ∀ i ≤ n, ∃ md, (run m i).mode = some md ∧ md.fn ≠ .placeholderState ∧ NestOk md

/-! ### Passes before the first placeholder -/

/-- A pass outside `placeholderState` that does not start a placeholder and does not stop the
lexer moves on, stays outside `placeholderState` and writes no part. -/
theorem step_quiet_mode {m : Machine} {md : Mode} (hm : m.mode = some md)
    (hp : md.fn ≠ .placeholderState) (hn : NestOk md) (ha : ¬AtPlaceholder m)
    (hs : (step m).stateFn ≠ none) :
    ∃ md', (step m).mode = some md' ∧ md'.fn ≠ .placeholderState ∧ NestOk md' ∧
      (step m).l.parts = m.l.parts ∧ (step m).l.start = m.l.start ∧ m.l.pos < (step m).l.pos := by
  obtain ⟨hmode, hpos, -⟩ := step_outcome m md hm
  rcases ho : m.outcome md with ⟨_ | md', c⟩
  · rw [ho] at hmode
    exact absurd ((mode_eq_none_iff _).1 hmode) hs
  rw [ho] at hmode hpos
  have hf := ((mode_eq_some_iff m md).1 hm).1
  have hp' : md'.fn ≠ .placeholderState := by
    intro h'
    rcases passOutcome_enter_placeholder ho h' with h'' | ⟨hraw, hd, hdig⟩
    · exact hp h''
    · exact ha ⟨by rw [hf, hraw], hd, hdig⟩
  have hf' := ((mode_eq_some_iff _ md').1 hmode).1
  obtain ⟨hparts, hstart⟩ := step_quiet hf hp hf' hp'
  refine ⟨md', hmode, hp', passOutcome_nestOk ho hn, hparts, hstart, ?_⟩
  have := outcome_pos m ho hp
  omega

/-- Up to the first placeholder, and while the lexer runs, every pass is quiet. -/
theorem run_quiet {m : Machine} {md : Mode} (hm : m.mode = some md)
    (hp : md.fn ≠ .placeholderState) (hn : NestOk md) {n : Nat}
    (ha : ∀ i < n, ¬AtPlaceholder (run m i)) (hs : (run m n).stateFn ≠ none) :
    ∀ i ≤ n, (∃ md', (run m i).mode = some md' ∧ md'.fn ≠ .placeholderState ∧ NestOk md') ∧
      (run m i).l.parts = m.l.parts ∧ (run m i).l.start = m.l.start ∧
      ∀ j < i, (run m j).l.pos < (run m i).l.pos := by
  intro i hi
  induction i with
  | zero => exact ⟨⟨md, hm, hp, hn⟩, rfl, rfl, fun j hj => absurd hj (Nat.not_lt_zero j)⟩
  | succ i ih =>
    obtain ⟨⟨md', hm', hp', hn'⟩, hparts, hstart, hlt⟩ := ih (by omega)
    -- the pass `i` does not stop the lexer, since it still runs at `n`
    have hrun : (step (run m i)).stateFn ≠ none := by
      intro h
      rw [← run_succ] at h
      exact hs (by rw [run_halted_mono h hi]; exact h)
    obtain ⟨md'', hm'', hp'', hn'', hparts', hstart', hpos⟩ :=
      step_quiet_mode hm' hp' hn' (ha i (by omega)) hrun
    rw [run_succ]
    refine ⟨⟨md'', hm'', hp'', hn''⟩, hparts'.trans hparts, hstart'.trans hstart, ?_⟩
    intro j hj
    rcases Nat.lt_succ_iff_lt_or_eq.1 hj with hj | rfl
    · exact Nat.lt_trans (hlt j hj) hpos
    · exact hpos

/-- The read position never passes the end of the input. -/
theorem step_pos_le {m : Machine} (h : m.l.pos ≤ m.l.src.length) :
    (step m).l.pos ≤ (step m).l.src.length := by
  cases hm : m.mode with
  | none => rw [step_of_halted ((mode_eq_none_iff m).1 hm)]; exact h
  | some md =>
    obtain ⟨-, hpos, hsrc⟩ := step_outcome m md hm
    have hle := outcome_le_rest m md
    simp only [Machine.rest, List.length_drop] at hle
    rw [hpos, hsrc]
    omega

theorem run_pos_le {m : Machine} (h : m.l.pos ≤ m.l.src.length) (t : Nat) :
    (run m t).l.pos ≤ (run m t).l.src.length := by
  induction t with
  | zero => exact h
  | succ t ih => exact step_pos_le ih

/-- Up to the first placeholder, the lexer reads a text. -/
theorem textRun_of_quiet {m : Machine} {md : Mode} (hm : m.mode = some md)
    (hp : md.fn ≠ .placeholderState) (hn : NestOk md) (hin : m.l.pos ≤ m.l.src.length) {n : Nat}
    (ha : ∀ i < n, ¬AtPlaceholder (run m i)) (hs : (run m n).stateFn ≠ none) :
    TextRun m (m.rest.take ((run m n).l.pos - m.l.pos)) n := by
  have hq := run_quiet hm hp hn ha hs
  have hle : m.l.pos ≤ (run m n).l.pos := run_pos_mono m (Nat.zero_le n)
  have hend : (run m n).l.pos ≤ m.l.src.length := by
    have := run_pos_le hin n
    rwa [run_src] at this
  have hlen : (m.rest.take ((run m n).l.pos - m.l.pos)).length = (run m n).l.pos - m.l.pos := by
    simp only [List.length_take, Machine.rest, List.length_drop]
    omega
  refine ⟨?_, by rw [hlen]; omega, ?_, fun i hi => ⟨(hq i hi).2.1, (hq i hi).2.2.1⟩,
    fun i hi => (hq i hi).1⟩
  · rw [rest_of_le (run_src m n) hle, List.take_append_drop]
  · intro i hi
    rw [hlen]
    have := (hq n (Nat.le_refl n)).2.2.2 i hi
    omega

/-! ### The digits of a placeholder -/

theorem isDigitByte_iff (b : UInt8) : isDigitByte b = true ↔ 48 ≤ b.toNat ∧ b.toNat ≤ 57 := by
  simp only [isDigitByte, Bool.and_eq_true, decide_eq_true_eq, UInt8.le_iff_toNat_le]
  rfl

theorem digit_iff (c : Char) : ('0' ≤ c ∧ c ≤ '9') ↔ 48 ≤ c.toNat ∧ c.toNat ≤ 57 := by
  show ('0' : Char).val ≤ c.val ∧ c.val ≤ ('9' : Char).val ↔ _
  rw [UInt32.le_iff_toNat_le, UInt32.le_iff_toNat_le]
  rfl

/-- A digit is an ASCII character. -/
theorem digit_lt {c : Char} (hc : '0' ≤ c ∧ c ≤ '9') : c.toNat < 0x80 := by
  have := (digit_iff c).1 hc
  omega

/-- The digit run of an encoded text is the run of digit characters it starts with. -/
theorem digitRun_encode {ds rs : List Char} (hds : ∀ c ∈ ds, '0' ≤ c ∧ c ≤ '9')
    (hrs : ∀ c ∈ rs.head?, ¬('0' ≤ c ∧ c ≤ '9')) :
    digitRun (encode ds ++ encode rs) = ds.length := by
  induction ds with
  | nil =>
    rcases rs with _ | ⟨e, rs⟩
    · rfl
    · obtain ⟨b, t, hbt⟩ : ∃ b t, encode (e :: rs) = b :: t := by
        rcases h : encode (e :: rs) with _ | ⟨b, t⟩
        · simp [String.utf8EncodeChar_ne_nil] at h
        · exact ⟨b, t, rfl⟩
      rw [encode_nil, List.nil_append, hbt, digitRun, List.takeWhile_cons]
      split
      · -- a digit byte would decode to a digit, but `e` is not one
        rename_i hb
        have hb' := (isDigitByte_iff b).1 hb
        have hdec := decodeRuneInString_encode_cons e rs []
        rw [List.append_nil, hbt, decodeRuneInString_cons_of_lt (by omega)] at hdec
        have he : e = Char.ofUInt8 b := (Prod.mk.inj hdec).1.symm
        refine absurd ((digit_iff e).2 ?_) (hrs e (by simp))
        rw [he, toNat_ofUInt8]
        exact hb'
      · rfl
  | cons c ds ih =>
    have hc := hds c (by simp)
    rw [encode_cons, utf8EncodeChar_of_lt (digit_lt hc), List.singleton_append, List.cons_append,
      digitRun, List.takeWhile_cons_of_pos]
    · rw [List.length_cons, List.length_cons]
      exact congrArg (· + 1) (ih (fun d hd => hds d (by simp [hd])))
    · have h : 48 ≤ c.val.toNat ∧ c.val.toNat ≤ 57 := (digit_iff c).1 hc
      have h1 : c.toUInt8.toNat = c.val.toNat := by
        show c.val.toUInt8.toNat = c.val.toNat
        rw [UInt32.toNat_toUInt8]
        omega
      rw [isDigitByte_iff, h1]
      exact h

/-- `placeholderState` over a run of digits `ds`, ended by a rune that is not a digit: one pass per
digit, then the number becomes a part and `rawState` reads on from the rune that ended the run. -/
theorem run_placeholder {r : List UInt8}
    (hr : ¬('0' ≤ (decodeRuneInString r).1 ∧ (decodeRuneInString r).1 ≤ '9')) (ds : List Char)
    (hds : ∀ c ∈ ds, '0' ≤ c ∧ c ≤ '9') (m : Machine) (hf : m.stateFn = some .placeholderState)
    (hrest : m.rest = encode ds ++ r) :
    (∀ j ≤ ds.length, (run m j).stateFn = some .placeholderState ∧
      (run m j).l = { m.l with pos := m.l.pos + j }) ∧
    ∃ k : Int64, run m (ds.length + 1) = ⟨some .rawState, 0,
      { m.l with
        pos := m.l.pos + ds.length
        start := m.l.pos + ds.length
        parts := m.l.parts ++ [.int k] }⟩ := by
  induction ds generalizing m with
  | nil =>
    refine ⟨fun j hj => ?_, m.num, ?_⟩
    · rw [Nat.le_zero.1 hj]
      exact ⟨hf, rfl⟩
    · have hc : ¬('0' ≤ m.runes.1.1 ∧ m.runes.1.1 ≤ '9') := by
        simpa [Machine.runes, hrest] using hr
      rw [List.length_nil, run_succ, run_zero, step_placeholder_end hf hc]
      rfl
  | cons c ds ih =>
    have hc := hds c (by simp)
    have h1 : m.runes.1 = (c, 1) := by
      have hsize : c.utf8Size = 1 := by
        have := String.length_utf8EncodeChar c
        rw [utf8EncodeChar_of_lt (digit_lt hc)] at this
        simpa using this.symm
      rw [runes_of_rest hrest, hsize]
    have hstep := step_placeholder_digit hf h1 hc
    have hrest' : (step m).rest = encode ds ++ r := by
      rw [hstep]
      simp only [Machine.rest, SqlLexer.advance]
      rw [← List.drop_drop, ← Machine.rest, hrest, encode_cons, utf8EncodeChar_of_lt (digit_lt hc)]
      rfl
    obtain ⟨hmid, k, hend⟩ := ih (fun d hd => hds d (by simp [hd])) (step m) (by rw [hstep]) hrest'
    refine ⟨fun j hj => ?_, k, ?_⟩
    · rcases j with _ | j
      · exact ⟨hf, rfl⟩
      · obtain ⟨hj1, hj2⟩ := hmid j (by simpa using hj)
        rw [run_succ']
        refine ⟨hj1, ?_⟩
        rw [hj2, hstep]
        simp only [SqlLexer.advance]
        congr 1
        omega
    · rw [List.length_cons, run_succ', hend, hstep]
      simp only [SqlLexer.advance, Nat.add_assoc, Nat.add_comm 1 ds.length]

/-! ### The two kinds of segment -/

/-- The lexer reads all the rest of the input as one text in `n` passes; pass `n` stops it at the
end of the input and writes that text as the last part. -/
structure LastSegment (m : Machine) (n : Nat) : Prop where
  text : TextRun m m.rest n
  stop : (run m (n + 1)).stateFn = none
  parts : (run m (n + 1)).l.parts = m.l.parts ++ (if m.rest = [] then [] else [.str m.rest])

/-- The lexer reads a text `s` in `n` passes, then a `$` in `rawState` and a run of `d` digits in
`placeholderState`, and is fresh again with `str s` and the placeholder's number `k` written. -/
structure PlaceholderSegment (m : Machine) (s : List UInt8) (d n : Nat) (k : Int64) : Prop where
  text : TextRun m s n
  dollar : (run m n).mode = some raw0
  sign : m.rest.drop s.length = '$'.toUInt8 :: m.rest.drop (s.length + 1)
  digits : d = digitRun (m.rest.drop (s.length + 1))
  digits_pos : 0 < d
  placeholder : ∀ j ≤ d, (run m (n + 1 + j)).mode = some ⟨.placeholderState, 0⟩ ∧
    (run m (n + 1 + j)).l.pos = m.l.pos + s.length + 1 + j
  next : Fresh (run m (n + d + 2))
  next_pos : (run m (n + d + 2)).l.pos = m.l.pos + s.length + 1 + d
  next_parts : (run m (n + d + 2)).l.parts = m.l.parts ++ [.str s, .int k]

theorem raw0_nestOk : NestOk raw0 := fun _ => rfl

theorem raw0_fn : raw0.fn ≠ .placeholderState := by decide

/-- In valid text, the lexer only stops at the end of the input. -/
theorem rest_eq_nil_of_stop {m : Machine} (hv : Valid m.rest) (hr : m.runes.1.1 = RuneError)
    (hw : m.runes.1.2 ≠ replacementcharacterwidth) : m.rest = [] := by
  obtain ⟨cs, hcs⟩ := hv
  rcases cs with _ | ⟨c, cs⟩
  · exact hcs
  · have h := runes_of_rest (show m.rest = encode (c :: cs) ++ [] by rw [hcs, List.append_nil])
    rw [h] at hr hw
    simp only at hr hw
    subst hr
    exact absurd rfl hw

/-- From a fresh machine with no placeholder ahead, the lexer reads all the rest as one text. -/
theorem lastSegment {m : Machine} (hm : Fresh m) (hno : ∀ i, ¬AtPlaceholder (run m i)) :
    ∃ n, LastSegment m n := by
  classical
  have hex : ∃ t, (run m t).stateFn = none := ⟨_, run_halts m⟩
  have hf0 := ((mode_eq_some_iff m raw0).1 hm.mode).1
  -- the pass that stops the lexer
  obtain ⟨n, hn⟩ : ∃ n, Nat.find hex = n + 1 := by
    refine ⟨Nat.find hex - 1, ?_⟩
    have : Nat.find hex ≠ 0 := by
      intro h0
      have := Nat.find_spec hex
      rw [h0, run_zero, hf0] at this
      cases this
    omega
  have hstop : (run m (n + 1)).stateFn = none := hn ▸ Nat.find_spec hex
  have hrun : (run m n).stateFn ≠ none := Nat.find_min hex (by omega)
  have htext := textRun_of_quiet hm.mode raw0_fn raw0_nestOk hm.inside (fun i _ => hno i) hrun
  obtain ⟨md, hmd, hp, -⟩ := htext.modes n (Nat.le_refl n)
  obtain ⟨hr, hw, hl⟩ := step_stop ((mode_eq_some_iff _ md).1 hmd).1 hp (by rw [← run_succ]; exact hstop)
  have hnil := rest_eq_nil_of_stop (run_valid_rest hm.valid n) hr hw
  -- the lexer stopped at the end of the input
  have hend : (run m n).l.pos = m.l.src.length := by
    have h1 := run_pos_le hm.inside n
    have h2 : (run m n).l.src.length ≤ (run m n).l.pos := List.drop_eq_nil_iff.1 hnil
    rw [run_src] at h1 h2
    omega
  have hlen : m.rest.length = m.l.src.length - m.l.pos := by simp [Machine.rest]
  have hs : m.rest.take ((run m n).l.pos - m.l.pos) = m.rest := by
    rw [hend, ← hlen, List.take_length]
  rw [hs] at htext
  refine ⟨n, htext, hstop, ?_⟩
  have hwidth : (run m n).runes.1.2 = 0 := by
    simp [Machine.runes, hnil]
  have hl' : (run m (n + 1)).l = (run m n).l.flush := by
    rw [run_succ, hl, hwidth]
    rfl
  obtain ⟨hparts, hstart⟩ := htext.quiet n (Nat.le_refl n)
  rw [hl']
  simp only [SqlLexer.flush]
  rw [hparts, hstart, hm.start, hend, run_src]
  by_cases he : m.rest = []
  · have : m.l.src.length - m.l.pos = 0 := by rw [← hlen, he, List.length_nil]
    simp [he, this, hparts]
  · have : m.l.src.length - m.l.pos > 0 := by
      rw [← hlen]
      exact List.length_pos_iff.2 he
    have hx : (m.l.src.drop m.l.pos).take (m.l.src.length - m.l.pos) = m.rest := by
      rw [← hlen]
      exact List.take_length
    rw [if_pos this, if_neg he]
    simp only [hx]

/-- The `$` a placeholder starts with is the character ahead, one byte. -/
theorem rest_of_atPlaceholder {m : Machine} (hv : Valid m.rest) (ha : AtPlaceholder m) :
    ∃ cs, m.rest = '$'.toUInt8 :: encode cs ∧ m.runes.1 = ('$', 1) ∧
      m.runes.2 = decodeRuneInString (encode cs) := by
  obtain ⟨_, hd, -⟩ := ha
  obtain ⟨cs, hcs⟩ := hv
  rcases cs with _ | ⟨c, cs⟩
  · simp [Machine.runes, hcs, RuneError] at hd
  · have h := runes_of_rest (show m.rest = encode (c :: cs) ++ [] by rw [hcs, List.append_nil])
    rw [h] at hd
    simp only at hd
    subst hd
    refine ⟨cs, by rw [hcs, encode_cons, utf8EncodeChar_of_lt (by decide)]; rfl, ?_, ?_⟩
    · rw [h]; rfl
    · rw [h, List.append_nil]

/-- From a fresh machine with a placeholder ahead, the lexer reads the text up to it, then the
placeholder, and is fresh again. -/
theorem placeholderSegment {m : Machine} (hm : Fresh m) (hex : ∃ i, AtPlaceholder (run m i)) :
    ∃ s d n k, PlaceholderSegment m s d n k := by
  classical
  set n := Nat.find hex with hn
  have hat : AtPlaceholder (run m n) := Nat.find_spec hex
  have hf : (run m n).stateFn = some .rawState := hat.1
  have htext := textRun_of_quiet hm.mode raw0_fn raw0_nestOk hm.inside
    (fun i hi => Nat.find_min hex hi) (by rw [hf]; exact Option.some_ne_none _)
  set s := m.rest.take ((run m n).l.pos - m.l.pos) with hs
  -- the `$` pass is made in `rawState`, hence at nesting zero
  have hdollar : (run m n).mode = some raw0 := by
    obtain ⟨md, hmd, -, hnest⟩ := htext.modes n (Nat.le_refl n)
    obtain ⟨hfn, hnd⟩ := (mode_eq_some_iff _ md).1 hmd
    have hmdfn : md.fn = .rawState := by rw [hf] at hfn; exact (Option.some.inj hfn).symm
    rw [(mode_eq_some_iff _ raw0).2 ⟨hf, ?_⟩]
    rw [hnd, hnest (by rw [hmdfn]; decide)]
    rfl
  obtain ⟨cs, hrest, h1, h2⟩ := rest_of_atPlaceholder (run_valid_rest hm.valid n) hat
  -- the digits after the `$`, and what ends them
  set ds := cs.takeWhile (fun c => decide ('0' ≤ c ∧ c ≤ '9')) with hds
  set rs := cs.dropWhile (fun c => decide ('0' ≤ c ∧ c ≤ '9')) with hrs
  have hsplit : cs = ds ++ rs := (List.takeWhile_append_dropWhile).symm
  have hdig : ∀ c ∈ ds, '0' ≤ c ∧ c ≤ '9' := by
    intro c hc
    have := List.all_eq_true.1 List.all_takeWhile c hc
    simpa using this
  have hnot : ∀ c ∈ rs.head?, ¬('0' ≤ c ∧ c ≤ '9') := by
    intro c hc
    have := List.head?_dropWhile_not (fun c => decide ('0' ≤ c ∧ c ≤ '9')) cs
    rw [← hrs, Option.mem_def.1 hc] at this
    simpa using this
  have hend : ¬('0' ≤ (decodeRuneInString (encode rs)).1 ∧ (decodeRuneInString (encode rs)).1 ≤ '9') := by
    rcases rs with _ | ⟨e, rs'⟩
    · simp [RuneError]
    · rw [← List.append_nil (encode _), decodeRuneInString_encode_cons]
      exact hnot e (by simp)
  -- the `$` pass writes `str s` and hands over to `placeholderState`
  obtain ⟨hparts, hstart⟩ := htext.quiet n (Nat.le_refl n)
  have hle : (run m n).l.start ≤ (run m n).l.pos := by
    rw [hstart, hm.start]
    exact run_pos_mono m (Nat.zero_le n)
  have hstep := step_dollar hf h1 hat.2.2 hle
  have hM1f : (run m (n + 1)).stateFn = some .placeholderState := by rw [run_succ, hstep]
  have hdrop : m.rest.drop s.length = (run m n).rest := by
    conv_lhs => rw [htext.rest]
    exact List.drop_left
  have hafter : m.rest.drop (s.length + 1) = encode ds ++ encode rs := by
    rw [← List.drop_drop, hdrop, hrest, List.drop_one, List.tail_cons, hsplit, encode_append]
  have hM1rest : (run m (n + 1)).rest = encode ds ++ encode rs := by
    have : (run m (n + 1)).rest = m.rest.drop (s.length + 1) := by
      rw [rest_of_le (run_src m (n + 1)) (run_pos_mono m (Nat.zero_le _)), run_succ, hstep]
      congr 1
      show (run m n).l.pos + 1 - m.l.pos = s.length + 1
      rw [htext.pos]
      omega
    rw [this, hafter]
  obtain ⟨hmid, k, hfin⟩ := run_placeholder hend ds hdig (run m (n + 1)) hM1f hM1rest
  have hM1l : (run m (n + 1)).l.nested = 0 ∧ (run m (n + 1)).l.pos = m.l.pos + s.length + 1 := by
    rw [run_succ, hstep]
    refine ⟨((mode_eq_some_iff _ raw0).1 hdollar).2, ?_⟩
    show (run m n).l.pos + 1 = _
    rw [htext.pos]
  -- the machine after the placeholder
  have hnext : run m (n + ds.length + 2) = run (run m (n + 1)) (ds.length + 1) := by
    rw [← run_add]
    congr 1
    omega
  refine ⟨s, ds.length, n, k, htext, hdollar, ?_, ?_, ?_, ?_, ?_, ?_, ?_⟩
  · rw [hdrop, hrest, hafter, ← encode_append, ← hsplit]
  · rw [hafter, digitRun_encode hdig hnot]
  · -- the rune after the `$` is a digit, so the run of digits is not empty
    rcases hds' : ds with _ | ⟨c, ds'⟩
    · rw [hds', List.nil_append] at hsplit
      have := hat.2.2
      rw [h2, hsplit] at this
      exact absurd this hend
    · exact Nat.succ_pos _
  · intro j hj
    obtain ⟨hjf, hjl⟩ := hmid j hj
    rw [run_add m (n + 1) j]
    refine ⟨(mode_eq_some_iff _ _).2 ⟨hjf, by rw [hjl]; exact hM1l.1⟩, ?_⟩
    rw [hjl]
    show (run m (n + 1)).l.pos + j = _
    rw [hM1l.2]
  · have hv := run_valid_rest hm.valid (n + ds.length + 2)
    have hin := run_pos_le hm.inside (n + ds.length + 2)
    rw [hnext, hfin] at hv hin ⊢
    exact ⟨(mode_eq_some_iff _ raw0).2 ⟨rfl, hM1l.1⟩, rfl, hv, hin⟩
  · rw [hnext, hfin]
    show (run m (n + 1)).l.pos + ds.length = _
    rw [hM1l.2]
  · rw [hnext, hfin]
    show (run m (n + 1)).l.parts ++ [.int k] = _
    rw [run_succ, hstep]
    show (run m n).l.parts ++ [.str ((run m n).l.src.extract (run m n).l.start (run m n).l.pos)] ++
      [.int k] = _
    rw [hparts, hstart, hm.start, run_src, List.append_assoc]
    rfl

/-- **Segments.** From a fresh machine the lexer reads the rest as one text, or a text and a
placeholder. -/
theorem segment {m : Machine} (hm : Fresh m) :
    (∃ n, LastSegment m n) ∨ ∃ s d n k, PlaceholderSegment m s d n k := by
  by_cases hex : ∃ i, AtPlaceholder (run m i)
  · exact .inr (placeholderSegment hm hex)
  · exact .inl (lastSegment hm fun i hi => hex ⟨i, hi⟩)

end Pgx.Sanitize
