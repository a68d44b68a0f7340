import Pgx.Sanitize.Segment
import Pgx.Sanitize.Sanitize

/-!
# Crossing a literal

`Crosses md u md' w`: from any machine in mode `md` with the text `u` ahead, followed by `w`, the
lexer reads exactly `u`, never in `placeholderState`, and is then in mode `md'`. Crossings compose
along `++` (`Crosses.append`), so a literal is crossed rune by rune. Every literal `Sanitize`
writes, with the space on each side, is crossed from `rawState` back to `rawState` whatever
follows it (`crosses_partText`).
-/

namespace Pgx.Sanitize

open Go Go.Utf8 Go.Strconv

/-- `singleQuoteState`, outside any comment. -/
def single0 : Mode := ⟨.singleQuoteState, 0⟩

/-- From mode `md`, the lexer reads exactly `u` ahead of `w` and is then in mode `md'`. -/
def Crosses (md : Mode) (u : List UInt8) (md' : Mode) (w : List UInt8) : Prop :=
  ∀ m : Machine, m.mode = some md → m.rest = u ++ w →
    ∃ n, (run m n).mode = some md' ∧ (run m n).l.pos = m.l.pos + u.length ∧
      ∀ i < n, (run m i).l.pos < m.l.pos + u.length ∧
        ∃ md'', (run m i).mode = some md'' ∧ md''.fn ≠ .placeholderState

theorem Crosses.nil (md : Mode) (w : List UInt8) : Crosses md [] md w := by
  intro m hm _
  exact ⟨0, hm, rfl, fun i hi => absurd hi (Nat.not_lt_zero i)⟩

/-- Crossings compose. -/
theorem Crosses.append {md md' md'' : Mode} {u v w : List UInt8}
    (h1 : Crosses md u md' (v ++ w)) (h2 : Crosses md' v md'' w) : Crosses md (u ++ v) md'' w := by
  intro m hm hr
  obtain ⟨n1, hm1, hp1, hi1⟩ := h1 m hm (by rw [hr, List.append_assoc])
  have hr1 : (run m n1).rest = v ++ w := by
    rw [rest_of_le (run_src m n1) (by omega), hr, hp1, Nat.add_sub_cancel_left, List.append_assoc,
      List.drop_left]
  obtain ⟨n2, hm2, hp2, hi2⟩ := h2 (run m n1) hm1 hr1
  refine ⟨n1 + n2, by rw [run_add]; exact hm2, by rw [run_add, hp2, hp1, List.length_append]; omega,
    fun i hi => ?_⟩
  rw [List.length_append]
  by_cases hin : i < n1
  · obtain ⟨hlt, hmd⟩ := hi1 i hin
    exact ⟨by omega, hmd⟩
  · obtain ⟨j, rfl⟩ : ∃ j, i = n1 + j := ⟨i - n1, by omega⟩
    obtain ⟨hlt, hmd⟩ := hi2 j (by omega)
    rw [run_add]
    exact ⟨by omega, hmd⟩

/-- A crossing in one pass. -/
theorem crosses_of_outcome {md md' : Mode} {u w : List UInt8} (hp : md.fn ≠ .placeholderState)
    (hu : 0 < u.length) (h : ∀ m : Machine, m.rest = u ++ w → m.outcome md = (some md', u.length)) :
    Crosses md u md' w := by
  intro m hm hr
  obtain ⟨hmode, hpos, -⟩ := step_outcome m md hm
  rw [h m hr] at hmode hpos
  refine ⟨1, hmode, hpos, fun i hi => ?_⟩
  rw [Nat.lt_one_iff.1 hi]
  exact ⟨by rw [run_zero]; omega, md, hm, hp⟩

/-- One character, read by a pass that sees the rune after it. -/
theorem crosses_char {md md' : Mode} {c : Char} {w : List UInt8} (hp : md.fn ≠ .placeholderState)
    (h : ∀ w', passOutcome md c c.utf8Size (decodeRuneInString w).1 w' = (some md', c.utf8Size)) :
    Crosses md (String.utf8EncodeChar c) md' w := by
  refine crosses_of_outcome hp (by simp [Char.utf8Size_pos]) fun m hr => ?_
  have hr' : m.rest = encode [c] ++ w := by rw [hr, encode_cons, encode_nil, List.append_nil]
  rw [Machine.outcome, runes_of_rest hr', String.length_utf8EncodeChar]
  exact h _

/-! ### Text in `rawState` -/

/-- A character that `rawState` reads as plain text when no quote follows it. -/
def Plain (c : Char) : Prop :=
  c ≠ '\'' ∧ c ≠ '"' ∧ c ≠ '$' ∧ c ≠ '-' ∧ c ≠ '/' ∧ c ≠ RuneError

instance (c : Char) : Decidable (Plain c) := by unfold Plain; infer_instance

theorem crosses_plain_char {c : Char} (hc : Plain c) {w : List UInt8}
    (hw : (decodeRuneInString w).1 ≠ '\'') : Crosses raw0 (String.utf8EncodeChar c) raw0 w := by
  obtain ⟨h1, h2, h3, h4, h5, h6⟩ := hc
  refine crosses_char raw0_fn fun w' => ?_
  simp [passOutcome, raw0, h1, h2, h3, h4, h5, h6, hw]

/-- Plain text, followed by anything but a quote. -/
theorem crosses_plain {cs : List Char} (hcs : ∀ c ∈ cs, Plain c) {w : List UInt8}
    (hw : (decodeRuneInString w).1 ≠ '\'') : Crosses raw0 (encode cs) raw0 w := by
  induction cs with
  | nil => exact Crosses.nil _ _
  | cons c cs ih =>
    have hc := hcs c (by simp)
    -- the rune after `c` is the next plain character, or the first of `w`
    have hnext : (decodeRuneInString (encode cs ++ w)).1 ≠ '\'' := by
      rcases cs with _ | ⟨d, ds⟩
      · simpa using hw
      · rw [decodeRuneInString_encode_cons]
        exact (hcs d (by simp)).1
    rw [encode_cons]
    exact (crosses_plain_char hc hnext).append (ih fun d hd => hcs d (by simp [hd]))

/-- A minus sign not followed by another. -/
theorem crosses_minus {w : List UInt8} (hw : (decodeRuneInString w).1 ≠ '-') :
    Crosses raw0 (String.utf8EncodeChar '-') raw0 w :=
  crosses_char raw0_fn fun w' => by simp [passOutcome, raw0, hw]

/-- The text of a number: a sign, then plain characters. -/
def RawLiteral (cs : List Char) : Prop :=
  ∃ sign body, (sign = [] ∨ sign = ['-']) ∧ cs = sign ++ body ∧ ∀ c ∈ body, Plain c

/-- A number, followed by anything but a quote or a minus sign. -/
theorem crosses_rawLiteral {cs : List Char} (hcs : RawLiteral cs) {w : List UInt8}
    (hw : (decodeRuneInString w).1 ≠ '\'') (hw' : (decodeRuneInString w).1 ≠ '-') :
    Crosses raw0 (encode cs) raw0 w := by
  obtain ⟨sign, body, hsign | hsign, rfl, hbody⟩ := hcs <;> subst hsign
  · exact crosses_plain hbody hw
  · have hnext : (decodeRuneInString (encode body ++ w)).1 ≠ '-' := by
      rcases body with _ | ⟨d, ds⟩
      · simpa using hw'
      · rw [decodeRuneInString_encode_cons]
        exact (hbody d (by simp)).2.2.2.1
    rw [List.singleton_append, encode_cons]
    exact (crosses_minus hnext).append (crosses_plain hbody hw)

/-! ### Quoted text -/

/-- A character, with a quote doubled, as `QuoteString` writes it. -/
def quoteChar (c : Char) : List Char := if c = '\'' then ['\'', '\''] else [c]

/-- The characters of a string literal's body. -/
def quoteChars (cs : List Char) : List Char := cs.flatMap quoteChar

@[simp] theorem quoteChars_nil : quoteChars [] = [] := rfl

@[simp] theorem quoteChars_cons (c : Char) (cs : List Char) :
    quoteChars (c :: cs) = quoteChar c ++ quoteChars cs := List.flatMap_cons

theorem crosses_quoted_char (c : Char) (w : List UInt8) :
    Crosses single0 (encode (quoteChar c)) single0 w := by
  by_cases hc : c = '\''
  · -- a doubled quote: the pass reads both
    subst hc
    refine crosses_of_outcome (by decide) (by decide) fun m hr => ?_
    rw [Machine.outcome, runes_of_rest (by rw [hr]; rfl : m.rest = encode ['\'', '\''] ++ w),
      decodeRuneInString_encode_cons]
    decide
  · rw [quoteChar, if_neg hc, encode_cons, encode_nil, List.append_nil]
    refine crosses_char (by decide) fun w' => ?_
    by_cases hr : c = RuneError
    · -- a replacement character of width three is text
      subst hr
      simp [passOutcome, single0, hc, runeError_utf8Size, replacementcharacterwidth]
    · simp [passOutcome, single0, hc, hr]

/-- The body of a string literal, whatever follows it. -/
theorem crosses_quoted (cs : List Char) (w : List UInt8) :
    Crosses single0 (encode (quoteChars cs)) single0 w := by
  induction cs with
  | nil => exact Crosses.nil _ _
  | cons c cs ih =>
    rw [quoteChars_cons, encode_append]
    exact (crosses_quoted_char c _).append ih

/-- A whole string literal, followed by anything but a quote. -/
theorem crosses_literal (cs : List Char) {w : List UInt8} (hw : (decodeRuneInString w).1 ≠ '\'') :
    Crosses raw0 (encode ('\'' :: quoteChars cs ++ ['\''])) raw0 w := by
  have hopen : Crosses raw0 (encode ['\'']) single0
      ((encode (quoteChars cs) ++ encode ['\'']) ++ w) := by
    rw [encode_singleton]
    exact crosses_char raw0_fn fun w' => by simp [passOutcome, raw0, single0]
  have hclose : Crosses single0 (encode ['\'']) raw0 w := by
    rw [encode_singleton]
    exact crosses_char (show single0.fn ≠ .placeholderState by decide) fun w' => by
      simp [passOutcome, raw0, single0, hw]
  rw [← List.singleton_append, encode_append, encode_append]
  exact hopen.append ((crosses_quoted cs _).append hclose)

/-! ### The literals `Sanitize` writes -/

/-- The space `Sanitize` writes around a literal: plain text, whatever follows. -/
theorem crosses_space (w : List UInt8) : Crosses raw0 [0x20] raw0 w :=
  crosses_char (c := ' ') raw0_fn fun w' => by simp [passOutcome, raw0, RuneError]

theorem plain_of_isDigit {c : Char} (h : c.isDigit) : Plain c := by
  refine ⟨?_, ?_, ?_, ?_, ?_, ?_⟩ <;> rintro rfl <;> exact absurd h (by decide)

theorem rawLiteral_plain {cs : List Char} (h : ∀ c ∈ cs, Plain c) : RawLiteral cs :=
  ⟨[], cs, .inl rfl, rfl, h⟩

/-- Plain text, checked character by character. -/
theorem plain_of_all {cs : List Char} (h : cs.all (fun c => decide (Plain c)) = true) :
    ∀ c ∈ cs, Plain c :=
  fun c hc => of_decide_eq_true (List.all_eq_true.1 h c hc)

theorem rawLiteral_formatInt (i : Int) : RawLiteral (formatInt i) := by
  refine ⟨if i < 0 then ['-'] else [], Nat.toDigits 10 i.natAbs, by split <;> simp, rfl,
    fun c hc => plain_of_isDigit (Nat.isDigit_of_mem_toDigits (by decide) (by decide) hc)⟩

theorem rawLiteral_formatFloat (f : Float64) : RawLiteral (formatFloat f) := by
  rcases formatFloat_cases f with h | h | h | ⟨d, dp, prec, hd, h⟩ <;> rw [h]
  · exact rawLiteral_plain (plain_of_all rfl)
  · exact ⟨['-'], ['I', 'n', 'f'], .inr rfl, rfl, plain_of_all rfl⟩
  · exact rawLiteral_plain (plain_of_all rfl)
  · rw [fmtF_neg]
    refine ⟨_, _, by split <;> simp, rfl, fun c hc => ?_⟩
    rcases mem_fmtF hc with hc | rfl | rfl
    · exact plain_of_isDigit (hd c hc)
    · decide
    · decide

theorem quoteChars_of_not_mem {cs : List Char} (h : '\'' ∉ cs) : quoteChars cs = cs := by
  induction cs with
  | nil => rfl
  | cons c cs ih =>
    have hc : c ≠ '\'' := fun hc => h (by simp [hc])
    rw [quoteChars_cons, ih (fun h' => h (by simp [h'])), quoteChar, if_neg hc,
      List.singleton_append]

/-- Doubling the quote bytes leaves a text without one as it is. -/
theorem flatMap_quote_of_not_mem {bs : List UInt8} (h : (0x27 : UInt8) ∉ bs) :
    bs.flatMap (fun b => if b = 0x27 then [0x27, 0x27] else [b]) = bs := by
  induction bs with
  | nil => rfl
  | cons b bs ih =>
    have hb : b ≠ 0x27 := fun hb => h (by simp [hb])
    rw [List.flatMap_cons, if_neg hb, ih (fun h' => h (List.mem_cons_of_mem _ h')),
      List.singleton_append]

/-- `QuoteString` doubles the quote characters of a valid string: its quote bytes are exactly
those. -/
theorem quoteString_encode (cs : List Char) :
    quoteString [] (encode cs) = encode ('\'' :: quoteChars cs ++ ['\'']) := by
  have hbody : (encode cs).flatMap (fun b => if b = 0x27 then [0x27, 0x27] else [b]) =
      encode (quoteChars cs) := by
    induction cs with
    | nil => rfl
    | cons c cs ih =>
      rw [encode_cons, List.flatMap_append, ih, quoteChars_cons, encode_append]
      congr 1
      by_cases hc : c = '\''
      · subst hc
        rfl
      · -- no byte of another character is a quote
        rw [quoteChar, if_neg hc, encode_singleton]
        exact flatMap_quote_of_not_mem (quote_not_mem hc)
  have hq : String.utf8EncodeChar '\'' = [0x27] := by decide
  simp [quoteString, hbody, hq]

theorem digitChar_ne_quote {n : Nat} (h : n < 16) : n.digitChar ≠ '\'' := by
  have hall : ∀ k : Fin 16, (k : Nat).digitChar ≠ '\'' := by decide
  exact hall ⟨n, h⟩

/-- A literal `Sanitize` writes: a number or a keyword, or a quoted string. -/
def Literal (t : List UInt8) : Prop :=
  (∃ cs, t = encode cs ∧ RawLiteral cs) ∨ ∃ cs, t = encode ('\'' :: quoteChars cs ++ ['\''])

/-- A time is written between quotes, with none inside. -/
theorem literal_time (t : Time) : Literal ((t.truncate 1000).appendFormat [] timeLayout) := by
  set mid := (timeLayout.drop 1).dropLast
  have hlay : timeLayout = [.lit ['\'']] ++ mid ++ [.lit ['\'']] := rfl
  obtain ⟨y, hy, hc⟩ := Time.foldl_appendChunk (t.truncate 1000) mid ['\'']
  have hq : '\'' ∉ y := by
    intro hmem
    obtain ⟨ch, hch, he⟩ := hc _ hmem
    simp only [mid, timeLayout, List.drop_succ_cons, List.drop_zero, List.dropLast_cons_cons,
      List.dropLast_singleton, List.mem_cons, List.not_mem_nil, or_false] at hch
    rcases hch with rfl | rfl | rfl | rfl | rfl | rfl | rfl | rfl | rfl | rfl | rfl | rfl | rfl <;>
      simp [Time.Chunk.Emits] at he
  right
  refine ⟨y, ?_⟩
  have hopen : (t.truncate 1000).appendChunk [] (.lit ['\'']) = ['\''] := rfl
  simp only [Time.appendFormat, hlay, List.foldl_append, List.foldl_cons, List.foldl_nil]
  rw [hopen, hy, Time.appendChunk, quoteChars_of_not_mem hq, List.nil_append]
  rfl

/-- Every argument `Sanitize` can write, a string being valid UTF-8, is written as a literal. -/
theorem literal_argText {a : Arg} {t : List UInt8} (ha : argText a = .ok t)
    (hv : ∀ s, a = .string s → Valid s) : Literal t := by
  cases a with
  | nil =>
    cases ha
    exact .inl ⟨_, rfl, rawLiteral_plain (plain_of_all rfl)⟩
  | int64 v =>
    cases ha
    exact .inl ⟨_, List.nil_append _, rawLiteral_formatInt _⟩
  | float64 v =>
    cases ha
    exact .inl ⟨_, List.nil_append _, rawLiteral_formatFloat _⟩
  | bool v =>
    cases ha
    exact .inl ⟨_, List.nil_append _, rawLiteral_plain (plain_of_all (by cases v <;> rfl))⟩
  | bytes v =>
    cases ha
    right
    unfold quoteBytes
    split
    · exact ⟨['\\', 'x'], rfl⟩
    · refine ⟨['\\', 'x'] ++ hexEncode v, ?_⟩
      rw [quoteChars_of_not_mem, List.nil_append]
      · rfl
      · simp only [List.mem_append, hexEncode, List.mem_flatMap, not_or, not_exists, not_and]
        refine ⟨by decide, fun b _ h => ?_⟩
        simp only [List.mem_cons, List.not_mem_nil, or_false] at h
        have hb : b.toNat < 256 := b.toNat_lt
        rcases h with h | h
        · exact digitChar_ne_quote (by omega) h.symm
        · exact digitChar_ne_quote (by omega) h.symm
  | string v =>
    cases ha
    obtain ⟨cs, rfl⟩ := hv v rfl
    exact .inr ⟨cs, quoteString_encode cs⟩
  | time v =>
    cases ha
    exact literal_time v
  | other _ => cases ha

/-- A literal with a space on each side is crossed from `rawState` back to `rawState`, whatever
follows it. -/
theorem crosses_piece {t : List UInt8} (ht : Literal t) (w : List UInt8) :
    Crosses raw0 ([0x20] ++ t ++ [0x20]) raw0 w := by
  have hsp : decodeRuneInString ([0x20] ++ w) = (' ', 1) := decodeRuneInString_cons_of_lt (by decide) w
  have hlit : Crosses raw0 t raw0 ([0x20] ++ w) := by
    rcases ht with ⟨cs, rfl, hcs⟩ | ⟨cs, rfl⟩
    · exact crosses_rawLiteral hcs (by rw [hsp]; decide) (by rw [hsp]; decide)
    · exact crosses_literal cs (by rw [hsp]; decide)
  rw [List.append_assoc]
  exact (crosses_space _).append (hlit.append (crosses_space w))

/-- **Every placeholder `Sanitize` writes**, its string arguments being valid UTF-8, is crossed from
`rawState` back to `rawState`, whatever follows it. -/
theorem crosses_partText {args : List Arg} (hargs : ∀ s, Arg.string s ∈ args → Valid s) {n : Int64}
    {p : List UInt8} (h : partText args (.int n) = .ok p) (w : List UInt8) : Crosses raw0 p raw0 w := by
  obtain ⟨a, ha, t, ht, rfl⟩ := partText_int_ok h
  exact crosses_piece (literal_argText ht fun s hs => hargs s (hs ▸ ha)) w

end Pgx.Sanitize
