import Pgx.Sanitize.Run

/-!
# Lexing a text does not depend on what follows it

A pass reads at most two runes. So when two machines in the same mode have the same valid UTF-8
text `u` ahead of them, followed by continuations that a pass cannot tell apart (`LookAlike`:
both empty, or both starting with an *inert* rune of the same width, one that no state compares a
lookahead with), they make the same passes over `u`: `run_transfer`. This is what lets the
sanitizer replace a `$n` placeholder by an argument surrounded by spaces without changing how
the SQL text around it is lexed: `$` and the space are both inert.
-/

namespace Pgx.Sanitize

open Go.Utf8

/-- A rune no state compares a lookahead with: not a quote, a double quote, a dash, a star, a
slash or a digit. -/
def Inert (c : Char) : Prop :=
  c ≠ '\'' ∧ c ≠ '"' ∧ c ≠ '-' ∧ c ≠ '*' ∧ c ≠ '/' ∧ ¬('0' ≤ c ∧ c ≤ '9')

instance (c : Char) : Decidable (Inert c) := by unfold Inert; infer_instance

/-- Two decoded lookaheads a pass cannot tell apart. -/
def LookAlike (a b : Char × Nat) : Prop := a = b ∨ (Inert a.1 ∧ Inert b.1 ∧ a.2 = b.2)

/-- Two continuations a pass cannot tell apart. -/
def Continues (w1 w2 : List UInt8) : Prop := LookAlike (decodeRuneInString w1) (decodeRuneInString w2)

theorem LookAlike.refl (a : Char × Nat) : LookAlike a a := Or.inl rfl

theorem Continues.refl (w : List UInt8) : Continues w w := LookAlike.refl _

/-- A pass gives the same outcome on lookaheads it cannot tell apart. -/
theorem passOutcome_congr (md : Mode) (r : Char) (w : Nat) {a b : Char × Nat} (h : LookAlike a b) :
    passOutcome md r w a.1 a.2 = passOutcome md r w b.1 b.2 := by
  rcases h with rfl | ⟨⟨ha1, ha2, ha3, ha4, ha5, ha6⟩, ⟨hb1, hb2, hb3, hb4, hb5, hb6⟩, hw⟩
  · rfl
  · have hda : ('0' ≤ a.1 ∧ a.1 ≤ '9') = False := eq_false ha6
    have hdb : ('0' ≤ b.1 ∧ b.1 ≤ '9') = False := eq_false hb6
    rcases md with ⟨f, n⟩
    cases f <;> simp [passOutcome, ha1, ha2, ha3, ha4, ha5, hb1, hb2, hb3, hb4, hb5, hw, hda, hdb]

/-- A pass consumes nothing, its first rune, or both runes. -/
theorem passOutcome_consumed (md : Mode) (r : Char) (w : Nat) (r' : Char) (w' : Nat) :
    (passOutcome md r w r' w').2 = 0 ∨ (passOutcome md r w r' w').2 = w ∨
      (passOutcome md r w r' w').2 = w + w' := by
  rcases md with ⟨f, n⟩
  cases f <;> simp only [passOutcome] <;> split_ifs <;> simp

/-- The text ahead of a machine that has moved on from `m` in the same source. -/
theorem rest_of_le {m m' : Machine} (hsrc : m'.l.src = m.l.src) (hle : m.l.pos ≤ m'.l.pos) :
    m'.rest = m.rest.drop (m'.l.pos - m.l.pos) := by
  simp only [Machine.rest, hsrc, List.drop_drop]
  congr 1
  omega

/-- The runes a machine reads when an encoded character is ahead of it. -/
theorem runes_of_rest {m : Machine} {c : Char} {cs : List Char} {w : List UInt8}
    (h : m.rest = encode (c :: cs) ++ w) :
    m.runes = ((c, c.utf8Size), decodeRuneInString (encode cs ++ w)) := by
  have h1 : decodeRuneInString m.rest = (c, c.utf8Size) := by
    rw [h, decodeRuneInString_encode_cons]
  simp only [Machine.runes, h1]
  rw [h, encode_cons, List.append_assoc, ← String.length_utf8EncodeChar, List.drop_left]

/-- The lookaheads after an encoded character are alike when the continuations are. -/
theorem lookAlike_after (cs : List Char) {w1 w2 : List UInt8} (hw : Continues w1 w2) :
    LookAlike (decodeRuneInString (encode cs ++ w1)) (decodeRuneInString (encode cs ++ w2)) := by
  cases cs with
  | nil => simpa [Continues] using hw
  | cons c cs => rw [decodeRuneInString_encode_cons, decodeRuneInString_encode_cons]; exact .refl _

/-- One pass in step: the same mode and the same text ahead give the same outcome. -/
theorem step_transfer {m1 m2 : Machine} {md : Mode} {c : Char} {cs : List Char} {w1 w2 : List UInt8}
    (hw : Continues w1 w2) (h1 : m1.rest = encode (c :: cs) ++ w1)
    (h2 : m2.rest = encode (c :: cs) ++ w2) :
    m1.outcome md = m2.outcome md := by
  simp only [Machine.outcome, runes_of_rest h1, runes_of_rest h2]
  exact passOutcome_congr md c c.utf8Size (lookAlike_after cs hw)

/-- A pass ends on a character boundary of the encoded text ahead of it, whatever follows. -/
theorem valid_drop_outcome {m : Machine} {c : Char} {cs : List Char} {w : List UInt8}
    (h : m.rest = encode (c :: cs) ++ w) (md : Mode) :
    Valid ((encode (c :: cs)).drop (m.outcome md).2) := by
  have hcons : m.outcome md =
      passOutcome md c c.utf8Size (decodeRuneInString (encode cs ++ w)).1
        (decodeRuneInString (encode cs ++ w)).2 := by
    simp only [Machine.outcome, runes_of_rest h]
  rcases passOutcome_consumed md c c.utf8Size (decodeRuneInString (encode cs ++ w)).1
      (decodeRuneInString (encode cs ++ w)).2 with h0 | h1 | h2 <;> rw [hcons]
  · rw [h0, List.drop_zero]; exact valid_encode _
  · rw [h1, encode_cons, ← String.length_utf8EncodeChar, List.drop_left]; exact valid_encode _
  · -- both runes consumed: the second is the next character, or there is none
    rw [h2]
    cases cs with
    | nil =>
      rw [List.drop_eq_nil_of_le (by simp)]
      exact valid_nil
    | cons d ds =>
      rw [decodeRuneInString_encode_cons, encode_cons, encode_cons, ← List.append_assoc,
        List.drop_left' (by simp)]
      exact valid_encode _

/-- A pass over valid text leaves valid text ahead. -/
theorem valid_rest_step {m : Machine} (h : Valid m.rest) : Valid (step m).rest := by
  cases hm : m.mode with
  | none => rw [step_of_halted ((mode_eq_none_iff m).1 hm)]; exact h
  | some md =>
    obtain ⟨hmode, hpos, hsrc⟩ := step_outcome m md hm
    obtain ⟨ds, hds⟩ := h
    have hrest : (step m).rest = m.rest.drop (m.outcome md).2 := by
      simp only [Machine.rest, hsrc, hpos, List.drop_drop]
    rcases ds with _ | ⟨c, cs⟩
    · rw [hrest, hds, encode_nil, List.drop_nil]; exact valid_nil
    · rw [hrest, hds]
      exact valid_drop_outcome (by rw [hds, List.append_nil]) md

theorem run_valid_rest {m : Machine} (h : Valid m.rest) (t : Nat) : Valid (run m t).rest := by
  induction t with
  | zero => exact h
  | succ t ih => exact valid_rest_step ih

/-- What the two runs share, `i` passes in: the same mode, the same distance travelled, and a
character boundary of `u` reached. -/
def Lockstep (m1 m2 : Machine) (u : List UInt8) (i : Nat) : Prop :=
  (run m2 i).mode = (run m1 i).mode ∧
    (run m2 i).l.pos + m1.l.pos = (run m1 i).l.pos + m2.l.pos ∧
    m1.l.pos ≤ (run m1 i).l.pos ∧ m2.l.pos ≤ (run m2 i).l.pos ∧
    Valid (u.drop ((run m1 i).l.pos - m1.l.pos))

/-- In lockstep, the two machines have the same part of `u` ahead, each followed by its own
continuation. -/
theorem Lockstep.rest {m1 m2 : Machine} {u w1 w2 : List UInt8} {i : Nat} (hl : Lockstep m1 m2 u i)
    (h1 : m1.rest = u ++ w1) (h2 : m2.rest = u ++ w2) (hle : (run m1 i).l.pos ≤ m1.l.pos + u.length) :
    (run m1 i).rest = u.drop ((run m1 i).l.pos - m1.l.pos) ++ w1 ∧
      (run m2 i).rest = u.drop ((run m1 i).l.pos - m1.l.pos) ++ w2 := by
  obtain ⟨-, hpos, hle1, hle2, -⟩ := hl
  constructor
  · rw [rest_of_le (run_src m1 i) hle1, h1, List.drop_append_of_le_length (by omega)]
  · rw [rest_of_le (run_src m2 i) hle2, h2, List.drop_append_of_le_length (by omega)]
    congr 2
    omega

/-- **Transfer.** Two machines in the same mode with the same valid text `u` ahead, followed by
continuations a pass cannot tell apart, run in lockstep for as long as the first makes its passes
inside `u`. -/
theorem run_transfer {m1 m2 : Machine} {u w1 w2 : List UInt8} (hu : Valid u) (hw : Continues w1 w2)
    (h1 : m1.rest = u ++ w1) (h2 : m2.rest = u ++ w2) (hmd : m1.mode = m2.mode) {t : Nat}
    (hin : ∀ i < t, (run m1 i).l.pos < m1.l.pos + u.length) :
    ∀ i ≤ t, Lockstep m1 m2 u i := by
  intro i hi
  induction i with
  | zero => exact ⟨hmd.symm, by simp only [run_zero]; omega, Nat.le_refl _, Nat.le_refl _, by simpa using hu⟩
  | succ i ih =>
    have hl := ih (by omega)
    have hlt := hin i (by omega)
    -- the text ahead of both machines: what is left of `u`, then the continuation
    obtain ⟨hr1, hr2⟩ := hl.rest h1 h2 (by omega)
    obtain ⟨hmode, hpos, hle1, hle2, hvalid⟩ := hl
    set o := (run m1 i).l.pos - m1.l.pos with ho
    cases hm : (run m1 i).mode with
    | none =>
      have hs1 := (mode_eq_none_iff _).1 hm
      have hs2 := (mode_eq_none_iff _).1 (hmode.trans hm)
      simp only [Lockstep, run_succ, step_of_halted hs1, step_of_halted hs2]
      exact ⟨hmode, hpos, hle1, hle2, hvalid⟩
    | some md =>
      obtain ⟨ds, hds⟩ := hvalid
      rcases ds with _ | ⟨c, cs⟩
      · simp only [encode_nil, List.drop_eq_nil_iff] at hds
        omega
      have hst1 := step_outcome _ md hm
      have hst2 := step_outcome _ md (hmode.trans hm)
      rw [hds] at hr1 hr2
      have hout : (run m1 i).outcome md = (run m2 i).outcome md := step_transfer hw hr1 hr2
      obtain ⟨hm1, hp1, -⟩ := hst1
      obtain ⟨hm2, hp2, -⟩ := hst2
      rw [← hout] at hp2
      simp only [Lockstep, run_succ]
      refine ⟨by rw [hm1, hm2, hout], by omega, by omega, by omega, ?_⟩
      -- the new read position is again a character boundary of `u`
      have hshift : (step (run m1 i)).l.pos - m1.l.pos = o + ((run m1 i).outcome md).2 := by
        rw [hp1]; omega
      rw [hshift, ← List.drop_drop, hds]
      exact valid_drop_outcome hr1 md

end Pgx.Sanitize
