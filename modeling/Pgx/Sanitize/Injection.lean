import Pgx.Sanitize.Cross

/-!
# `SanitizeSQL` cannot inject

Run the lexer over the output of a successful `SanitizeSQL`. Between two literals it reads the text
of the input, and it reads it pass for pass as the lexer reads the input: same modes, same
distances (`Lockstep`), because the `$` a placeholder starts with and the space `Sanitize` writes
in its place are both inert runes of width one. Each literal, with its spaces, is crossed from
`rawState` at nesting zero back to `rawState` at nesting zero (`crosses_partText`). So the output
never reaches a `$` followed by a digit in `rawState`, and `NewQuery` finds no placeholder in it.

* `SafeSubstitution m1 m2 parts pieces`: how the run from `m2` over the written `pieces` follows
  the run from `m1` over the input that gave `parts`;
* `safeSubstitution`: by strong induction over the segments of the input's run, one segment a
  step (`SafeSubstitution.last`, `SafeSubstitution.placeholder`);
* `InjectionFree`, `sanitizeSQL_injectionFree`.
-/

namespace Pgx.Sanitize

open Go.Utf8

/-! ### Where placeholders start -/

/-- A `$` followed by a digit in `rawState` is read into `placeholderState`. -/
theorem step_mode_of_atPlaceholder {m : Machine} (h : AtPlaceholder m) :
    (step m).mode = some ⟨.placeholderState, m.l.nested⟩ := by
  obtain ⟨hf, hd, hdig⟩ := h
  have hm : m.mode = some ⟨.rawState, m.l.nested⟩ := by simp [Machine.mode, hf]
  obtain ⟨hmode, -, -⟩ := step_outcome m _ hm
  rw [hmode, Machine.outcome, hd]
  simp [passOutcome, hdig]

/-- A run that stays out of `placeholderState` up to pass `n` meets no placeholder before it. -/
theorem not_atPlaceholder_of_modes {m : Machine} {n : Nat}
    (h : ∀ i ≤ n, ∃ md, (run m i).mode = some md ∧ md.fn ≠ .placeholderState) :
    ∀ i < n, ¬AtPlaceholder (run m i) := by
  intro i hi ha
  obtain ⟨md, hmd, hp⟩ := h (i + 1) hi
  rw [run_succ, step_mode_of_atPlaceholder ha, Option.some.injEq] at hmd
  exact hp (by rw [← hmd])

theorem TextRun.not_atPlaceholder {m : Machine} {s : List UInt8} {n : Nat} (h : TextRun m s n) :
    ∀ i < n, ¬AtPlaceholder (run m i) :=
  not_atPlaceholder_of_modes fun i hi => by
    obtain ⟨md, hmd, hp, -⟩ := h.modes i hi
    exact ⟨md, hmd, hp⟩

/-- With nothing left to read, no placeholder starts. -/
theorem rest_ne_nil_of_atPlaceholder {m : Machine} (h : AtPlaceholder m) : m.rest ≠ [] := by
  intro hr
  have h1 := h.2.1
  simp [Machine.runes, hr, decodeRuneInString_nil, RuneError] at h1

theorem run_rest_nil {m : Machine} (h : m.rest = []) (t : Nat) : (run m t).rest = [] := by
  rw [rest_of_le (run_src m t) (run_pos_mono m (Nat.zero_le t)), h, List.drop_nil]

theorem stateFn_eq_of_mode_eq {m m' : Machine} (h : m.mode = m'.mode) : m.stateFn = m'.stateFn := by
  unfold Machine.mode at h
  cases hf : m.stateFn <;> cases hf' : m'.stateFn <;> simp_all

/-- In lockstep strictly inside `u`, the second machine is at a placeholder only where the first
is: both read the same rune, and lookaheads they cannot tell apart. -/
theorem Lockstep.atPlaceholder {m1 m2 : Machine} {u w1 w2 : List UInt8} {i : Nat}
    (hl : Lockstep m1 m2 u i) (hw : Continues w1 w2) (h1 : m1.rest = u ++ w1) (h2 : m2.rest = u ++ w2)
    (hlt : (run m1 i).l.pos < m1.l.pos + u.length) (ha : AtPlaceholder (run m2 i)) :
    AtPlaceholder (run m1 i) := by
  obtain ⟨hr1, hr2⟩ := hl.rest h1 h2 (Nat.le_of_lt hlt)
  obtain ⟨cs, hcs⟩ := hl.2.2.2.2
  rcases cs with _ | ⟨c, cs⟩
  · -- some of `u` is left, so it is not the encoding of no character
    have hlen := congrArg List.length hcs
    have hle := hl.2.2.1
    simp only [List.length_drop, encode_nil, List.length_nil] at hlen
    omega
  rw [hcs] at hr1 hr2
  obtain ⟨hf, hd, hdig⟩ := ha
  refine ⟨(stateFn_eq_of_mode_eq hl.1).symm.trans hf, ?_, ?_⟩
  · rw [runes_of_rest hr1]
    rwa [runes_of_rest hr2] at hd
  · rw [runes_of_rest hr2] at hdig
    rcases lookAlike_after cs hw with heq | ⟨-, hin, -⟩
    · rw [runes_of_rest hr1, heq]
      exact hdig
    · exact absurd hdig hin.2.2.2.2.2

/-! ### The text between placeholders -/

/-- The text a segment reads is read in lockstep from the output, where it is followed by anything
a pass cannot tell from what follows it in the input; the output meets no placeholder there. -/
theorem text_lockstep {m1 m2 : Machine} {s w2 : List UInt8} {n : Nat} (ht : TextRun m1 s n)
    (hv : Valid m1.rest) (hmd : m1.mode = m2.mode) (h2 : m2.rest = s ++ w2)
    (hw : Continues (run m1 n).rest w2) :
    (∀ i ≤ n, Lockstep m1 m2 s i) ∧ (∀ i < n, ¬AtPlaceholder (run m2 i)) ∧
      (run m2 n).mode = (run m1 n).mode ∧ (run m2 n).l.pos = m2.l.pos + s.length ∧
      (run m2 n).rest = w2 := by
  have hs : Valid s := valid_of_append (ht.rest ▸ hv) (run_valid_rest hv n)
  have hl := run_transfer hs hw ht.rest h2 hmd ht.inside
  have hpos : (run m2 n).l.pos = m2.l.pos + s.length := by
    have := (hl n (Nat.le_refl n)).2.1
    rw [ht.pos] at this
    omega
  refine ⟨hl, fun i hi ha => ?_, (hl n (Nat.le_refl n)).1, hpos, ?_⟩
  · exact ht.not_atPlaceholder i hi
      ((hl i (Nat.le_of_lt hi)).atPlaceholder hw ht.rest h2 (ht.inside i hi) ha)
  · rw [rest_of_le (run_src m2 n) (run_pos_mono m2 (Nat.zero_le n)), h2]
    show (s ++ w2).drop ((run m2 n).l.pos - m2.l.pos) = w2
    rw [hpos, Nat.add_sub_cancel_left, List.drop_left]

/-! ### How the output's run follows the input's -/

/-- Where the parts of a query start in its source, the first at `p`: a text is as long as itself,
a placeholder as its `$` and its digits. -/
def srcOffsets (src : List UInt8) : List Part → Nat → List Nat
  | [], _ => []
  | .str s :: ps, p => p :: srcOffsets src ps (p + s.length)
  | .int _ :: ps, p => p :: srcOffsets src ps (p + 1 + digitRun (src.drop (p + 1)))

/-- Where the `j`-th of the texts `Sanitize` wrote starts in its output. -/
def outOffset (pieces : List (List UInt8)) (j : Nat) : Nat := (pieces.take j).flatten.length

@[simp] theorem outOffset_zero (pieces : List (List UInt8)) : outOffset pieces 0 = 0 := rfl

@[simp] theorem outOffset_cons_succ (x : List UInt8) (xs : List (List UInt8)) (j : Nat) :
    outOffset (x :: xs) (j + 1) = x.length + outOffset xs j := by
  simp [outOffset]

/-- Passes `a` to `a + n` of the run from `m` read the `len` bytes from `p`: the first starts at
`p`, the last ends at `p + len`. -/
structure Reads (m : Machine) (a n p len : Nat) : Prop where
  first : (run m a).l.pos = p
  last : (run m (a + n)).l.pos = p + len
  inside : ∀ i < n, (run m (a + i)).l.pos < p + len

theorem Reads.shift {m : Machine} {c a n p len : Nat} (h : Reads (run m c) a n p len) :
    Reads m (c + a) n p len where
  first := by rw [run_add]; exact h.first
  last := by rw [Nat.add_assoc, run_add]; exact h.last
  inside i hi := by rw [Nat.add_assoc, run_add]; exact h.inside i hi

/-- How the run from `m2` over the texts `pieces` written for `parts` follows the run from `m1` over
the input that gave `parts`: it never reaches a placeholder; it crosses each literal from
`rawState` at nesting zero back to `rawState` at nesting zero, never in `placeholderState`; and it
reads each text in lockstep with the input's run over the same text. -/
structure SafeSubstitution (m1 m2 : Machine) (parts : List Part) (pieces : List (List UInt8)) :
    Prop where
  noPlaceholder : ∀ i, ¬AtPlaceholder (run m2 i)
  literal : ∀ j k p, parts[j]? = some (.int k) → pieces[j]? = some p →
    ∃ b n, Reads m2 b n (m2.l.pos + outOffset pieces j) p.length ∧
      (run m2 b).mode = some raw0 ∧ (run m2 (b + n)).mode = some raw0 ∧
      ∀ i < n, ∃ md, (run m2 (b + i)).mode = some md ∧ md.fn ≠ .placeholderState
  text : ∀ j s, parts[j]? = some (.str s) →
    ∃ a b n, Reads m1 a n ((srcOffsets m1.l.src parts m1.l.pos).getD j 0) s.length ∧
      Reads m2 b n (m2.l.pos + outOffset pieces j) s.length ∧
      s <+: m1.l.src.drop ((srcOffsets m1.l.src parts m1.l.pos).getD j 0) ∧
      ∀ i ≤ n, Lockstep (run m1 a) (run m2 b) s i

/-- The first text of a segment, read in lockstep from both machines. -/
theorem text_reads {m1 m2 : Machine} {s : List UInt8} {n : Nat} (ht : TextRun m1 s n)
    (hl : ∀ i ≤ n, Lockstep m1 m2 s i) (hpos : (run m2 n).l.pos = m2.l.pos + s.length) :
    Reads m1 0 n m1.l.pos s.length ∧ Reads m2 0 n m2.l.pos s.length ∧
      s <+: m1.l.src.drop m1.l.pos ∧ ∀ i ≤ n, Lockstep (run m1 0) (run m2 0) s i := by
  refine ⟨⟨rfl, by rw [Nat.zero_add, ht.pos], fun i hi => ?_⟩,
    ⟨rfl, by rw [Nat.zero_add, hpos], fun i hi => ?_⟩, ⟨_, ht.rest.symm⟩, hl⟩
  · rw [Nat.zero_add]
    exact ht.inside i hi
  · have h1 := (hl i (Nat.le_of_lt hi)).2.1
    have h2 := ht.inside i hi
    rw [Nat.zero_add]
    omega

/-- Nothing left to read, nothing written. -/
theorem SafeSubstitution.nil (m1 : Machine) {m2 : Machine} (h2 : m2.rest = []) :
    SafeSubstitution m1 m2 [] [] where
  noPlaceholder i ha := rest_ne_nil_of_atPlaceholder ha (run_rest_nil h2 i)
  literal j k p hj := by simp at hj
  text j s hj := by simp at hj

/-- **The last segment.** The rest of the input is one text, written as it is. -/
theorem SafeSubstitution.last {m1 m2 : Machine} {n : Nat} (hm1 : Fresh m1) (hseg : LastSegment m1 n)
    (hmd : m2.mode = some raw0) (h2 : m2.rest = m1.rest) :
    SafeSubstitution m1 m2 [.str m1.rest] [m1.rest] := by
  have ht := hseg.text
  -- the rest of the input has nothing after it, in the input as in the output
  have hend : (run m1 n).rest = [] := by
    exact List.append_right_eq_self.1 ht.rest.symm
  have h2' : m2.rest = m1.rest ++ [] := by rw [h2, List.append_nil]
  obtain ⟨hl, hna, -, hpos, hrest⟩ := text_lockstep ht hm1.valid (hm1.mode.trans hmd.symm) h2'
    (by rw [hend]; exact Continues.refl _)
  refine ⟨fun i ha => ?_, fun j k p hj => ?_, fun j s hj => ?_⟩
  · by_cases hi : i < n
    · exact hna i hi ha
    · obtain ⟨i', rfl⟩ : ∃ i', i = n + i' := ⟨i - n, by omega⟩
      rw [run_add] at ha
      exact rest_ne_nil_of_atPlaceholder ha (run_rest_nil hrest i')
  · rcases j with _ | j <;> simp at hj
  · rcases j with _ | j
    · simp only [List.getElem?_cons_zero, Option.some.injEq, Part.str.injEq] at hj
      subst hj
      obtain ⟨hr1, hr2, hpre, hls⟩ := text_reads ht hl hpos
      exact ⟨0, 0, n, by simpa [srcOffsets] using hr1, by simpa using hr2, by simpa [srcOffsets] using hpre,
        hls⟩
    · simp at hj

/-- **A placeholder segment.** The text before the placeholder is read in lockstep; then the
output crosses the literal written for the placeholder, while the input reads the `$` and the
digits; both are then fresh at the next segment. -/
theorem SafeSubstitution.placeholder {m1 m2 : Machine} {s p : List UInt8} {d n np : Nat} {k : Int64}
    {rs : List Part} {pieces : List (List UInt8)} (hseg : PlaceholderSegment m1 s d n k)
    (hl : ∀ i ≤ n, Lockstep m1 m2 s i) (hna : ∀ i < n, ¬AtPlaceholder (run m2 i))
    (hpos : (run m2 n).l.pos = m2.l.pos + s.length) (hmd : (run m2 n).mode = some raw0)
    (hcmd : (run m2 (n + np)).mode = some raw0)
    (hcpos : (run m2 (n + np)).l.pos = (run m2 n).l.pos + p.length)
    (hcross : ∀ i < np, (run m2 (n + i)).l.pos < (run m2 n).l.pos + p.length ∧
      ∃ md, (run m2 (n + i)).mode = some md ∧ md.fn ≠ .placeholderState)
    (ih : SafeSubstitution (run m1 (n + d + 2)) (run m2 (n + np)) rs pieces) :
    SafeSubstitution m1 m2 (.str s :: .int k :: rs) (s :: p :: pieces) := by
  have hsrc : (run m1 (n + d + 2)).l.src = m1.l.src := run_src m1 _
  -- the next segment starts past the `$` and the digits
  have hnext : (run m1 (n + d + 2)).l.pos =
      m1.l.pos + s.length + 1 + digitRun (m1.l.src.drop (m1.l.pos + s.length + 1)) := by
    rw [hseg.next_pos, hseg.digits, Machine.rest, List.drop_drop, Nat.add_assoc m1.l.pos]
  refine ⟨fun i ha => ?_, fun j k' p' hj hp' => ?_, fun j s' hj => ?_⟩
  · -- the text, the literal, then the next segments
    by_cases hi : i < n
    · exact hna i hi ha
    obtain ⟨i', rfl⟩ : ∃ i', i = n + i' := ⟨i - n, by omega⟩
    by_cases hi' : i' < np
    · refine not_atPlaceholder_of_modes (m := run m2 n) (n := np) (fun j hj => ?_) i' hi'
        (by rwa [← run_add])
      rcases Nat.lt_or_eq_of_le hj with hj | rfl
      · rw [← run_add]
        exact (hcross j hj).2
      · exact ⟨raw0, by rw [← run_add]; exact hcmd, raw0_fn⟩
    · obtain ⟨i'', rfl⟩ : ∃ i'', i' = np + i'' := ⟨i' - np, by omega⟩
      rw [← Nat.add_assoc, run_add] at ha
      exact ih.noPlaceholder i'' ha
  · rcases j with _ | _ | j
    · simp at hj
    · simp only [List.getElem?_cons_succ, List.getElem?_cons_zero, Option.some.injEq] at hj hp'
      subst hp'
      refine ⟨n, np, ⟨?_, ?_, fun i hi => ?_⟩, hmd, hcmd, fun i hi => (hcross i hi).2⟩
      · rw [hpos, outOffset_cons_succ, outOffset_zero, Nat.add_zero]
      · rw [hcpos, hpos, outOffset_cons_succ, outOffset_zero, Nat.add_zero]
      · rw [outOffset_cons_succ, outOffset_zero, Nat.add_zero, ← hpos]
        exact (hcross i hi).1
    · simp only [List.getElem?_cons_succ] at hj hp'
      obtain ⟨b, n', hr, hb, hbn, hmid⟩ := ih.literal j k' p' hj hp'
      have hoff : (run m2 (n + np)).l.pos + outOffset pieces j =
          m2.l.pos + outOffset (s :: p :: pieces) (j + 1 + 1) := by
        rw [outOffset_cons_succ, outOffset_cons_succ, hcpos, hpos]
        omega
      rw [hoff] at hr
      refine ⟨n + np + b, n', hr.shift, by rw [run_add]; exact hb, ?_, fun i hi => ?_⟩
      · rw [Nat.add_assoc, run_add]
        exact hbn
      · rw [Nat.add_assoc, run_add]
        exact hmid i hi
  · rcases j with _ | _ | j
    · simp only [List.getElem?_cons_zero, Option.some.injEq, Part.str.injEq] at hj
      subst hj
      obtain ⟨hr1, hr2, hpre, hls⟩ := text_reads hseg.text hl hpos
      exact ⟨0, 0, n, by simpa [srcOffsets] using hr1, by simpa using hr2,
        by simpa [srcOffsets] using hpre, hls⟩
    · simp at hj
    · simp only [List.getElem?_cons_succ] at hj
      obtain ⟨a, b, n', hr1, hr2, hpre, hls⟩ := ih.text j s' hj
      have hoff : (run m2 (n + np)).l.pos + outOffset pieces j =
          m2.l.pos + outOffset (s :: p :: pieces) (j + 1 + 1) := by
        rw [outOffset_cons_succ, outOffset_cons_succ, hcpos, hpos]
        omega
      have hsoff : (srcOffsets (run m1 (n + d + 2)).l.src rs (run m1 (n + d + 2)).l.pos).getD j 0 =
          (srcOffsets m1.l.src (.str s :: .int k :: rs) m1.l.pos).getD (j + 1 + 1) 0 := by
        rw [hsrc, hnext]
        simp [srcOffsets, Nat.add_assoc]
      rw [hoff] at hr2
      rw [hsoff] at hr1 hpre
      rw [hsrc] at hpre
      refine ⟨n + d + 2 + a, n + np + b, n', hr1.shift, hr2.shift, hpre, fun i hi => ?_⟩
      rw [run_add m1, run_add m2]
      exact hls i hi

/-- **Simulation.** From a fresh machine the input's run writes some parts `rs`; whatever texts
`Sanitize` writes for them, the run over those texts follows the input's run. By strong induction
on what is left to read, one segment a step. -/
theorem safeSubstitution {args : List Arg} (hargs : ∀ s, Arg.string s ∈ args → Valid s)
    (m1 : Machine) (hm1 : Fresh m1) :
    ∃ rs T, (∀ t, T ≤ t → (run m1 t).l.parts = m1.l.parts ++ rs) ∧
      ∀ pieces, rs.mapM (partText args) = .ok pieces → ∀ m2 : Machine, m2.mode = some raw0 →
        m2.rest = pieces.flatten → SafeSubstitution m1 m2 rs pieces := by
  induction hlen : m1.rest.length using Nat.strongRecOn generalizing m1 with
  | ind L ih =>
    rcases segment hm1 with ⟨n, hseg⟩ | ⟨s, d, n, k, hseg⟩
    · -- the last segment: the rest is one text, or nothing
      refine ⟨if m1.rest = [] then [] else [.str m1.rest], n + 1, fun t ht => ?_, ?_⟩
      · rw [run_halted_mono hseg.stop ht, hseg.parts]
      intro pieces hp m2 hm2 hr2
      by_cases he : m1.rest = []
      · rw [if_pos he] at hp ⊢
        cases hp
        exact SafeSubstitution.nil m1 hr2
      · rw [if_neg he] at hp ⊢
        obtain ⟨s', ps, hs', hps, rfl⟩ := mapM_cons_ok.1 hp
        cases hs'
        cases hps
        exact SafeSubstitution.last hm1 hseg hm2 (by rw [hr2]; simp)
    · -- a placeholder segment, then the segments after it
      have hshort : (run m1 (n + d + 2)).rest.length < L := by
        have hin := hseg.next.inside
        rw [← hlen]
        simp only [Machine.rest, List.length_drop, run_src] at hin ⊢
        have := hseg.next_pos
        omega
      obtain ⟨rs, T, hT, hsim⟩ := ih _ hshort (run m1 (n + d + 2)) hseg.next rfl
      refine ⟨.str s :: .int k :: rs, n + d + 2 + T, fun t ht => ?_, ?_⟩
      · obtain ⟨t', rfl⟩ : ∃ t', t = n + d + 2 + t' := ⟨t - (n + d + 2), by omega⟩
        rw [run_add, hT t' (by omega), hseg.next_parts, List.append_assoc]
        rfl
      intro pieces hp m2 hm2 hr2
      obtain ⟨s', ps, hs', hps, rfl⟩ := mapM_cons_ok.1 hp
      cases hs'
      obtain ⟨p, pieces', hpk, hps', rfl⟩ := mapM_cons_ok.1 hps
      have hr2' : m2.rest = s ++ (p ++ pieces'.flatten) := by rw [hr2]; simp
      -- in the input the text is followed by the `$`, in the output by a space
      have hdollar : (run m1 n).rest = '$'.toUInt8 :: m1.rest.drop (s.length + 1) := by
        rw [← hseg.sign, hseg.text.rest, List.drop_left]
      have hspace : ∃ t, p = [0x20] ++ t ++ [0x20] := by
        obtain ⟨-, -, t, -, ht⟩ := partText_int_ok hpk
        exact ⟨t, ht⟩
      obtain ⟨t, rfl⟩ := hspace
      have hw : Continues (run m1 n).rest (([0x20] ++ t ++ [0x20]) ++ pieces'.flatten) := by
        rw [Continues, hdollar, List.append_assoc, List.append_assoc, List.singleton_append,
          decodeRuneInString_cons_of_lt (by decide), decodeRuneInString_cons_of_lt (by decide)]
        exact .inr ⟨by decide, by decide, rfl⟩
      obtain ⟨hl, hna, hmode, hpos, hrest⟩ :=
        text_lockstep hseg.text hm1.valid (hm1.mode.trans hm2.symm) hr2' hw
      have hmd : (run m2 n).mode = some raw0 := hmode.trans hseg.dollar
      -- the output crosses the literal
      obtain ⟨np, hcmd, hcpos, hcross⟩ := crosses_partText hargs hpk pieces'.flatten (run m2 n) hmd hrest
      rw [← run_add] at hcmd hcpos
      have hcrest : (run m2 (n + np)).rest = pieces'.flatten := by
        have hsrc : (run m2 (n + np)).l.src = (run m2 n).l.src := by rw [run_src, run_src]
        rw [rest_of_le hsrc (run_pos_mono m2 (Nat.le_add_right n np)), hrest, hcpos,
          Nat.add_sub_cancel_left, List.drop_left]
      refine SafeSubstitution.placeholder hseg hl hna hpos hmd hcmd hcpos (fun i hi => ?_)
        (hsim pieces' hps' _ hcmd hcrest)
      rw [run_add]
      exact hcross i hi

/-! ### No placeholder, no integer part -/

/-- A pass that meets no placeholder writes only texts. -/
theorem step_strParts {m : Machine} {md : Mode} (hm : m.mode = some md)
    (hp : md.fn ≠ .placeholderState) (hn : NestOk md) (ha : ¬AtPlaceholder m)
    (hparts : ∀ part ∈ m.l.parts, ∃ s, part = .str s) :
    ((step m).stateFn = none ∨
      ∃ md', (step m).mode = some md' ∧ md'.fn ≠ .placeholderState ∧ NestOk md') ∧
      ∀ part ∈ (step m).l.parts, ∃ s, part = .str s := by
  by_cases hs : (step m).stateFn = none
  · -- the last pass flushes the text read so far
    refine ⟨.inl hs, ?_⟩
    obtain ⟨-, -, hl⟩ := step_stop ((mode_eq_some_iff m md).1 hm).1 hp hs
    rw [hl]
    unfold SqlLexer.flush
    split_ifs
    · intro part hpart
      simp only [SqlLexer.advance, List.mem_append, List.mem_singleton] at hpart
      rcases hpart with hpart | rfl
      · exact hparts part hpart
      · exact ⟨_, rfl⟩
    · exact hparts
  · obtain ⟨md', hm', hp', hn', hparts', -, -⟩ := step_quiet_mode hm hp hn ha hs
    exact ⟨.inr ⟨md', hm', hp', hn'⟩, hparts' ▸ hparts⟩

/-- A run from `rawState` that meets no placeholder writes only texts. -/
theorem run_strParts {m : Machine} (hm : m.mode = some raw0)
    (hparts : ∀ part ∈ m.l.parts, ∃ s, part = .str s) (hno : ∀ i, ¬AtPlaceholder (run m i))
    (t : Nat) : ∀ part ∈ (run m t).l.parts, ∃ s, part = .str s := by
  -- the invariant: stopped, or outside `placeholderState` at a valid nesting; texts written
  suffices h : ((run m t).stateFn = none ∨ ∃ md, (run m t).mode = some md ∧
      md.fn ≠ .placeholderState ∧ NestOk md) ∧ ∀ part ∈ (run m t).l.parts, ∃ s, part = .str s from h.2
  induction t with
  | zero => exact ⟨.inr ⟨raw0, hm, raw0_fn, raw0_nestOk⟩, hparts⟩
  | succ t ih =>
    obtain ⟨hrun | ⟨md, hmd, hp, hn⟩, hps⟩ := ih
    · rw [run_succ, step_of_halted hrun]
      exact ⟨.inl hrun, hps⟩
    · rw [run_succ]
      exact step_strParts hmd hp hn (hno t) hps

/-! ### Injection freedom -/

theorem fresh_start {sql : List UInt8} (h : Valid sql) : Fresh (start sql) :=
  ⟨rfl, rfl, h, Nat.zero_le _⟩

/-- What `SanitizeSQL` must guarantee of the text `out` it wrote for `sql` and `args`: `out` is the
texts written for the parts of `sql`, one after the other; the lexer's run over `out` follows its
run over `sql` as `SafeSubstitution` says; and `NewQuery` finds no placeholder in `out`. -/
def InjectionFree (sql : List UInt8) (args : List Arg) (out : List UInt8) : Prop :=
  ∃ pieces, (Query.init sql).parts.mapM (partText args) = .ok pieces ∧ out = pieces.flatten ∧
    SafeSubstitution (start sql) (start out) (Query.init sql).parts pieces ∧
    ∀ part ∈ (newQuery out).parts, ∃ s, part = .str s

theorem sanitizeSQL_injectionFree {sql out : List UInt8} {args : List Arg} (hsql : Valid sql)
    (hargs : ∀ s, Arg.string s ∈ args → Valid s) (h : sanitizeSQL sql args = .ok out) :
    InjectionFree sql args out := by
  obtain ⟨pieces, hps, rfl⟩ := Query.sanitize_ok h
  obtain ⟨rs, T, hT, hsim⟩ := safeSubstitution hargs (start sql) (fresh_start hsql)
  -- the parts `NewQuery` keeps are those of the stopped lexer
  have hrs : (Query.init sql).parts = rs := by
    rw [← init_parts_of_le sql (Nat.le_max_right T _), hT _ (Nat.le_max_left _ _)]
    rfl
  subst hrs
  have hsafe := hsim pieces hps (start pieces.flatten) rfl rfl
  refine ⟨pieces, hps, rfl, hsafe, fun part hpart => ?_⟩
  rw [newQuery, ← init_parts_of_le _ (Nat.le_refl _)] at hpart
  exact run_strParts rfl (by simp [start, Machine.loop]) hsafe.noPlaceholder _ part hpart

theorem sanitizeSQL_injectionFree_quote :
    InjectionFree (encode ['$', '1']) [.string (encode ['\'', '-'])]
      (encode [' ', '\'', '\'', '\'', '-', '\'', ' ']) :=
  sanitizeSQL_injectionFree (valid_encode _)
    (fun s hs => by
      simp only [List.mem_singleton, Arg.string.injEq] at hs
      exact hs ▸ valid_encode _)
    (by decide)

end Pgx.Sanitize
