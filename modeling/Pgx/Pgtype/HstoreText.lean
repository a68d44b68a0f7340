import Pgx.Pgtype.Hstore

/-!
# `parseHstore`: the text format read back

`parseHstore` reads `"key"=>"value"` pairs separated by `, `, a value being a quoted string or
`NULL`. Reading a quoted string has two paths. The parser keeps `nextBackslash`, where it last
found a backslash; when the closing quote comes before it, the string has no escape and is cut
out of the input as it stands (the fast path); otherwise it is read byte by byte, and the escapes
are undone (the slow path, `escapesLoop`), after which `nextBackslash` is searched for again.

* `HstoreParser` and its calls, `parseHstore`, `scanPlanTextAnyToHstoreScanner`;
* `Inv`: `nextBackslash` is the index of the first backslash at or after `pos`, or `-1`. Every
  call keeps it, and under it the fast path returns what the slow path would
  (`consumeDoubleQuoted_eq`);
* `parseHstore_encode`: what the text plan writes, the parser reads back.
-/

namespace Pgx.Pgtype

open Go Pgx.Proto

section Lists

variable {α : Type} [DecidableEq α]

/-- The first occurrence of an element splits a list around it. -/
theorem exists_first_split {c : α} : ∀ {l : List α}, c ∈ l → ∃ u t, l = u ++ c :: t ∧ c ∉ u
  | x :: l, h => by
    by_cases hx : x = c
    · exact ⟨[], l, by simp [hx], List.not_mem_nil⟩
    · obtain ⟨u, t, rfl, hu⟩ := exists_first_split (List.mem_of_ne_of_mem (Ne.symm hx) h)
      exact ⟨x :: u, t, rfl, by simp [hu, Ne.symm hx]⟩

end Lists

/-- `strings.IndexByte(s, c)`: the index of the first `c`, or `-1`. -/
def indexByte (s : List UInt8) (c : UInt8) : Int :=
  if c ∈ s then s.idxOf c else -1

theorem indexByte_cases (s : List UInt8) (c : UInt8) : indexByte s c = -1 ∨ 0 ≤ indexByte s c := by
  unfold indexByte
  split_ifs <;> simp

theorem indexByte_append_of_not_mem {u : List UInt8} {c : UInt8} (hu : c ∉ u) (r : List UInt8) :
    indexByte (u ++ r) c = if c ∈ r then (u.length : Int) + r.idxOf c else -1 := by
  by_cases hr : c ∈ r
  · simp [indexByte, hr, List.idxOf_append_of_notMem hu]
  · simp [indexByte, hr, hu]

theorem indexByte_of_first {u t : List UInt8} {c : UInt8} (hu : c ∉ u) :
    indexByte (u ++ c :: t) c = u.length := by
  rw [indexByte_append_of_not_mem hu]
  simp

/-- A byte as `%#v` prints it: `0x63`. -/
def goSyntaxByte (b : UInt8) : String := "0x" ++ String.ofList (Nat.toDigits 16 b.toNat)

/-- A byte as `'%c' ('%#v')` prints it: `'c' ('0x63')`. -/
def showByte (b : UInt8) : String :=
  "'" ++ (Char.ofNat b.toNat).toString ++ "' ('" ++ goSyntaxByte b ++ "')"

example : showByte '"'.toUInt8 = "'\"' ('0x22')" := by decide

/-- `unexpectedByteErr(actualB, expectedB)`. -/
def unexpectedByteErr (actualB expectedB : UInt8) : Fault :=
  .error ("expected " ++ showByte expectedB ++ "; found " ++ showByte actualB)

/-- `errEOSInQuoted`. -/
def errEOSInQuoted : Fault := .error "found end before closing double-quote ('\"')"

/-- `hstoreParser`. -/
structure HstoreParser where
  str : List UInt8
  pos : Nat
  nextBackslash : Int

/-- `newHSP`. -/
def newHSP (s : List UInt8) : HstoreParser := ⟨s, 0, indexByte s backslashByte⟩

namespace HstoreParser

/-- `atEnd`. -/
def atEnd (p : HstoreParser) : Bool := p.str.length ≤ p.pos

/-- `consume`: the next byte, or the end. -/
def consume (p : HstoreParser) : (UInt8 × Bool) × HstoreParser :=
  if p.str.length ≤ p.pos then ((0, true), p)
  else ((p.str.getD p.pos 0, false), { p with pos := p.pos + 1 })

/-- `consumeExpectedByte`. -/
def consumeExpectedByte (p : HstoreParser) (expectedB : UInt8) : GoM HstoreParser :=
  match p.consume with
  | ((_, true), _) => .error (.error ("expected " ++ showByte expectedB ++ "; found end"))
  | ((nextB, false), p) =>
    if nextB ≠ expectedB then .error (unexpectedByteErr nextB expectedB) else .ok p

/-- `consumeExpected2`. -/
def consumeExpected2 (p : HstoreParser) (one two : UInt8) : GoM HstoreParser :=
  if p.str.length < p.pos + 2 then .error (.error "unexpected end of string")
  else if p.str.getD p.pos 0 ≠ one then .error (unexpectedByteErr (p.str.getD p.pos 0) one)
  else if p.str.getD (p.pos + 1) 0 ≠ two then
    .error (unexpectedByteErr (p.str.getD (p.pos + 1) 0) two)
  else .ok { p with pos := p.pos + 2 }

theorem consume_eq_false {p p1 : HstoreParser} {b : UInt8} (h : p.consume = ((b, false), p1)) :
    p.pos < p.str.length ∧ p1 = { p with pos := p.pos + 1 } := by
  unfold consume at h
  split_ifs at h with hp
  · cases h
  · cases h
    exact ⟨by omega, rfl⟩

/-- The loop of `consumeDoubleQuotedWithEscapes`: bytes up to the closing quote, with a
backslash taking the next byte, which must be a backslash or a quote, as it is. -/
def escapesLoop (builder : List UInt8) (p : HstoreParser) : GoM (List UInt8 × HstoreParser) :=
  match _h : p.consume with
  | ((_, true), _) => .error errEOSInQuoted
  | ((nextB, false), p1) =>
    if nextB = quoteByte then .ok (builder, p1)
    else if nextB = backslashByte then
      match _h1 : p1.consume with
      | ((_, true), _) => .error errEOSInQuoted
      | ((nextB, false), p2) =>
        if ¬(nextB = backslashByte ∨ nextB = quoteByte) then
          .error (.error ("unexpected escape in quoted string: found '" ++ goSyntaxByte nextB ++
            "'"))
        else escapesLoop (builder ++ [nextB]) p2
    else escapesLoop (builder ++ [nextB]) p1
termination_by p.str.length - p.pos
decreasing_by
  · obtain ⟨hlt, rfl⟩ := consume_eq_false _h
    obtain ⟨-, rfl⟩ := consume_eq_false _h1
    dsimp only
    omega
  · obtain ⟨hlt, rfl⟩ := consume_eq_false _h
    dsimp only
    omega

/-- `consumeDoubleQuotedWithEscapes`: the text before the first backslash as it is, then the
loop from the backslash. -/
def consumeDoubleQuotedWithEscapes (p : HstoreParser) (firstBackslash : Int) :
    GoM (List UInt8 × HstoreParser) := do
  let builder ← slice p.str p.pos firstBackslash
  escapesLoop builder { p with pos := firstBackslash.toNat }

/-- `consumeDoubleQuoted`, after the opening quote. -/
def consumeDoubleQuoted (p : HstoreParser) : GoM (List UInt8 × HstoreParser) := do
  let nextDoubleQuote := indexByte (← sliceFrom p.str p.pos) quoteByte
  if nextDoubleQuote = -1 then .error errEOSInQuoted
  else
    let nextDoubleQuote := nextDoubleQuote + p.pos
    if p.nextBackslash = -1 ∨ p.nextBackslash > nextDoubleQuote then
      -- no backslash before the closing quote: the string as it stands
      let s ← slice p.str p.pos nextDoubleQuote
      return (s, { p with pos := (nextDoubleQuote + 1).toNat })
    else
      let (s, p) ← p.consumeDoubleQuotedWithEscapes p.nextBackslash
      let nextBackslash := indexByte (← sliceFrom p.str p.pos) backslashByte
      return (s, { p with
        nextBackslash := if nextBackslash ≠ -1 then nextBackslash + p.pos else nextBackslash })

/-- `consumePairSeparator`. -/
def consumePairSeparator (p : HstoreParser) : GoM HstoreParser :=
  p.consumeExpected2 ','.toUInt8 ' '.toUInt8

/-- `consumeKVSeparator`. -/
def consumeKVSeparator (p : HstoreParser) : GoM HstoreParser :=
  p.consumeExpected2 '='.toUInt8 '>'.toUInt8

/-- `consumeDoubleQuotedOrNull`: a quoted string, or `NULL` for nil. -/
def consumeDoubleQuotedOrNull (p : HstoreParser) : GoM (Option (List UInt8) × HstoreParser) :=
  if p.atEnd then .error (.error "found end instead of value")
  else
    let next := p.str.getD p.pos 0
    if next = 'N'.toUInt8 then do
      let p ← p.consumeExpected2 'N'.toUInt8 'U'.toUInt8
      let p ← p.consumeExpected2 'L'.toUInt8 'L'.toUInt8
      return (none, p)
    else if next ≠ quoteByte then .error (unexpectedByteErr next quoteByte)
    else do
      let (s, p) ← ({ p with pos := p.pos + 1 } : HstoreParser).consumeDoubleQuoted
      return (some s, p)

/-- The body of the loop of `parseHstore` after the separator: a quoted key, `=>`, a value. -/
def parseKV (p : HstoreParser) : GoM ((List UInt8 × Option (List UInt8)) × HstoreParser) := do
  let p ← p.consumeExpectedByte quoteByte
  let (key, p) ← p.consumeDoubleQuoted
  let p ← p.consumeKVSeparator
  let (value, p) ← p.consumeDoubleQuotedOrNull
  return ((key, value), p)

/-- One pass of the loop of `parseHstore`: a separator unless it is the first pair, then a key
and a value. -/
def parsePair (first : Bool) (p : HstoreParser) :
    GoM ((List UInt8 × Option (List UInt8)) × HstoreParser) :=
  (if first then pure p else p.consumePairSeparator) >>= parseKV

section Advanced

/-- A call that succeeded moved forward, over the same input. -/
def Advanced (p p' : HstoreParser) : Prop := p'.str = p.str ∧ p.pos < p'.pos

theorem advanced_pos_add (p : HstoreParser) {n : Nat} (hn : 0 < n) :
    Advanced p { p with pos := p.pos + n } :=
  ⟨rfl, Nat.lt_add_of_pos_right hn⟩

theorem Advanced.trans {p p1 p2 : HstoreParser} (h1 : Advanced p p1) (h2 : Advanced p1 p2) :
    Advanced p p2 :=
  ⟨h2.1.trans h1.1, h1.2.trans h2.2⟩

theorem consumeExpected2_eq {p p' : HstoreParser} {one two : UInt8}
    (h : p.consumeExpected2 one two = .ok p') : p' = { p with pos := p.pos + 2 } := by
  unfold consumeExpected2 at h
  split_ifs at h
  cases h
  rfl

theorem consumeExpected2_advanced {p p' : HstoreParser} {one two : UInt8}
    (h : p.consumeExpected2 one two = .ok p') : Advanced p p' := by
  rw [consumeExpected2_eq h]
  exact advanced_pos_add p two_pos

theorem consumeExpectedByte_eq {p p' : HstoreParser} {b : UInt8}
    (h : p.consumeExpectedByte b = .ok p') : p' = { p with pos := p.pos + 1 } := by
  unfold consumeExpectedByte at h
  rcases hc : p.consume with ⟨⟨x, _ | _⟩, p1⟩ <;> rw [hc] at h <;> dsimp only at h
  · split_ifs at h
    cases h
    exact (consume_eq_false hc).2
  · cases h

theorem escapesLoop_ok {b s : List UInt8} {p p' : HstoreParser} (h : escapesLoop b p = .ok (s, p')) :
    p'.str = p.str ∧ p'.nextBackslash = p.nextBackslash ∧ p.pos < p'.pos ∧ p'.pos ≤ p'.str.length := by
  fun_induction escapesLoop b p with
  | case1 | case3 | case4 => cases h
  | case2 _ p p1 hc =>
    obtain ⟨hlt, rfl⟩ := consume_eq_false hc
    cases h
    exact ⟨rfl, rfl, Nat.lt_succ_self _, hlt⟩
  | case5 _ p p1 _ p2 hc2 _ hc1 _ ih =>
    obtain ⟨-, rfl⟩ := consume_eq_false hc1
    obtain ⟨-, rfl⟩ := consume_eq_false hc2
    obtain ⟨hs, hn, hp, hl⟩ := ih h
    exact ⟨hs, hn, by dsimp only at hp; omega, hl⟩
  | case6 _ p _ p1 hc _ _ ih =>
    obtain ⟨-, rfl⟩ := consume_eq_false hc
    obtain ⟨hs, hn, hp, hl⟩ := ih h
    exact ⟨hs, hn, by dsimp only at hp; omega, hl⟩

theorem consumeDoubleQuoted_advanced {p p' : HstoreParser} {s : List UInt8}
    (h : p.consumeDoubleQuoted = .ok (s, p')) : Advanced p p' := by
  unfold consumeDoubleQuoted at h
  rcases hr : sliceFrom p.str p.pos with e | r
  · rw [hr] at h
    cases h
  rw [hr, ok_bind] at h
  dsimp only at h
  split_ifs at h with hq hfast
  · -- fast path: the slice up to the quote did not panic
    rcases hs : slice p.str p.pos (indexByte r quoteByte + p.pos) with e | s'
    · rw [hs] at h
      cases h
    · rw [hs] at h
      cases h
      have := slice_bounds hs
      exact ⟨rfl, by dsimp only; omega⟩
  · -- slow path: the escape loop starts at the backslash, not before `pos`
    unfold consumeDoubleQuotedWithEscapes at h
    rcases hs : slice p.str p.pos p.nextBackslash with e | b
    · rw [hs] at h
      cases h
    rw [hs, ok_bind] at h
    rcases he : escapesLoop b { p with pos := p.nextBackslash.toNat } with e | ⟨s1, p1⟩
    · rw [he] at h
      cases h
    obtain ⟨hstr, -, hpos, hl⟩ := escapesLoop_ok he
    have hb := slice_bounds hs
    rw [he, ok_bind] at h
    dsimp only at h
    rw [sliceFrom_of_le hl, ok_bind] at h
    cases h
    exact ⟨hstr, by dsimp only at hpos ⊢; omega⟩


theorem consumeDoubleQuotedOrNull_advanced {p p' : HstoreParser} {v : Option (List UInt8)}
    (h : p.consumeDoubleQuotedOrNull = .ok (v, p')) : Advanced p p' := by
  unfold consumeDoubleQuotedOrNull at h
  dsimp only at h
  split_ifs at h
  · -- `NULL`
    obtain ⟨p1, h1, h⟩ := bind_eq_ok h
    obtain ⟨p2, h2, h⟩ := bind_eq_ok h
    cases h
    exact (consumeExpected2_advanced h1).trans (consumeExpected2_advanced h2)
  · -- a quoted string, after its opening quote
    obtain ⟨⟨s, p1⟩, h1, h⟩ := bind_eq_ok h
    cases h
    exact (advanced_pos_add p one_pos).trans (consumeDoubleQuoted_advanced h1)

theorem parseKV_advanced {p p' : HstoreParser} {kv : List UInt8 × Option (List UInt8)}
    (h : p.parseKV = .ok (kv, p')) : Advanced p p' := by
  unfold parseKV at h
  obtain ⟨p1, h1, h⟩ := bind_eq_ok h
  obtain ⟨⟨key, p2⟩, h2, h⟩ := bind_eq_ok h
  obtain ⟨p3, h3, h⟩ := bind_eq_ok h
  obtain ⟨⟨value, p4⟩, h4, h⟩ := bind_eq_ok h
  cases h
  rw [consumeExpectedByte_eq h1] at h2
  exact (advanced_pos_add p one_pos).trans <| (consumeDoubleQuoted_advanced h2).trans <|
    (consumeExpected2_advanced h3).trans (consumeDoubleQuotedOrNull_advanced h4)

theorem parsePair_advanced {first : Bool} {p p' : HstoreParser}
    {kv : List UInt8 × Option (List UInt8)} (h : p.parsePair first = .ok (kv, p')) :
    Advanced p p' := by
  obtain ⟨p0, h0, hkv⟩ := bind_eq_ok h
  cases first
  · exact (consumeExpected2_advanced h0).trans (parseKV_advanced hkv)
  · cases h0
    exact parseKV_advanced hkv
end Advanced

/-- The loop of `parseHstore`: pairs until the end of the input, a later pair replacing an
earlier one with its key. -/
def parseLoop (p : HstoreParser) (first : Bool) (result : HstoreMap) : GoM HstoreMap :=
  if _hEnd : p.atEnd then .ok result
  else
    match _h : p.parsePair first with
    | .error e => .error e
    | .ok (kv, p') => parseLoop p' false (result.set kv)
termination_by p.str.length - p.pos
decreasing_by
  obtain ⟨hs, hp⟩ := parsePair_advanced _h
  simp only [atEnd, decide_eq_true_eq, not_le] at _hEnd
  rw [hs]
  omega

end HstoreParser

section Invariant

/-- Where the parser looks for the next backslash from `pos`, as the slow path of
`consumeDoubleQuoted` computes it: its index in `s`, or `-1`. -/
def nextBackslashFrom (s : List UInt8) (pos : Nat) : Int :=
  let i := indexByte (s.drop pos) backslashByte
  if i ≠ -1 then i + pos else i

theorem nextBackslashFrom_zero (s : List UInt8) :
    nextBackslashFrom s 0 = indexByte s backslashByte := by
  simp only [nextBackslashFrom, List.drop_zero, Nat.cast_zero, add_zero, ite_self]

/-- Bytes other than a backslash do not move the next backslash. -/
theorem nextBackslashFrom_skip {s u r : List UInt8} {pos : Nat} (h : s.drop pos = u ++ r)
    (hu : backslashByte ∉ u) : nextBackslashFrom s (pos + u.length) = nextBackslashFrom s pos := by
  have hr := drop_add_of_drop h
  simp only [nextBackslashFrom, hr, h, indexByte_append_of_not_mem hu]
  by_cases hb : backslashByte ∈ r
  · simp only [indexByte, hb, if_true]
    push_cast
    omega
  · simp [indexByte, hb]

theorem nextBackslashFrom_of_first {s v w : List UInt8} {pos : Nat}
    (h : s.drop pos = v ++ backslashByte :: w) (hv : backslashByte ∉ v) :
    nextBackslashFrom s pos = pos + v.length := by
  simp only [nextBackslashFrom, h, indexByte_of_first hv]
  rw [if_pos (by omega)]
  omega

theorem nextBackslashFrom_cases (s : List UInt8) (pos : Nat) :
    nextBackslashFrom s pos = -1 ∨ pos ≤ nextBackslashFrom s pos := by
  dsimp only [nextBackslashFrom]
  split_ifs with h
  · right
    have := indexByte_cases (s.drop pos) backslashByte
    omega
  · left
    simpa using h

namespace HstoreParser

/-- The parser's invariant: the position is within the input, and `nextBackslash` is the first
backslash at or after it. -/
structure Inv (p : HstoreParser) : Prop where
  pos_le : p.pos ≤ p.str.length
  nextBackslash_eq : p.nextBackslash = nextBackslashFrom p.str p.pos

theorem newHSP_inv (s : List UInt8) : (newHSP s).Inv :=
  ⟨Nat.zero_le _, (nextBackslashFrom_zero s).symm⟩

/-- The parser with `nextBackslash` searched for again from `pos`. -/
def resync (p : HstoreParser) : HstoreParser :=
  { p with nextBackslash := nextBackslashFrom p.str p.pos }

theorem resync_inv {p : HstoreParser} (h : p.pos ≤ p.str.length) : p.resync.Inv := ⟨h, rfl⟩

/-- Moving over bytes that are not a backslash keeps the invariant. -/
theorem Inv.skip {p : HstoreParser} (hp : p.Inv) {u r : List UInt8}
    (h : p.str.drop p.pos = u ++ r) (hu : backslashByte ∉ u) :
    ({ p with pos := p.pos + u.length } : HstoreParser).Inv where
  pos_le := by
    have := congrArg List.length h
    simp only [List.length_drop, List.length_append] at this
    have := hp.pos_le
    dsimp only
    omega
  nextBackslash_eq := by
    rw [hp.nextBackslash_eq]
    exact (nextBackslashFrom_skip h hu).symm

theorem consume_of_drop {p : HstoreParser} {b : UInt8} {r : List UInt8}
    (h : p.str.drop p.pos = b :: r) : p.consume = ((b, false), { p with pos := p.pos + 1 }) := by
  obtain ⟨hi, hb, -⟩ := drop_eq_cons h
  rw [consume, if_neg (by omega), List.getD_eq_getElem _ _ hi, hb]

theorem escapesLoop_quote {p : HstoreParser} {r : List UInt8} (h : p.str.drop p.pos = quoteByte :: r)
    (b : List UInt8) : escapesLoop b p = .ok (b, { p with pos := p.pos + 1 }) := by
  rw [escapesLoop, consume_of_drop h]
  simp

theorem escapesLoop_plain {p : HstoreParser} {x : UInt8} {r : List UInt8}
    (h : p.str.drop p.pos = x :: r) (hq : x ≠ quoteByte) (hb : x ≠ backslashByte) (b : List UInt8) :
    escapesLoop b p = escapesLoop (b ++ [x]) { p with pos := p.pos + 1 } := by
  rw [escapesLoop, consume_of_drop h]
  simp [hq, hb]

theorem escapesLoop_escape {p : HstoreParser} {x : UInt8} {r : List UInt8}
    (h : p.str.drop p.pos = backslashByte :: x :: r) (hx : x = backslashByte ∨ x = quoteByte)
    (b : List UInt8) : escapesLoop b p = escapesLoop (b ++ [x]) { p with pos := p.pos + 2 } := by
  have h1 := (drop_eq_cons h).2.2
  rw [escapesLoop, consume_of_drop h]
  simp only [show backslashByte ≠ quoteByte by decide, if_false, if_true]
  rw [consume_of_drop (p := { p with pos := p.pos + 1 }) h1]
  simp [hx]

/-- A run of bytes that are neither a quote nor a backslash is copied as it is. -/
theorem escapesLoop_plains {u r : List UInt8} (hu : ∀ x ∈ u, x ≠ quoteByte ∧ x ≠ backslashByte) :
    ∀ {p : HstoreParser} (b : List UInt8), p.str.drop p.pos = u ++ r →
      escapesLoop b p = escapesLoop (b ++ u) { p with pos := p.pos + u.length } := by
  induction u with
  | nil => intro p b _; simp
  | cons x u ih =>
    intro p b h
    have hx := hu x (by simp)
    rw [escapesLoop_plain h hx.1 hx.2, ih (fun y hy => hu y (by simp [hy])) _ (drop_eq_cons h).2.2]
    simp only [List.append_assoc, List.cons_append, List.nil_append, List.length_cons]
    rw [Nat.add_assoc, Nat.add_comm 1]

/-- The loop reads back what the text plan's replacer wrote, up to the closing quote. -/
theorem escapesLoop_replace (s : List UInt8) {t : List UInt8} :
    ∀ {p : HstoreParser} (b : List UInt8), p.str.drop p.pos = quoteArrayReplace s ++ quoteByte :: t →
      escapesLoop b p = .ok (b ++ s, { p with pos := p.pos + (quoteArrayReplace s).length + 1 }) := by
  induction s with
  | nil =>
    intro p b h
    simpa [quoteArrayReplace] using escapesLoop_quote h b
  | cons x s ih =>
    intro p b h
    by_cases hx : x = backslashByte ∨ x = quoteByte
    · rw [quoteArrayReplace_cons, if_pos hx] at h ⊢
      rw [escapesLoop_escape h hx, ih _ (drop_add_of_drop (u := [backslashByte, x]) h)]
      simp only [List.append_assoc, List.cons_append, List.nil_append, List.length_cons]
      congr 3
      omega
    · rw [quoteArrayReplace_cons, if_neg hx] at h ⊢
      have hx' : x ≠ quoteByte ∧ x ≠ backslashByte := by tauto
      rw [escapesLoop_plain h hx'.1 hx'.2, ih _ (drop_add_of_drop (u := [x]) h)]
      simp only [List.append_assoc, List.cons_append, List.nil_append, List.length_cons]
      congr 3
      omega

/-- **The two paths agree.** Under the invariant, when a closing quote follows, the fast path
returns what the slow path would: the escape loop run from `pos`, with the next backslash searched
for again after it. -/
theorem consumeDoubleQuoted_eq {p : HstoreParser} (hp : p.Inv)
    (hq : quoteByte ∈ p.str.drop p.pos) :
    p.consumeDoubleQuoted = (escapesLoop [] p).map fun r => (r.1, r.2.resync) := by
  obtain ⟨u, t, hut, hu⟩ := exists_first_split hq
  have hndq : indexByte (p.str.drop p.pos) quoteByte = u.length := by
    rw [hut]
    exact indexByte_of_first hu
  unfold consumeDoubleQuoted
  rw [sliceFrom_of_le hp.pos_le, ok_bind, hndq, if_neg (by omega)]
  by_cases hb : backslashByte ∈ u
  · -- slow path: the first backslash comes before the closing quote
    obtain ⟨v, w, rfl, hv⟩ := exists_first_split hb
    have hdrop : p.str.drop p.pos = v ++ backslashByte :: (w ++ quoteByte :: t) := by simp [hut]
    have hnb : p.nextBackslash = p.pos + v.length :=
      hp.nextBackslash_eq.trans (nextBackslashFrom_of_first hdrop hv)
    have hplain : ∀ x ∈ v, x ≠ quoteByte ∧ x ≠ backslashByte := fun x hx =>
      ⟨fun h => hu (h ▸ by simp [hx]), fun h => hv (h ▸ hx)⟩
    rw [if_neg (by simp only [List.length_append, List.length_cons] at hnb ⊢; omega)]
    unfold consumeDoubleQuotedWithEscapes
    have hpos : ((p.pos : Int) + v.length).toNat = p.pos + v.length := by omega
    rw [hnb, slice_of_drop hp.pos_le hdrop, ok_bind, escapesLoop_plains hplain [] hdrop, hnb, hpos,
      List.nil_append]
    rcases he : escapesLoop v { p with pos := p.pos + v.length, nextBackslash := ↑p.pos + ↑v.length }
      with e | ⟨s, p'⟩
    · rfl
    · obtain ⟨-, -, -, hl⟩ := escapesLoop_ok he
      simp only [ok_bind, sliceFrom_of_le hl]
      rfl
  · -- fast path: no backslash before the closing quote
    have hskip : p.str.drop p.pos = (u ++ [quoteByte]) ++ t := by simp [hut]
    have hnb : p.nextBackslash = nextBackslashFrom p.str (p.pos + (u ++ [quoteByte]).length) :=
      hp.nextBackslash_eq.trans (nextBackslashFrom_skip hskip (by simp [hb]; decide)).symm
    have hplain : ∀ x ∈ u, x ≠ quoteByte ∧ x ≠ backslashByte := fun x hx =>
      ⟨fun h => hu (h ▸ hx), fun h => hb (h ▸ hx)⟩
    have hcases := nextBackslashFrom_cases p.str (p.pos + (u ++ [quoteByte]).length)
    rw [if_pos (by simp only [List.length_append, List.length_singleton] at hnb hcases; omega)]
    have hpos : ((p.pos : Int) + u.length + 1).toNat = p.pos + u.length + 1 := by omega
    rw [Int.add_comm (u.length : Int), slice_of_drop hp.pos_le hut, ok_bind, hpos,
      escapesLoop_plains hplain [] hut, List.nil_append, escapesLoop_quote (drop_add_of_drop hut)]
    simp only [resync, Except.map, pure, Except.pure, hnb, List.length_append, List.length_singleton,
      Nat.add_assoc]

end HstoreParser

end Invariant

/-- `parseHstore`. -/
def parseHstore (s : List UInt8) : GoM HstoreMap :=
  (newHSP s).parseLoop true (fun _ => none)

/-- `scanPlanTextAnyToHstoreScanner.Scan`: a nil source scans as a nil map. -/
def scanPlanTextAnyToHstoreScanner (src : Option (List UInt8)) : GoM (Option HstoreMap) :=
  match src with
  | none => .ok none
  | some src => (parseHstore src).map some

/-- The text of a value as the text plan writes it: `NULL`, or the escaped value in quotes. -/
def valueText : Option (List UInt8) → List UInt8
  | none => ['N'.toUInt8, 'U'.toUInt8, 'L'.toUInt8, 'L'.toUInt8]
  | some v => quoteByte :: (quoteArrayReplace v ++ [quoteByte])

theorem encodeTextPair_first (k : List UInt8) (v : Option (List UInt8)) :
    (encodeTextPair ([], true) (k, v)).1 =
      quoteByte :: (quoteArrayReplace k ++ quoteByte :: '='.toUInt8 :: '>'.toUInt8 :: valueText v) := by
  cases v <;> simp [encodeTextPair, valueText]

theorem encodeTextPair_later (kv : List UInt8 × Option (List UInt8)) :
    (encodeTextPair ([], false) kv).1 = ','.toUInt8 :: ' '.toUInt8 :: (encodeTextPair ([], true) kv).1 := by
  rcases kv with ⟨k, _ | v⟩ <;> simp [encodeTextPair]

theorem encodeTextPair_ne_nil (first : Bool) (kv : List UInt8 × Option (List UInt8)) :
    (encodeTextPair ([], first) kv).1 ≠ [] := by
  rcases kv with ⟨k, v⟩
  cases first
  · simp [encodeTextPair_later]
  · simp [encodeTextPair_first]

namespace HstoreParser

/-- The parser, with its invariant, stands before the bytes `r`. -/
structure Before (p : HstoreParser) (r : List UInt8) : Prop where
  inv : p.Inv
  rest : p.str.drop p.pos = r

theorem Before.skip {p : HstoreParser} {u r : List UInt8} (hp : p.Before (u ++ r))
    (hu : backslashByte ∉ u) : ({ p with pos := p.pos + u.length } : HstoreParser).Before r :=
  ⟨hp.inv.skip hp.rest hu, drop_add_of_drop hp.rest⟩

theorem Before.not_atEnd {p : HstoreParser} {b : UInt8} {r : List UInt8}
    (hp : p.Before (b :: (r : List UInt8))) : ¬p.atEnd := by
  obtain ⟨hi, -, -⟩ := drop_eq_cons hp.rest
  simpa [atEnd] using hi

theorem consumeExpected2_before {p : HstoreParser} {one two : UInt8} {r : List UInt8}
    (hp : p.Before (one :: two :: r)) (h1 : one ≠ backslashByte) (h2 : two ≠ backslashByte) :
    p.consumeExpected2 one two = .ok { p with pos := p.pos + 2 } ∧
      ({ p with pos := p.pos + 2 } : HstoreParser).Before r := by
  obtain ⟨hi, hone, hr⟩ := drop_eq_cons hp.rest
  obtain ⟨hi2, htwo, -⟩ := drop_eq_cons hr
  refine ⟨?_, hp.skip (u := [one, two]) (by simp [h1.symm, h2.symm])⟩
  unfold consumeExpected2
  rw [if_neg (by omega), List.getD_eq_getElem _ _ hi, hone, if_neg (by simp),
    List.getD_eq_getElem _ _ hi2, htwo, if_neg (by simp)]

theorem consumeExpectedByte_before {p : HstoreParser} {b : UInt8} {r : List UInt8}
    (hp : p.Before (b :: r)) (hb : b ≠ backslashByte) :
    p.consumeExpectedByte b = .ok { p with pos := p.pos + 1 } ∧
      ({ p with pos := p.pos + 1 } : HstoreParser).Before r := by
  refine ⟨?_, hp.skip (u := [b]) (by simp [hb.symm])⟩
  unfold consumeExpectedByte
  rw [consume_of_drop hp.rest]
  simp

/-- A quoted string as the text plan writes it is read back by either path. -/
theorem consumeDoubleQuoted_replace {p : HstoreParser} {s r : List UInt8}
    (hp : p.Before (quoteArrayReplace s ++ quoteByte :: r)) :
    ∃ p', p.consumeDoubleQuoted = .ok (s, p') ∧ p'.Before r := by
  have hloop := escapesLoop_replace s [] hp.rest
  have hpos : p.pos + (quoteArrayReplace s).length + 1 ≤ p.str.length := by
    have := congrArg List.length hp.rest
    simp only [List.length_drop, List.length_append, List.length_cons] at this
    have := hp.inv.pos_le
    omega
  rw [consumeDoubleQuoted_eq hp.inv (by simp [hp.rest]), hloop]
  refine ⟨_, rfl, resync_inv hpos, ?_⟩
  simpa [resync, Nat.add_assoc] using drop_add_of_drop (u := quoteArrayReplace s ++ [quoteByte]) (by simpa using hp.rest)

theorem consumeDoubleQuotedOrNull_null {p : HstoreParser} {r : List UInt8}
    (hp : p.Before ('N'.toUInt8 :: 'U'.toUInt8 :: 'L'.toUInt8 :: 'L'.toUInt8 :: r)) :
    ∃ p', p.consumeDoubleQuotedOrNull = .ok (none, p') ∧ p'.Before r := by
  obtain ⟨hNU, hp2⟩ := consumeExpected2_before hp (by decide) (by decide)
  obtain ⟨hLL, hp4⟩ := consumeExpected2_before hp2 (by decide) (by decide)
  obtain ⟨hi, hN, -⟩ := drop_eq_cons hp.rest
  refine ⟨_, ?_, hp4⟩
  unfold consumeDoubleQuotedOrNull
  rw [if_neg (by simp [atEnd, hi]), List.getD_eq_getElem _ _ hi, hN, if_pos rfl, hNU, ok_bind, hLL]
  rfl

theorem consumeDoubleQuotedOrNull_quoted {p : HstoreParser} {v r : List UInt8}
    (hp : p.Before (quoteByte :: (quoteArrayReplace v ++ quoteByte :: r))) :
    ∃ p', p.consumeDoubleQuotedOrNull = .ok (some v, p') ∧ p'.Before r := by
  obtain ⟨hi, hq, -⟩ := drop_eq_cons hp.rest
  obtain ⟨p', hv, hp'⟩ := consumeDoubleQuoted_replace (hp.skip (u := [quoteByte]) (by decide))
  refine ⟨p', ?_, hp'⟩
  unfold consumeDoubleQuotedOrNull
  rw [if_neg (by simp [atEnd, hi]), List.getD_eq_getElem _ _ hi, hq, if_neg (by decide),
    if_neg (by simp)]
  simp only [List.length_singleton] at hv
  rw [hv, ok_bind]
  rfl

theorem consumeDoubleQuotedOrNull_value {p : HstoreParser} {v : Option (List UInt8)}
    {r : List UInt8} (hp : p.Before (valueText v ++ r)) :
    ∃ p', p.consumeDoubleQuotedOrNull = .ok (v, p') ∧ p'.Before r := by
  cases v with
  | none => exact consumeDoubleQuotedOrNull_null hp
  | some v => exact consumeDoubleQuotedOrNull_quoted (by simpa [valueText] using hp)

theorem parseKV_encode {p : HstoreParser} {kv : List UInt8 × Option (List UInt8)} {r : List UInt8}
    (hp : p.Before ((encodeTextPair ([], true) kv).1 ++ r)) :
    ∃ p', p.parseKV = .ok (kv, p') ∧ p'.Before r := by
  obtain ⟨k, v⟩ := kv
  rw [encodeTextPair_first] at hp
  obtain ⟨h1, hp1⟩ := consumeExpectedByte_before (by simpa using hp) (by decide)
  obtain ⟨p2, h2, hp2⟩ := consumeDoubleQuoted_replace hp1
  obtain ⟨h3, hp3⟩ := consumeExpected2_before hp2 (by decide) (by decide)
  obtain ⟨p4, h4, hp4⟩ := consumeDoubleQuotedOrNull_value hp3
  refine ⟨p4, ?_, hp4⟩
  unfold parseKV
  rw [h1, ok_bind, h2, ok_bind]
  dsimp only
  rw [consumeKVSeparator, h3, ok_bind, h4, ok_bind]
  rfl

theorem parsePair_encode {p : HstoreParser} {first : Bool} {kv : List UInt8 × Option (List UInt8)}
    {r : List UInt8} (hp : p.Before ((encodeTextPair ([], first) kv).1 ++ r)) :
    ∃ p', p.parsePair first = .ok (kv, p') ∧ p'.Before r := by
  cases first with
  | true => exact parseKV_encode hp
  | false =>
    rw [encodeTextPair_later] at hp
    obtain ⟨hsep, hp2⟩ := consumeExpected2_before hp (by decide) (by decide)
    obtain ⟨p', hkv, hp'⟩ := parseKV_encode hp2
    exact ⟨p', by rw [parsePair, if_neg Bool.false_ne_true, consumePairSeparator, hsep, ok_bind, hkv], hp'⟩

/-- **The loop reads the pairs back**, each into the map in its turn, from the bytes the text
plan's loop wrote for them. -/
theorem parseLoop_encode (ps : List (List UInt8 × Option (List UInt8))) :
    ∀ {p : HstoreParser} (first : Bool) (m : HstoreMap),
      p.Before (ps.foldl encodeTextPair ([], first)).1 →
        p.parseLoop first m = .ok (ps.foldl HstoreMap.set m) := by
  induction ps with
  | nil =>
    intro p first m hp
    have hend : p.atEnd := by
      have := congrArg List.length hp.rest
      simp only [List.foldl_nil, List.length_drop, List.length_nil] at this
      simp only [atEnd, decide_eq_true_eq]
      omega
    rw [parseLoop, dif_pos hend]
    rfl
  | cons kv ps ih =>
    intro p first m hp
    rw [List.foldl_cons, encodeTextPair_eq, List.nil_append, foldl_encodeTextPair] at hp
    obtain ⟨p', hpair, hp'⟩ := parsePair_encode hp
    have hend : ¬p.atEnd := by
      obtain ⟨x, xs, hx⟩ := List.exists_cons_of_ne_nil (encodeTextPair_ne_nil first kv)
      rw [hx] at hp
      exact hp.not_atEnd
    rw [parseLoop, dif_neg hend]
    split
    next e he => rw [hpair] at he; cases he
    next kv' p'' he =>
      rw [hpair] at he
      cases he
      exact ih false _ hp'

section Preserves

variable {p p' : HstoreParser}

theorem consumeExpected2_bytes {one two : UInt8} (h : p.consumeExpected2 one two = .ok p') :
    p.str.drop p.pos = [one, two] ++ p.str.drop (p.pos + 2) := by
  unfold consumeExpected2 at h
  split_ifs at h with hlen h1 h2
  have hi : p.pos < p.str.length := by omega
  have hi2 : p.pos + 1 < p.str.length := by omega
  rw [List.getD_eq_getElem _ _ hi, not_not] at h1
  rw [List.getD_eq_getElem _ _ hi2, not_not] at h2
  rw [List.drop_eq_getElem_cons hi, List.drop_eq_getElem_cons hi2, h1, h2]
  rfl

theorem consumeExpectedByte_bytes {b : UInt8} (h : p.consumeExpectedByte b = .ok p') :
    p.str.drop p.pos = [b] ++ p.str.drop (p.pos + 1) := by
  have hi : p.pos < p.str.length := by
    by_contra hlen
    rw [consumeExpectedByte, consume, if_pos (by omega)] at h
    cases h
  have hc : p.consume = ((p.str[p.pos], false), { p with pos := p.pos + 1 }) := by
    rw [consume, if_neg (by omega), List.getD_eq_getElem _ _ hi]
  rw [consumeExpectedByte, hc] at h
  dsimp only at h
  split_ifs at h with hb
  rw [not_not] at hb
  rw [List.drop_eq_getElem_cons hi, hb]
  rfl

/-- `consumeExpected2` moves over two bytes; when neither is a backslash, it keeps the
invariant. -/
theorem Inv.consumeExpected2 (hp : p.Inv) {one two : UInt8}
    (h : p.consumeExpected2 one two = .ok p') (h1 : one ≠ backslashByte)
    (h2 : two ≠ backslashByte) : p'.Inv := by
  rw [consumeExpected2_eq h]
  exact hp.skip (consumeExpected2_bytes h) (by simp [h1.symm, h2.symm])

theorem Inv.consumeExpectedByte (hp : p.Inv) {b : UInt8} (h : p.consumeExpectedByte b = .ok p')
    (hb : b ≠ backslashByte) : p'.Inv := by
  rw [consumeExpectedByte_eq h]
  exact hp.skip (consumeExpectedByte_bytes h) (by simp [hb.symm])

theorem Inv.consumeDoubleQuoted (hp : p.Inv) {s : List UInt8}
    (h : p.consumeDoubleQuoted = .ok (s, p')) : p'.Inv := by
  by_cases hq : quoteByte ∈ p.str.drop p.pos
  · rw [consumeDoubleQuoted_eq hp hq] at h
    rcases he : escapesLoop [] p with e | ⟨s1, p1⟩ <;> rw [he] at h
    · cases h
    · cases h
      exact resync_inv (escapesLoop_ok he).2.2.2
  · -- no closing quote: the call fails
    unfold HstoreParser.consumeDoubleQuoted at h
    rw [sliceFrom_of_le hp.pos_le, ok_bind] at h
    simp [indexByte, hq] at h

theorem Inv.consumeDoubleQuotedOrNull (hp : p.Inv) {v : Option (List UInt8)}
    (h : p.consumeDoubleQuotedOrNull = .ok (v, p')) : p'.Inv := by
  unfold HstoreParser.consumeDoubleQuotedOrNull at h
  dsimp only at h
  split_ifs at h with hend hN hq
  · -- `NULL`
    obtain ⟨p1, h1, h⟩ := bind_eq_ok h
    obtain ⟨p2, h2, h⟩ := bind_eq_ok h
    cases h
    exact (hp.consumeExpected2 h1 (by decide) (by decide)).consumeExpected2 h2 (by decide) (by decide)
  · -- the opening quote, then a quoted string
    obtain ⟨⟨s, p1⟩, h1, h⟩ := bind_eq_ok h
    cases h
    have hi : p.pos < p.str.length := by simpa [atEnd] using hend
    rw [not_not, List.getD_eq_getElem _ _ hi] at hq
    have hdrop : p.str.drop p.pos = [quoteByte] ++ p.str.drop (p.pos + 1) := by
      rw [List.drop_eq_getElem_cons hi, hq]
      rfl
    exact (hp.skip hdrop (by decide)).consumeDoubleQuoted h1

theorem Inv.parseKV (hp : p.Inv) {kv : List UInt8 × Option (List UInt8)}
    (h : p.parseKV = .ok (kv, p')) : p'.Inv := by
  unfold HstoreParser.parseKV at h
  obtain ⟨p1, h1, h⟩ := bind_eq_ok h
  obtain ⟨⟨key, p2⟩, h2, h⟩ := bind_eq_ok h
  obtain ⟨p3, h3, h⟩ := bind_eq_ok h
  obtain ⟨⟨value, p4⟩, h4, h⟩ := bind_eq_ok h
  cases h
  have hp1 := hp.consumeExpectedByte h1 (by decide)
  have hp3 := (hp1.consumeDoubleQuoted h2).consumeExpected2 h3 (by decide) (by decide)
  exact hp3.consumeDoubleQuotedOrNull h4

/-- Every pass of the loop of `parseHstore` keeps the invariant. -/
theorem Inv.parsePair (hp : p.Inv) {first : Bool} {kv : List UInt8 × Option (List UInt8)}
    (h : p.parsePair first = .ok (kv, p')) : p'.Inv := by
  obtain ⟨p0, h0, hkv⟩ := bind_eq_ok h
  cases first
  · exact (hp.consumeExpected2 h0 (by decide) (by decide)).parseKV hkv
  · cases h0
    exact hp.parseKV hkv

end Preserves

end HstoreParser

/-- **What the text plan writes, `parseHstore` reads back**: the same map. -/
theorem parseHstore_encode (h : Hstore) :
    parseHstore (h.pairs.foldl encodeTextPair ([], true)).1 = .ok h.lookup := by
  rw [parseHstore, HstoreParser.parseLoop_encode h.pairs true _ ⟨HstoreParser.newHSP_inv _, List.drop_zero⟩,
    Hstore.foldl_set_empty]

/-- The text round trip: the scan plan gives back the map the text plan encoded, a nil map as nil
and an empty one as empty. -/
theorem scanText_encodeText (h : Option Hstore) :
    (encodePlanHstoreCodecText h [] >>= scanPlanTextAnyToHstoreScanner) = .ok (h.map Hstore.lookup) := by
  cases h with
  | none => rfl
  | some h =>
    have hparse := parseHstore_encode h
    unfold encodePlanHstoreCodecText
    dsimp only
    split_ifs with hl
    · -- the empty map is written as no bytes at all
      rw [List.length_eq_zero_iff.1 hl, List.foldl_nil] at hparse
      simp only [ok_bind, scanPlanTextAnyToHstoreScanner, hparse]
      rfl
    · simp only [ok_bind, scanPlanTextAnyToHstoreScanner, hparse]
      rfl

/-- **The hstore codecs read back what they write**: the text format every map, nil and empty
ones included; the binary format every map whose lengths and pair count fit in an `int32`. The
text parser's fast path returns what its slow path would: `nextBackslash` starts as the first
backslash, every pass of the loop keeps it the first at or after `pos`, and under that the two
paths agree. -/
theorem hstoreCodec_roundTrip (h : Option Hstore) :
    (encodePlanHstoreCodecText h [] >>= scanPlanTextAnyToHstoreScanner) =
        .ok (h.map Hstore.lookup) ∧
      ((∀ h' ∈ h, (∀ kv ∈ h'.pairs, Fits32 kv) ∧ h'.pairs.length < 2 ^ 31) →
        (encodePlanHstoreCodecBinary h [] >>= scanPlanBinaryHstoreToHstoreScanner) =
          .ok (h.map Hstore.lookup)) ∧
      (∀ s, (newHSP s).Inv) ∧
      (∀ (p p' : HstoreParser) first kv, p.Inv → p.parsePair first = .ok (kv, p') → p'.Inv) ∧
      ∀ p : HstoreParser, p.Inv → quoteByte ∈ p.str.drop p.pos →
        p.consumeDoubleQuoted = (HstoreParser.escapesLoop [] p).map fun r => (r.1, r.2.resync) := by
  refine ⟨scanText_encodeText h, ?_, HstoreParser.newHSP_inv, fun p p' _ _ hp h => hp.parsePair h,
    fun p hp hq => HstoreParser.consumeDoubleQuoted_eq hp hq⟩
  intro hfits
  cases h with
  | none => rfl
  | some h =>
    obtain ⟨hf, hn⟩ := hfits h rfl
    exact scanBinary_encodeBinary h hf hn

/-- The map `a => NULL, b => c`, and the text the text plan writes for it. -/
def twoPairs : Hstore := ⟨[([0x61], none), ([0x62], some [0x63])], by decide⟩

def twoPairsText : List UInt8 :=
  [0x22, 0x61, 0x22, 0x3D, 0x3E, 0x4E, 0x55, 0x4C, 0x4C, 0x2C, 0x20, 0x22, 0x62, 0x22, 0x3D, 0x3E, 0x22, 0x63, 0x22]

/-- Both formats read `twoPairs` back; the parser keeps its invariant over the first pair and over
the second after its `, `, and reads the quoted value `c` as its slow path does. -/
theorem hstoreCodec_roundTrip_twoPairs :
    encodePlanHstoreCodecText (some twoPairs) [] = .ok (some twoPairsText) ∧
      (encodePlanHstoreCodecText (some twoPairs) [] >>= scanPlanTextAnyToHstoreScanner) =
        .ok (some twoPairs.lookup) ∧
      (encodePlanHstoreCodecBinary (some twoPairs) [] >>= scanPlanBinaryHstoreToHstoreScanner) =
        .ok (some twoPairs.lookup) ∧
      (⟨twoPairsText, 9, -1⟩ : HstoreParser).Inv ∧ (⟨twoPairsText, 19, -1⟩ : HstoreParser).Inv ∧
      (⟨twoPairsText, 17, -1⟩ : HstoreParser).consumeDoubleQuoted =
        (HstoreParser.escapesLoop [] ⟨twoPairsText, 17, -1⟩).map fun r => (r.1, r.2.resync) := by
  have hr := hstoreCodec_roundTrip (some twoPairs)
  have h9 : (⟨twoPairsText, 9, -1⟩ : HstoreParser).Inv :=
    hr.2.2.2.1 (newHSP twoPairsText) _ true ([0x61], none) (hr.2.2.1 _) (by rfl)
  refine ⟨by rfl, hr.1, hr.2.1 fun h' hh => ?_, h9,
    hr.2.2.2.1 _ _ false ([0x62], some [0x63]) h9 (by rfl), hr.2.2.2.2 _ ?_ (by decide)⟩
  · cases hh
    exact ⟨by simp [twoPairs, Fits32], by decide⟩
  · exact ⟨by decide, by decide⟩

end Pgx.Pgtype
