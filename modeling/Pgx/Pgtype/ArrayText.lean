import Pgx.Pgtype.Array
import Pgx.Lib.Nested

/-!
# Reading back the text format of arrays

The text plan writes an array with all its dimensions longer than zero as `Nested.nested`
braces around the texts of its elements (`encodePlanArrayCodecText_eq`): it walks the elements
in row-major order and writes a brace for each dimension whose element count divides the index,
which `Nested.flat_eq_nested` turns into the nesting. `parseUntypedTextArray` reads that text
back (`array_text_roundTrip`):

* each element, quoted or not, reads back as the text its plan wrote, or as nil for `NULL`, as
  long as that text is valid UTF-8 and whatever follows starts with `,` or `}`
  (`arrayParseValue_elementText`, `elementsLoop_element`);
* `openBracesLoop` reads the opening braces of the first element (`openBracesLoop_replicate`);
* in the first sub-array of each level the element loop counts the length of the level below
  (`Counts`, `scans_first`), and in every other sub-array it only reads the elements (`Reads`,
  `reads_copy`).

An array with a dimension of length zero is written as `{}` whatever its dimensions, and reads back
with none (`array_text_emptyDimension`). Sub-arrays after the first are read without being checked
against it, so text whose sub-arrays differ is accepted with the first one's dimensions
(`decodeText_ragged`).

The element loop is followed through `Scans`: reading a piece of text goes from one state of the
loop to another, whatever follows the piece, as long as that starts with `,` or `}`.
-/

namespace Pgx.Pgtype

open Go Go.Utf8 Go.Strconv Pgx.Proto

/-! ## Elements -/

/-- Bytes that start with `,` or `}`: what follows an element. -/
def Delimited (rest : List UInt8) : Prop := ∃ t, rest = ','.toUInt8 :: t ∨ rest = rbrace.toUInt8 :: t

theorem comma_lt : (',' : Char).toNat < 0x80 := by decide

theorem rbrace_lt : rbrace.toNat < 0x80 := by decide

theorem lbrace_lt : lbrace.toNat < 0x80 := by decide

theorem readRune_delimited {rest : List UInt8} (h : Delimited rest) (x : List UInt8) :
    ∃ r b1, (⟨rest, x⟩ : Buffer).readRune = (some r, b1) ∧ (r = ',' ∨ r = rbrace) ∧ b1.unreadRune = ⟨rest, []⟩ := by
  obtain ⟨t, rfl | rfl⟩ := h
  · exact ⟨_, _, Buffer.readRune_ascii comma_lt t x, .inl rfl, rfl⟩
  · exact ⟨_, _, Buffer.readRune_ascii rbrace_lt t x, .inr rfl, rfl⟩

theorem readRune_quoteByte (t x : List UInt8) :
    (⟨quoteByte :: t, x⟩ : Buffer).readRune = (some '"', ⟨t, [quoteByte]⟩) :=
  Buffer.readRune_ascii (by decide) t x

theorem readRune_backslashByte (t x : List UInt8) :
    (⟨backslashByte :: t, x⟩ : Buffer).readRune = (some '\\', ⟨t, [backslashByte]⟩) :=
  Buffer.readRune_ascii (by decide) t x

theorem arrayParseValueLoop_of_read {b b1 : Buffer} {r : Char} (h : b.readRune = (some r, b1))
    (s : List UInt8) :
    arrayParseValueLoop s b = if r = ',' ∨ r = rbrace then .ok (s, b1.unreadRune)
      else arrayParseValueLoop (s ++ String.utf8EncodeChar r) b1 := by
  rw [arrayParseValueLoop]
  split
  next h' => rw [h] at h'; cases h'
  next r' b' h' =>
    rw [h] at h'
    simp only [Prod.mk.injEq, Option.some.injEq] at h'
    obtain ⟨rfl, rfl⟩ := h'
    rfl

/-- Text without `,` and `}` is read as it is, up to the delimiter after it. -/
theorem arrayParseValueLoop_plain {cs : List Char} (hcs : ∀ c ∈ cs, c ≠ ',' ∧ c ≠ rbrace)
    {t : List UInt8} (ht : Delimited t) :
    ∀ (s x : List UInt8), arrayParseValueLoop s ⟨encode cs ++ t, x⟩ = .ok (s ++ encode cs, ⟨t, []⟩) := by
  induction cs with
  | nil =>
    intro s x
    obtain ⟨r, b1, hr, hd, hb⟩ := readRune_delimited ht x
    rw [encode_nil, List.nil_append, arrayParseValueLoop_of_read hr, if_pos hd, hb, List.append_nil]
  | cons c cs ih =>
    intro s x
    have hc := hcs c List.mem_cons_self
    rw [encode_cons, List.append_assoc, arrayParseValueLoop_of_read (Buffer.readRune_encodeChar c _ x),
      if_neg (by tauto), ih (fun c' h => hcs c' (List.mem_cons_of_mem c h)), List.append_assoc]

theorem arrayParseQuotedValue_escape {b b1 b2 : Buffer} {r : Char} (h : b.readRune = (some '\\', b1))
    (h1 : b1.readRune = (some r, b2)) (s : List UInt8) :
    arrayParseQuotedValue s b = arrayParseQuotedValue (s ++ String.utf8EncodeChar r) b2 := by
  rw [arrayParseQuotedValue]
  split
  next h' => rw [h] at h'; cases h'
  next r' b' h' =>
    rw [h] at h'
    simp only [Prod.mk.injEq, Option.some.injEq] at h'
    obtain ⟨rfl, rfl⟩ := h'
    rw [if_pos rfl]
    split
    next h'' => rw [h1] at h''; cases h''
    next r'' b'' h'' =>
      rw [h1] at h''
      simp only [Prod.mk.injEq, Option.some.injEq] at h''
      obtain ⟨rfl, rfl⟩ := h''
      rfl

theorem arrayParseQuotedValue_close {b b1 b2 : Buffer} {r : Char} (h : b.readRune = (some '"', b1))
    (h1 : b1.readRune = (some r, b2)) (s : List UInt8) :
    arrayParseQuotedValue s b = .ok (s, b2.unreadRune) := by
  rw [arrayParseQuotedValue]
  split
  next h' => rw [h] at h'; cases h'
  next r' b' h' =>
    rw [h] at h'
    simp only [Prod.mk.injEq, Option.some.injEq] at h'
    obtain ⟨rfl, rfl⟩ := h'
    rw [if_neg (by decide), if_pos rfl, h1]

theorem arrayParseQuotedValue_other {b b1 : Buffer} {r : Char} (h : b.readRune = (some r, b1))
    (hb : r ≠ '\\') (hq : r ≠ '"') (s : List UInt8) :
    arrayParseQuotedValue s b = arrayParseQuotedValue (s ++ String.utf8EncodeChar r) b1 := by
  rw [arrayParseQuotedValue]
  split
  next h' => rw [h] at h'; cases h'
  next r' b' h' =>
    rw [h] at h'
    simp only [Prod.mk.injEq, Option.some.injEq] at h'
    obtain ⟨rfl, rfl⟩ := h'
    rw [if_neg hb, if_neg hq]

/-- The replacer leaves a character alone unless it is `\` or `"`: in valid UTF-8 their bytes
stand for themselves only. -/
theorem quoteArrayReplace_utf8EncodeChar {c : Char} (hb : c ≠ '\\') (hq : c ≠ '"') :
    quoteArrayReplace (String.utf8EncodeChar c) = String.utf8EncodeChar c := by
  have hkeep : ∀ x ∈ String.utf8EncodeChar c,
      (if x = backslashByte ∨ x = quoteByte then [backslashByte, x] else [x]) = [x] := by
    intro x hx
    rw [if_neg]
    rintro (rfl | rfl)
    · exact hb (eq_of_mem_utf8EncodeChar (by decide) hx)
    · exact hq (eq_of_mem_utf8EncodeChar (by decide) hx)
  rw [quoteArrayReplace, List.flatMap_congr hkeep, List.flatMap_singleton']

/-- A quoted element reads back as the text the replacer escaped, up to the closing quote. -/
theorem arrayParseQuotedValue_replace {t : List UInt8} (ht : Delimited t) :
    ∀ (cs : List Char) (s x : List UInt8),
      arrayParseQuotedValue s ⟨quoteArrayReplace (encode cs) ++ quoteByte :: t, x⟩ = .ok (s ++ encode cs, ⟨t, []⟩)
  | [], s, x => by
    obtain ⟨r, b1, hr, -, hb⟩ := readRune_delimited ht [quoteByte]
    rw [encode_nil, quoteArrayReplace, List.flatMap_nil, List.nil_append,
      arrayParseQuotedValue_close (readRune_quoteByte t x) hr, hb, List.append_nil]
  | c :: cs, s, x => by
    rw [encode_cons, quoteArrayReplace, List.flatMap_append, ← quoteArrayReplace, ← quoteArrayReplace,
      List.append_assoc]
    by_cases hc : c = '\\' ∨ c = '"'
    · -- the escaped character: a backslash, then the character itself
      have hlt : c.toNat < 0x80 := by rcases hc with rfl | rfl <;> decide
      have hrep : quoteArrayReplace (String.utf8EncodeChar c) = [backslashByte, c.toUInt8] := by
        rw [utf8EncodeChar_of_lt hlt, quoteArrayReplace, List.flatMap_singleton,
          if_pos (by rcases hc with rfl | rfl <;> decide)]
      rw [hrep, List.cons_append, List.cons_append, List.nil_append,
        arrayParseQuotedValue_escape (readRune_backslashByte _ x) (Buffer.readRune_ascii hlt _ _),
        arrayParseQuotedValue_replace ht cs, utf8EncodeChar_of_lt hlt, List.append_assoc]
    · rw [not_or] at hc
      rw [quoteArrayReplace_utf8EncodeChar hc.1 hc.2,
        arrayParseQuotedValue_other (Buffer.readRune_encodeChar c _ x) hc.1 hc.2,
        arrayParseQuotedValue_replace ht cs, List.append_assoc]

theorem arrayParseValue_quoted {b b1 b2 : Buffer} {s : List UInt8} (h : b.readRune = (some '"', b1))
    (h2 : arrayParseQuotedValue [] b1 = .ok (s, b2)) : arrayParseValue b = .ok (s, true, b2) := by
  rw [arrayParseValue, h]
  dsimp only
  rw [if_pos rfl, h2]
  rfl

theorem arrayParseValue_unquoted {b b1 b2 : Buffer} {r : Char} {s : List UInt8} (h : b.readRune = (some r, b1))
    (hr : r ≠ '"') (h2 : arrayParseValueLoop [] b1.unreadRune = .ok (s, b2)) :
    arrayParseValue b = .ok (s, false, b2) := by
  rw [arrayParseValue, h]
  dsimp only
  rw [if_neg hr, h2]
  rfl

/-- The runes that make `quoteArrayElementIfNeeded` quote an element. -/
def quotedRunes : List Char := [lbrace, rbrace, ',', '"', '\\']

theorem quotedRunes_lt : ∀ c ∈ quotedRunes, c.toNat < 0x80 := by simp [quotedRunes, lbrace, rbrace]

/-- An element that is not quoted holds none of the runes that make it quoted. -/
theorem not_mem_of_any_eq_false {cs : List Char} (h : (encode cs).any (· ∈ encode quotedRunes) = false)
    {c : Char} (hc : c ∈ quotedRunes) : c ∉ cs := by
  intro hcs
  have hlt := quotedRunes_lt c hc
  have h1 : c.toUInt8 ∈ encode cs := List.mem_flatMap.2 ⟨c, hcs, by rw [utf8EncodeChar_of_lt hlt]; simp⟩
  have h2 : c.toUInt8 ∈ encode quotedRunes := List.mem_flatMap.2 ⟨c, hc, by rw [utf8EncodeChar_of_lt hlt]; simp⟩
  have := List.any_eq_false.1 h _ h1
  simp [h2] at this

/-- Each element reads back as the text its plan wrote, or as nil for `NULL`: quoted when it was
quoted, and otherwise up to the `,` or `}` after it. -/
theorem arrayParseValue_elementText {t : Option (List UInt8)} (hv : ∀ s, t = some s → Valid s) :
    ∃ v q, elementSource v q = t ∧ ∀ rest, Delimited rest → ∀ x,
      arrayParseValue ⟨elementText t ++ rest, x⟩ = .ok (v, q, ⟨rest, []⟩) := by
  rcases t with _ | s
  · -- `NULL`, not quoted
    have hplain : ∀ c ∈ ['N', 'U', 'L', 'L'], c ≠ ',' ∧ c ≠ rbrace := by simp [rbrace]
    refine ⟨encode ['N', 'U', 'L', 'L'], false, by simp [elementSource], fun rest hrest x => ?_⟩
    have hread := Buffer.readRune_encodeChar 'N' (encode ['U', 'L', 'L'] ++ rest) x
    have hloop := arrayParseValueLoop_plain hplain hrest [] []
    rw [encode_cons, List.append_assoc, ← Buffer.readRune_unreadRune hread] at hloop
    rw [elementText, encode_cons, List.append_assoc, arrayParseValue_unquoted hread (by decide) hloop,
      List.nil_append]
  · obtain ⟨cs, rfl⟩ := hv _ rfl
    simp only [elementText]
    unfold quoteArrayElementIfNeeded
    split_ifs with hq
    · -- quoted: the replacer's escapes between quotes
      refine ⟨encode cs, true, by simp [elementSource], fun rest hrest x => ?_⟩
      rw [quoteArrayElement, List.cons_append, List.append_assoc, List.singleton_append,
        arrayParseValue_quoted (readRune_quoteByte _ x) (arrayParseQuotedValue_replace hrest cs [] _),
        List.nil_append]
    · -- not quoted: not empty, without `,` `}` `"`, and not `NULL`
      simp only [not_or, Bool.not_eq_true] at hq
      obtain ⟨hne, hnull, -, -, hany⟩ := hq
      have hplain : ∀ c ∈ cs, c ≠ ',' ∧ c ≠ rbrace := fun c hc =>
        ⟨fun h => not_mem_of_any_eq_false hany (by simp [quotedRunes]) (h ▸ hc),
         fun h => not_mem_of_any_eq_false hany (by simp [quotedRunes]) (h ▸ hc)⟩
      have hcs : cs ≠ [] := by rintro rfl; exact hne rfl
      obtain ⟨c, cs', rfl⟩ := List.exists_cons_of_ne_nil hcs
      have hc : c ≠ '"' := by
        rintro rfl
        exact not_mem_of_any_eq_false hany (by simp [quotedRunes]) List.mem_cons_self
      have hnotNull : encode (c :: cs') ≠ encode ['N', 'U', 'L', 'L'] := by
        intro h
        rw [h] at hnull
        exact hnull (by decide)
      refine ⟨encode (c :: cs'), false, by rw [elementSource, if_pos (Or.inl hnotNull)], fun rest hrest x => ?_⟩
      have hread := Buffer.readRune_encodeChar c (encode cs' ++ rest) x
      have hloop := arrayParseValueLoop_plain hplain hrest [] []
      rw [encode_cons, List.append_assoc, ← Buffer.readRune_unreadRune hread] at hloop
      rw [encode_cons, List.append_assoc, arrayParseValue_unquoted hread hc hloop, List.nil_append]

/-- The first rune of an element's text starts no brace and no separator. -/
theorem elementText_head {t : Option (List UInt8)} (hv : ∀ s, t = some s → Valid s) :
    ∃ c u, elementText t = String.utf8EncodeChar c ++ u ∧ c ≠ lbrace ∧ c ≠ ',' ∧ c ≠ rbrace := by
  rcases t with _ | s
  · exact ⟨'N', encode ['U', 'L', 'L'], rfl, by decide, by decide, by decide⟩
  · obtain ⟨cs, rfl⟩ := hv _ rfl
    simp only [elementText]
    unfold quoteArrayElementIfNeeded
    split_ifs with hq
    · exact ⟨'"', _, by rw [quoteArrayElement, utf8EncodeChar_of_lt (by decide)]; rfl, by decide, by decide,
        by decide⟩
    · simp only [not_or, Bool.not_eq_true] at hq
      obtain ⟨hne, -, -, -, hany⟩ := hq
      have hcs : cs ≠ [] := by rintro rfl; exact hne rfl
      obtain ⟨c, cs', rfl⟩ := List.exists_cons_of_ne_nil hcs
      have hnot : ∀ d ∈ quotedRunes, d ≠ c := fun d hd h =>
        not_mem_of_any_eq_false hany hd (h ▸ List.mem_cons_self)
      exact ⟨c, encode cs', encode_cons c cs', (hnot lbrace (by simp [quotedRunes])).symm,
        (hnot ',' (by simp [quotedRunes])).symm, (hnot rbrace (by simp [quotedRunes])).symm⟩

/-! ## The element loop, one pass at a time -/

namespace ArrayScan

variable {I : List ArrayDimension} {c c' : Int} {E : List (List UInt8)} {Qs : List Bool}

theorem next_of_read {st : ArrayScan} {b b1 : Buffer} {r : Char} (h : b.readRune = (some r, b1)) :
    st.next b = st.step r b1 := by
  simp only [next, h]

@[simp] theorem count_of_ne (h : c ≠ c') : (⟨I, c, c', E, Qs⟩ : ArrayScan).count = I := by
  simp [count, h]

@[simp] theorem openBrace_mk : (⟨I, c, c', E, Qs⟩ : ArrayScan).openBrace =
    ⟨(⟨I, c, c', E, Qs⟩ : ArrayScan).count, c + 1, c', E, Qs⟩ := rfl

@[simp] theorem closeBrace_mk : (⟨I, c, c', E, Qs⟩ : ArrayScan).closeBrace =
    ⟨I, c - 1, if c - 1 < c' then c - 1 else c', E, Qs⟩ := rfl

/-- Back up from a sub-array to a depth not above `counterDim`'s: `counterDim` stays. -/
theorem closeBrace_succ (h : c' ≤ c) : (⟨I, c + 1, c', E, Qs⟩ : ArrayScan).closeBrace = ⟨I, c, c', E, Qs⟩ := by
  rw [closeBrace_mk, Int.add_sub_cancel, if_neg (by omega)]

@[simp] theorem addElement_mk (v : List UInt8) (q : Bool) : (⟨I, c, c', E, Qs⟩ : ArrayScan).addElement v q =
    ⟨(⟨I, c, c', E, Qs⟩ : ArrayScan).count, c, c', E ++ [v], Qs ++ [q]⟩ := rfl

theorem step_lbrace (st : ArrayScan) (b : Buffer) : st.step lbrace b = .ok (st.openBrace, b) := by
  rw [step, if_pos rfl]

theorem step_comma (st : ArrayScan) (b : Buffer) : st.step ',' b = .ok (st, b) := by
  rw [step, if_neg (by decide), if_pos rfl]

theorem step_rbrace (st : ArrayScan) (b : Buffer) : st.step rbrace b = .ok (st.closeBrace, b) := by
  rw [step, if_neg (by decide), if_neg (by decide), if_pos rfl]

theorem step_element (st : ArrayScan) {r : Char} {b b' : Buffer} {v : List UInt8} {q : Bool}
    (hr : r ≠ lbrace ∧ r ≠ ',' ∧ r ≠ rbrace) (h : arrayParseValue b.unreadRune = .ok (v, q, b')) :
    st.step r b = .ok (st.addElement v q, b') := by
  rw [step, if_neg hr.1, if_neg hr.2.1, if_neg hr.2.2, h]

end ArrayScan

theorem elementsLoop_of_next {st st' : ArrayScan} {b b' : Buffer} (h : st.next b = .ok (st', b')) :
    elementsLoop st b = if st'.currentDim < 0 then .ok (st', b') else elementsLoop st' b' := by
  rw [elementsLoop]
  split
  next e h' => rw [h] at h'; cases h'
  next st'' b'' h' =>
    rw [h] at h'
    cases h'
    rfl

theorem elementsLoop_of_error {st : ArrayScan} {b : Buffer} {e : Fault} (h : st.next b = .error e) :
    elementsLoop st b = .error e := by
  rw [elementsLoop]
  split
  next e' h' => rw [h] at h'; cases h'; rfl
  next st'' b'' h' => rw [h] at h'; cases h'

/-- The loop reads the bytes not read yet only: what `UnreadRune` would put back does not matter. -/
theorem elementsLoop_mk_last (st : ArrayScan) (r x : List UInt8) :
    elementsLoop st ⟨r, x⟩ = elementsLoop st ⟨r, []⟩ := by
  have hn : st.next ⟨r, x⟩ = st.next ⟨r, []⟩ := rfl
  rcases hres : st.next ⟨r, []⟩ with e | ⟨st', b'⟩
  · rw [elementsLoop_of_error (hn.trans hres), elementsLoop_of_error hres]
  · rw [elementsLoop_of_next (hn.trans hres), elementsLoop_of_next hres]

theorem elementsLoop_continue {st st' : ArrayScan} {b b' : Buffer} (h : st.next b = .ok (st', b'))
    (hc : 0 ≤ st'.currentDim) : elementsLoop st b = elementsLoop st' ⟨b'.rest, []⟩ := by
  rw [elementsLoop_of_next h, if_neg (by omega), ← elementsLoop_mk_last]

section Passes

variable (st : ArrayScan) (rest x : List UInt8)

theorem elementsLoop_lbrace (hc : 0 ≤ st.currentDim) :
    elementsLoop st ⟨lbrace.toUInt8 :: rest, x⟩ = elementsLoop st.openBrace ⟨rest, []⟩ :=
  elementsLoop_continue ((ArrayScan.next_of_read (Buffer.readRune_ascii lbrace_lt rest x)).trans
    (st.step_lbrace _)) (by show 0 ≤ st.currentDim + 1; omega)

theorem elementsLoop_comma (hc : 0 ≤ st.currentDim) :
    elementsLoop st ⟨','.toUInt8 :: rest, x⟩ = elementsLoop st ⟨rest, []⟩ :=
  elementsLoop_continue ((ArrayScan.next_of_read (Buffer.readRune_ascii comma_lt rest x)).trans
    (st.step_comma _)) hc

theorem elementsLoop_rbrace (hc : 1 ≤ st.currentDim) :
    elementsLoop st ⟨rbrace.toUInt8 :: rest, x⟩ = elementsLoop st.closeBrace ⟨rest, []⟩ :=
  elementsLoop_continue ((ArrayScan.next_of_read (Buffer.readRune_ascii rbrace_lt rest x)).trans
    (st.step_rbrace _)) (by show 0 ≤ st.currentDim - 1; omega)

/-- The `}` that closes the outermost brace ends the loop. -/
theorem elementsLoop_rbrace_exit (hc : st.currentDim = 0) :
    elementsLoop st ⟨rbrace.toUInt8 :: rest, x⟩ = .ok (st.closeBrace, ⟨rest, [rbrace.toUInt8]⟩) := by
  rw [elementsLoop_of_next ((ArrayScan.next_of_read (Buffer.readRune_ascii rbrace_lt rest x)).trans
    (st.step_rbrace _)), if_pos (by show st.currentDim - 1 < 0; omega)]

/-- An element: its text is read, and the loop goes on after it. -/
theorem elementsLoop_element {t : Option (List UInt8)} (hv : ∀ s, t = some s → Valid s) :
    ∃ v q, elementSource v q = t ∧ ∀ (st : ArrayScan), 0 ≤ st.currentDim → ∀ rest, Delimited rest → ∀ x,
      elementsLoop st ⟨elementText t ++ rest, x⟩ = elementsLoop (st.addElement v q) ⟨rest, []⟩ := by
  obtain ⟨r, u, he, hr⟩ := elementText_head hv
  obtain ⟨v, q, hsrc, hval⟩ := arrayParseValue_elementText hv
  refine ⟨v, q, hsrc, fun st hc rest hrest x => ?_⟩
  have hread := Buffer.readRune_encodeChar r (u ++ rest) x
  have hpv := hval rest hrest []
  rw [he, List.append_assoc, ← Buffer.readRune_unreadRune hread] at hpv
  rw [he, List.append_assoc]
  exact elementsLoop_continue ((ArrayScan.next_of_read hread).trans (st.step_element hr hpv)) hc

end Passes

/-! ## Pieces of text the loop reads -/

/-- The element loop reads `p` from `st` and comes to `st'` without leaving the outermost brace,
whatever follows `p`, as long as that starts with `,` or `}`. -/
def Scans (st : ArrayScan) (p : List UInt8) (st' : ArrayScan) : Prop :=
  ∀ rest, Delimited rest → elementsLoop st ⟨p ++ rest, []⟩ = elementsLoop st' ⟨rest, []⟩

theorem Delimited.append {q : List UInt8} (hq : Delimited q) (rest : List UInt8) : Delimited (q ++ rest) := by
  obtain ⟨t, rfl | rfl⟩ := hq
  · exact ⟨t ++ rest, .inl rfl⟩
  · exact ⟨t ++ rest, .inr rfl⟩

/-- What may follow a piece of text that the loop reads: nothing, or a delimiter. -/
def Follows (q : List UInt8) : Prop := q = [] ∨ Delimited q

theorem Follows.append {q : List UInt8} (hq : Follows q) {rest : List UInt8} (hrest : Delimited rest) :
    Delimited (q ++ rest) := by
  rcases hq with rfl | hq
  · exact hrest
  · exact hq.append rest

theorem Scans.append {st st' st'' : ArrayScan} {p q : List UInt8} (h1 : Scans st p st') (h2 : Scans st' q st'')
    (hq : Follows q) : Scans st (p ++ q) st'' := fun rest hrest => by
  rw [List.append_assoc, h1 _ (hq.append hrest), h2 _ hrest]

theorem Scans.of_eq {st st₁ st' st₁' : ArrayScan} {p : List UInt8} (h : Scans st p st') (h₁ : st₁ = st)
    (h₂ : st' = st₁') : Scans st₁ p st₁' := by
  subst h₁ h₂
  exact h

/-- The `}` that closes a sub-array, as a piece of text the loop reads. -/
theorem scans_rbrace (I : List ArrayDimension) {c : Int} (c' : Int) (E : List (List UInt8)) (Qs : List Bool)
    (hc : 1 ≤ c) : Scans ⟨I, c, c', E, Qs⟩ [rbrace.toUInt8] ⟨I, c - 1, if c - 1 < c' then c - 1 else c', E, Qs⟩ :=
  fun rest _ => by rw [List.singleton_append, elementsLoop_rbrace _ _ _ hc, ArrayScan.closeBrace_mk]

/-- Blocks each after a comma may follow a piece of text. -/
theorem follows_commas (f : Nat → List UInt8) : ∀ js : List Nat, Follows (js.flatMap fun j => ','.toUInt8 :: f j)
  | [] => .inl rfl
  | j :: js => .inr ⟨_, .inl (by rw [List.flatMap_cons, List.cons_append])⟩

/-- In a sub-array that is not the first of its level, at the depth `c` with `counterDim` `c'`:
reading `p` takes elements whose sources are `L`, and changes nothing else. -/
def Reads (I : List ArrayDimension) (c c' : Int) (p : List UInt8) (L : List (Option (List UInt8))) : Prop :=
  ∀ E Qs, ∃ vs qs, vs.length = qs.length ∧ List.zipWith elementSource vs qs = L ∧
    Scans ⟨I, c, c', E, Qs⟩ p ⟨I, c, c', E ++ vs, Qs ++ qs⟩

section Reads

variable {I : List ArrayDimension} {c c' : Int}

theorem reads_nil : Reads I c c' [] [] := fun E Qs => ⟨[], [], rfl, rfl, fun rest _ => by simp⟩

theorem Reads.append {p q : List UInt8} {L L' : List (Option (List UInt8))} (h1 : Reads I c c' p L)
    (h2 : Reads I c c' q L') (hq : Follows q) : Reads I c c' (p ++ q) (L ++ L') := fun E Qs => by
  obtain ⟨vs, qs, hl, hz, hs⟩ := h1 E Qs
  obtain ⟨vs', qs', hl', hz', hs'⟩ := h2 (E ++ vs) (Qs ++ qs)
  refine ⟨vs ++ vs', qs ++ qs', by simp [hl, hl'], by rw [List.zipWith_append hl, hz, hz'], ?_⟩
  simpa using hs.append hs' hq

theorem reads_comma (hc : 0 ≤ c) {p : List UInt8} {L : List (Option (List UInt8))} (h : Reads I c c' p L) :
    Reads I c c' (','.toUInt8 :: p) L := fun E Qs => by
  obtain ⟨vs, qs, hl, hz, hs⟩ := h E Qs
  exact ⟨vs, qs, hl, hz, fun rest hrest => by
    rw [List.cons_append, elementsLoop_comma _ _ _ hc, hs _ hrest]⟩

theorem reads_element (hc : 0 ≤ c) (hne : c ≠ c') {t : Option (List UInt8)} (hv : ∀ s, t = some s → Valid s) :
    Reads I c c' (elementText t) [t] := fun E Qs => by
  obtain ⟨v, q, hsrc, hloop⟩ := elementsLoop_element hv
  refine ⟨[v], [q], rfl, by simp [hsrc], fun rest hrest => ?_⟩
  rw [hloop _ hc rest hrest, ArrayScan.addElement_mk, ArrayScan.count_of_ne hne]

/-- The blocks of a dimension, separated by commas, are read one after the other. -/
theorem reads_blocks (hc : 0 ≤ c) {f : Nat → List UInt8} {g : Nat → List (Option (List UInt8))}
    (hf : ∀ j, Reads I c c' (f j) (g j)) : ∀ d,
    Reads I c c' ((List.range d).flatMap fun j => (if 0 < j then [','.toUInt8] else []) ++ f j)
      ((List.range d).flatMap g)
  | 0 => by simpa using reads_nil
  | d + 1 => by
    rw [List.range_succ, List.flatMap_append, List.flatMap_append, List.flatMap_singleton,
      List.flatMap_singleton]
    by_cases hd : d = 0
    · subst hd
      simpa using hf 0
    · rw [if_pos (Nat.pos_of_ne_zero hd)]
      exact (reads_blocks hc hf d).append (reads_comma hc (hf d)) (.inr ⟨_, .inl rfl⟩)

end Reads

/-! ## Arrays as the text plan writes them -/

section Layout

variable (src : Nat → Option (List UInt8))

/-- The text of the block of shape `ls` whose first element is the `off`-th: `Nested.nested` with
braces, commas and the texts of the elements. -/
def arrayText (ls : List Nat) (off : Nat) : List UInt8 :=
  Nested.nested lbrace.toUInt8 rbrace.toUInt8 ','.toUInt8 (fun i => elementText (src i)) ls off

/-- The sources of the elements of that block, in order. -/
def leaves (ls : List Nat) (off : Nat) : List (Option (List UInt8)) :=
  (List.range ls.prod).map fun r => src (off + r)

theorem arrayText_nil (off : Nat) : arrayText src [] off = elementText (src off) := rfl

theorem arrayText_cons (d : Nat) (ds : List Nat) (off : Nat) :
    arrayText src (d :: ds) off = lbrace.toUInt8 :: ((List.range d).flatMap (fun j =>
      (if 0 < j then [','.toUInt8] else []) ++ arrayText src ds (off + j * ds.prod)) ++ [rbrace.toUInt8]) := rfl

theorem leaves_nil (off : Nat) : leaves src [] off = [src off] := by simp [leaves]

theorem leaves_cons (d : Nat) (ds : List Nat) (off : Nat) :
    leaves src (d :: ds) off = (List.range d).flatMap fun j => leaves src ds (off + j * ds.prod) := by
  simp only [leaves, List.prod_cons, Nested.range_mul, List.map_flatMap, List.map_map]
  congr 1
  funext j
  congr 1
  funext r
  simp [Nat.add_assoc]

variable {src}

/-- In a sub-array that is not the first of its level the loop reads the elements and counts
nothing. -/
theorem reads_copy (hsrc : ∀ i s, src i = some s → Valid s) : ∀ (ls : List Nat) (off : Nat)
    (I : List ArrayDimension) (c c' : Int), 0 ≤ c' → c' < c → Reads I c c' (arrayText src ls off) (leaves src ls off)
  | [], off, I, c, c', h0, hlt => by
    rw [arrayText_nil, leaves_nil]
    exact reads_element (by omega) (by omega) (hsrc off)
  | d :: ds, off, I, c, c', h0, hlt => fun E Qs => by
    -- one level down, the blocks, and back up with `counterDim` as it was
    obtain ⟨vs, qs, hl, hz, hs⟩ := reads_blocks (I := I) (c := c + 1) (by omega)
      (fun j => reads_copy hsrc ds (off + j * ds.prod) I (c + 1) c' h0 (by omega)) d E Qs
    refine ⟨vs, qs, hl, by rw [leaves_cons, hz], fun rest hrest => ?_⟩
    rw [arrayText_cons, List.cons_append, List.append_assoc, elementsLoop_lbrace _ _ _ (by show (0 : Int) ≤ c; omega),
      ArrayScan.openBrace_mk, ArrayScan.count_of_ne (by omega), List.singleton_append, hs _ ⟨rest, .inr rfl⟩,
      elementsLoop_rbrace _ _ _ (by show (1 : Int) ≤ c + 1; omega), ArrayScan.closeBrace_succ hlt.le]

end Layout

/-! ## The first sub-array of each level, where the lengths are counted -/

/-- `ArrayDimension{Length: n, LowerBound: 1}`: a dimension as the element loop counts it. -/
def dimOf (n : Nat) : ArrayDimension := ⟨Int32.ofNat n, 1⟩

theorem dimOf_succ (n : Nat) : { dimOf n with length := (dimOf n).length + 1 } = dimOf (n + 1) := by
  show (⟨Int32.ofNat n + 1, 1⟩ : ArrayDimension) = ⟨Int32.ofNat (n + 1), 1⟩
  rw [Int32.ofNat_add]
  rfl

theorem modify_length_append {α : Type} (f : α → α) (x : α) (R : List α) :
    ∀ P : List α, (P ++ x :: R).modify P.length f = P ++ f x :: R
  | [] => List.modify_zero_cons f x R
  | y :: P => by
    rw [List.cons_append, List.length_cons, List.modify_succ_cons, modify_length_append f x R P,
      List.cons_append]

/-- Where `currentDim` is `counterDim`, the loop counts at the level it is at. -/
theorem ArrayScan.count_first (P R : List ArrayDimension) (k : Nat) (E : List (List UInt8)) (Qs : List Bool) :
    (⟨P ++ dimOf k :: R, P.length, P.length, E, Qs⟩ : ArrayScan).count = P ++ dimOf (k + 1) :: R := by
  simp only [ArrayScan.count, if_true, Int.toNat_natCast]
  rw [modify_length_append, dimOf_succ]

/-- In the first sub-array of the level `P.length`, where the loop counts: reading `p` takes
elements whose sources are `L`, and makes the length of that level `n` longer. -/
def Counts (P R : List ArrayDimension) (p : List UInt8) (L : List (Option (List UInt8))) (n : Nat) : Prop :=
  ∀ k E Qs, ∃ vs qs, vs.length = qs.length ∧ List.zipWith elementSource vs qs = L ∧
    Scans ⟨P ++ dimOf k :: R, P.length, P.length, E, Qs⟩ p
      ⟨P ++ dimOf (k + n) :: R, P.length, P.length, E ++ vs, Qs ++ qs⟩

section Counts

variable {P R : List ArrayDimension}

theorem counts_nil : Counts P R [] [] 0 := fun k E Qs => ⟨[], [], rfl, rfl, fun rest _ => by simp⟩

theorem Counts.append {p q : List UInt8} {L L' : List (Option (List UInt8))} {n m : Nat}
    (h1 : Counts P R p L n) (h2 : Counts P R q L' m) (hq : Follows q) :
    Counts P R (p ++ q) (L ++ L') (n + m) := fun k E Qs => by
  obtain ⟨vs, qs, hl, hz, hs⟩ := h1 k E Qs
  obtain ⟨vs', qs', hl', hz', hs'⟩ := h2 (k + n) (E ++ vs) (Qs ++ qs)
  refine ⟨vs ++ vs', qs ++ qs', by simp [hl, hl'], by rw [List.zipWith_append hl, hz, hz'], ?_⟩
  simpa [Nat.add_assoc] using hs.append hs' hq

theorem counts_comma {p : List UInt8} {L : List (Option (List UInt8))} {n : Nat} (h : Counts P R p L n) :
    Counts P R (','.toUInt8 :: p) L n := fun k E Qs => by
  obtain ⟨vs, qs, hl, hz, hs⟩ := h k E Qs
  exact ⟨vs, qs, hl, hz, fun rest hrest => by
    rw [List.cons_append, elementsLoop_comma _ _ _ (Int.natCast_nonneg _), hs _ hrest]⟩

theorem counts_element {t : Option (List UInt8)} (hv : ∀ s, t = some s → Valid s) :
    Counts P R (elementText t) [t] 1 := fun k E Qs => by
  obtain ⟨v, q, hsrc, hloop⟩ := elementsLoop_element hv
  refine ⟨[v], [q], rfl, by simp [hsrc], fun rest hrest => ?_⟩
  rw [hloop _ (Int.natCast_nonneg _) rest hrest, ArrayScan.addElement_mk, ArrayScan.count_first]

variable {src : Nat → Option (List UInt8)}

/-- A whole block in the first sub-array of a level counts one: the loop counts its opening brace
and only reads what is inside, where the lengths were counted before. -/
theorem counts_block (hsrc : ∀ i s, src i = some s → Valid s) :
    ∀ (ls : List Nat) (off : Nat), Counts P R (arrayText src ls off) (leaves src ls off) 1
  | [], off => by
    rw [arrayText_nil, leaves_nil]
    exact counts_element (hsrc off)
  | d :: ds, off => fun k E Qs => by
    have hP : (0 : Int) ≤ P.length := Int.natCast_nonneg _
    obtain ⟨vs, qs, hl, hz, hs⟩ := reads_blocks (I := P ++ dimOf (k + 1) :: R) (c := P.length + 1)
      (by omega) (fun j => reads_copy hsrc ds (off + j * ds.prod) _ _ (P.length) hP (by omega)) d E Qs
    refine ⟨vs, qs, hl, by rw [leaves_cons, hz], fun rest hrest => ?_⟩
    rw [arrayText_cons, List.cons_append, List.append_assoc, elementsLoop_lbrace _ _ _ hP,
      ArrayScan.openBrace_mk, ArrayScan.count_first, List.singleton_append, hs _ ⟨rest, .inr rfl⟩,
      elementsLoop_rbrace _ _ _ (by show (1 : Int) ≤ P.length + 1; omega), ArrayScan.closeBrace_succ le_rfl]

/-- The blocks of a level after its first, each after a comma, count one each. -/
theorem counts_blocks (hsrc : ∀ i s, src i = some s → Valid s) (ds : List Nat) (off : Nat) :
    ∀ js : List Nat, Counts P R (js.flatMap fun j => ','.toUInt8 :: arrayText src ds (off + j * ds.prod))
      (js.flatMap fun j => leaves src ds (off + j * ds.prod)) js.length
  | [] => counts_nil
  | j :: js => by
    rw [List.flatMap_cons, List.flatMap_cons, List.length_cons, Nat.add_comm js.length 1]
    exact (counts_comma (counts_block hsrc ds _)).append (counts_blocks hsrc ds off js) (follows_commas _ js)

end Counts

/-! ## The first element of each level -/

section First

variable (src : Nat → Option (List UInt8))

/-- The blocks of a level after its first one, each after a comma. -/
def restBlocks (d : Nat) (ds : List Nat) (off : Nat) : List UInt8 :=
  ((List.range (d - 1)).map (· + 1)).flatMap fun j => ','.toUInt8 :: arrayText src ds (off + j * ds.prod)

/-- The text of a block after the opening braces of its first element. -/
def firstTail : List Nat → Nat → List UInt8
  | [], off => elementText (src off)
  | d :: ds, off => firstTail ds off ++ restBlocks src d ds off ++ [rbrace.toUInt8]

theorem arrayText_cons_pos {d : Nat} (hd : 0 < d) (ds : List Nat) (off : Nat) :
    arrayText src (d :: ds) off =
      lbrace.toUInt8 :: (arrayText src ds off ++ restBlocks src d ds off ++ [rbrace.toUInt8]) := by
  obtain ⟨d, rfl⟩ : ∃ d', d = d' + 1 := ⟨d - 1, by omega⟩
  rw [arrayText_cons, List.range_succ_eq_map, List.flatMap_cons, restBlocks, Nat.add_sub_cancel,
    List.flatMap_map, List.flatMap_map]
  simp

theorem leaves_cons_pos {d : Nat} (hd : 0 < d) (ds : List Nat) (off : Nat) :
    leaves src (d :: ds) off = leaves src ds off ++
      ((List.range (d - 1)).map (· + 1)).flatMap fun j => leaves src ds (off + j * ds.prod) := by
  obtain ⟨d, rfl⟩ : ∃ d', d = d' + 1 := ⟨d - 1, by omega⟩
  rw [leaves_cons, List.range_succ_eq_map, List.flatMap_cons, Nat.add_sub_cancel, List.flatMap_map,
    Nat.zero_mul, Nat.add_zero]

/-- A block of a shape with no empty dimension opens with a brace for each dimension. -/
theorem arrayText_eq_firstTail : ∀ ls : List Nat, (∀ d ∈ ls, 0 < d) → ∀ off,
    arrayText src ls off = List.replicate ls.length lbrace.toUInt8 ++ firstTail src ls off
  | [], _, off => rfl
  | d :: ds, hpos, off => by
    obtain ⟨hd, hds⟩ := List.forall_mem_cons.mp hpos
    rw [arrayText_cons_pos src hd, arrayText_eq_firstTail ds hds off, firstTail,
      List.length_cons, List.replicate_succ]
    simp

variable {src}

theorem firstTail_head (hsrc : ∀ i s, src i = some s → Valid s) (ls : List Nat) (off : Nat) :
    ∃ c u, firstTail src ls off = String.utf8EncodeChar c ++ u ∧ c ≠ lbrace := by
  induction ls with
  | nil =>
    obtain ⟨c, u, h, hc, -⟩ := elementText_head (hsrc off)
    exact ⟨c, u, h, hc⟩
  | cons d ds ih =>
    obtain ⟨c, u, h, hc⟩ := ih
    exact ⟨c, u ++ restBlocks src d ds off ++ [rbrace.toUInt8], by simp [firstTail, h], hc⟩

/-- From the innermost opening brace of the first element to the end of the level `P.length`, the
loop counts every level of the block, each in the first sub-array of the level above it. -/
theorem scans_first (hsrc : ∀ i s, src i = some s → Valid s) :
    ∀ (ds : List Nat), (∀ x ∈ ds, 0 < x) → ∀ (d : Nat), 0 < d → ∀ (off : Nat) (P : List ArrayDimension)
      (E : List (List UInt8)) (Qs : List Bool),
    ∃ vs qs, vs.length = qs.length ∧ List.zipWith elementSource vs qs = leaves src (d :: ds) off ∧
      Scans ⟨P ++ List.replicate ds.length (dimOf 1) ++ [dimOf 0], ((P.length + ds.length : Nat) : Int),
          ((P.length + ds.length : Nat) : Int), E, Qs⟩
        (firstTail src ds off ++ restBlocks src d ds off)
        ⟨P ++ (d :: ds).map dimOf, P.length, P.length, E ++ vs, Qs ++ qs⟩
  | [], _, d, hd, off, P, E, Qs => by
    -- the innermost level: the first element and the blocks after it, all counted
    have hlen : 0 + (1 + ((List.range (d - 1)).map (· + 1)).length) = d := by simp; omega
    obtain ⟨vs, qs, hl, hz, hs⟩ := ((counts_element (P := P) (R := []) (hsrc off)).append
      (counts_blocks hsrc [] off ((List.range (d - 1)).map (· + 1))) (follows_commas _ _)) 0 E Qs
    refine ⟨vs, qs, hl, by rw [leaves_cons_pos src hd, hz, leaves_nil], hs.of_eq (by simp) ?_⟩
    rw [hlen]
    simp
  | d' :: ds, hpos, d, hd, off, P, E, Qs => by
    obtain ⟨hd', hds⟩ := List.forall_mem_cons.mp hpos
    have hlen : 1 + ((List.range (d - 1)).map (· + 1)).length = d := by simp; omega
    have hP : (1 : Int) ≤ ((P ++ [dimOf 1]).length : Nat) := by simp
    -- the first sub-array one level down, where the loop counts the levels below
    obtain ⟨vs, qs, hl, hz, hs⟩ := scans_first hsrc ds hds d' hd' off (P ++ [dimOf 1]) E Qs
    -- the other blocks of this level, each counted once
    obtain ⟨vs', qs', hl', hz', hs'⟩ := counts_blocks (P := P) (R := (d' :: ds).map dimOf) hsrc (d' :: ds) off
      ((List.range (d - 1)).map (· + 1)) 1 (E ++ vs) (Qs ++ qs)
    refine ⟨vs ++ vs', qs ++ qs', by simp [hl, hl'], ?_, ?_⟩
    · rw [List.zipWith_append hl, hz, hz', leaves_cons_pos src hd]
    · have hrb := (scans_rbrace (P ++ [dimOf 1] ++ (d' :: ds).map dimOf) ((P ++ [dimOf 1]).length : Int)
        (E ++ vs) (Qs ++ qs) hP).of_eq rfl
        (show _ = (⟨P ++ dimOf 1 :: (d' :: ds).map dimOf, P.length, P.length, E ++ vs, Qs ++ qs⟩ : ArrayScan)
          by simp)
      refine ((hs.append hrb (.inr ⟨[], .inr rfl⟩)).append hs' (follows_commas _ _)).of_eq ?_ ?_
      · simp only [List.length_cons, List.replicate_succ, List.length_append, List.length_nil,
          Nat.zero_add, List.append_assoc, List.singleton_append, Nat.add_assoc, Nat.add_comm 1]
      · rw [hlen]
        simp

/-! ## The opening braces and the whole array -/

theorem openBracesLoop_of_read (I : List ArrayDimension) {b b1 : Buffer} {r : Char}
    (h : b.readRune = (some r, b1)) :
    openBracesLoop I b = if r = lbrace then
      openBracesLoop (I.modify (I.length - 1) (fun d => { d with length := 1 }) ++ [⟨0, 1⟩]) b1
    else .ok (I, b1.unreadRune) := by
  rw [openBracesLoop]
  split
  next b' h' => rw [h] at h'; cases h'
  next r' b' h' =>
    rw [h] at h'
    simp only [Prod.mk.injEq, Option.some.injEq] at h'
    obtain ⟨rfl, rfl⟩ := h'
    rfl

/-- A further opening brace makes the innermost level one long and adds a level of length zero. -/
theorem modify_last_dimOf (n : Nat) :
    (List.replicate n (dimOf 1) ++ [dimOf 0]).modify ((List.replicate n (dimOf 1) ++ [dimOf 0]).length - 1)
      (fun d => { d with length := 1 }) ++ [⟨0, 1⟩] = List.replicate (n + 1) (dimOf 1) ++ [dimOf 0] := by
  have hlen : (List.replicate n (dimOf 1) ++ [dimOf 0]).length - 1 = (List.replicate n (dimOf 1)).length := by
    simp
  rw [hlen, modify_length_append, List.replicate_succ', List.append_assoc, List.append_assoc]
  rfl

/-- `openBracesLoop` reads the opening braces up to the first rune that is not one. -/
theorem openBracesLoop_replicate {c : Char} (hc : c ≠ lbrace) (u : List UInt8) :
    ∀ (j n : Nat) (x : List UInt8), openBracesLoop (List.replicate n (dimOf 1) ++ [dimOf 0])
      ⟨List.replicate j lbrace.toUInt8 ++ (String.utf8EncodeChar c ++ u), x⟩ =
      .ok (List.replicate (n + j) (dimOf 1) ++ [dimOf 0], ⟨String.utf8EncodeChar c ++ u, []⟩)
  | 0, n, x => by
    rw [List.replicate_zero, List.nil_append, openBracesLoop_of_read _ (Buffer.readRune_encodeChar c u x),
      if_neg hc, Buffer.unreadRune_mk, Nat.add_zero]
  | j + 1, n, x => by
    rw [List.replicate_succ, List.cons_append, openBracesLoop_of_read _ (Buffer.readRune_ascii lbrace_lt _ x),
      if_pos rfl, modify_last_dimOf, openBracesLoop_replicate hc u j (n + 1), Nat.add_right_comm,
      Nat.add_assoc]

/-- The path of `parseUntypedTextArray` for text that starts with `{`: no explicit dimensions, the
opening braces, the element loop, and nothing but spaces after the last `}`. -/
theorem parseUntypedTextArray_lbrace {t : List UInt8} {I : List ArrayDimension} {b b' : Buffer}
    {st : ArrayScan} (hopen : openBracesLoop [⟨0, 1⟩] ⟨t, [lbrace.toUInt8]⟩ = .ok (I, b))
    (hloop : elementsLoop ⟨I, I.length - 1, I.length - 1, [], []⟩ b = .ok (st, b'))
    (hend : (skipWhitespace b').rest = []) :
    parseUntypedTextArray (lbrace.toUInt8 :: t) =
      .ok ⟨st.elements, st.quoted, if st.elements = [] then [] else st.implicitDimensions⟩ := by
  unfold parseUntypedTextArray
  rw [skipWhitespace_some (Buffer.readRune_ascii lbrace_lt _ _), if_neg (by decide), Buffer.unreadRune_mk,
    List.singleton_append]
  unfold readArrayRune
  dsimp only
  rw [Buffer.readRune_ascii lbrace_lt]
  dsimp only
  simp only [ok_bind, pure_bind, if_neg (by decide : ¬lbrace = '['), ne_eq, not_true_eq_false, if_false]
  rw [hopen, ok_bind]
  dsimp only
  rw [hloop, ok_bind]
  dsimp only
  rw [hend, if_neg (by simp)]
  rfl

/-- Text that opens with `n + 1` braces, which the element loop then reads from the depth of the
first element up to the `}` that closes the outermost brace. -/
theorem parseUntypedTextArray_of_scans {n : Nat} {c : Char} (hc : c ≠ lbrace) {u : List UInt8}
    {I : List ArrayDimension} {E : List (List UInt8)} {Qs : List Bool}
    (h : Scans ⟨List.replicate n (dimOf 1) ++ [dimOf 0], n, n, [], []⟩ (String.utf8EncodeChar c ++ u) ⟨I, 0, 0, E, Qs⟩)
    (hE : E ≠ []) :
    parseUntypedTextArray (lbrace.toUInt8 :: (List.replicate n lbrace.toUInt8 ++
      (String.utf8EncodeChar c ++ (u ++ [rbrace.toUInt8])))) = .ok ⟨E, Qs, I⟩ := by
  have hopen := openBracesLoop_replicate hc (u ++ [rbrace.toUInt8]) n 0 [lbrace.toUInt8]
  rw [Nat.zero_add] at hopen
  have hcur : ((List.replicate n (dimOf 1) ++ [dimOf 0]).length : Int) - 1 = n := by simp
  have hloop : elementsLoop ⟨List.replicate n (dimOf 1) ++ [dimOf 0],
      ((List.replicate n (dimOf 1) ++ [dimOf 0]).length : Int) - 1,
      ((List.replicate n (dimOf 1) ++ [dimOf 0]).length : Int) - 1, [], []⟩
      ⟨String.utf8EncodeChar c ++ (u ++ [rbrace.toUInt8]), []⟩ = .ok (⟨I, -1, -1, E, Qs⟩, ⟨[], [rbrace.toUInt8]⟩) := by
    rw [hcur, ← List.append_assoc, h _ ⟨[], .inr rfl⟩, elementsLoop_rbrace_exit _ _ _ rfl, ArrayScan.closeBrace_mk]
    rfl
  rw [parseUntypedTextArray_lbrace hopen hloop (by rw [skipWhitespace_nil]), if_neg hE]

theorem length_leaves (ls : List Nat) (off : Nat) : (leaves src ls off).length = ls.prod := by
  simp [leaves]

/-- The loop reads at least one element from a shape with no empty dimension. -/
theorem ne_nil_of_zipWith_leaves {vs : List (List UInt8)} {qs : List Bool} {ls : List Nat} {off : Nat}
    (hz : List.zipWith elementSource vs qs = leaves src ls off) (hpos : ∀ x ∈ ls, 0 < x) : vs ≠ [] := by
  rintro rfl
  have h0 := congrArg List.length hz
  rw [List.zipWith_nil_left, length_leaves] at h0
  exact absurd h0.symm (List.prod_pos hpos).ne'

/-- `parseUntypedTextArray` reads back the text of every shape with no empty dimension: the
elements in order, and the shape as dimensions with lower bound one. -/
theorem parseUntypedTextArray_arrayText (hsrc : ∀ i s, src i = some s → Valid s) (d : Nat) (ds : List Nat)
    (hpos : ∀ x ∈ d :: ds, 0 < x) :
    ∃ vs qs, vs.length = qs.length ∧ List.zipWith elementSource vs qs = leaves src (d :: ds) 0 ∧
      parseUntypedTextArray (arrayText src (d :: ds) 0) = .ok ⟨vs, qs, (d :: ds).map dimOf⟩ := by
  obtain ⟨hd, hds⟩ := List.forall_mem_cons.mp hpos
  obtain ⟨c, u, hft, hc⟩ := firstTail_head hsrc ds 0
  obtain ⟨vs, qs, hl, hz, hs⟩ := scans_first hsrc ds hds d hd 0 [] [] []
  simp only [hft, List.append_assoc] at hs
  have h : Scans ⟨List.replicate ds.length (dimOf 1) ++ [dimOf 0], ds.length, ds.length, [], []⟩
      (String.utf8EncodeChar c ++ (u ++ restBlocks src d ds 0)) ⟨(d :: ds).map dimOf, 0, 0, vs, qs⟩ :=
    hs.of_eq (by simp) (by simp)
  -- the text: a brace, the further braces of the first element, and the rest up to the last `}`
  have htext : arrayText src (d :: ds) 0 = lbrace.toUInt8 :: (List.replicate ds.length lbrace.toUInt8 ++
      (String.utf8EncodeChar c ++ ((u ++ restBlocks src d ds 0) ++ [rbrace.toUInt8]))) := by
    rw [arrayText_cons_pos src hd, arrayText_eq_firstTail src ds hds, hft]
    simp
  rw [htext]
  exact ⟨vs, qs, hl, hz, parseUntypedTextArray_of_scans hc h (ne_nil_of_zipWith_leaves hz hpos)⟩

/-- `decodeText` reads back the text of every shape with no empty dimension: the shape, as
dimensions with lower bound one, and every element, nil for `NULL`. -/
theorem decodeText_arrayText (hsrc : ∀ i s, src i = some s → Valid s) (d : Nat) (ds : List Nat)
    (hpos : ∀ x ∈ d :: ds, 0 < x) :
    decodeText (arrayText src (d :: ds) 0) = .ok ((d :: ds).map dimOf, leaves src (d :: ds) 0) := by
  obtain ⟨vs, qs, -, hz, hp⟩ := parseUntypedTextArray_arrayText hsrc d ds hpos
  rw [decodeText, hp, ok_bind]
  dsimp only
  rw [hz]
  rfl

end First

/-! ## What the text plan writes -/

section Plan

theorem encodeTextArrayDimensions_dimOf (buf : List UInt8) (ls : List Nat) :
    encodeTextArrayDimensions buf (ls.map dimOf) = buf := by
  simp [encodeTextArrayDimensions, dimOf]

/-- A product below `2^63` is kept by the reduction to Go's `int`. -/
theorem bmod_of_lt {n : Nat} (h : n < 2 ^ 63) : (n : Int).bmod (2 ^ 64) = n :=
  Int.bmod_eq_of_le (by norm_num) (by norm_num; omega)

theorem foldl_cardinality (ds : List Nat) (hpos : ∀ x ∈ ds, 0 < x) (hlt : ∀ x ∈ ds, x < 2 ^ 31) :
    ∀ a : Nat, a * ds.prod < 2 ^ 63 →
      (ds.map dimOf).foldl (fun elementCount d => (elementCount * d.length.toInt).bmod (2 ^ 64)) (a : Int) =
        ((a * ds.prod : Nat) : Int) := by
  induction ds with
  | nil => intro a _; simp
  | cons x ds ih =>
    intro a ha
    obtain ⟨hx, hpos⟩ := List.forall_mem_cons.mp hpos
    obtain ⟨hxlt, hlt⟩ := List.forall_mem_cons.mp hlt
    have hds : 0 < ds.prod := List.prod_pos hpos
    have hax : a * x < 2 ^ 63 := by
      rw [List.prod_cons, ← Nat.mul_assoc] at ha
      exact lt_of_le_of_lt (Nat.le_mul_of_pos_right _ hds) ha
    have hlen : (dimOf x).length.toInt = x := Int32.toInt_ofNat_of_lt hxlt
    rw [List.map_cons, List.foldl_cons, hlen, ← Nat.cast_mul, bmod_of_lt hax,
      ih hpos hlt (a * x) (by rwa [List.prod_cons, ← Nat.mul_assoc] at ha),
      List.prod_cons, Nat.mul_assoc]

/-- The cardinality of a shape whose product fits in Go's `int`. -/
theorem cardinality_dimOf {ls : List Nat} (hne : ls ≠ []) (hpos : ∀ x ∈ ls, 0 < x) (hlt : ∀ x ∈ ls, x < 2 ^ 31)
    (hprod : ls.prod < 2 ^ 63) : cardinality (ls.map dimOf) = ls.prod := by
  obtain ⟨d, ds, rfl⟩ := List.exists_cons_of_ne_nil hne
  obtain ⟨-, hpos⟩ := List.forall_mem_cons.mp hpos
  obtain ⟨hdlt, hlt⟩ := List.forall_mem_cons.mp hlt
  have hlen : (dimOf d).length.toInt = d := Int32.toInt_ofNat_of_lt hdlt
  rw [List.map_cons, cardinality, hlen, foldl_cardinality ds hpos hlt d (by rwa [List.prod_cons] at hprod),
    List.prod_cons]

theorem dimElemCounts_dimOf : ∀ ls : List Nat, (∀ x ∈ ls, 0 < x) → (∀ x ∈ ls, x < 2 ^ 31) → ls.prod < 2 ^ 63 →
    dimElemCounts (ls.map dimOf) = (Nested.suffixProducts ls).map (fun n : Nat => (n : Int))
  | [], _, _, _ => rfl
  | d :: ds, hpos, hlt, hprod => by
    obtain ⟨hd, hposs⟩ := List.forall_mem_cons.mp hpos
    obtain ⟨hdlt, hlts⟩ := List.forall_mem_cons.mp hlt
    have hds : ds.prod < 2 ^ 63 := by
      rw [List.prod_cons] at hprod
      exact lt_of_le_of_lt (Nat.le_mul_of_pos_left _ hd) hprod
    have ih := dimElemCounts_dimOf ds hposs hlts hds
    have hlen : (dimOf d).length.toInt = d := Int32.toInt_ofNat_of_lt hdlt
    simp only [dimElemCounts, List.map_cons, List.foldr_cons] at ih ⊢
    rw [ih]
    cases ds with
    | nil => simp [Nested.suffixProducts, hlen]
    | cons e es =>
      rw [List.prod_cons, List.prod_cons] at hprod
      simp only [Nested.suffixProducts, List.map_cons, hlen, List.prod_cons]
      rw [← Nat.cast_mul, bmod_of_lt hprod]

/-- The braces an element writes: one for each count that divides `m`. -/
theorem foldl_braces (x : UInt8) (ns : List Nat) (m : Nat) (buf : List UInt8) :
    (ns.map (fun n : Nat => (n : Int))).foldl (fun buf dec => if (m : Int).tmod dec = 0 then buf ++ [x] else buf)
      buf = buf ++ List.replicate (ns.countP (· ∣ m)) x := by
  rw [List.foldl_map, Nested.foldl_append_if (fun n : Nat => (m : Int).tmod n = 0)]
  congr 2
  apply List.countP_congr
  intro n _
  simp only [decide_eq_true_eq]
  rw [← Int.ofNat_tmod, Int.natCast_eq_zero, Nat.dvd_iff_mod_eq_zero]

variable {src : Nat → Option (List UInt8)}

/-- The `i`-th element of the text plan is the `i`-th piece of `Nested.flat`. -/
theorem encodeTextElement_eq (ns : List Nat) {elem : CompositeField} {i : Nat}
    (h : arrayElementText elem = .ok (src i)) (buf : List UInt8) :
    encodeTextElement (ns.map (fun n : Nat => (n : Int))) elem buf i =
      .ok (buf ++ Nested.flatPiece lbrace.toUInt8 rbrace.toUInt8 ','.toUInt8 (fun j => elementText (src j)) ns 0 i) := by
  have hsucc : ((i : Int) + 1) = ((i + 1 : Nat) : Int) := by push_cast; rfl
  unfold encodeTextElement
  dsimp only
  rw [foldl_braces, h, ok_bind, hsucc, foldl_braces]
  -- the comma is written before every element but the first
  by_cases hi : 0 < i <;> simp [Nested.flatPiece, hi, pure, Except.pure]

/-- The text plan writes an array whose dimensions are all longer than zero, with lower bound one,
as the nested text of its elements. -/
theorem encodePlanArrayCodecText_eq {array : ArrayGetter} {ls : List Nat}
    (hdims : array.dimensions = some (ls.map dimOf)) (hne : ls ≠ []) (hpos : ∀ x ∈ ls, 0 < x)
    (hlt : ∀ x ∈ ls, x < 2 ^ 31) (hprod : ls.prod < 2 ^ 63)
    (helem : ∀ i < ls.prod, arrayElementText (array.index i) = .ok (src i)) (buf : List UInt8) :
    encodePlanArrayCodecText array buf = .ok (some (buf ++ arrayText src ls 0)) := by
  have hP : ls.prod ≠ 0 := (List.prod_pos hpos).ne'
  unfold encodePlanArrayCodecText
  rw [hdims]
  dsimp only
  rw [cardinality_dimOf hne hpos hlt hprod, if_neg (by exact_mod_cast hP), encodeTextArrayDimensions_dimOf,
    dimElemCounts_dimOf ls hpos hlt hprod, Int.toNat_natCast,
    Nested.foldlM_range_append (fun i hi buf => encodeTextElement_eq _ (helem i hi) buf), ok_bind]
  -- the pieces of `Nested.flat` make up the nesting
  have hflat := @Nested.flat_eq_nested UInt8 lbrace.toUInt8 rbrace.toUInt8 ','.toUInt8
    (fun j => elementText (src j)) ls hpos 0 (Nat.dvd_zero _)
  rw [Nested.flat] at hflat
  rw [hflat]
  rfl

/-- An element given as a `[]byte` has its bytes as its text, and nil for nil. -/
theorem arrayElementText_ofBytes (t : Option (List UInt8)) : arrayElementText (.ofBytes t) = .ok t := by
  cases t <;> rfl

/-- **The text format of arrays reads back.** For an array whose dimensions are all longer than
zero, with lower bound one, and whose elements' texts are valid UTF-8, `decodeText` gives back from
what the text plan writes the dimensions and every element in order, nil for a nil one. -/
theorem array_text_roundTrip {array : ArrayGetter} {src : Nat → Option (List UInt8)} {d : Nat}
    {ds : List Nat} (hdims : array.dimensions = some ((d :: ds).map dimOf)) (hpos : ∀ x ∈ d :: ds, 0 < x)
    (hlt : ∀ x ∈ d :: ds, x < 2 ^ 31) (hprod : (d :: ds).prod < 2 ^ 63)
    (helem : ∀ i < (d :: ds).prod, arrayElementText (array.index i) = .ok (src i))
    (hsrc : ∀ i s, src i = some s → Valid s) :
    ∃ out, encodePlanArrayCodecText array [] = .ok (some out) ∧
      decodeText out = .ok ((d :: ds).map dimOf, (List.range (d :: ds).prod).map src) := by
  refine ⟨arrayText src (d :: ds) 0, ?_, ?_⟩
  · rw [encodePlanArrayCodecText_eq hdims (List.cons_ne_nil d ds) hpos hlt hprod helem, List.nil_append]
  · rw [decodeText_arrayText hsrc d ds hpos, leaves]
    simp

/-- The elements of a two by three array of `[]byte`, the second one nil. -/
def roundTripElements (i : Nat) : Option (List UInt8) := if i = 1 then none else some (encode ['a'])

theorem array_text_roundTrip_twoByThree :
    ∃ out, encodePlanArrayCodecText ⟨some ([2, 3].map dimOf), fun i => .ofBytes (roundTripElements i)⟩ [] =
        .ok (some out) ∧
      decodeText out = .ok ([2, 3].map dimOf, (List.range [2, 3].prod).map roundTripElements) :=
  array_text_roundTrip rfl (by simp) (by simp) (by simp)
    (fun i _ => arrayElementText_ofBytes _)
    (fun i s h => by
      unfold roundTripElements at h
      split at h
      · cases h
      · exact ⟨['a'], (Option.some.inj h).symm⟩)

end Plan

/-! ## Empty arrays -/

section Empty

/-- Once the count is zero it stays zero. -/
theorem foldl_cardinality_zero (ds : List ArrayDimension) :
    ds.foldl (fun elementCount d => (elementCount * d.length.toInt).bmod (2 ^ 64)) 0 = 0 := by
  induction ds with
  | nil => rfl
  | cons x ds ih => rw [List.foldl_cons, Int.zero_mul, Int.zero_bmod, ih]

/-- A dimension of length zero makes the count zero, whatever comes before it. -/
theorem foldl_cardinality_of_empty (ds : List ArrayDimension) (h : ∃ d ∈ ds, d.length = 0) :
    ∀ a : Int, ds.foldl (fun elementCount d => (elementCount * d.length.toInt).bmod (2 ^ 64)) a = 0 := by
  induction ds with
  | nil => obtain ⟨d, hd, -⟩ := h; cases hd
  | cons x ds ih =>
    intro a
    rw [List.foldl_cons]
    by_cases hx : x.length = 0
    · rw [hx, Int32.toInt_zero, Int.mul_zero, Int.zero_bmod, foldl_cardinality_zero]
    · obtain ⟨d, hd, hd0⟩ := h
      exact ih ⟨d, List.mem_of_ne_of_mem (fun hdx : d = x => hx (hdx ▸ hd0)) hd, hd0⟩ _

theorem cardinality_of_empty {dims : List ArrayDimension} (h : ∃ d ∈ dims, d.length = 0) : cardinality dims = 0 := by
  cases dims with
  | nil => rfl
  | cons x ds =>
    rw [cardinality]
    by_cases hx : x.length = 0
    · rw [hx, Int32.toInt_zero, foldl_cardinality_zero]
    · obtain ⟨d, hd, hd0⟩ := h
      exact foldl_cardinality_of_empty ds ⟨d, List.mem_of_ne_of_mem (fun hdx : d = x => hx (hdx ▸ hd0)) hd, hd0⟩ _

/-- `{}` reads back as an array without dimensions and without elements. -/
theorem decodeText_emptyArray : decodeText [lbrace.toUInt8, rbrace.toUInt8] = .ok ([], []) := by
  -- the `}` ends both the opening braces and the element loop
  have hopen : openBracesLoop [⟨0, 1⟩] ⟨[rbrace.toUInt8], [lbrace.toUInt8]⟩ =
      .ok ([⟨0, 1⟩], ⟨[rbrace.toUInt8], []⟩) := by
    rw [openBracesLoop_of_read _ (Buffer.readRune_ascii rbrace_lt _ _), if_neg (by decide)]
    rfl
  rw [decodeText, parseUntypedTextArray_lbrace hopen (elementsLoop_rbrace_exit _ [] [] rfl)
    (by rw [skipWhitespace_nil])]
  rfl

/-- **An empty array loses its dimensions in the text format.** The text plan writes `{}` for
every array with a dimension of length zero, whatever its dimensions, and `{}` reads back with no
dimensions. -/
theorem array_text_emptyDimension {array : ArrayGetter} {dims : List ArrayDimension}
    (hdims : array.dimensions = some dims) (hzero : ∃ d ∈ dims, d.length = 0) :
    encodePlanArrayCodecText array [] = .ok (some [lbrace.toUInt8, rbrace.toUInt8]) ∧
      decodeText [lbrace.toUInt8, rbrace.toUInt8] = .ok ([], []) := by
  refine ⟨?_, decodeText_emptyArray⟩
  unfold encodePlanArrayCodecText
  rw [hdims]
  dsimp only
  rw [if_pos (cardinality_of_empty hzero), List.nil_append]

theorem array_text_emptyDimension_threeByZero :
    encodePlanArrayCodecText ⟨some [dimOf 3, dimOf 0], fun _ => .nil⟩ [] =
        .ok (some [lbrace.toUInt8, rbrace.toUInt8]) ∧
      decodeText [lbrace.toUInt8, rbrace.toUInt8] = .ok ([], []) :=
  array_text_emptyDimension rfl ⟨dimOf 0, by simp, rfl⟩

end Empty

/-! ## Sub-arrays after the first -/

section Ragged

variable {src src' : Nat → Option (List UInt8)}

/-- **Sub-arrays after the first are not checked against it.** For a first sub-array of any
shape with no empty dimension and a second one of any shape at all, `parseUntypedTextArray`
accepts the text: the dimensions are counted in the first sub-array only, and the elements of
both are returned, so there may be more or fewer elements than the dimensions hold. -/
theorem decodeText_ragged (hsrc : ∀ i s, src i = some s → Valid s) (hsrc' : ∀ i s, src' i = some s → Valid s)
    (ds es : List Nat) (hpos : ∀ x ∈ ds, 0 < x) :
    decodeText (lbrace.toUInt8 :: (arrayText src ds 0 ++ ','.toUInt8 :: (arrayText src' es 0 ++ [rbrace.toUInt8]))) =
      .ok ((2 :: ds).map dimOf, leaves src ds 0 ++ leaves src' es 0) := by
  obtain ⟨c, u, hft, hc⟩ := firstTail_head hsrc ds 0
  -- the first sub-array counts every level below the outermost one
  obtain ⟨vs, qs, hl, hz, hs⟩ := scans_first hsrc ds hpos 1 Nat.one_pos 0 [] [] []
  -- the second, after its comma, is counted as one sub-array and only read
  obtain ⟨vs', qs', hl', hz', hs'⟩ :=
    counts_comma (counts_block (P := []) (R := ds.map dimOf) hsrc' es 0) 1 ([] ++ vs) ([] ++ qs)
  have hrest : restBlocks src 1 ds 0 = [] := by simp [restBlocks]
  rw [hrest, List.append_nil] at hs
  have hscan := hs.append hs' (.inr ⟨_, .inl rfl⟩)
  simp only [hft, List.append_assoc] at hscan
  have h : Scans ⟨List.replicate ds.length (dimOf 1) ++ [dimOf 0], ds.length, ds.length, [], []⟩
      (String.utf8EncodeChar c ++ (u ++ ','.toUInt8 :: arrayText src' es 0))
      ⟨(2 :: ds).map dimOf, 0, 0, vs ++ vs', qs ++ qs'⟩ :=
    hscan.of_eq (by simp) (by simp)
  have hne : vs ++ vs' ≠ [] :=
    List.append_ne_nil_of_left_ne_nil (ne_nil_of_zipWith_leaves hz (List.forall_mem_cons.mpr ⟨Nat.one_pos, hpos⟩)) _
  have htext : lbrace.toUInt8 :: (arrayText src ds 0 ++ ','.toUInt8 :: (arrayText src' es 0 ++ [rbrace.toUInt8])) =
      lbrace.toUInt8 :: (List.replicate ds.length lbrace.toUInt8 ++
        (String.utf8EncodeChar c ++ ((u ++ ','.toUInt8 :: arrayText src' es 0) ++ [rbrace.toUInt8]))) := by
    rw [arrayText_eq_firstTail src ds hpos, hft]
    simp
  rw [htext, decodeText, parseUntypedTextArray_of_scans hc h hne, ok_bind]
  simp only [List.zipWith_append hl, hz, hz', leaves_cons_pos src Nat.one_pos]
  simp [pure, Except.pure]

/-- Two NULLs in the first sub-array and three in the second. -/
theorem decodeText_ragged_twoThree :
    decodeText (lbrace.toUInt8 :: (arrayText (fun _ => none) [2] 0 ++
      ','.toUInt8 :: (arrayText (fun _ => none) [3] 0 ++ [rbrace.toUInt8]))) =
      .ok ([2, 2].map dimOf, leaves (fun _ => none) [2] 0 ++ leaves (fun _ => none) [3] 0) :=
  decodeText_ragged (fun _ _ h => by cases h) (fun _ _ h => by cases h) [2] [3] (by simp)

end Ragged

end Pgx.Pgtype
