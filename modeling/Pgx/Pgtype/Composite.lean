import Pgx.Pgtype.Hstore
import Pgx.Pgtype.Range

/-!
# Composite values: the builders and the scanners

`CompositeTextBuilder` and `CompositeBinaryBuilder` write a record field by field, and
`CompositeTextScanner` and `CompositeBinaryScanner` read one back with `Next` and `Bytes`.

* The text format is `(`, the fields separated by `,`, and `)`. A NULL field is nothing at all,
  and a field is quoted when it is empty, starts or ends with a space, or holds one of `(),"\`,
  with `\` and `"` escaped by a backslash. `Finish` writes `)` over the last byte, the `,` after
  the last field.
* The binary format is the number of fields, then for each its OID and its bytes after an `int32`
  length, `-1` for NULL.

The scanners read what the builders write, field for field, NULL as nil and an empty text as an
empty slice (`compositeText_roundTrip`, `compositeBinary_roundTrip`, for fields whose lengths pass
through `int32`). For a record with no fields the text builder writes `)` alone, the `(` that
`NewCompositeTextBuilder` wrote being overwritten, and `NewCompositeTextScanner` rejects it
(`compositeText_noFields`).

The caller's loop `for s.Next() { ... s.Bytes() ... }` is `collect`, with a bound on the calls of
`Next`.
-/

namespace Pgx.Pgtype

open Go Pgx.Proto

/-- A field given to `AppendValue`: Go's `nil`, or a value, with the text `%v` prints for it and
the plan the map chose for it in the builder's format (`none` when there is no plan). -/
inductive CompositeField where
  | nil
  | value (shown : String) (plan : Option EncodePlan)

/-- A field given as a `[]byte`, or `nil`: its plan appends its bytes. -/
def CompositeField.ofBytes : Option (List UInt8) → CompositeField
  | none => .nil
  | some t => .value (showBytes t) (some (elemPlan t))

/-- `unable to encode %v into OID %d in <format> format`. -/
def unableToEncodeErr (shown : String) (oid : UInt32) (format : String) : Fault :=
  .error ("unable to encode " ++ shown ++ " into OID " ++ toString oid.toNat ++ " in " ++ format ++
    " format")

/-- `Record incomplete %v`. -/
def recordIncomplete (src : List UInt8) : Fault := .error ("Record incomplete " ++ showBytes src)

/-- The byte `,`. -/
def commaByte : UInt8 := ','.toUInt8

/-- The byte `)`. -/
def rparenByte : UInt8 := ')'.toUInt8

/-- The byte `(`. -/
def lparenByte : UInt8 := '('.toUInt8

/-! ## The text format -/

/-- `quoteCompositeReplacer.Replace`: the replacer of arrays, `\` to `\\` and `"` to `\"`. -/
def quoteCompositeReplace (s : List UInt8) : List UInt8 := quoteArrayReplace s

/-- `quoteCompositeField`. -/
def quoteCompositeField (src : List UInt8) : List UInt8 :=
  quoteByte :: quoteCompositeReplace src ++ [quoteByte]

/-- The bytes of `strings.ContainsAny(src, "(),\"\\")`. They are ASCII, and an ASCII byte of a
string decodes as itself whatever surrounds it, so the test is one on bytes. -/
def compositeSpecialBytes : List UInt8 := [lparenByte, rparenByte, commaByte, quoteByte, backslashByte]

/-- `quoteCompositeFieldIfNeeded`. -/
def quoteCompositeFieldIfNeeded (src : List UInt8) : List UInt8 :=
  if src = [] ∨ src.head? = some ' '.toUInt8 ∨ src.getLast? = some ' '.toUInt8 ∨
      src.any (· ∈ compositeSpecialBytes) then
    quoteCompositeField src
  else src

/-- `CompositeTextBuilder`: the buffer and the first error. -/
structure CompositeTextBuilder where
  buf : List UInt8
  err : Option Fault

/-- `NewCompositeTextBuilder`. -/
def newCompositeTextBuilder (buf : List UInt8) : CompositeTextBuilder := ⟨buf ++ [lparenByte], none⟩

/-- `CompositeTextBuilder.AppendValue`: after an error nothing more is written; a `nil` field, or a
value its plan writes as `nil`, is nothing before its `,`. The plan writes into the builder's own
scratch array, from empty. -/
def CompositeTextBuilder.appendValue (b : CompositeTextBuilder) (oid : UInt32) (field : CompositeField) :
    CompositeTextBuilder :=
  if b.err.isSome then b
  else match field with
  | .nil => { b with buf := b.buf ++ [commaByte] }
  | .value shown none => { b with err := some (unableToEncodeErr shown oid "text") }
  | .value _ (some plan) =>
    match plan [] with
    | .error e => { b with err := some e }
    | .ok fieldBuf =>
      let buf := match fieldBuf with
        | none => b.buf
        | some fieldBuf => b.buf ++ quoteCompositeFieldIfNeeded fieldBuf
      { b with buf := buf ++ [commaByte] }

/-- `CompositeTextBuilder.Finish`: `)` over the last byte, which panics on an empty buffer. -/
def CompositeTextBuilder.finish (b : CompositeTextBuilder) : GoM (List UInt8) :=
  match b.err with
  | some e => .error e
  | none =>
    if b.buf = [] then .error (.panic "index out of range")
    else .ok (b.buf.set (b.buf.length - 1) rparenByte)

/-- `CompositeTextScanner`: `src`, the read position, the last field read (`nil` for NULL) and the
error. -/
structure CompositeTextScanner where
  rp : Nat
  src : List UInt8
  fieldBytes : Option (List UInt8)
  err : Option Fault

/-- `NewCompositeTextScanner`: a scanner with an error keeps no source. -/
def newCompositeTextScanner (src : List UInt8) : CompositeTextScanner :=
  if src.length < 2 then ⟨0, [], none, some (recordIncomplete src)⟩
  else if src[0]? ≠ some lparenByte then
    ⟨0, [], none, some (.error "composite text format must start with '('")⟩
  else if src.getLast? ≠ some rparenByte then
    ⟨0, [], none, some (.error "composite text format must end with ')'")⟩
  else ⟨1, src, none, none⟩

/-- The loop of a quoted field in `Next`, from `rp`: a doubled quote is a quote, a backslash takes
the next byte as it is, and a quote followed by anything else ends the field. The bytes read, and
the position of the byte after the closing quote; reading past the end panics. -/
def quotedField (src fieldBytes : List UInt8) (rp : Nat) : GoM (List UInt8 × Nat) :=
  if h : rp < src.length then
    let ch := src[rp]
    if ch = quoteByte then do
      let next ← getAt src (rp + 1)
      if next = quoteByte then quotedField src (fieldBytes ++ [quoteByte]) (rp + 2)
      else .ok (fieldBytes, rp + 1)
    else if ch = backslashByte then do
      let next ← getAt src (rp + 1)
      quotedField src (fieldBytes ++ [next]) (rp + 2)
    else quotedField src (fieldBytes ++ [ch]) (rp + 1)
  else .error (.panic "index out of range")
termination_by src.length - rp

/-- The loop of an unquoted field in `Next`, from `rp`: the position of the `,` or `)` that ends
it; reading past the end panics. -/
def unquotedEnd (src : List UInt8) (rp : Nat) : GoM Nat :=
  if h : rp < src.length then
    if src[rp] = commaByte ∨ src[rp] = rparenByte then .ok rp else unquotedEnd src (rp + 1)
  else .error (.panic "index out of range")
termination_by src.length - rp

/-- `CompositeTextScanner.Next`: `,` or `)` right away is NULL, a quote starts a quoted field, and
anything else an unquoted one; the byte after the field is skipped. -/
def CompositeTextScanner.next (cfs : CompositeTextScanner) : GoM (Bool × CompositeTextScanner) :=
  if cfs.err.isSome then .ok (false, cfs)
  else if cfs.rp = cfs.src.length then .ok (false, cfs)
  else do
    let ch ← getAt cfs.src cfs.rp
    if ch = commaByte ∨ ch = rparenByte then
      return (true, { cfs with rp := cfs.rp + 1, fieldBytes := none })
    else if ch = quoteByte then
      let (fieldBytes, rp) ← quotedField cfs.src [] (cfs.rp + 1)
      return (true, { cfs with rp := rp + 1, fieldBytes := some fieldBytes })
    else
      let rp ← unquotedEnd cfs.src cfs.rp
      let fieldBytes ← slice cfs.src cfs.rp rp
      return (true, { cfs with rp := rp + 1, fieldBytes := some fieldBytes })

/-- The caller's loop `for s.Next() { out = append(out, read(s)) }`, with at most `fuel` calls of
`Next`: what was read, and the scanner after the last call. -/
def collect {σ β : Type} (next : σ → GoM (Bool × σ)) (read : σ → β) : Nat → σ → GoM (List β × σ)
  | 0, s => .ok ([], s)
  | fuel + 1, s => do
    let (more, s) ← next s
    if more then
      let (out, s') ← collect next read fuel s
      return (read s :: out, s')
    else return ([], s)

/-- What the text builder writes for fields given as `[]byte` or `nil`, with their OIDs. -/
def compositeTextBytes (buf : List UInt8) (fields : List (UInt32 × Option (List UInt8))) :
    GoM (List UInt8) :=
  (fields.foldl (fun b f => b.appendValue f.1 (.ofBytes f.2)) (newCompositeTextBuilder buf)).finish

/-! ## The binary format -/

/-- `CompositeBinaryBuilder`: the buffer, where the field count goes, the count and the first
error. -/
structure CompositeBinaryBuilder where
  buf : List UInt8
  startIdx : Nat
  fieldCount : UInt32
  err : Option Fault

/-- `NewCompositeBinaryBuilder`: room for the number of fields. -/
def newCompositeBinaryBuilder (buf : List UInt8) : CompositeBinaryBuilder :=
  ⟨buf ++ [0, 0, 0, 0], buf.length, 0, none⟩

/-- `CompositeBinaryBuilder.AppendValue`: the OID, then `-1` as the length, which is overwritten
with the length of what the plan appends; a value the plan writes as `nil` keeps the `-1`. -/
def CompositeBinaryBuilder.appendValue (b : CompositeBinaryBuilder) (oid : UInt32) (field : CompositeField) :
    GoM CompositeBinaryBuilder :=
  if b.err.isSome then .ok b
  else match field with
  | .nil => .ok { b with buf := appendInt32 (b.buf ++ putUint32 oid) (-1), fieldCount := b.fieldCount + 1 }
  | .value shown none => .ok { b with err := some (unableToEncodeErr shown oid "binary") }
  | .value _ (some plan) =>
    -- `pgio.AppendUint32`, then the placeholder
    let buf := b.buf ++ putUint32 oid
    let lengthPos := buf.length
    let buf := appendInt32 buf (-1)
    match plan buf with
    | .error e => .ok { b with buf := buf, err := some e }
    | .ok none => .ok { b with buf := buf, fieldCount := b.fieldCount + 1 }
    | .ok (some fieldBuf) => do
      let fieldBuf ← setInt32At fieldBuf lengthPos (fieldBuf.length - buf.length)
      return { b with buf := fieldBuf, fieldCount := b.fieldCount + 1 }

/-- `CompositeBinaryBuilder.Finish`: the count over the four bytes kept for it. -/
def CompositeBinaryBuilder.finish (b : CompositeBinaryBuilder) : GoM (List UInt8) :=
  match b.err with
  | some e => .error e
  | none => setInt32At b.buf b.startIdx b.fieldCount.toNat

/-- `CompositeBinaryScanner`: `src`, the read position, the field count, the last field read and
its OID, and the error. -/
structure CompositeBinaryScanner where
  rp : Nat
  src : List UInt8
  fieldCount : Int
  fieldBytes : Option (List UInt8)
  fieldOID : UInt32
  err : Option Fault

/-- `NewCompositeBinaryScanner`: the field count through `int32`. -/
def newCompositeBinaryScanner (src : List UInt8) : GoM CompositeBinaryScanner := do
  if (← lenFrom src 0) < 4 then return ⟨0, [], 0, none, 0, some (recordIncomplete src)⟩
  else
    let fieldCount := toInt32 (← uint32At src 0)
    return ⟨4, src, fieldCount, none, 0, none⟩

/-- `Record incomplete rp=%d src=%v`. -/
def recordIncompleteAt (rp : Nat) (src : List UInt8) : Fault :=
  .error ("Record incomplete rp=" ++ toString rp ++ " src=" ++ showBytes src)

/-- `CompositeBinaryScanner.Next`: the OID and the length through `int32`; a negative length is
NULL. -/
def CompositeBinaryScanner.next (cfs : CompositeBinaryScanner) : GoM (Bool × CompositeBinaryScanner) := do
  if cfs.err.isSome then return (false, cfs)
  else if cfs.rp = cfs.src.length then return (false, cfs)
  else if (← lenFrom cfs.src cfs.rp) < 8 then
    return (false, { cfs with err := some (recordIncomplete cfs.src) })
  else
    let fieldOID ← uint32At cfs.src cfs.rp
    let rp := cfs.rp + 4
    let fieldLen := toInt32 (← uint32At cfs.src rp)
    let rp := rp + 4
    if 0 ≤ fieldLen then
      if ((← lenFrom cfs.src rp) : Int) < fieldLen then
        return (false, { cfs with fieldOID := fieldOID, rp := rp, err := some (recordIncompleteAt rp cfs.src) })
      else
        let fieldBytes ← slice cfs.src rp (rp + fieldLen)
        return (true, { cfs with fieldOID := fieldOID, rp := (rp + fieldLen).toNat, fieldBytes := some fieldBytes })
    else return (true, { cfs with fieldOID := fieldOID, rp := rp, fieldBytes := none })

/-- What the binary builder writes for fields given as `[]byte` or `nil`, with their OIDs. -/
def compositeBinaryBytes (buf : List UInt8) (fields : List (UInt32 × Option (List UInt8))) :
    GoM (List UInt8) := do
  let b ← fields.foldlM (fun b f => b.appendValue f.1 (.ofBytes f.2)) (newCompositeBinaryBuilder buf)
  b.finish

/-! ## The caller's loop -/

section Collect

variable {σ β : Type} {next : σ → GoM (Bool × σ)} {read : σ → β} {s s₁ : σ}

theorem collect_of_next_true (h : next s = .ok (true, s₁)) (fuel : Nat) :
    collect next read (fuel + 1) s = (collect next read fuel s₁).map fun r => (read s₁ :: r.1, r.2) := by
  simp only [collect, h, ok_bind, if_true]
  rcases collect next read fuel s₁ with e | ⟨out, s'⟩ <;> rfl

theorem collect_of_next_false (h : next s = .ok (false, s₁)) (fuel : Nat) :
    collect next read (fuel + 1) s = .ok ([], s₁) := by
  simp only [collect, h, ok_bind, Bool.false_eq_true, if_false]
  rfl

end Collect

/-! ## The text format read back -/

/-- The text of one field: nothing for NULL, and the text, quoted where needed. -/
def encodeField : Option (List UInt8) → List UInt8
  | none => []
  | some t => quoteCompositeFieldIfNeeded t

/-- The fields after `(`: each field's text, with `,` before every field but the first. -/
def fieldsBody (f : Option (List UInt8)) (fs : List (Option (List UInt8))) : List UInt8 :=
  encodeField f ++ fs.flatMap (commaByte :: encodeField ·)

theorem CompositeTextBuilder.appendValue_ofBytes (buf : List UInt8) (oid : UInt32) (f : Option (List UInt8)) :
    (⟨buf, none⟩ : CompositeTextBuilder).appendValue oid (.ofBytes f) =
      ⟨buf ++ encodeField f ++ [commaByte], none⟩ := by
  cases f <;> simp [appendValue, CompositeField.ofBytes, encodeField, elemPlan]

theorem CompositeTextBuilder.foldl_appendValue (fields : List (UInt32 × Option (List UInt8))) (buf : List UInt8) :
    fields.foldl (fun (b : CompositeTextBuilder) f => b.appendValue f.1 (.ofBytes f.2)) ⟨buf, none⟩ =
      ⟨buf ++ (fields.map Prod.snd).flatMap (encodeField · ++ [commaByte]), none⟩ := by
  induction fields generalizing buf with
  | nil => simp
  | cons f fs ih =>
    rw [List.foldl_cons, appendValue_ofBytes, ih, List.map_cons, List.flatMap_cons]
    simp only [List.append_assoc]

/-- Every field is followed by `,`: what `Finish` turns into `)` is the last one. -/
theorem flatMap_encodeField_comma (f : Option (List UInt8)) (fs : List (Option (List UInt8))) :
    (f :: fs).flatMap (encodeField · ++ [commaByte]) = fieldsBody f fs ++ [commaByte] := by
  induction fs generalizing f with
  | nil => simp [fieldsBody]
  | cons g gs ih =>
    rw [List.flatMap_cons, ih, fieldsBody, fieldsBody, List.flatMap_cons]
    simp

/-- The text builder writes `(`, the fields, and `)`, after what the buffer held. -/
theorem compositeTextBytes_cons (buf : List UInt8) (f : UInt32 × Option (List UInt8))
    (fs : List (UInt32 × Option (List UInt8))) :
    compositeTextBytes buf (f :: fs) = .ok (buf ++ lparenByte :: fieldsBody f.2 (fs.map Prod.snd) ++ [rparenByte]) := by
  rw [compositeTextBytes, newCompositeTextBuilder, CompositeTextBuilder.foldl_appendValue, List.map_cons,
    flatMap_encodeField_comma]
  simp [CompositeTextBuilder.finish]

theorem quoteCompositeFieldIfNeeded_of_plain {t : List UInt8}
    (h : ¬(t = [] ∨ t.head? = some ' '.toUInt8 ∨ t.getLast? = some ' '.toUInt8 ∨
      t.any (· ∈ compositeSpecialBytes))) : quoteCompositeFieldIfNeeded t = t := by
  rw [quoteCompositeFieldIfNeeded, if_neg h]

/-- **Quoted field.** The loop reads back a text its replacer escaped, up to the closing quote. -/
theorem quotedField_replace {src rest : List UInt8} {d : UInt8} (hd : d ≠ quoteByte) :
    ∀ (t acc : List UInt8) (rp : Nat), src.drop rp = quoteCompositeReplace t ++ quoteByte :: d :: rest →
      quotedField src acc rp = .ok (acc ++ t, rp + (quoteCompositeReplace t).length + 1)
  | [], acc, rp, h => by
    obtain ⟨hi, hq, hd1⟩ := drop_eq_cons h
    rw [quotedField, dif_pos hi]
    simp only [hq, if_true, getAt_of_drop hd1, ok_bind, if_neg hd]
    simp [quoteCompositeReplace, quoteArrayReplace]
  | x :: t, acc, rp, h => by
    have hrep : quoteCompositeReplace (x :: t) =
        (if x = backslashByte ∨ x = quoteByte then [backslashByte, x] else [x]) ++ quoteCompositeReplace t :=
      quoteArrayReplace_cons x t
    rw [hrep] at h ⊢
    by_cases hx : x = backslashByte ∨ x = quoteByte
    · -- an escaped byte: the backslash, then the byte itself
      rw [if_pos hx] at h ⊢
      obtain ⟨hi, hb, hd1⟩ := drop_eq_cons h
      have hbq : backslashByte ≠ quoteByte := by decide
      rw [quotedField, dif_pos hi]
      simp only [hb, if_neg hbq, if_true, getAt_of_drop hd1, ok_bind]
      have hd2 : src.drop (rp + 1 + 1) = quoteCompositeReplace t ++ quoteByte :: d :: rest := by
        obtain ⟨-, -, h2⟩ := drop_eq_cons hd1
        exact h2
      rw [quotedField_replace hd t (acc ++ [x]) (rp + 2) hd2]
      simp only [List.append_assoc, List.singleton_append, List.length_append, List.length_cons,
        List.length_nil]
      congr 2
      omega
    · rw [if_neg hx] at h ⊢
      obtain ⟨hi, hb, hd1⟩ := drop_eq_cons h
      rw [not_or] at hx
      rw [quotedField, dif_pos hi]
      simp only [hb, if_neg hx.2, if_neg hx.1]
      rw [quotedField_replace hd t (acc ++ [x]) (rp + 1) hd1]
      simp only [List.append_assoc, List.singleton_append, List.length_cons]
      congr 2
      omega

/-- **Unquoted field.** The loop stops at the first `,` or `)`. -/
theorem unquotedEnd_of_plain {src rest : List UInt8} {d : UInt8} (hd : d = commaByte ∨ d = rparenByte) :
    ∀ (u : List UInt8) (rp : Nat), (∀ x ∈ u, x ≠ commaByte ∧ x ≠ rparenByte) →
      src.drop rp = u ++ d :: rest → unquotedEnd src rp = .ok (rp + u.length)
  | [], rp, _, h => by
    obtain ⟨hi, hb, -⟩ := drop_eq_cons h
    rw [unquotedEnd, dif_pos hi, hb, if_pos hd]
    rfl
  | x :: u, rp, hu, h => by
    obtain ⟨hi, hb, hd1⟩ := drop_eq_cons h
    have hx := hu x (List.mem_cons_self ..)
    rw [unquotedEnd, dif_pos hi, hb, if_neg (by rintro (h | h) <;> simp_all),
      unquotedEnd_of_plain hd u (rp + 1) (fun y hy => hu y (List.mem_cons_of_mem _ hy)) hd1]
    simp only [List.length_cons]
    congr 1
    omega

/-- **Step.** `Next` reads one field's text and the `,` or `)` after it. -/
theorem CompositeTextScanner.next_field {cfs : CompositeTextScanner} (herr : cfs.err = none)
    {f : Option (List UInt8)} {d : UInt8} {rest : List UInt8} (hd : d = commaByte ∨ d = rparenByte)
    (h : cfs.src.drop cfs.rp = encodeField f ++ d :: rest) :
    cfs.next = .ok (true, { cfs with rp := cfs.rp + (encodeField f).length + 1, fieldBytes := f }) := by
  have hrp : cfs.rp ≠ cfs.src.length := by
    intro heq
    rw [heq, List.drop_length] at h
    simp at h
  have hdq : d ≠ quoteByte := by rcases hd with rfl | rfl <;> decide
  unfold next
  rw [if_neg (by simp [herr]), if_neg hrp]
  cases f with
  | none =>
    simp only [encodeField, List.nil_append] at h
    rw [getAt_of_drop h, ok_bind, if_pos hd]
    rfl
  | some t =>
    by_cases hq : t = [] ∨ t.head? = some ' '.toUInt8 ∨ t.getLast? = some ' '.toUInt8 ∨
        t.any (· ∈ compositeSpecialBytes)
    · -- a quoted field: the loop reads it up to the closing quote, and the `,` or `)` is skipped
      have henc : encodeField (some t) = quoteByte :: (quoteCompositeReplace t ++ [quoteByte]) := by
        simp only [encodeField, quoteCompositeFieldIfNeeded, if_pos hq, quoteCompositeField, List.cons_append]
      rw [henc, List.cons_append] at h
      obtain ⟨-, -, h1⟩ := drop_eq_cons h
      rw [getAt_of_drop h, ok_bind, if_neg (by decide), if_pos rfl,
        quotedField_replace hdq t [] (cfs.rp + 1) (by simpa using h1), ok_bind, henc]
      simp only [List.nil_append, List.length_cons, List.length_append, List.length_nil]
      congr 3
      omega
    · -- an unquoted field: none of its bytes is `,`, `)` or a quote
      have henc : encodeField (some t) = t := quoteCompositeFieldIfNeeded_of_plain hq
      simp only [not_or, List.any_eq_true, not_exists, not_and, decide_eq_true_eq] at hq
      obtain ⟨hne, -, -, hplain⟩ := hq
      have hbytes : ∀ y ∈ t, y ≠ commaByte ∧ y ≠ rparenByte ∧ y ≠ quoteByte := by
        intro y hy
        have := hplain y hy
        simp only [compositeSpecialBytes, List.mem_cons, List.mem_nil_iff, or_false, not_or] at this
        exact ⟨this.2.2.1, this.2.1, this.2.2.2.1⟩
      rw [henc] at h ⊢
      obtain ⟨x, t', rfl⟩ := List.exists_cons_of_ne_nil hne
      have hx := hbytes x (List.mem_cons_self ..)
      rw [List.cons_append] at h
      have hle : cfs.rp ≤ cfs.src.length := (drop_eq_cons h).1.le
      rw [getAt_of_drop h, ok_bind, if_neg (by rintro (h | h) <;> simp_all), if_neg hx.2.2,
        unquotedEnd_of_plain hd (x :: t') cfs.rp (fun y hy => ⟨(hbytes y hy).1, (hbytes y hy).2.1⟩)
          (by rw [List.cons_append]; exact h), ok_bind]
      rw [← List.cons_append] at h
      rw [Nat.cast_add, slice_of_drop hle h, ok_bind]
      rfl

/-- At the end of the source `Next` returns false, with no error. -/
theorem CompositeTextScanner.next_end {cfs : CompositeTextScanner} (herr : cfs.err = none)
    (h : cfs.rp = cfs.src.length) : cfs.next = .ok (false, cfs) := by
  unfold next
  rw [if_neg (by simp [herr]), if_pos h]

/-- **Run.** From the first field on, the caller's loop reads every field, and `Next` then returns
false with no error. -/
theorem collect_fieldsBody (fuel : Nat) :
    ∀ (fs : List (Option (List UInt8))) (f : Option (List UInt8)) (cfs : CompositeTextScanner),
      cfs.err = none → cfs.src.drop cfs.rp = fieldsBody f fs ++ [rparenByte] →
      ∃ cfs', collect CompositeTextScanner.next (·.fieldBytes) (fs.length + 2 + fuel) cfs = .ok (f :: fs, cfs') ∧
        cfs'.err = none
  | [], f, cfs, herr, h => by
    have h' : cfs.src.drop cfs.rp = encodeField f ++ [rparenByte] := by simpa [fieldsBody] using h
    have hlen : cfs.src.length = cfs.rp + (encodeField f).length + 1 := by
      have := congrArg List.length h'
      simp only [List.length_drop, List.length_append, List.length_singleton] at this
      omega
    refine ⟨{ cfs with rp := cfs.rp + (encodeField f).length + 1, fieldBytes := f }, ?_, herr⟩
    rw [show [].length + 2 + fuel = (fuel + 1) + 1 by simp; omega,
      collect_of_next_true (CompositeTextScanner.next_field herr (.inr rfl) h'),
      collect_of_next_false (@CompositeTextScanner.next_end { cfs with rp := _, fieldBytes := f } herr hlen.symm)]
    rfl
  | g :: gs, f, cfs, herr, h => by
    have h' : cfs.src.drop cfs.rp = encodeField f ++ commaByte :: (fieldsBody g gs ++ [rparenByte]) := by
      simp [h, fieldsBody]
    -- after the first field and its `,`, the rest of the fields
    have hnext : cfs.src.drop (cfs.rp + (encodeField f).length + 1) = fieldsBody g gs ++ [rparenByte] := by
      rw [← List.drop_drop, drop_add_of_drop h']
      rfl
    obtain ⟨cfs', hrun, herr'⟩ := collect_fieldsBody fuel gs g
      { cfs with rp := cfs.rp + (encodeField f).length + 1, fieldBytes := f } herr hnext
    refine ⟨cfs', ?_, herr'⟩
    rw [show (g :: gs).length + 2 + fuel = (gs.length + 2 + fuel) + 1 by simp; omega,
      collect_of_next_true (CompositeTextScanner.next_field herr (.inl rfl) h'), hrun]
    rfl

/-- **Text round trip.** For one field or more, each NULL or a text, the scanner accepts what the
builder writes, and reads the fields back in order: nil for NULL, the text otherwise, an empty one
as an empty slice. -/
theorem compositeText_roundTrip (buf : List UInt8) (f : UInt32 × Option (List UInt8))
    (fs : List (UInt32 × Option (List UInt8))) :
    ∃ text, compositeTextBytes buf (f :: fs) = .ok (buf ++ text) ∧ (newCompositeTextScanner text).err = none ∧
      ∀ fuel, fs.length + 1 < fuel → ∃ cfs,
        collect CompositeTextScanner.next (·.fieldBytes) fuel (newCompositeTextScanner text) =
          .ok ((f :: fs).map Prod.snd, cfs) ∧ cfs.err = none := by
  obtain ⟨text, htext⟩ : ∃ text, text = lparenByte :: fieldsBody f.2 (fs.map Prod.snd) ++ [rparenByte] :=
    ⟨_, rfl⟩
  have hscan : newCompositeTextScanner text = ⟨1, text, none, none⟩ := by
    have hlen : ¬text.length < 2 := by simp [htext]
    have hlast : text.getLast? = some rparenByte := List.getLast?_eq_some_iff.mpr ⟨_, htext⟩
    unfold newCompositeTextScanner
    rw [if_neg hlen, if_neg (by simp [htext]), if_neg (by simp [hlast])]
  refine ⟨text, by simp [compositeTextBytes_cons, htext], by rw [hscan], fun fuel hfuel => ?_⟩
  obtain ⟨k, rfl⟩ : ∃ k, fuel = (fs.map Prod.snd).length + 2 + k := ⟨fuel - (fs.length + 2), by simp; omega⟩
  rw [hscan]
  exact collect_fieldsBody k _ _ _ rfl (by simp [htext])

/-! ## The binary format read back -/

/-- The bytes of one field: its OID, its length through `int32` (`-1` for NULL), and its bytes. -/
def encodeBinaryField (f : UInt32 × Option (List UInt8)) : List UInt8 :=
  putUint32 f.1 ++ match f.2 with
    | none => putUint32 (ofInt32 (-1))
    | some t => putUint32 (ofInt32 t.length) ++ t

theorem CompositeBinaryBuilder.appendValue_ofBytes {b : CompositeBinaryBuilder} (hb : b.err = none)
    (oid : UInt32) (f : Option (List UInt8)) :
    b.appendValue oid (.ofBytes f) =
      .ok { b with buf := b.buf ++ encodeBinaryField (oid, f), fieldCount := b.fieldCount + 1 } := by
  unfold appendValue
  rw [if_neg (by simp [hb])]
  cases f with
  | none => simp [CompositeField.ofBytes, encodeBinaryField, appendInt32]
  | some t =>
    -- the length placeholder is overwritten with the length of the bytes the plan appended
    simp only [CompositeField.ofBytes, elemPlan, appendInt32]
    have hlen : (((b.buf ++ putUint32 oid ++ putUint32 (ofInt32 (-1)) ++ t).length : Int) -
        (b.buf ++ putUint32 oid ++ putUint32 (ofInt32 (-1))).length) = t.length := by
      simp only [List.length_append]
      omega
    rw [hlen, setInt32At_placeholder, ok_bind]
    simp [encodeBinaryField]
    rfl

theorem CompositeBinaryBuilder.foldlM_appendValue (fields : List (UInt32 × Option (List UInt8)))
    (b : CompositeBinaryBuilder) (hb : b.err = none) :
    fields.foldlM (fun (b : CompositeBinaryBuilder) f => b.appendValue f.1 (.ofBytes f.2)) b =
      .ok { b with
        buf := b.buf ++ fields.flatMap encodeBinaryField
        fieldCount := b.fieldCount + UInt32.ofNat fields.length } := by
  induction fields generalizing b with
  | nil =>
    have h0 : b.fieldCount + UInt32.ofNat 0 = b.fieldCount := UInt32.add_zero _
    simp only [List.foldlM_nil, List.flatMap_nil, List.append_nil, List.length_nil, h0]
    rfl
  | cons f fs ih =>
    -- one more field counted
    have hc : b.fieldCount + 1 + UInt32.ofNat fs.length = b.fieldCount + UInt32.ofNat (fs.length + 1) := by
      rw [UInt32.ofNat_add, UInt32.add_assoc, UInt32.add_comm 1]
      rfl
    rw [List.foldlM_cons, appendValue_ofBytes hb, ok_bind, ih _ (by exact hb)]
    simp only [List.flatMap_cons, List.append_assoc, List.length_cons, hc]

/-- The binary builder writes the number of fields, then the fields, after what the buffer held. -/
theorem compositeBinaryBytes_eq (buf : List UInt8) (fields : List (UInt32 × Option (List UInt8)))
    (hn : fields.length < 2 ^ 32) :
    compositeBinaryBytes buf fields =
      .ok (buf ++ putUint32 (ofInt32 fields.length) ++ fields.flatMap encodeBinaryField) := by
  have hcount : (0 + UInt32.ofNat fields.length).toNat = fields.length := by
    rw [UInt32.zero_add, UInt32.toNat_ofNat']
    omega
  rw [compositeBinaryBytes, CompositeBinaryBuilder.foldlM_appendValue _ _ rfl, ok_bind]
  simp only [newCompositeBinaryBuilder, CompositeBinaryBuilder.finish, hcount]
  rw [show buf ++ [0, 0, 0, 0] ++ fields.flatMap encodeBinaryField =
    buf ++ putUint32 0 ++ fields.flatMap encodeBinaryField from rfl, setInt32At_placeholder]

/-- A field whose bytes are short enough for their length to pass through `int32`. -/
def FieldFits32 (f : UInt32 × Option (List UInt8)) : Prop := ∀ t, f.2 = some t → t.length < 2 ^ 31

theorem newCompositeBinaryScanner_count {n : Nat} (hn : n < 2 ^ 31) (body : List UInt8) :
    newCompositeBinaryScanner (putUint32 (ofInt32 n) ++ body) =
      .ok ⟨4, putUint32 (ofInt32 n) ++ body, n, none, 0, none⟩ := by
  have hd : (putUint32 (ofInt32 n) ++ body).drop 0 = putUint32 (ofInt32 n) ++ body := rfl
  have hlen : ¬(putUint32 (ofInt32 n) ++ body).length < 4 := by
    simp only [List.length_append, show (putUint32 (ofInt32 n)).length = 4 from rfl]
    omega
  unfold newCompositeBinaryScanner
  rw [lenFrom_of_drop (Nat.zero_le _) hd, ok_bind, if_neg hlen, uint32At_of_drop hd, ok_bind,
    toInt32_ofInt32 (by omega) (by exact_mod_cast hn)]
  rfl

/-- `Next` over an OID and a length word: the checks before them pass, and what follows depends on
the length. -/
theorem CompositeBinaryScanner.next_of_header {cfs : CompositeBinaryScanner} (herr : cfs.err = none)
    {oid L : UInt32} {r : List UInt8} (h : cfs.src.drop cfs.rp = putUint32 oid ++ (putUint32 L ++ r)) :
    cfs.next =
      if 0 ≤ toInt32 L then do
        if ((← lenFrom cfs.src (cfs.rp + 4 + 4)) : Int) < toInt32 L then
          return (false, { cfs with
            fieldOID := oid, rp := cfs.rp + 4 + 4, err := some (recordIncompleteAt (cfs.rp + 4 + 4) cfs.src) })
        else
          let fieldBytes ← slice cfs.src ((cfs.rp + 4 + 4 : Nat) : Int) ((cfs.rp + 4 + 4 : Nat) + toInt32 L)
          return (true, { cfs with
            fieldOID := oid, rp := ((cfs.rp + 4 + 4 : Nat) + toInt32 L).toNat, fieldBytes := some fieldBytes })
      else .ok (true, { cfs with fieldOID := oid, rp := cfs.rp + 4 + 4, fieldBytes := none }) := by
  have hw : ∀ n : UInt32, (putUint32 n).length = 4 := fun _ => rfl
  have hlen := congrArg List.length h
  simp only [List.length_drop, List.length_append, hw] at hlen
  have hd1 : cfs.src.drop (cfs.rp + 4) = putUint32 L ++ r := by
    rw [← hw oid, drop_add_of_drop h]
  unfold next
  simp only [herr, Option.isSome_none, Bool.false_eq_true, if_false, if_neg (show cfs.rp ≠ cfs.src.length by omega)]
  rw [lenFrom_of_drop (by omega) h, ok_bind, if_neg (by simp only [List.length_append, hw]; omega),
    uint32At_of_drop h, ok_bind, uint32At_of_drop hd1, ok_bind]
  rfl

/-- **Step.** `Next` reads a field's OID, its length and its bytes, and NULL for the length `-1`. -/
theorem CompositeBinaryScanner.next_field {cfs : CompositeBinaryScanner} (herr : cfs.err = none)
    {f : UInt32 × Option (List UInt8)} (hf : FieldFits32 f) {rest : List UInt8}
    (h : cfs.src.drop cfs.rp = encodeBinaryField f ++ rest) :
    cfs.next = .ok (true, { cfs with
      rp := cfs.rp + (encodeBinaryField f).length, fieldOID := f.1, fieldBytes := f.2 }) := by
  have hw : ∀ n : UInt32, (putUint32 n).length = 4 := fun _ => rfl
  obtain ⟨oid, v⟩ := f
  cases v with
  | none =>
    have h' : cfs.src.drop cfs.rp = putUint32 oid ++ (putUint32 (ofInt32 (-1)) ++ rest) := by
      simpa [encodeBinaryField] using h
    rw [CompositeBinaryScanner.next_of_header herr h', if_neg (by decide)]
    simp [encodeBinaryField, hw]
  | some t =>
    have ht : toInt32 (ofInt32 t.length) = t.length := toInt32_ofInt32 (by omega) (by exact_mod_cast hf t rfl)
    have h' : cfs.src.drop cfs.rp = putUint32 oid ++ (putUint32 (ofInt32 t.length) ++ (t ++ rest)) := by
      simpa [encodeBinaryField] using h
    have hd2 : cfs.src.drop (cfs.rp + 4 + 4) = t ++ rest := by
      rw [show cfs.rp + 4 + 4 = cfs.rp + (putUint32 oid ++ putUint32 (ofInt32 t.length)).length by
        simp [hw], drop_add_of_drop (by simpa using h')]
    have hle : cfs.rp + 4 + 4 ≤ cfs.src.length := by
      have := congrArg List.length h'
      simp only [List.length_drop, List.length_append, hw] at this
      omega
    rw [CompositeBinaryScanner.next_of_header herr h', ht, if_pos (Int.natCast_nonneg _),
      lenFrom_of_drop hle hd2, ok_bind, if_neg (by simp only [List.length_append, Nat.cast_add]; omega),
      slice_of_drop hle hd2, ok_bind, ← Nat.cast_add, Int.toNat_natCast]
    simp only [encodeBinaryField, List.length_append, hw]
    congr 3
    omega

/-- At the end of the source `Next` returns false, with no error. -/
theorem CompositeBinaryScanner.next_end {cfs : CompositeBinaryScanner} (herr : cfs.err = none)
    (h : cfs.rp = cfs.src.length) : cfs.next = .ok (false, cfs) := by
  unfold next
  simp [herr, h]
  rfl

/-- **Run.** The caller's loop reads every field, with its OID, and `Next` then returns false with
no error. -/
theorem collect_binaryFields (fuel : Nat) :
    ∀ (fields : List (UInt32 × Option (List UInt8))) (cfs : CompositeBinaryScanner), cfs.err = none →
      (∀ f ∈ fields, FieldFits32 f) → cfs.rp ≤ cfs.src.length →
      cfs.src.drop cfs.rp = fields.flatMap encodeBinaryField →
      ∃ cfs', collect CompositeBinaryScanner.next (fun s => (s.fieldOID, s.fieldBytes)) (fields.length + 1 + fuel)
        cfs = .ok (fields, cfs') ∧ cfs'.err = none
  | [], cfs, herr, _, hle, h => by
    have hend : cfs.rp = cfs.src.length := by
      have := congrArg List.length h
      simp only [List.length_drop, List.flatMap_nil, List.length_nil] at this
      omega
    refine ⟨cfs, ?_, herr⟩
    rw [show [].length + 1 + fuel = fuel + 1 by simp; omega,
      collect_of_next_false (CompositeBinaryScanner.next_end herr hend)]
  | f :: fs, cfs, herr, hf, hle, h => by
    rw [List.flatMap_cons] at h
    have hnext : cfs.src.drop (cfs.rp + (encodeBinaryField f).length) = fs.flatMap encodeBinaryField :=
      drop_add_of_drop h
    have hle' : cfs.rp + (encodeBinaryField f).length ≤ cfs.src.length := by
      have := congrArg List.length h
      simp only [List.length_drop, List.length_append] at this
      omega
    obtain ⟨cfs', hrun, herr'⟩ := collect_binaryFields fuel fs
      { cfs with rp := cfs.rp + (encodeBinaryField f).length, fieldOID := f.1, fieldBytes := f.2 } herr
      (fun g hg => hf g (List.mem_cons_of_mem _ hg)) hle' hnext
    refine ⟨cfs', ?_, herr'⟩
    rw [show (f :: fs).length + 1 + fuel = (fs.length + 1 + fuel) + 1 by simp; omega,
      collect_of_next_true (CompositeBinaryScanner.next_field herr (hf f (List.mem_cons_self ..)) h), hrun]
    rfl

/-- **Binary round trip.** For fewer than `2^31` fields, each NULL or bytes shorter than `2^31`,
the scanner reads the field count, and each field's OID and bytes, back from what the builder
writes. -/
theorem compositeBinary_roundTrip (buf : List UInt8) (fields : List (UInt32 × Option (List UInt8)))
    (hn : fields.length < 2 ^ 31) (hf : ∀ f ∈ fields, FieldFits32 f) :
    ∃ bytes cfs, compositeBinaryBytes buf fields = .ok (buf ++ bytes) ∧ newCompositeBinaryScanner bytes = .ok cfs ∧
      cfs.fieldCount = fields.length ∧ ∀ fuel, fields.length < fuel → ∃ cfs',
        collect CompositeBinaryScanner.next (fun s => (s.fieldOID, s.fieldBytes)) fuel cfs = .ok (fields, cfs') ∧
          cfs'.err = none := by
  refine ⟨_, _, by rw [compositeBinaryBytes_eq buf fields (by omega), List.append_assoc],
    newCompositeBinaryScanner_count hn _, rfl, fun fuel hfuel => ?_⟩
  obtain ⟨k, rfl⟩ : ∃ k, fuel = fields.length + 1 + k := ⟨fuel - (fields.length + 1), by omega⟩
  exact collect_binaryFields k fields _ rfl hf (by simp [show (putUint32 (ofInt32 fields.length)).length = 4 from rfl])
    rfl

/-! ## A record with no fields -/

/-- With no field appended, `Finish` writes `)` over the `(` that `NewCompositeTextBuilder` wrote, so
the builder's bytes are `)` alone; `NewCompositeTextScanner` rejects them as too short, and the
caller's loop reads no field. -/
theorem compositeText_noFields (buf : List UInt8) :
    compositeTextBytes buf [] = .ok (buf ++ [rparenByte]) ∧
      (newCompositeTextScanner [rparenByte]).err = some (.error "Record incomplete [41]") ∧
      ∀ fuel, (collect CompositeTextScanner.next (·.fieldBytes) fuel (newCompositeTextScanner [rparenByte])).map
        (·.1) = .ok [] := by
  refine ⟨by simp [compositeTextBytes, newCompositeTextBuilder, CompositeTextBuilder.finish], rfl, ?_⟩
  rintro (_ | fuel)
  · rfl
  · rw [collect_of_next_false (by rfl)]
    rfl

end Pgx.Pgtype
