import Pgx.Proto.Messages

/-!
# Encode plans, and the callers that slice what they append

`EncodePlan.Encode(value, buf)` appends the encoding of `value` to `buf`, or returns `nil` for SQL
NULL, or an error. Its callers rely on the appending: `ExtendedQueryBuilder` keeps all the
parameters of a query in one buffer and hands out `buf[pos:]`, the part the plan appended after
the old length `pos`; `encodeCopyValue` writes a length placeholder before the value and fills it
in from what follows it.

* `EncodePlan`, `Appends`: the contract, for one value: what the plan returns for a buffer is what
  it returns for an empty one, after the buffer;
* `ExtendedQueryBuilder.encodeExtendedParamValue`, `appendParam`, `buildExec`: `Build` in the
  exec mode (no statement description), where every argument is encoded in text format;
* `encodeCopyValue`.

Under `Appends` the callers do what they are for (`buildExec_of_appends`,
`encodeCopyValue_of_appends`).
-/

namespace Pgx.Pgtype

open Go Pgx.Proto

/-- The encode plan the map chose for one value, applied to a buffer: `nil` for SQL NULL, an error,
or the buffer with the encoding appended. -/
abbrev EncodePlan := List UInt8 → GoM (Option (List UInt8))

/-- The contract of `EncodePlan.Encode`: what the plan returns for `buf` is what it returns for an
empty buffer, with `buf` in front of an encoding. -/
def Appends (encode : EncodePlan) : Prop :=
  ∀ buf, encode buf = (encode []).map (Option.map (buf ++ ·))

/-- `TextFormatCode`. -/
def textFormatCode : Int16 := 0

/-- `ExtendedQueryBuilder`. -/
structure ExtendedQueryBuilder where
  paramValues : List (Option (List UInt8))
  paramValueBytes : List UInt8
  paramFormats : List Int16
  resultFormats : List Int16

namespace ExtendedQueryBuilder

/-- `reset`: the slices are cut to length zero. -/
def reset (eqb : ExtendedQueryBuilder) : ExtendedQueryBuilder :=
  { eqb with paramValues := [], paramValueBytes := [], paramFormats := [], resultFormats := [] }

/-- `encodeExtendedParamValue`: the plan appends to `paramValueBytes`, and the parameter's value is
what follows the old length. -/
def encodeExtendedParamValue (eqb : ExtendedQueryBuilder) (encode : EncodePlan) :
    GoM (Option (List UInt8) × ExtendedQueryBuilder) := do
  let pos := eqb.paramValueBytes.length
  match ← encode eqb.paramValueBytes with
  | none => return (none, eqb)
  | some buf => return (some (← sliceFrom buf pos), { eqb with paramValueBytes := buf })

/-- `appendParam` with its format given. -/
def appendParam (eqb : ExtendedQueryBuilder) (format : Int16) (encode : EncodePlan) :
    GoM ExtendedQueryBuilder := do
  let (v, eqb) ← eqb.encodeExtendedParamValue encode
  return { eqb with paramFormats := eqb.paramFormats ++ [format],
                    paramValues := eqb.paramValues ++ [v] }

/-- `Build(m, nil, args)`: every argument is appended in text format, by the plan the map chose
for it in that format. -/
def buildExec (eqb : ExtendedQueryBuilder) (plans : List EncodePlan) :
    GoM ExtendedQueryBuilder :=
  plans.foldlM (fun eqb plan => eqb.appendParam textFormatCode plan) eqb.reset

section Appends

variable {encode : EncodePlan}

/-- A plan that appends gives the parameter its own encoding, and leaves it at the end of
`paramValueBytes`. -/
theorem encodeExtendedParamValue_of_appends (h : Appends encode) (eqb : ExtendedQueryBuilder) :
    eqb.encodeExtendedParamValue encode = (encode []).map fun r =>
      (r, { eqb with paramValueBytes := eqb.paramValueBytes ++ r.getD [] }) := by
  unfold encodeExtendedParamValue
  rw [h eqb.paramValueBytes]
  rcases encode [] with f | _ | e
  · rfl
  · simp only [Except.map, Option.map_none, bind, Except.bind, pure, Except.pure,
      Option.getD_none, List.append_nil]
  · simp only [Except.map, Option.map_some, bind, Except.bind, pure, Except.pure, Option.getD_some]
    rw [sliceFrom_of_le (by simp), List.drop_left]

theorem appendParam_of_appends (h : Appends encode) (eqb : ExtendedQueryBuilder) (format : Int16) :
    eqb.appendParam format encode = (encode []).map fun r =>
      { eqb with paramValueBytes := eqb.paramValueBytes ++ r.getD [],
                 paramFormats := eqb.paramFormats ++ [format],
                 paramValues := eqb.paramValues ++ [r] } := by
  rw [appendParam, encodeExtendedParamValue_of_appends h]
  rcases encode [] with f | r <;> rfl

/-- The run of `appendParam` behind `Build`: with plans that append, the values are the plans'
own encodings, after those already there. -/
theorem foldlM_appendParam (format : Int16) {plans : List EncodePlan}
    (hp : ∀ p ∈ plans, Appends p) (s : ExtendedQueryBuilder) :
    (plans.foldlM (fun (eqb : ExtendedQueryBuilder) plan => eqb.appendParam format plan) s).map
        (·.paramValues) = (plans.mapM fun p : EncodePlan => p []).map (s.paramValues ++ ·) := by
  induction plans generalizing s with
  | nil => simp [pure, Except.pure, Except.map]
  | cons p ps ih =>
    have hp1 := hp p (by simp)
    have ih' := ih (fun q hq => hp q (by simp [hq]))
    rw [List.foldlM_cons, List.mapM_cons, appendParam_of_appends hp1]
    rcases p [] with f | r
    · rfl
    · show Except.map _ (List.foldlM _ _ ps) = _
      rw [ih']
      rcases List.mapM (fun p : EncodePlan => p []) ps with f | vs <;> simp [Except.map, bind,
        Except.bind, pure, Except.pure]

/-- **`Build` in the exec mode.** With plans that append, the parameter values are what each plan
encodes on its own. -/
theorem buildExec_of_appends {plans : List EncodePlan} (hp : ∀ p ∈ plans, Appends p)
    (eqb : ExtendedQueryBuilder) :
    (eqb.buildExec plans).map (·.paramValues) = plans.mapM fun p : EncodePlan => p [] := by
  rw [buildExec, foldlM_appendParam textFormatCode hp]
  rcases List.mapM (fun p : EncodePlan => p []) plans with f | vs <;> rfl

end Appends

end ExtendedQueryBuilder

/-- `pgio.SetInt32(buf[sp:], n)`: the four bytes at `sp` are overwritten; slicing panics past the
end, and writing panics with fewer than four bytes after `sp`. -/
def setInt32At (buf : List UInt8) (sp : Nat) (n : Int) : GoM (List UInt8) := do
  if (← sliceFrom buf sp).length < 4 then .error (.panic "index out of range")
  else .ok (buf.take sp ++ putUint32 (ofInt32 n) ++ buf.drop (sp + 4))

/-- Writing over a placeholder: the four bytes after `pre` become `n`. -/
theorem setInt32At_placeholder (pre t : List UInt8) (x : UInt32) (n : Int) :
    setInt32At (pre ++ putUint32 x ++ t) pre.length n = .ok (pre ++ putUint32 (ofInt32 n) ++ t) := by
  have hw : ∀ y : UInt32, (putUint32 y).length = 4 := fun _ => rfl
  have hfrom : sliceFrom (pre ++ putUint32 x ++ t) pre.length = .ok (putUint32 x ++ t) := by
    rw [sliceFrom_of_le (by simp), List.append_assoc, List.drop_left]
  unfold setInt32At
  rw [hfrom, ok_bind, if_neg (by simp [hw])]
  simp [List.drop_append, hw]

/-- `encodeCopyValue`: a length placeholder, then the value in binary format; if the plan fails
with an error, `retry` (`tryScanStringCopyValueThenEncode`) encodes it again, and its error is
dropped for the plan's. -/
def encodeCopyValue (encode retry : EncodePlan) (buf : List UInt8) : GoM (List UInt8) := do
  let sp := buf.length
  let buf := appendInt32 buf (-1)
  let argBuf ← match encode buf with
    | .error (.error msg) =>
      match retry buf with
      | .error (.error _) => .error (.error msg)
      | r => r
    | r => r
  match argBuf with
  | none => return buf
  | some argBuf => setInt32At argBuf sp ((← sliceFrom argBuf sp).length - 4)

/-- A plan that appends `e` gives a COPY value framed by its length. -/
theorem encodeCopyValue_of_appends {encode : EncodePlan} (retry : EncodePlan) (h : Appends encode)
    {e : List UInt8} (he : encode [] = .ok (some e)) (buf : List UInt8) :
    encodeCopyValue encode retry buf = .ok (buf ++ putUint32 (ofInt32 e.length) ++ e) := by
  have hw : (putUint32 (ofInt32 (-1))).length = 4 := rfl
  have hb : encode (appendInt32 buf (-1)) = .ok (some (appendInt32 buf (-1) ++ e)) := by
    rw [h, he]
    rfl
  have hdrop : (appendInt32 buf (-1) ++ e).drop buf.length = putUint32 (ofInt32 (-1)) ++ e := by
    simp [appendInt32]
  have hlen : ((appendInt32 buf (-1) ++ e).drop buf.length).length = e.length + 4 := by
    rw [hdrop, List.length_append, hw, Nat.add_comm]
  have hfrom := @sliceFrom_of_le _ (appendInt32 buf (-1) ++ e) buf.length (by simp [appendInt32])
  unfold encodeCopyValue setInt32At
  simp only [hb, bind, Except.bind, hfrom, hlen]
  rw [if_neg (by omega)]
  simp [appendInt32, hw]

end Pgx.Pgtype
