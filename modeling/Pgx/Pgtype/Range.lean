import Pgx.Pgtype.EncodePlan
import Pgx.Go.Utf8

/-!
# Ranges in the binary and text formats

`RangeCodec` writes a range as its bound types and the encodings of its bounds, each bound in the
element type's own format, through the plan the map chose for it (`encodeRangeElement`), whose
errors name the value as `%v` prints it.

* The binary format is a flag byte, then each bound that is not unbounded as a length-prefixed
  value. `parseUntypedBinaryRange` reads the bound types back from the flags, and the bounds from
  the values (`parseUntypedBinaryRange_encode`).
* The text format is `[`, `(` or `empty`, the lower bound's text, `,`, the upper bound's text and
  `]` or `)`. The encoder writes the element text as it is, while `parseUntypedTextRange` reads
  an empty bound as unbounded and stops a bound at `,`, brackets and parentheses, and takes
  quotes and backslashes as syntax. What is read back is what was written when the bounds are
  plain text (`parseUntypedTextRange_encode`), and not otherwise (`parseUntypedTextRange_emptyLower`).

The text parser reads a `bytes.Buffer` rune by rune, with `UnreadRune` to put back the last rune
read; `Buffer` models that.
-/

namespace Pgx.Pgtype

open Go Go.Utf8 Go.Unicode Pgx.Proto

/-- `BoundType`: a byte, of which four values have a meaning. -/
inductive BoundType
  | inclusive
  | exclusive
  | unbounded
  | empty
  /-- any other byte -/
  | other (b : UInt8)
  deriving DecidableEq, Repr

/-- The byte of a bound type: `'i'`, `'e'`, `'U'`, `'E'`. -/
def BoundType.toByte : BoundType → UInt8
  | inclusive => 'i'.toUInt8
  | exclusive => 'e'.toUInt8
  | unbounded => 'U'.toUInt8
  | empty => 'E'.toUInt8
  | other b => b

/-- `BoundType.String`: the byte as a one-character string. -/
def BoundType.string (bt : BoundType) : String := (Char.ofNat bt.toByte.toNat).toString

/-- `emptyMask`. -/
def emptyMask : UInt8 := 1
/-- `lowerInclusiveMask`. -/
def lowerInclusiveMask : UInt8 := 2
/-- `upperInclusiveMask`. -/
def upperInclusiveMask : UInt8 := 4
/-- `lowerUnboundedMask`. -/
def lowerUnboundedMask : UInt8 := 8
/-- `upperUnboundedMask`. -/
def upperUnboundedMask : UInt8 := 16

/-- A bound of a `RangeValuer` that is not nil: the text `%v` prints for it, and the plan the map
chose for it in the element's format, `none` when `PlanEncode` found none. -/
structure RangeBound where
  shown : String
  plan : Option EncodePlan

/-- What the range encode plans read of a `RangeValuer`: whether it is null, its bound types, and
its bounds, `none` for a nil bound. -/
structure RangeValue where
  isNull : Bool
  lowerType : BoundType
  upperType : BoundType
  lower : Option RangeBound
  upper : Option RangeBound

/-- `Lower cannot be NULL unless LowerType is Unbounded`, and the same for `Upper`. -/
def nullBoundErr (name : String) : Fault :=
  .error (name ++ " cannot be NULL unless " ++ name ++ "Type is Unbounded")

/-- The plan of an element whose encoding is `e`: it appends `e`. -/
def elemPlan (e : List UInt8) : EncodePlan := fun buf => .ok (some (buf ++ e))

/-- `fmt.Errorf(prefix + "%w", err)`: the message of an error after a prefix; a panic goes on. -/
def Fault.wrap (pre : String) : Fault → Fault
  | .error msg => .error (pre ++ msg)
  | .panic msg => .panic msg

/-- A bound's element through its plan, as both range encode plans write it: `cannot encode %v as
element of range` when the map has no plan, the plan's error after `failed to encode %v as element
of range: `, and the NULL error when the plan encodes nothing. -/
def encodeRangeElement (name : String) (b : RangeBound) (buf : List UInt8) : GoM (List UInt8) :=
  match b.plan with
  | none => .error (.error ("cannot encode " ++ b.shown ++ " as element of range"))
  | some plan =>
    match plan buf with
    | .error e => .error (Fault.wrap ("failed to encode " ++ b.shown ++ " as element of range: ") e)
    | .ok none => .error (nullBoundErr name)
    | .ok (some buf) => .ok buf

/-- The bound types of each bound of a range that is not empty. -/
def boundTypes : List BoundType := [.inclusive, .exclusive, .unbounded]

/-! ## The binary format -/

/-- One bound of `encodePlanRangeCodecRangeValuerToBinary`: unless it is unbounded, the element in
binary format after a length placeholder, which is filled in after it. -/
def encodeBoundBinary (name : String) (t : BoundType) (bound : Option RangeBound)
    (buf : List UInt8) : GoM (List UInt8) :=
  if t ≠ .unbounded then
    match bound with
    | none => .error (nullBoundErr name)
    | some b => do
      let sp := buf.length
      let buf ← encodeRangeElement name b (appendInt32 buf (-1))
      setInt32At buf sp ((← sliceFrom buf sp).length - 4)
  else .ok buf

/-- `encodePlanRangeCodecRangeValuerToBinary.Encode`. -/
def encodePlanRangeCodecRangeValuerToBinary (v : RangeValue) : EncodePlan := fun buf =>
  if v.isNull then .ok none
  else match v.lowerType with
  | .empty => .ok (some (buf ++ [emptyMask]))
  | .other _ => .error (.error ("unknown LowerType: " ++ v.lowerType.string))
  | lowerType => do
    let rangeType : UInt8 :=
      match lowerType with
      | .inclusive => lowerInclusiveMask
      | .unbounded => lowerUnboundedMask
      | _ => 0
    let rangeType ← match v.upperType with
      | .inclusive => pure (rangeType ||| upperInclusiveMask)
      | .unbounded => pure (rangeType ||| upperUnboundedMask)
      | .exclusive => pure rangeType
      | upperType => .error (.error ("unknown UpperType: " ++ upperType.string))
    let buf := buf ++ [rangeType]
    let buf ← encodeBoundBinary "Lower" lowerType v.lower buf
    let buf ← encodeBoundBinary "Upper" v.upperType v.upper buf
    return some buf

/-- `untypedBinaryRange`: a bound that was not read is `none`, a nil slice. -/
structure UntypedBinaryRange where
  lower : Option (List UInt8)
  upper : Option (List UInt8)
  lowerType : BoundType
  upperType : BoundType
  deriving DecidableEq, Repr

/-- A byte slice as `%v` prints it: `[1 2 3]`. -/
def showBytes (s : List UInt8) : String :=
  "[" ++ " ".intercalate (s.map fun b => toString b.toNat) ++ "]"

/-- A bound given as a `[]byte` whose element plan appends it. -/
def elemBound (e : List UInt8) : RangeBound := ⟨showBytes e, some (elemPlan e)⟩

theorem encodeRangeElement_elemBound (name : String) (e buf : List UInt8) :
    encodeRangeElement name (elemBound e) buf = .ok (buf ++ e) := rfl

/-- A length-prefixed value at `rp`, and the position after it; the slice panics when the length
runs past the end. -/
def readRangeValue (src : List UInt8) (rp : Nat) : GoM (List UInt8 × Nat) := do
  if (← lenFrom src rp) < 4 then
    .error (.error ("too few bytes for size: " ++ showBytes (← sliceFrom src rp)))
  else
    let valueLen := (← uint32At src rp).toNat
    let rp := rp + 4
    let val ← slice src rp (rp + valueLen)
    return (val, rp + valueLen)

/-- The check that ends each case of `parseUntypedBinaryRange`: nothing may follow. -/
def checkNoTrailing (what : String) (src : List UInt8) (rp : Nat) : GoM Unit := do
  let n ← lenFrom src rp
  if n > 0 then .error (.error ("unexpected trailing bytes parsing " ++ what ++ ": " ++ toString n))
  else pure ()

/-- `parseUntypedBinaryRange`. -/
def parseUntypedBinaryRange (src : List UInt8) : GoM UntypedBinaryRange :=
  if src.length = 0 then .error (.error ("range too short: " ++ toString src.length))
  else
    let rangeType := src.getD 0 0
    let rp := 1
    if rangeType &&& emptyMask > 0 then do
      checkNoTrailing "empty range" src rp
      return ⟨none, none, .empty, .empty⟩
    else
      let lowerType := if rangeType &&& lowerInclusiveMask > 0 then BoundType.inclusive
        else if rangeType &&& lowerUnboundedMask > 0 then .unbounded else .exclusive
      let upperType := if rangeType &&& upperInclusiveMask > 0 then BoundType.inclusive
        else if rangeType &&& upperUnboundedMask > 0 then .unbounded else .exclusive
      if lowerType = .unbounded ∧ upperType = .unbounded then do
        checkNoTrailing "unbounded range" src rp
        return ⟨none, none, lowerType, upperType⟩
      else do
        let (val, rp) ← readRangeValue src rp
        if lowerType = .unbounded then do
          -- the one value is the upper bound
          checkNoTrailing "range" src rp
          return ⟨none, some val, lowerType, upperType⟩
        else do
          let (upper, rp) ← if upperType ≠ .unbounded then do
              let (upper, rp) ← readRangeValue src rp
              pure (some upper, rp)
            else pure (none, rp)
          checkNoTrailing "range" src rp
          return ⟨some val, upper, lowerType, upperType⟩

section BinaryRoundTrip

/-- The flag byte the binary plan writes for two bound types. -/
def rangeFlags (lt ut : BoundType) : UInt8 :=
  (match lt with
    | .inclusive => lowerInclusiveMask
    | .unbounded => lowerUnboundedMask
    | _ => 0) |||
  (match ut with
    | .inclusive => upperInclusiveMask
    | .unbounded => upperUnboundedMask
    | _ => 0)

/-- A bound that is not unbounded, framed by its length. -/
def frame (t : BoundType) (e : List UInt8) : List UInt8 :=
  if t = .unbounded then [] else putUint32 (ofInt32 e.length) ++ e

theorem encodeBoundBinary_unbounded (name : String) (bound : Option RangeBound) (buf : List UInt8) :
    encodeBoundBinary name .unbounded bound buf = .ok buf := by
  simp [encodeBoundBinary]

theorem encodeBoundBinary_elem (name : String) (t : BoundType) (e buf : List UInt8) :
    encodeBoundBinary name t (some (elemBound e)) buf = .ok (buf ++ frame t e) := by
  by_cases ht : t = .unbounded
  · subst ht
    simp [encodeBoundBinary, frame]
  have hw : (putUint32 (ofInt32 (-1))).length = 4 := rfl
  have hlen : ((appendInt32 buf (-1) ++ e).drop buf.length).length = e.length + 4 := by
    simp [appendInt32, hw, Nat.add_comm]
  unfold encodeBoundBinary setInt32At
  rw [if_pos ht]
  simp only [encodeRangeElement_elemBound, ok_bind,
    sliceFrom_of_le (by simp [appendInt32] : buf.length ≤ (appendInt32 buf (-1) ++ e).length), hlen]
  rw [if_neg (by omega)]
  simp [appendInt32, hw, frame, ht]

theorem encodeBinary_elems {lt ut : BoundType} (hlt : lt ∈ boundTypes) (hut : ut ∈ boundTypes)
    (l u buf : List UInt8) :
    encodePlanRangeCodecRangeValuerToBinary ⟨false, lt, ut, some (elemBound l), some (elemBound u)⟩ buf =
      .ok (some (buf ++ [rangeFlags lt ut] ++ frame lt l ++ frame ut u)) := by
  simp only [boundTypes, List.mem_cons, List.not_mem_nil, or_false] at hlt hut
  rcases hlt with rfl | rfl | rfl <;> rcases hut with rfl | rfl | rfl <;>
    simp [encodePlanRangeCodecRangeValuerToBinary, encodeBoundBinary_elem, rangeFlags]

theorem rangeFlags_spec {lt ut : BoundType} (hlt : lt ∈ boundTypes) (hut : ut ∈ boundTypes) :
    ¬(rangeFlags lt ut &&& emptyMask > 0) ∧
      (if rangeFlags lt ut &&& lowerInclusiveMask > 0 then BoundType.inclusive
        else if rangeFlags lt ut &&& lowerUnboundedMask > 0 then .unbounded else .exclusive) = lt ∧
      (if rangeFlags lt ut &&& upperInclusiveMask > 0 then BoundType.inclusive
        else if rangeFlags lt ut &&& upperUnboundedMask > 0 then .unbounded else .exclusive) = ut := by
  simp only [boundTypes, List.mem_cons, List.not_mem_nil, or_false] at hlt hut
  rcases hlt with rfl | rfl | rfl <;> rcases hut with rfl | rfl | rfl <;> decide

theorem readRangeValue_frame {src e t : List UInt8} {rp : Nat} (he : e.length < 2 ^ 32)
    (h : src.drop rp = putUint32 (ofInt32 e.length) ++ e ++ t) :
    readRangeValue src rp = .ok (e, rp + 4 + e.length) := by
  have hw : ∀ n : UInt32, (putUint32 n).length = 4 := fun _ => rfl
  have hlen := congrArg List.length h
  simp only [List.length_drop, List.length_append, hw] at hlen
  have h4 : src.drop (rp + 4) = e ++ t := by
    have := drop_add_of_drop (u := putUint32 (ofInt32 e.length)) (by rw [h, List.append_assoc])
    rwa [hw] at this
  unfold readRangeValue
  rw [lenFrom_of_drop (by omega) h, ok_bind, if_neg (by simp [hw]),
    uint32At_of_drop (by rw [h, List.append_assoc]), ok_bind, toNat_ofInt32 he]
  dsimp only
  rw [slice_of_drop (by omega) h4]
  rfl

theorem checkNoTrailing_end (what : String) {src : List UInt8} {rp : Nat} (h : src.length = rp) :
    checkNoTrailing what src rp = .ok () := by
  unfold checkNoTrailing
  rw [lenFrom_of_drop (by omega) rfl, ok_bind, List.length_drop, if_neg (by omega)]
  rfl

theorem parseUntypedBinaryRange_encode {lt ut : BoundType} (hlt : lt ∈ boundTypes)
    (hut : ut ∈ boundTypes) {l u : List UInt8} (hl : l.length < 2 ^ 32) (hu : u.length < 2 ^ 32) :
    ∃ src, encodePlanRangeCodecRangeValuerToBinary
        ⟨false, lt, ut, some (elemBound l), some (elemBound u)⟩ [] = .ok (some src) ∧
      parseUntypedBinaryRange src = .ok ⟨if lt = .unbounded then none else some l,
        if ut = .unbounded then none else some u, lt, ut⟩ := by
  refine ⟨_, encodeBinary_elems hlt hut l u [], ?_⟩
  obtain ⟨hne, hlow, hup⟩ := rangeFlags_spec hlt hut
  unfold parseUntypedBinaryRange
  rw [if_neg (by simp)]
  simp only [List.nil_append, List.cons_append, List.getD_cons_zero]
  have hw : ∀ n : UInt32, (putUint32 n).length = 4 := fun _ => rfl
  rw [if_neg hne, hlow, hup]
  by_cases hlU : lt = .unbounded <;> by_cases huU : ut = .unbounded
  · -- no value follows the flags
    subst hlU huU
    rw [if_pos ⟨rfl, rfl⟩, checkNoTrailing_end _ (by simp [frame])]
    rfl
  · -- the one value is the upper bound
    subst hlU
    have hd : (rangeFlags .unbounded ut :: (frame .unbounded l ++ frame ut u)).drop 1 =
        putUint32 (ofInt32 u.length) ++ u ++ [] := by simp [frame, huU]
    rw [if_neg (by simp [huU]), readRangeValue_frame hu hd, ok_bind, if_pos rfl,
      checkNoTrailing_end _ (by simp [frame, huU, hw]; omega)]
    simp [huU, pure, Except.pure]
  · -- the one value is the lower bound
    subst huU
    have hd : (rangeFlags lt .unbounded :: (frame lt l ++ frame .unbounded u)).drop 1 =
        putUint32 (ofInt32 l.length) ++ l ++ [] := by simp [frame, hlU]
    rw [if_neg (by simp [hlU]), readRangeValue_frame hl hd, ok_bind, if_neg hlU, if_neg (by simp),
      pure_bind, checkNoTrailing_end _ (by simp [frame, hlU, hw]; omega)]
    simp [hlU, pure, Except.pure]
  · -- both values, the lower first
    have hd : (rangeFlags lt ut :: (frame lt l ++ frame ut u)).drop 1 =
        putUint32 (ofInt32 l.length) ++ l ++ (putUint32 (ofInt32 u.length) ++ u) := by
      simp [frame, hlU, huU]
    have hd2 : (rangeFlags lt ut :: (frame lt l ++ frame ut u)).drop (1 + 4 + l.length) =
        putUint32 (ofInt32 u.length) ++ u ++ [] := by
      have := drop_add_of_drop (u := putUint32 (ofInt32 l.length) ++ l) hd
      rwa [List.length_append, hw, ← Nat.add_assoc, ← List.append_nil (_ ++ u)] at this
    rw [if_neg (by simp [hlU]), readRangeValue_frame hl hd, ok_bind, if_neg hlU, if_pos huU,
      readRangeValue_frame hu hd2, ok_bind, pure_bind,
      checkNoTrailing_end _ (by simp [frame, hlU, huU, hw]; omega)]
    simp [hlU, huU, pure, Except.pure]

theorem parseUntypedBinaryRange_encodeEmpty (ut : BoundType) (lower upper : Option RangeBound) :
    encodePlanRangeCodecRangeValuerToBinary ⟨false, .empty, ut, lower, upper⟩ [] =
        .ok (some [emptyMask]) ∧
      parseUntypedBinaryRange [emptyMask] = .ok ⟨none, none, .empty, .empty⟩ :=
  ⟨rfl, rfl⟩

end BinaryRoundTrip

/-! ## The text format -/

/-- A `bytes.Buffer` being read: the bytes not read yet, and those of the rune the last
`ReadRune` returned, which `UnreadRune` puts back (none after any other call). -/
structure Buffer where
  rest : List UInt8
  last : List UInt8

namespace Buffer

/-- `ReadRune`: the next rune as `utf8.DecodeRune` reads it (its ASCII branch returns the same),
or `none` for `io.EOF` at the end, where the buffer is reset. -/
def readRune (b : Buffer) : Option Char × Buffer :=
  match b.rest with
  | [] => (none, ⟨[], []⟩)
  | _ :: _ => (some (decodeRuneInString b.rest).1,
      ⟨b.rest.drop (decodeRuneInString b.rest).2, b.rest.take (decodeRuneInString b.rest).2⟩)

/-- `UnreadRune`: it puts back the last rune read, and does nothing when the last call was not a
`ReadRune` (its error is never looked at here). -/
def unreadRune (b : Buffer) : Buffer := ⟨b.last ++ b.rest, []⟩

theorem readRune_rest_lt {b b' : Buffer} {r : Char} (h : b.readRune = (some r, b')) :
    b'.rest.length < b.rest.length := by
  unfold readRune at h
  split at h
  · cases h
  · rename_i x t hx
    cases h
    have hw := width_pos (s := b.rest) (by simp [hx])
    simp only [List.length_drop]
    rw [hx] at hw ⊢
    simp only [List.length_cons] at hw ⊢
    omega

@[simp] theorem readRune_nil (x : List UInt8) : (⟨[], x⟩ : Buffer).readRune = (none, ⟨[], []⟩) := rfl

theorem readRune_encodeChar (c : Char) (t x : List UInt8) :
    (⟨String.utf8EncodeChar c ++ t, x⟩ : Buffer).readRune = (some c, ⟨t, String.utf8EncodeChar c⟩) := by
  have hne : String.utf8EncodeChar c ++ t ≠ [] := by simp [String.utf8EncodeChar_ne_nil]
  obtain ⟨y, ys, hy⟩ := List.exists_cons_of_ne_nil hne
  have hd := decodeRuneInString_utf8EncodeChar_append c t
  unfold readRune
  rw [hy]
  dsimp only
  rw [← hy, hd, ← String.length_utf8EncodeChar, List.drop_left, List.take_left]

theorem readRune_ascii {c : Char} (hc : c.toNat < 0x80) (t x : List UInt8) :
    (⟨c.toUInt8 :: t, x⟩ : Buffer).readRune = (some c, ⟨t, [c.toUInt8]⟩) := by
  have := readRune_encodeChar c t x
  rwa [utf8EncodeChar_of_lt hc] at this

@[simp] theorem unreadRune_mk (r l : List UInt8) : (⟨r, l⟩ : Buffer).unreadRune = ⟨l ++ r, []⟩ := rfl

end Buffer

/-- `skipWhitespace`: runes up to the first that is not a space, which is put back. -/
def skipWhitespace (b : Buffer) : Buffer :=
  match _h : b.readRune with
  | (some r, b1) => if isSpace r then skipWhitespace b1 else b1.unreadRune
  | (none, b1) => b1.unreadRune
termination_by b.rest.length
decreasing_by exact Buffer.readRune_rest_lt _h

/-- The loop of `rangeParseValue` on a value that is not quoted: runes up to `,`, a bracket or a
parenthesis, which is put back, a backslash taking the next rune as it is; `none` is the `io.EOF`
it returns at the end of the input. -/
def rangeParseValueLoop (s : List UInt8) (b : Buffer) : Option (List UInt8 × Buffer) :=
  match _h : b.readRune with
  | (none, _) => none
  | (some r, b1) =>
    if r = '\\' then
      match _h1 : b1.readRune with
      | (none, _) => none
      | (some r, b2) => rangeParseValueLoop (s ++ String.utf8EncodeChar r) b2
    else if r = ',' ∨ r = '[' ∨ r = ']' ∨ r = '(' ∨ r = ')' then some (s, b1.unreadRune)
    else rangeParseValueLoop (s ++ String.utf8EncodeChar r) b1
termination_by b.rest.length
decreasing_by
  · have := Buffer.readRune_rest_lt _h
    have := Buffer.readRune_rest_lt _h1
    omega
  · exact Buffer.readRune_rest_lt _h

/-- The loop of `rangeParseQuotedValue`: runes up to a quote that is not doubled, a backslash
taking the next rune as it is; the rune after the closing quote is put back. -/
def rangeParseQuotedValueLoop (s : List UInt8) (b : Buffer) : Option (List UInt8 × Buffer) :=
  match _h : b.readRune with
  | (none, _) => none
  | (some r, b1) =>
    if r = '\\' then
      match _h1 : b1.readRune with
      | (none, _) => none
      | (some r, b2) => rangeParseQuotedValueLoop (s ++ String.utf8EncodeChar r) b2
    else if r = '"' then
      match _h1 : b1.readRune with
      | (none, _) => none
      | (some r, b2) =>
        if r ≠ '"' then some (s, b2.unreadRune)
        else rangeParseQuotedValueLoop (s ++ String.utf8EncodeChar r) b2
    else rangeParseQuotedValueLoop (s ++ String.utf8EncodeChar r) b1
termination_by b.rest.length
decreasing_by
  · have := Buffer.readRune_rest_lt _h
    have := Buffer.readRune_rest_lt _h1
    omega
  · have := Buffer.readRune_rest_lt _h
    have := Buffer.readRune_rest_lt _h1
    omega
  · exact Buffer.readRune_rest_lt _h

/-- `rangeParseValue`: a quoted value, or one up to the next delimiter. -/
def rangeParseValue (b : Buffer) : Option (List UInt8 × Buffer) :=
  match b.readRune with
  | (none, _) => none
  | (some r, b1) =>
    if r = '"' then rangeParseQuotedValueLoop [] b1 else rangeParseValueLoop [] b1.unreadRune

/-- `untypedTextRange`: a bound that was not read is the empty string. -/
structure UntypedTextRange where
  lower : List UInt8
  upper : List UInt8
  lowerType : BoundType
  upperType : BoundType
  deriving DecidableEq, Repr

/-- `parseUntypedTextRange` up to the separator: the opening bracket, then the lower bound, which
is unbounded when the separator follows at once. -/
def parseTextLower (b : Buffer) : GoM (BoundType × List UInt8 × Buffer) :=
  match b.readRune with
  | (none, _) => .error (.error "invalid lower bound: EOF")
  | (some r, b) => do
    let lowerType ← if r = '(' then pure BoundType.exclusive
      else if r = '[' then pure BoundType.inclusive
      else .error (.error ("missing lower bound, instead got: " ++ r.toString))
    match b.readRune with
    | (none, _) => .error (.error "invalid lower value: EOF")
    | (some r, b) =>
      let b := b.unreadRune
      if r = ',' then pure (.unbounded, [], b)
      else match rangeParseValue b with
      | none => .error (.error "invalid lower value: EOF")
      | some (lower, b) => pure (lowerType, lower, b)

/-- `parseUntypedTextRange` after the separator: the upper bound, unbounded when the closing
bracket follows at once, and the closing bracket. -/
def parseTextUpper (b : Buffer) : GoM (BoundType × List UInt8 × Buffer) :=
  match b.readRune with
  | (none, _) => .error (.error "invalid upper value: EOF")
  | (some r, b) =>
    if r = ')' ∨ r = ']' then pure (.unbounded, [], b)
    else match rangeParseValue b.unreadRune with
    | none => .error (.error "invalid upper value: EOF")
    | some (upper, b) =>
      match b.readRune with
      | (none, _) => .error (.error "missing upper bound: EOF")
      | (some r, b) =>
        if r = ')' then pure (.exclusive, upper, b)
        else if r = ']' then pure (.inclusive, upper, b)
        else .error (.error ("missing upper bound, instead got: " ++ r.toString))

/-- The text of the empty range. -/
def emptyText : List UInt8 := encode "empty".toList

/-- `parseUntypedTextRange`. -/
def parseUntypedTextRange (src : List UInt8) : GoM UntypedTextRange :=
  if src = emptyText then .ok ⟨[], [], .empty, .empty⟩
  else do
    let (lowerType, lower, b) ← parseTextLower (skipWhitespace ⟨src, []⟩)
    match b.readRune with
    | (none, _) => .error (.error "missing range separator: EOF")
    | (some r, b) =>
      if r ≠ ',' then .error (.error ("missing range separator: " ++ toString r.toNat))
      else do
        let (upperType, upper, b) ← parseTextUpper b
        let b := skipWhitespace b
        if b.rest.length > 0 then
          .error (.error ("unexpected trailing data: " ++ String.ofList (runes b.rest)))
        else .ok ⟨lower, upper, lowerType, upperType⟩

/-- One bound of `encodePlanRangeCodecRangeValuerToText`: unless it is unbounded, the element in
text format, as it is. -/
def encodeBoundText (name : String) (t : BoundType) (bound : Option RangeBound)
    (buf : List UInt8) : GoM (List UInt8) :=
  if t ≠ .unbounded then
    match bound with
    | none => .error (nullBoundErr name)
    | some b => encodeRangeElement name b buf
  else .ok buf

/-- `encodePlanRangeCodecRangeValuerToText.Encode`. -/
def encodePlanRangeCodecRangeValuerToText (v : RangeValue) : EncodePlan := fun buf =>
  if v.isNull then .ok none
  else match v.lowerType with
  | .empty => .ok (some (buf ++ emptyText))
  | .other _ => .error (.error ("unknown lower bound type " ++ v.lowerType.string))
  | lowerType => do
    let buf := buf ++ [if lowerType = .inclusive then '['.toUInt8 else '('.toUInt8]
    let buf ← encodeBoundText "Lower" lowerType v.lower buf
    let buf := buf ++ [','.toUInt8]
    let buf ← encodeBoundText "Upper" v.upperType v.upper buf
    match v.upperType with
    | .exclusive | .unbounded => pure (some (buf ++ [')'.toUInt8]))
    | .inclusive => pure (some (buf ++ [']'.toUInt8]))
    | upperType => .error (.error ("unknown upper bound type " ++ upperType.string))

/-! ## Reading the text format back -/

section TextRoundTrip

theorem skipWhitespace_nil (x : List UInt8) : skipWhitespace ⟨[], x⟩ = ⟨[], []⟩ := by
  rw [skipWhitespace]
  rfl

theorem skipWhitespace_some {b b1 : Buffer} {r : Char} (h : b.readRune = (some r, b1)) :
    skipWhitespace b = if isSpace r then skipWhitespace b1 else b1.unreadRune := by
  rw [skipWhitespace]
  split
  next r' b' h' =>
    rw [h] at h'
    simp only [Prod.mk.injEq, Option.some.injEq] at h'
    obtain ⟨rfl, rfl⟩ := h'
    rfl
  next b' h' =>
    rw [h] at h'
    cases h'

theorem skipWhitespace_of_not_space {c : Char} (hc : isSpace c = false) (t x : List UInt8) :
    skipWhitespace ⟨String.utf8EncodeChar c ++ t, x⟩ = ⟨String.utf8EncodeChar c ++ t, []⟩ := by
  rw [skipWhitespace_some (Buffer.readRune_encodeChar c t x), if_neg (by simp [hc])]
  rfl

/-- One rune of the unquoted loop that is neither a backslash nor a delimiter. -/
theorem rangeParseValueLoop_some {b b1 : Buffer} {r : Char} (h : b.readRune = (some r, b1))
    (hr : r ∉ ['\\', ',', '[', ']', '(', ')']) (s : List UInt8) :
    rangeParseValueLoop s b = rangeParseValueLoop (s ++ String.utf8EncodeChar r) b1 := by
  simp only [List.mem_cons, List.not_mem_nil, or_false, not_or] at hr
  rw [rangeParseValueLoop]
  split
  next h' => rw [h] at h'; cases h'
  next r' b' h' =>
    rw [h] at h'
    simp only [Prod.mk.injEq, Option.some.injEq] at h'
    obtain ⟨rfl, rfl⟩ := h'
    rw [if_neg hr.1, if_neg (by tauto)]

theorem rangeParseValueLoop_delim {b b1 : Buffer} {r : Char} (h : b.readRune = (some r, b1))
    (hr : r ∈ [',', '[', ']', '(', ')']) (s : List UInt8) :
    rangeParseValueLoop s b = some (s, b1.unreadRune) := by
  simp only [List.mem_cons, List.not_mem_nil, or_false] at hr
  rw [rangeParseValueLoop]
  split
  next h' => rw [h] at h'; cases h'
  next r' b' h' =>
    rw [h] at h'
    simp only [Prod.mk.injEq, Option.some.injEq] at h'
    obtain ⟨rfl, rfl⟩ := h'
    rw [if_neg (by rcases hr with rfl | rfl | rfl | rfl | rfl <;> decide), if_pos hr]

/-- Text with no backslash and no delimiter is read up to the delimiter after it. -/
theorem rangeParseValueLoop_plain {cs : List Char}
    (hcs : ∀ c ∈ cs, c ∉ ['\\', ',', '[', ']', '(', ')']) {d : Char}
    (hd : d ∈ [',', '[', ']', '(', ')']) (t : List UInt8) :
    ∀ (s x : List UInt8), rangeParseValueLoop s ⟨encode cs ++ String.utf8EncodeChar d ++ t, x⟩ =
      some (s ++ encode cs, ⟨String.utf8EncodeChar d ++ t, []⟩) := by
  induction cs with
  | nil =>
    intro s x
    rw [encode_nil, List.nil_append, rangeParseValueLoop_delim (Buffer.readRune_encodeChar d t x) hd]
    simp
  | cons c cs ih =>
    intro s x
    have hread := Buffer.readRune_encodeChar c (encode cs ++ String.utf8EncodeChar d ++ t) x
    simp only [encode_cons, List.append_assoc] at hread ⊢
    rw [rangeParseValueLoop_some hread (hcs c (by simp))]
    have := ih (fun c' hc' => hcs c' (by simp [hc'])) (s ++ String.utf8EncodeChar c) (String.utf8EncodeChar c)
    simp only [List.append_assoc] at this
    rw [this]

/-- Element text that the text format carries through: not empty, and without a quote, a
backslash, a comma, a bracket or a parenthesis. -/
def Plain (cs : List Char) : Prop := cs ≠ [] ∧ ∀ c ∈ cs, c ∉ ['"', '\\', ',', '[', ']', '(', ')']

theorem rangeParseValue_plain {cs : List Char} (hcs : Plain cs) {d : Char}
    (hd : d ∈ [',', '[', ']', '(', ')']) (t x : List UInt8) :
    rangeParseValue ⟨encode cs ++ String.utf8EncodeChar d ++ t, x⟩ =
      some (encode cs, ⟨String.utf8EncodeChar d ++ t, []⟩) := by
  obtain ⟨hne, hall⟩ := hcs
  obtain ⟨c, cs', rfl⟩ := List.exists_cons_of_ne_nil hne
  have hc := hall c (by simp)
  have hread := Buffer.readRune_encodeChar c (encode cs' ++ String.utf8EncodeChar d ++ t) x
  simp only [encode_cons, List.append_assoc] at hread ⊢
  rw [rangeParseValue, hread]
  dsimp only
  rw [if_neg (by intro h; simp [h] at hc), Buffer.unreadRune_mk]
  have hplain : ∀ c' ∈ c :: cs', c' ∉ ['\\', ',', '[', ']', '(', ')'] := fun c' hc' => by
    have := hall c' hc'
    simp only [List.mem_cons] at this ⊢
    tauto
  simpa using rangeParseValueLoop_plain hplain hd t [] []

/-- The bracket the text plan opens a range with. -/
def openByte (lt : BoundType) : UInt8 := if lt = .inclusive then '['.toUInt8 else '('.toUInt8

/-- The bracket the text plan closes a range with, for the bound types it accepts. -/
def closeByte (ut : BoundType) : UInt8 := if ut = .inclusive then ']'.toUInt8 else ')'.toUInt8

/-- A bound's text as the text plan writes it: nothing when it is unbounded. -/
def textBound (t : BoundType) (e : List UInt8) : List UInt8 := if t = .unbounded then [] else e

/-- A separator right after the opening bracket makes the lower bound unbounded, whichever
bracket it is. -/
theorem parseTextLower_comma {o : Char} (ho : o = '(' ∨ o = '[') (t x : List UInt8) :
    parseTextLower ⟨o.toUInt8 :: ','.toUInt8 :: t, x⟩ =
      .ok (.unbounded, [], ⟨','.toUInt8 :: t, []⟩) := by
  have hr := Buffer.readRune_ascii (by rcases ho with rfl | rfl <;> decide : o.toNat < 0x80)
    (','.toUInt8 :: t) x
  have hc := Buffer.readRune_ascii (by decide : ','.toNat < 0x80) t [o.toUInt8]
  rw [parseTextLower, hr]
  rcases ho with rfl | rfl <;> simp [hc, pure, Except.pure]

theorem parseTextLower_plain {lt : BoundType} (hlt : lt = .inclusive ∨ lt = .exclusive)
    {ls : List Char} (hls : Plain ls) (t x : List UInt8) :
    parseTextLower ⟨openByte lt :: (encode ls ++ ','.toUInt8 :: t), x⟩ =
      .ok (lt, encode ls, ⟨','.toUInt8 :: t, []⟩) := by
  have hcomma : ','.toUInt8 :: t = String.utf8EncodeChar ',' ++ t := by
    rw [utf8EncodeChar_of_lt (by decide)]
    rfl
  have hv := rangeParseValue_plain hls (by simp : ',' ∈ [',', '[', ']', '(', ')']) t []
  obtain ⟨c, cs, rfl⟩ := List.exists_cons_of_ne_nil hls.1
  have hc := hls.2 c (by simp)
  have hc' : c ≠ ',' := by intro h; simp [h] at hc
  simp only [encode_cons, List.append_assoc] at hv ⊢
  rw [← hcomma] at hv
  rw [parseTextLower]
  rcases hlt with rfl | rfl
  · rw [openByte, if_pos rfl, Buffer.readRune_ascii (by decide)]
    simp [Buffer.readRune_encodeChar, hc', hv, pure, Except.pure]
  · rw [openByte, if_neg (by decide), Buffer.readRune_ascii (by decide)]
    simp [Buffer.readRune_encodeChar, hc', hv, pure, Except.pure]

/-- A closing bracket right after the separator makes the upper bound unbounded. -/
theorem parseTextUpper_close {c : Char} (hc : c = ')' ∨ c = ']') (t x : List UInt8) :
    parseTextUpper ⟨c.toUInt8 :: t, x⟩ = .ok (.unbounded, [], ⟨t, [c.toUInt8]⟩) := by
  rw [parseTextUpper, Buffer.readRune_ascii (by rcases hc with rfl | rfl <;> decide)]
  dsimp only
  rw [if_pos hc]
  rfl

theorem parseTextUpper_plain {ut : BoundType} (hut : ut = .inclusive ∨ ut = .exclusive)
    {us : List Char} (hus : Plain us) (t x : List UInt8) :
    parseTextUpper ⟨encode us ++ closeByte ut :: t, x⟩ =
      .ok (ut, encode us, ⟨t, [closeByte ut]⟩) := by
  have hclose : ∃ d : Char, closeByte ut = d.toUInt8 ∧ d.toNat < 0x80 ∧ d ∈ [',', '[', ']', '(', ')'] ∧
      (d = ')' → ut = .exclusive) ∧ (d = ']' → ut = .inclusive) ∧ (d = ')' ∨ d = ']') := by
    rcases hut with rfl | rfl
    · exact ⟨']', rfl, by decide, by simp, by decide, fun _ => rfl, by simp⟩
    · exact ⟨')', rfl, by decide, by simp, fun _ => rfl, by decide, by simp⟩
  obtain ⟨d, hd, hd80, hdelim, hex, hin, hdc⟩ := hclose
  have hdd : d.toUInt8 :: t = String.utf8EncodeChar d ++ t := by
    rw [utf8EncodeChar_of_lt hd80]
    rfl
  have hv := rangeParseValue_plain hus hdelim t []
  obtain ⟨c, cs, rfl⟩ := List.exists_cons_of_ne_nil hus.1
  have hc := hus.2 c (by simp)
  have hc' : c ≠ ')' ∧ c ≠ ']' := by constructor <;> intro h <;> simp [h] at hc
  simp only [encode_cons, List.append_assoc] at hv ⊢
  rw [← hdd] at hv
  rw [hd, parseTextUpper, Buffer.readRune_encodeChar]
  dsimp only
  rw [if_neg (by tauto), Buffer.unreadRune_mk, hv]
  dsimp only
  rw [Buffer.readRune_ascii hd80]
  dsimp only
  rcases hdc with rfl | rfl
  · rw [if_pos rfl, hex rfl]
    rfl
  · rw [if_neg (by decide), if_pos rfl, hin rfl]
    rfl

theorem parseTextLower_encode {lt : BoundType} (hlt : lt ∈ boundTypes) {ls : List Char}
    (hls : Plain ls) (t x : List UInt8) :
    parseTextLower ⟨openByte lt :: (textBound lt (encode ls) ++ ','.toUInt8 :: t), x⟩ =
      .ok (lt, textBound lt (encode ls), ⟨','.toUInt8 :: t, []⟩) := by
  by_cases hU : lt = .unbounded
  · subst hU
    exact parseTextLower_comma (Or.inl rfl) t x
  · rw [textBound, if_neg hU]
    simp only [boundTypes, List.mem_cons, List.not_mem_nil, or_false] at hlt
    exact parseTextLower_plain (by tauto) hls t x

theorem parseTextUpper_encode {ut : BoundType} (hut : ut ∈ boundTypes) {us : List Char}
    (hus : Plain us) (t x : List UInt8) :
    parseTextUpper ⟨textBound ut (encode us) ++ closeByte ut :: t, x⟩ =
      .ok (ut, textBound ut (encode us), ⟨t, [closeByte ut]⟩) := by
  by_cases hU : ut = .unbounded
  · subst hU
    exact parseTextUpper_close (Or.inl rfl) t x
  · rw [textBound, if_neg hU]
    simp only [boundTypes, List.mem_cons, List.not_mem_nil, or_false] at hut
    exact parseTextUpper_plain (by tauto) hus t x

theorem encodeBoundText_elem (name : String) (t : BoundType) (e buf : List UInt8) :
    encodeBoundText name t (some (elemBound e)) buf = .ok (buf ++ textBound t e) := by
  by_cases ht : t = .unbounded
  · subst ht
    simp [encodeBoundText, textBound]
  · simp [encodeBoundText, textBound, ht, encodeRangeElement_elemBound]

theorem encodeText_elems {lt ut : BoundType} (hlt : lt ∈ boundTypes) (hut : ut ∈ boundTypes)
    (l u buf : List UInt8) :
    encodePlanRangeCodecRangeValuerToText ⟨false, lt, ut, some (elemBound l), some (elemBound u)⟩ buf =
      .ok (some (buf ++ openByte lt :: (textBound lt l ++ ','.toUInt8 ::
        (textBound ut u ++ [closeByte ut])))) := by
  simp only [boundTypes, List.mem_cons, List.not_mem_nil, or_false] at hlt hut
  rcases hlt with rfl | rfl | rfl <;> rcases hut with rfl | rfl | rfl <;>
    simp [encodePlanRangeCodecRangeValuerToText, encodeBoundText_elem, openByte, closeByte,
      textBound, pure, Except.pure]

/-- The whole text parse of a range that opens with a bracket, from what its two halves read:
the lower half up to the separator, and the upper half to the end. -/
theorem parseUntypedTextRange_of_halves {o : Char} (hoc : o = '(' ∨ o = '[') {low up : List UInt8}
    {lt ut : BoundType} {lower upper y : List UInt8}
    (hlow : parseTextLower ⟨o.toUInt8 :: (low ++ ','.toUInt8 :: up), []⟩ =
      .ok (lt, lower, ⟨','.toUInt8 :: up, []⟩))
    (hup : parseTextUpper ⟨up, [','.toUInt8]⟩ = .ok (ut, upper, ⟨[], y⟩)) :
    parseUntypedTextRange (o.toUInt8 :: (low ++ ','.toUInt8 :: up)) = .ok ⟨lower, upper, lt, ut⟩ := by
  have ho80 : o.toNat < 0x80 := by rcases hoc with rfl | rfl <;> decide
  have hskip := skipWhitespace_of_not_space (c := o) (by rcases hoc with rfl | rfl <;> decide)
    (low ++ ','.toUInt8 :: up) []
  rw [utf8EncodeChar_of_lt ho80, List.singleton_append] at hskip
  have hne : o.toUInt8 :: (low ++ ','.toUInt8 :: up) ≠ emptyText := by
    intro h
    have hhead := congrArg List.head? h
    rw [show emptyText = [0x65, 0x6D, 0x70, 0x74, 0x79] by decide] at hhead
    rcases hoc with rfl | rfl <;> simp only [List.head?_cons, Option.some.injEq] at hhead <;>
      exact absurd hhead (by decide)
  unfold parseUntypedTextRange
  rw [if_neg hne, hskip, hlow, ok_bind]
  dsimp only
  rw [Buffer.readRune_ascii (by decide)]
  dsimp only
  rw [if_neg (by simp), hup, ok_bind]
  dsimp only
  rw [skipWhitespace_nil, if_neg (by simp)]

/-- **The text format reads back plain bounds.** For bound types that are each inclusive,
exclusive or unbounded, and bounds whose text is plain, `parseUntypedTextRange` gives back the
bound types and the text of each bound that is not unbounded. -/
theorem parseUntypedTextRange_encode {lt ut : BoundType} (hlt : lt ∈ boundTypes)
    (hut : ut ∈ boundTypes) {ls us : List Char} (hls : Plain ls) (hus : Plain us) :
    ∃ src, encodePlanRangeCodecRangeValuerToText
        ⟨false, lt, ut, some (elemBound (encode ls)), some (elemBound (encode us))⟩ [] = .ok (some src) ∧
      parseUntypedTextRange src = .ok ⟨if lt = .unbounded then [] else encode ls,
        if ut = .unbounded then [] else encode us, lt, ut⟩ := by
  refine ⟨_, encodeText_elems hlt hut _ _ [], ?_⟩
  have hopen : ∃ o : Char, openByte lt = o.toUInt8 ∧ (o = '(' ∨ o = '[') := by
    unfold openByte
    split_ifs
    · exact ⟨'[', rfl, Or.inr rfl⟩
    · exact ⟨'(', rfl, Or.inl rfl⟩
  obtain ⟨o, ho, hoc⟩ := hopen
  have hlow := parseTextLower_encode hlt hls (textBound ut (encode us) ++ [closeByte ut]) []
  rw [ho] at hlow
  rw [List.nil_append, ho]
  exact parseUntypedTextRange_of_halves hoc hlow (parseTextUpper_encode hut hus [] _)

/-- **An empty lower bound comes back unbounded.** The text plan writes an empty lower bound
as nothing between the bracket and the separator, which is how it writes an unbounded one. -/
theorem parseUntypedTextRange_emptyLower {lt ut : BoundType} (hlt : lt = .inclusive ∨ lt = .exclusive)
    (hut : ut ∈ boundTypes) {us : List Char} (hus : Plain us) :
    ∃ src, encodePlanRangeCodecRangeValuerToText
        ⟨false, lt, ut, some (elemBound []), some (elemBound (encode us))⟩ [] = .ok (some src) ∧
      parseUntypedTextRange src = .ok ⟨[], if ut = .unbounded then [] else encode us, .unbounded, ut⟩ := by
  have hlt' : lt ∈ boundTypes := by rcases hlt with rfl | rfl <;> simp [boundTypes]
  have hU : lt ≠ .unbounded := by rcases hlt with rfl | rfl <;> decide
  refine ⟨_, encodeText_elems hlt' hut _ _ [], ?_⟩
  have hoc : ∃ o : Char, openByte lt = o.toUInt8 ∧ (o = '(' ∨ o = '[') := by
    rcases hlt with rfl | rfl
    · exact ⟨'[', rfl, Or.inr rfl⟩
    · exact ⟨'(', rfl, Or.inl rfl⟩
  obtain ⟨o, ho, hoc⟩ := hoc
  rw [textBound, if_neg hU, List.nil_append, ho]
  have hlow := parseTextLower_comma hoc (textBound ut (encode us) ++ [closeByte ut]) []
  exact parseUntypedTextRange_of_halves hoc (by simpa using hlow) (parseTextUpper_encode hut hus [] _)

theorem textRange_emptyLowerBound :
    encodePlanRangeCodecRangeValuerToText
        ⟨false, .inclusive, .exclusive, some (elemBound []), some (elemBound (encode ['5']))⟩ [] =
      .ok (some (encode "[,5)".toList)) ∧
      parseUntypedTextRange (encode "[,5)".toList) = .ok ⟨[], encode ['5'], .unbounded, .exclusive⟩ := by
  have hplain : Plain ['5'] := ⟨List.cons_ne_nil _ _, by simp⟩
  have hex : BoundType.exclusive ∈ boundTypes := by simp [boundTypes]
  obtain ⟨src, he, hp⟩ := parseUntypedTextRange_emptyLower (Or.inl rfl) hex hplain
  have hsrc : encodePlanRangeCodecRangeValuerToText
      ⟨false, .inclusive, .exclusive, some (elemBound []), some (elemBound (encode ['5']))⟩ [] =
        .ok (some (encode "[,5)".toList)) := by rfl
  rw [hsrc] at he
  cases he
  exact ⟨hsrc, hp⟩

theorem parseUntypedTextRange_encodeEmpty (ut : BoundType) (lower upper : Option RangeBound) :
    encodePlanRangeCodecRangeValuerToText ⟨false, .empty, ut, lower, upper⟩ [] =
        .ok (some emptyText) ∧
      parseUntypedTextRange emptyText = .ok ⟨[], [], .empty, .empty⟩ :=
  ⟨rfl, by simp [parseUntypedTextRange]⟩

end TextRoundTrip

end Pgx.Pgtype
